import PlanningDomain.Diagnostic.Log
import PlanningDomain.Files.Tree
import PlanningDomain.Number.Binary64
import PlanningDomain.Number.Shortest
import PlanningDomain.Text.Lowercase
import PlanningDomain.Text.Quoted

/-! Values given to settings, and what each setting makes of them; keys as paths, by name to members
of tables and by number to items of lists; and both in environment variables, where a value is taken
for a truth value or a number if it looks like one. -/
namespace PlanningDomain

/-- A given value. What a list or a table holds never counts, for no setting takes one. -/
inductive Given
  | nothing
  | boolean (value : Bool)
  | integer (value : Int)
  | real (value : Binary64)
  | text (value : String)
  | list
  | table
deriving DecidableEq

/-- Why no settings come about. -/
inductive SettingsError
  /-- A key that is no path. -/
  | malformedKey (key : String)
  | missingFile (path : String)
  | unreadableFile (fault : ReadFault)
  | malformedFile (path : String)
  /-- A value that a setting cannot take, with the place it came from, if known. -/
  | wrongType (found : Given) (expected key : String) (origin : Option String)
deriving DecidableEq

namespace Given

def describe : Given → String
  | nothing => "unit value"
  | boolean value => "boolean \x60" ++ (if value then "true" else "false") ++ "\x60"
  | integer value => "64-bit integer \x60" ++ toString value ++ "\x60"
  | real value => "floating point \x60" ++ value.text ++ "\x60"
  | text value => "string " ++ Text.quoted value
  | list => "sequence"
  | table => "map"

/-- Why a value cannot be taken: what it counts as, and what is expected. -/
structure Mismatch where
  found : Given
  expected : String

/-- Text from any single value; a number in positional notation. -/
def toText : Given → Except Mismatch String
  | boolean value => .ok (if value then "true" else "false")
  | integer value => .ok (toString value)
  | real value => .ok value.text
  | text value => .ok value
  | g => .error ⟨g, "a string"⟩

/-- Whether a number differs from zero, or the meaning of a word in any case. -/
def toBoolean : Given → Except Mismatch Bool
  | boolean value => .ok value
  | integer value => .ok (value != 0)
  | real value => .ok (!value.isZero)
  | text value =>
    let word := Text.lowercase value
    if ["1", "true", "on", "yes"].contains word then .ok true
    else if ["0", "false", "off", "no"].contains word then .ok false
    else .error ⟨text word, "a boolean"⟩
  | g => .error ⟨g, "a boolean"⟩

/-- The number that decimal digits behind an optional plus sign spell, if it has 64 bits. -/
def natural? (cs : List Char) : Option Nat :=
  let digits := if cs.head? = some '+' then cs.tail else cs
  if isNumeral digits ∧ digitsValue digits < wordLimit then some (digitsValue digits) else none

/-- A natural number of 64 bits. Other numbers are rounded and brought into range, save that a
negative whole number is refused. -/
def toNatural : Given → Except Mismatch Nat
  | boolean value => .ok value.toNat
  | integer value =>
    if 0 ≤ value then .ok value.toNat
    else .error ⟨integer value, "an unsigned 64 bit or less integer"⟩
  | real value => .ok value.roundToNat
  | text value =>
    let word := Text.lowercase value
    if ["true", "on", "yes"].contains word then .ok 1
    else if ["false", "off", "no"].contains word then .ok 0
    else
      match natural? value.toList with
      | some n => .ok n
      | none => .error ⟨text value, "an integer"⟩
  | g => .error ⟨g, "an integer"⟩

end Given

namespace SettingsError

/-- What is wrong; a malformed file or key is not described further. -/
def text : SettingsError → String
  | malformedKey key => "malformed key " ++ Text.quoted key
  | missingFile path => "configuration file \"" ++ path ++ "\" not found"
  | unreadableFile fault => fault.text
  | malformedFile path => "malformed file " ++ Text.quoted path
  | wrongType found expected key origin =>
    "invalid type: " ++ found.describe ++ ", expected " ++ expected ++ " for key \x60" ++ key ++
      "\x60" ++ (match origin with
        | some place => " in " ++ place
        | none => "")

def message (e : SettingsError) : String :=
  "invalid configuration: " ++ e.text

end SettingsError

inductive KeyStep
  | member (name : String)
  /-- A negative number counts from the end. -/
  | item (index : Int)
deriving DecidableEq

structure KeyPath where
  head : String
  steps : List KeyStep
deriving DecidableEq

namespace KeyPath

def single (name : String) : KeyPath := ⟨name, []⟩

def isNameChar (c : Char) : Bool :=
  c.isAlphanum || c == ' ' || c == '_' || c == '-'

/-- The name at the front, which is not empty, and what follows it. -/
def readName (cs : List Char) : Option (String × List Char) :=
  let name := cs.takeWhile isNameChar
  if name.isEmpty then none else some (String.ofList name, cs.dropWhile isNameChar)

def isBlank (c : Char) : Bool := c == ' ' || c == '\t'

/-- The number of an item between its brackets, with blanks around it or none, and what follows the
closing bracket. -/
def readIndex (cs : List Char) : Option (Int × List Char) := do
  let cs := cs.dropWhile isBlank
  let negative := cs.head? == some '-'
  let unsigned := if negative then cs.tail else cs
  let digits := unsigned.takeWhile Char.isDigit
  if digits.isEmpty then none
  else
    let index ← signedWord? negative (digitsValue digits)
    match (unsigned.dropWhile Char.isDigit).dropWhile isBlank with
    | ']' :: rest => some (index, rest)
    | _ => none

/-- The steps that a text spells. Each takes at least one character, which the fuel counts. -/
def readSteps : Nat → List Char → Option (List KeyStep)
  | _, [] => some []
  | 0, _ => none
  | fuel + 1, c :: cs =>
    if c = '.' then do
      let (name, rest) ← readName cs
      return .member name :: (← readSteps fuel rest)
    else if c = '[' then do
      let (index, rest) ← readIndex cs
      return .item index :: (← readSteps fuel rest)
    else none

def ofKey? (key : String) : Option KeyPath := do
  let (head, rest) ← readName key.toList
  return ⟨head, ← readSteps rest.length rest⟩

end KeyPath
end PlanningDomain

namespace PlanningDomain.Environment

/-- The beginning of the names of variables that count, in lower case. -/
def mark : String := "hddl_"

def key? (name : String) : Option String :=
  let cs := (Text.lowercase name).toList
  if mark.toList.isPrefixOf cs then some (String.ofList (cs.drop mark.length)) else none

def integer? (cs : List Char) : Option Int :=
  let (negative, digits) := Numeral.splitSign cs
  if isNumeral digits then signedWord? negative (digitsValue digits) else none

def given (value : String) : Given :=
  let word := Text.lowercase value
  if word = "true" then .boolean true
  else if word = "false" then .boolean false
  else
    match integer? value.toList with
    | some n => .integer n
    | none =>
      match Numeral.real? value.toList with
      | some x => .real x
      | none => .text value

end PlanningDomain.Environment
