import PlanningDomain.Number.Binary64
import PlanningDomain.Number.Shortest

/-! Values of the JavaScript Object Notation, quoted text in it, and values as text: in one line, or
laid out with one item a line. -/
namespace PlanningDomain

/-- Whole numbers of 64 bits are kept exactly and all others as binary floating point. Members of an
object keep the order in which they are written. -/
inductive Json
  | null
  | boolean (value : Bool)
  | integer (value : Int)
  | real (value : Binary64)
  | text (value : String)
  | array (items : List Json)
  | object (members : List (String × Json))

namespace Json

/-- The value of a member; of several members of one name the last counts. -/
def member? (name : String) (members : List (String × Json)) : Option Json :=
  members.reverse.lookup name

end Json
end PlanningDomain

namespace PlanningDomain.Json

def hexDigit (n : Nat) : Char :=
  if n < 10 then Char.ofNat ('0'.toNat + n) else Char.ofNat ('a'.toNat + (n - 10))

/-- Quotes, backslashes and control characters are escaped, the usual ones by a letter. -/
def escape (c : Char) : List Char :=
  if c = '"' then ['\\', '"']
  else if c = '\\' then ['\\', '\\']
  else if c = '\n' then ['\\', 'n']
  else if c = '\r' then ['\\', 'r']
  else if c = '\t' then ['\\', 't']
  else if c = '\x08' then ['\\', 'b']
  else if c = '\x0c' then ['\\', 'f']
  else if c.toNat < 32 then
    ['\\', 'u', '0', '0', hexDigit (c.toNat / 16), hexDigit (c.toNat % 16)]
  else [c]

/-- The characters of a quoted text behind its opening quote. -/
def quotedTail (cs : List Char) : List Char :=
  cs.flatMap escape ++ ['"']

def quote (text : String) : List Char :=
  '"' :: quotedTail text.toList

def hexValue? (c : Char) : Option Nat :=
  if isHexDigit c then some (digitValue c) else none

def readHex4 : List Char → Option (Nat × List Char)
  | a :: b :: c :: d :: rest => do
    let a ← hexValue? a
    let b ← hexValue? b
    let c ← hexValue? c
    let d ← hexValue? d
    return (((a * 16 + b) * 16 + c) * 16 + d, rest)
  | _ => none

def readLowSurrogate : List Char → Option (Nat × List Char)
  | '\\' :: 'u' :: rest => do
    let (n, rest) ← readHex4 rest
    if 0xDC00 ≤ n ∧ n < 0xE000 then return (n, rest) else none
  | _ => none

/-- A character by its number; a number of a surrogate needs its partner. -/
def readUnicode (cs : List Char) : Option (Char × List Char) := do
  let (n, rest) ← readHex4 cs
  if 0xDC00 ≤ n ∧ n < 0xE000 then none
  else if 0xD800 ≤ n ∧ n < 0xDC00 then
    let (low, rest) ← readLowSurrogate rest
    return (Char.ofNat (0x10000 + (n - 0xD800) * 0x400 + (low - 0xDC00)), rest)
  else return (Char.ofNat n, rest)

/-- The character that an escape stands for, behind the backslash. -/
def readEscape : List Char → Option (Char × List Char)
  | [] => none
  | c :: rest =>
    if c = '"' ∨ c = '\\' ∨ c = '/' then some (c, rest)
    else if c = 'n' then some ('\n', rest)
    else if c = 'r' then some ('\r', rest)
    else if c = 't' then some ('\t', rest)
    else if c = 'b' then some ('\x08', rest)
    else if c = 'f' then some ('\x0c', rest)
    else if c = 'u' then readUnicode rest
    else none

def readChar : List Char → Option (Char × List Char)
  | [] => none
  | c :: rest =>
    if c = '\\' then readEscape rest
    else if c.toNat < 32 then none
    else some (c, rest)

/-- The characters of a quoted text behind its opening quote, and what follows the closing one. The
fuel bounds the number of characters. -/
def readTail : Nat → List Char → Option (List Char × List Char)
  | 0, _ => none
  | fuel + 1, cs =>
    if cs.head? = some '"' then some ([], cs.tail)
    else do
      let (c, rest) ← readChar cs
      let (chars, rest) ← readTail fuel rest
      return (c :: chars, rest)

def readQuoted : List Char → Option (String × List Char)
  | [] => none
  | c :: rest =>
    if c = '"' then
      (readTail (rest.length + 1) rest).map fun (chars, rest) => (String.ofList chars, rest)
    else none

def scalar : Json → List Char
  | null => "null".toList
  | boolean value => (if value then "true" else "false").toList
  | integer value => (toString value).toList
  | real value =>
    match value with
    | .finite .. => value.realText.toList
    | _ => "null".toList
  | text value => quote value
  | array _ => []
  | object _ => []

def lineBreak (depth : Nat) : List Char :=
  '\n' :: List.replicate (2 * depth) ' '

mutual

/-- One item a line, and nothing between the brackets of an empty value. -/
def layOut (depth : Nat) : Json → List Char
  | array [] => ['[', ']']
  | array (item :: items) =>
    '[' :: (lineBreak (depth + 1) ++ layOut (depth + 1) item ++ layOutItems (depth + 1) items
      ++ lineBreak depth ++ [']'])
  | object [] => ['\x7b', '\x7d']
  | object ((name, value) :: members) =>
    '\x7b' :: (lineBreak (depth + 1) ++ quote name ++ [':', ' '] ++ layOut (depth + 1) value
      ++ layOutMembers (depth + 1) members ++ lineBreak depth ++ ['\x7d'])
  | j => scalar j

def layOutItems (depth : Nat) : List Json → List Char
  | [] => []
  | item :: items => ',' :: (lineBreak depth ++ layOut depth item ++ layOutItems depth items)

def layOutMembers (depth : Nat) : List (String × Json) → List Char
  | [] => []
  | (name, value) :: members =>
    ',' :: (lineBreak depth ++ quote name ++ [':', ' '] ++ layOut depth value
      ++ layOutMembers depth members)

end

def pretty (j : Json) : String :=
  String.ofList (layOut 0 j)

mutual

def inLine : Json → List Char
  | array [] => ['[', ']']
  | array (item :: items) => '[' :: (inLine item ++ inLineItems items ++ [']'])
  | object [] => ['\x7b', '\x7d']
  | object ((name, value) :: members) =>
    '\x7b' :: (quote name ++ ':' :: inLine value ++ inLineMembers members ++ ['\x7d'])
  | j => scalar j

def inLineItems : List Json → List Char
  | [] => []
  | item :: items => ',' :: (inLine item ++ inLineItems items)

def inLineMembers : List (String × Json) → List Char
  | [] => []
  | (name, value) :: members => ',' :: (quote name ++ ':' :: inLine value ++ inLineMembers members)

end

def compact (j : Json) : String :=
  String.ofList (inLine j)

end PlanningDomain.Json
