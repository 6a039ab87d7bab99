import PlanningDomain.Json.Writer
import PlanningDomain.Number.Binary64

/-! JSON read from text. A whole number of 64 bits is exact; any other is read in a few steps, each
of them rounded, so its last bit need not be that of the nearest binary number. -/
namespace PlanningDomain.Json

def readDigits (cs : List Char) : Option (List Char × List Char) :=
  let digits := cs.takeWhile Char.isDigit
  if digits.isEmpty then none else some (digits, cs.dropWhile Char.isDigit)

/-- The digits behind a decimal point; none without a point. -/
def readFraction : List Char → Option (List Char × List Char)
  | [] => some ([], [])
  | c :: rest => if c = '.' then readDigits rest else some ([], c :: rest)

def readExponent : List Char → Option (Option Int × List Char)
  | [] => some (none, [])
  | c :: rest =>
    if c = 'e' ∨ c = 'E' then do
      let negative := rest.head? == some '-'
      let unsigned := if rest.head? = some '-' ∨ rest.head? = some '+' then rest.tail else rest
      let (digits, rest) ← readDigits unsigned
      let size : Int := digitsValue digits
      return (some (if negative then -size else size), rest)
    else some (none, c :: rest)

/-- Appends digits to a number as long as it has 64 bits, and counts the digits left over. -/
def appendDigits (n : Nat) : List Char → Nat × Nat
  | [] => (n, 0)
  | c :: cs =>
    let next := n * 10 + (c.toNat - '0'.toNat)
    if next < wordLimit then appendDigits next cs else (n, cs.length + 1)

/-- The largest power of ten that is scaled by at once. -/
def largestPower : Nat := 308

def powerOfTen (places : Nat) : Binary64 := .ofDecimal false 1 places

def shiftDown (x : Binary64) (places : Nat) : Binary64 :=
  if places ≤ largestPower ∨ x.isZero then x.div (powerOfTen places)
  else shiftDown (x.div (powerOfTen largestPower)) (places - largestPower)
termination_by places
decreasing_by
  simp only [largestPower] at *
  omega

/-- The number `± digits * 10 ^ exponent`, unless it is too large. -/
def scaled? (negative : Bool) (digits : Nat) (exponent : Int) : Option Binary64 :=
  let whole := Binary64.ofDecimal negative digits 0
  if exponent < 0 then some (shiftDown whole exponent.natAbs)
  else if digits = 0 then some whole
  else if largestPower < exponent.toNat then none
  else
    let product := whole.mul (powerOfTen exponent.toNat)
    if product.isFinite then some product else none

/-- The whole numbers that are exact; a negative zero is none of them. -/
def wholeNumber? (negative : Bool) (digits : Nat) : Option Int :=
  if negative ∧ digits = 0 then none
  else if negative then signedWord? true digits
  else if digits < wordLimit then some digits
  else none

def readNumber (cs : List Char) : Option (Json × List Char) := do
  let negative := cs.head? == some '-'
  let (whole, rest) ← readDigits (if negative then cs.tail else cs)
  if whole.head? = some '0' ∧ 1 < whole.length then none
  else
    let (fraction, rest) ← readFraction rest
    let (exponent, rest) ← readExponent rest
    let isWhole := fraction.isEmpty && exponent.isNone
    match if isWhole then wholeNumber? negative (digitsValue whole) else none with
    | some n => return (integer n, rest)
    | none =>
      let (front, above) := appendDigits 0 whole
      let (digits, below) := appendDigits front fraction
      let exponent := exponent.getD 0 + above - (fraction.length - below : Nat)
      return (real (← scaled? negative digits exponent), rest)

def skipBlanks (cs : List Char) : List Char :=
  cs.dropWhile fun c => c == ' ' || c == '\n' || c == '\r' || c == '\t'

def readWord (word : List Char) (cs : List Char) : Option (List Char) :=
  if cs.take word.length = word then some (cs.drop word.length) else none

mutual

/-- The value at the front, which starts without a blank. The fuel bounds the depth and the number
of items. -/
def readValue : Nat → List Char → Option (Json × List Char)
  | 0, _ => none
  | _, [] => none
  | fuel + 1, c :: rest =>
    if c = '"' then (readQuoted (c :: rest)).map fun (value, rest) => (text value, rest)
    else if c = '[' then
      let inside := skipBlanks rest
      if inside.head? = some ']' then some (array [], inside.tail)
      else (readItems fuel inside).map fun (items, rest) => (array items, rest)
    else if c = '\x7b' then
      let inside := skipBlanks rest
      if inside.head? = some '\x7d' then some (object [], inside.tail)
      else (readMembers fuel inside).map fun (members, rest) => (object members, rest)
    else if c = 'n' then (readWord "null".toList (c :: rest)).map (null, ·)
    else if c = 't' then (readWord "true".toList (c :: rest)).map (boolean true, ·)
    else if c = 'f' then (readWord "false".toList (c :: rest)).map (boolean false, ·)
    else readNumber (c :: rest)

def readItems : Nat → List Char → Option (List Json × List Char)
  | 0, _ => none
  | fuel + 1, cs => do
    let (item, rest) ← readValue fuel cs
    let rest := skipBlanks rest
    if rest.head? = some ']' then return ([item], rest.tail)
    else if rest.head? = some ',' then
      let (items, rest) ← readItems fuel (skipBlanks rest.tail)
      return (item :: items, rest)
    else none

def readMembers : Nat → List Char → Option (List (String × Json) × List Char)
  | 0, _ => none
  | fuel + 1, cs => do
    let (name, rest) ← readQuoted cs
    let rest := skipBlanks rest
    if rest.head? = some ':' then
      let (value, rest) ← readValue fuel (skipBlanks rest.tail)
      let rest := skipBlanks rest
      if rest.head? = some '\x7d' then return ([(name, value)], rest.tail)
      else if rest.head? = some ',' then
        let (members, rest) ← readMembers fuel (skipBlanks rest.tail)
        return ((name, value) :: members, rest)
      else none
    else none

end

def parse? (text : String) : Option Json := do
  let cs := text.toList
  let (value, rest) ← readValue (cs.length + 1) (skipBlanks cs)
  if (skipBlanks rest).isEmpty then return value else none

end PlanningDomain.Json
