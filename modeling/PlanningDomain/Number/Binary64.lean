/-! Digits, numbers of 64 bits and decimal numerals. A finite binary floating point number is a
whole multiple of the smallest positive one, `2 ^ (-1074)`; its magnitude is kept as that multiple,
and all arithmetic is exact until the one rounding step. -/
namespace PlanningDomain

/-- The first natural number that does not fit in 64 bits. -/
def wordLimit : Nat := 0x10000000000000000

/-- The magnitude of the least whole number that fits in 64 bits with a sign. -/
def signLimit : Nat := 0x8000000000000000

def digitsValue (digits : List Char) : Nat :=
  digits.foldl (fun n c => n * 10 + (c.toNat - '0'.toNat)) 0

/-- One decimal digit or more, and nothing else. -/
def isNumeral (cs : List Char) : Bool :=
  !cs.isEmpty && cs.all Char.isDigit

/-- The whole number of a sign and a magnitude, if it fits in 64 bits. -/
def signedWord? (negative : Bool) (n : Nat) : Option Int :=
  if negative then (if n ≤ signLimit then some (-n) else none)
  else if n < signLimit then some n
  else none

def digitValue (c : Char) : Nat :=
  if c.isDigit then c.toNat - '0'.toNat
  else if 'a' ≤ c ∧ c ≤ 'f' then c.toNat - 'a'.toNat + 10
  else c.toNat - 'A'.toNat + 10

def isHexDigit (c : Char) : Bool :=
  c.isDigit || ('a' ≤ c && c ≤ 'f') || ('A' ≤ c && c ≤ 'F')

inductive Binary64
  | nan
  | infinite (negative : Bool)
  /-- The magnitude is `units * 2 ^ (-1074)`. -/
  | finite (negative : Bool) (units : Nat)
deriving DecidableEq

namespace Binary64

def precision : Nat := 53

def one : Nat := Nat.pow 2 1074

/-- The first magnitude too large for a finite number, in units. -/
def overflow : Nat := Nat.pow 2 1024 * one

def ulp (units : Nat) : Nat :=
  Nat.pow 2 (units.log2 + 1 - precision)

/-- The quotient rounded to the nearest integer, a half to the even neighbour. -/
def divToEven (num den : Nat) : Nat :=
  let q := num / den
  let twice := 2 * (num % den)
  if den < twice ∨ (twice = den ∧ q % 2 = 1) then q + 1 else q

/-- The number nearest to `± num / den`, ties to an even significand. -/
def ofRatio (negative : Bool) (num den : Nat) : Binary64 :=
  let step := ulp (num * one / den)
  let units := divToEven (num * one) (den * step) * step
  if overflow ≤ units then .infinite negative else .finite negative units

/-- The number nearest to `± digits * 10 ^ exponent`. Exponents that no rounding can bring into
range are answered without computing the power. -/
def ofDecimal (negative : Bool) (digits : Nat) (exponent : Int) : Binary64 :=
  let magnitude := (Nat.toDigits 10 digits).length + exponent
  if digits = 0 ∨ magnitude < -330 then .finite negative 0
  else if 310 < magnitude then .infinite negative
  else if 0 ≤ exponent then ofRatio negative (digits * Nat.pow 10 exponent.toNat) 1
  else ofRatio negative digits (Nat.pow 10 (-exponent).toNat)

/-- The product of two numbers, rounded once. -/
def mul : Binary64 → Binary64 → Binary64
  | nan, _ => nan
  | _, nan => nan
  | finite s m, finite t n => ofRatio (s != t) (m * n) (one * one)
  | infinite s, finite t n => if n = 0 then nan else infinite (s != t)
  | finite s m, infinite t => if m = 0 then nan else infinite (s != t)
  | infinite s, infinite t => infinite (s != t)

/-- The quotient of two numbers, rounded once. -/
def div : Binary64 → Binary64 → Binary64
  | nan, _ => nan
  | _, nan => nan
  | finite s m, finite t n =>
    if n = 0 then (if m = 0 then nan else infinite (s != t)) else ofRatio (s != t) m n
  | infinite s, finite t _ => infinite (s != t)
  | finite s _, infinite t => finite (s != t) 0
  | infinite _, infinite _ => nan

def isFinite : Binary64 → Bool
  | finite .. => true
  | _ => false

/-- Both zeros are zero; what is not a number is not. -/
def isZero : Binary64 → Bool
  | finite _ units => units == 0
  | _ => false

/-- The nearest natural number of 64 bits, a half away from zero. What lies outside becomes the
nearer end, and what is not a number becomes zero. -/
def roundToNat : Binary64 → Nat
  | nan => 0
  | infinite negative => if negative then 0 else wordLimit - 1
  | finite negative units =>
    if negative then 0 else min ((2 * units + one) / (2 * one)) (wordLimit - 1)

end Binary64
end PlanningDomain

namespace PlanningDomain.Numeral

def splitSign : List Char → Bool × List Char
  | [] => (false, [])
  | c :: cs =>
    if c = '-' then (true, cs) else if c = '+' then (false, cs) else (false, c :: cs)

/-- The exponent behind its mark. -/
def exponent? (cs : List Char) : Option Int :=
  let (negative, digits) := splitSign cs
  if isNumeral digits then
    some (if negative then -(digitsValue digits : Int) else digitsValue digits)
  else none

/-- A decimal number without a sign: digits with at most one point among them, and an exponent or
none. -/
def decimal? (negative : Bool) (cs : List Char) : Option Binary64 := do
  let whole := cs.takeWhile Char.isDigit
  let behindWhole := cs.dropWhile Char.isDigit
  let hasPoint := behindWhole.head? == some '.'
  let fraction := if hasPoint then behindWhole.tail.takeWhile Char.isDigit else []
  let behind := if hasPoint then behindWhole.tail.dropWhile Char.isDigit else behindWhole
  let exponent ←
    match behind with
    | [] => some 0
    | c :: rest => if c = 'e' ∨ c = 'E' then exponent? rest else none
  if whole.isEmpty && fraction.isEmpty then none
  else
    return .ofDecimal negative (digitsValue (whole ++ fraction)) (exponent - fraction.length)

/-- A number with a sign or without, or the name of a special one in any case. -/
def real? (cs : List Char) : Option Binary64 :=
  let (negative, unsigned) := splitSign cs
  let word := String.ofList (unsigned.map Char.toLower)
  if word = "inf" ∨ word = "infinity" then some (.infinite negative)
  else if word = "nan" then some .nan
  else decimal? negative unsigned

end PlanningDomain.Numeral
