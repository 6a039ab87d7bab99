import PlanningDomain.Number.Binary64

/-! The fewest decimal digits that read back as a binary floating point number. -/
namespace PlanningDomain.Binary64

structure Decimal where
  digits : Nat
  exponent : Int
deriving DecidableEq

/-- The exponent of the first decimal digit of a positive magnitude. Scaling by `10 ^ 400` leaves
at least one digit before the point. -/
def leadingExponent (units : Nat) : Int :=
  ((Nat.toDigits 10 (units * Nat.pow 10 400 / one)).length : Int) - 401

/-- The reals that round to `units`, times four: the lower and the upper end. The lower half is
narrower where the significand is the first of its binade. -/
def roundingInterval (units : Nat) : Nat × Nat :=
  let step := ulp units
  let narrow := 1 < step ∧ units = Nat.pow 2 units.log2
  (4 * units - (if narrow then step else 2 * step), 4 * units + 2 * step)

/-- The ends of the interval belong to it when the significand is even. -/
def closedInterval (units : Nat) : Bool :=
  units / ulp units % 2 == 0

inductive Tie
  | larger
  /-- The one whose last digit is even. -/
  | even
deriving DecidableEq

/-- Whether the smaller of the neighbours `below` and `below + 1` is taken, given their distances.
-/
def Tie.takesBelow (tie : Tie) (below down up : Nat) : Bool :=
  down < up || (down == up && tie == .even && below % 2 == 0)

/-- The neighbour of `units` on the decimal grid of spacing `10 ^ exponent` that reads back; of two
the nearer. -/
def onGrid (tie : Tie) (units : Nat) (exponent : Int) : Option Decimal :=
  let grid := 4 * one * Nat.pow 10 exponent.toNat
  let scale := Nat.pow 10 (-exponent).toNat
  let low := (roundingInterval units).1 * scale
  let high := (roundingInterval units).2 * scale
  let value := 4 * units * scale
  let below := value / grid
  let inside (digits : Nat) : Bool :=
    let place := digits * grid
    if closedInterval units then low ≤ place && place ≤ high else low < place && place < high
  match inside below, inside (below + 1) with
  | true, true =>
    if tie.takesBelow below (value - below * grid) ((below + 1) * grid - value) then
      some ⟨below, exponent⟩
    else some ⟨below + 1, exponent⟩
  | true, false => some ⟨below, exponent⟩
  | false, true => some ⟨below + 1, exponent⟩
  | false, false => none

/-- The digits of a positive magnitude: the coarsest grid that has a neighbour reading back. The
first grid lies one place above the first digit, where a magnitude just below a power of ten may end
up. -/
def shortest (tie : Tie) (units : Nat) : Decimal :=
  let leading := leadingExponent units
  ((List.range 18).findSome? fun (n : Nat) => onGrid tie units (leading + 1 - n)).getD ⟨0, 0⟩

namespace Decimal

def leading (d : Decimal) : Int :=
  d.exponent + (Nat.toDigits 10 d.digits).length - 1

/-- Digits with a decimal point where the exponent puts it and never an exponent. -/
def positional (d : Decimal) : String :=
  let digits := Nat.toDigits 10 d.digits
  if 0 ≤ d.exponent then String.ofList (digits ++ List.replicate d.exponent.toNat '0')
  else
    let places := (-d.exponent).toNat
    let padded := List.replicate (places + 1 - digits.length) '0' ++ digits
    let whole := padded.length - places
    String.ofList (padded.take whole ++ '.' :: padded.drop whole)

/-- One digit in front of the point, the others behind it, and a signed exponent. -/
def scientific (d : Decimal) : String :=
  let sign := if 0 ≤ d.leading then "e+" else "e-"
  let digits :=
    match Nat.toDigits 10 d.digits with
    | first :: second :: rest => first :: '.' :: second :: rest
    | digits => digits
  String.ofList digits ++ sign ++ toString d.leading.natAbs

/-- Positional with a point where the first digit has an exponent from -5 to 15, and scientific
elsewhere. -/
def mixed (d : Decimal) : String :=
  if -5 ≤ d.leading ∧ d.leading ≤ 15 then
    if 0 ≤ d.exponent then d.positional ++ ".0" else d.positional
  else d.scientific

end Decimal

def signText (negative : Bool) : String :=
  if negative then "-" else ""

/-- The number in positional notation, with no point behind a whole number. -/
def text : Binary64 → String
  | nan => "NaN"
  | infinite negative => signText negative ++ "inf"
  | finite negative units =>
    signText negative ++ (if units = 0 then "0" else (shortest .larger units).positional)

/-- The number with a point or an exponent, so that a whole number is not taken for an integer. -/
def realText : Binary64 → String
  | nan => "NaN"
  | infinite negative => signText negative ++ "inf"
  | finite negative units =>
    signText negative ++ (if units = 0 then "0.0" else (shortest .even units).mixed)

end PlanningDomain.Binary64
