import PlanningDomain.Number.Binary64

/-! Dates and times, with the distance from the standard time or without. Every moment has one usual
form, in which it is written. -/
namespace PlanningDomain.Toml

structure Date where
  year : Nat
  month : Nat
  day : Nat
deriving DecidableEq

structure Clock where
  hour : Nat
  minute : Nat
  second : Nat
  nanosecond : Nat
deriving DecidableEq

inductive Zone
  | standard
  | offset (negative : Bool) (hours minutes : Nat)
deriving DecidableEq

/-- A date, a time, or both; only both together have a zone. -/
structure Moment where
  date : Option Date
  clock : Option Clock
  zone : Option Zone
deriving DecidableEq

def isLeapYear (year : Nat) : Bool :=
  year % 4 == 0 && (year % 100 != 0 || year % 400 == 0)

def daysIn (year month : Nat) : Nat :=
  if month == 2 then (if isLeapYear year then 29 else 28)
  else if month == 4 || month == 6 || month == 9 || month == 11 then 30
  else 31

def readPair : List Char → Option (Nat × List Char)
  | a :: b :: rest => if a.isDigit && b.isDigit then some (digitsValue [a, b], rest) else none
  | _ => none

def readMark (mark : Char) : List Char → Option (List Char)
  | [] => none
  | c :: rest => if c = mark then some rest else none

def readDate (cs : List Char) : Option (Date × List Char) := do
  let (centuries, cs) ← readPair cs
  let (years, cs) ← readPair cs
  let (month, cs) ← readPair (← readMark '-' cs)
  let (day, cs) ← readPair (← readMark '-' cs)
  let year := centuries * 100 + years
  if 1 ≤ month ∧ month ≤ 12 ∧ 1 ≤ day ∧ day ≤ daysIn year month then
    return (⟨year, month, day⟩, cs)
  else none

/-- The nanoseconds behind the point of a second; further digits are cut off. -/
def readNanoseconds : List Char → Option (Nat × List Char)
  | '.' :: rest =>
    let digits := rest.takeWhile Char.isDigit
    if digits.isEmpty then none
    else
      let nine := (digits ++ List.replicate 9 '0').take 9
      some (digitsValue nine, rest.dropWhile Char.isDigit)
  | cs => some (0, cs)

def readClock (cs : List Char) : Option (Clock × List Char) := do
  let (hour, cs) ← readPair cs
  let (minute, cs) ← readPair (← readMark ':' cs)
  let (second, cs) ← readPair (← readMark ':' cs)
  let (nanosecond, cs) ← readNanoseconds cs
  if hour ≤ 23 ∧ minute ≤ 59 ∧ second ≤ 60 then
    return (⟨hour, minute, second, nanosecond⟩, cs)
  else none

/-- The distance that a sign, hours and minutes spell, less than a day. -/
def readOffset (negative : Bool) (cs : List Char) : Option Zone := do
  let (hours, cs) ← readPair cs
  let (minutes, cs) ← readPair (← readMark ':' cs)
  if cs.isEmpty ∧ hours ≤ 23 ∧ minutes ≤ 59 then return .offset negative hours minutes
  else none

/-- The zone at the end of a text, `none` inside where there is none. -/
def readZone : List Char → Option (Option Zone)
  | [] => some none
  | c :: cs =>
    if c = 'Z' ∨ c = 'z' then (if cs.isEmpty then some (some .standard) else none)
    else if c = '+' ∨ c = '-' then (readOffset (c == '-') cs).map some
    else none

namespace Moment

/-- The moment that a whole text spells. A letter or a blank joins a date and a time. -/
def ofChars? (cs : List Char) : Option Moment :=
  if cs[2]? = some ':' then do
    let (clock, rest) ← readClock cs
    if rest.isEmpty then return ⟨none, some clock, none⟩ else none
  else do
    let (date, rest) ← readDate cs
    match rest with
    | [] => return ⟨some date, none, none⟩
    | mark :: rest =>
      if mark = 'T' ∨ mark = 't' ∨ mark = ' ' then
        let (clock, rest) ← readClock rest
        return ⟨some date, some clock, ← readZone rest⟩
      else none

end Moment

def padded (width n : Nat) : List Char :=
  let digits := Nat.toDigits 10 n
  List.replicate (width - digits.length) '0' ++ digits

def Date.chars (d : Date) : List Char :=
  padded 4 d.year ++ '-' :: padded 2 d.month ++ '-' :: padded 2 d.day

def Clock.chars (c : Clock) : List Char :=
  let fraction := ((padded 9 c.nanosecond).reverse.dropWhile (· == '0')).reverse
  padded 2 c.hour ++ ':' :: padded 2 c.minute ++ ':' :: padded 2 c.second ++
    if fraction.isEmpty then [] else '.' :: fraction

def Zone.chars : Zone → List Char
  | standard => ['Z']
  | offset negative hours minutes =>
    (if negative && (hours != 0 || minutes != 0) then '-' else '+') :: padded 2 hours ++
      ':' :: padded 2 minutes

def Moment.text (m : Moment) : String :=
  let date := (m.date.map Date.chars).getD []
  let clock := (m.clock.map Clock.chars).getD []
  let zone := (m.zone.map Zone.chars).getD []
  String.ofList (date ++ (if m.date.isSome ∧ m.clock.isSome then ['T'] else []) ++ clock ++ zone)

end PlanningDomain.Toml
