import PlanningDomain.Number.Binary64
import PlanningDomain.Toml.Moment

/-! TOML documents as nested tables, which definitions may meet in one document, and marked moments
in their place: a table whose first member has a certain name stands for the moment that it spells.
-/
namespace PlanningDomain.Toml

/-- How a table came to be, which decides what may still be added to it. -/
inductive Origin
  /-- Written as a value; it is complete. -/
  | inline
  /-- On the way to a header's table; a header of its own may still come. -/
  | implied
  /-- On the way to a dotted key; only further dotted keys may add to it. -/
  | dotted
  /-- Named by a header. -/
  | header
deriving DecidableEq

inductive Value
  | boolean (value : Bool)
  | integer (value : Int)
  | real (value : Binary64)
  | text (value : String)
  | moment (value : Moment)
  | array (items : List Value)
  | table (origin : Origin) (members : List (String × Value))
  /-- The tables of the headers in double brackets, the last one first. -/
  | tables (last : List (String × Value)) (earlier : List (List (String × Value)))

abbrev Members := List (String × Value)

def Members.set (name : String) (value : Value) : Members → Members
  | [] => [(name, value)]
  | m :: ms => if m.1 = name then (name, value) :: ms else m :: Members.set name value ms

/-- Changes the table that some names lead to, by way of the last table of each array. Tables that
are not there yet come to be, of the given origin. -/
def descend (fresh : Origin) (change : Origin → Members → Option Members) :
    Origin → List String → Members → Option Members
  | origin, [], ms => change origin ms
  | _, name :: names, ms => do
    match ms.lookup name with
    | none => return ms.set name (.table fresh (← descend fresh change fresh names []))
    | some (.table origin inner) =>
      if origin = .inline ∨ (fresh = .dotted ∧ origin = .header) then none
      else return ms.set name (.table origin (← descend fresh change origin names inner))
    | some (.tables last earlier) =>
      return ms.set name (.tables (← descend fresh change .header names last) earlier)
    | some _ => none

/-- Defines a value in the current table. A dotted key reaches only into tables that dotted keys
made, and nothing is defined twice. -/
def assign (path : List String) (value : Value) (origin : Origin) (ms : Members) : Option Members :=
  match path.getLast? with
  | none => none
  | some name =>
    descend .dotted (fun reached ms =>
      if 1 < path.length ∧ reached ≠ .dotted then none
      else if (ms.lookup name).isSome then none
      else some (ms.set name value)) origin path.dropLast ms

/-- Opens the table of a header. A table that was only on the way to another moves to the end. -/
def openTable (path : List String) (ms : Members) : Option Members :=
  match path.getLast? with
  | none => none
  | some name =>
    descend .implied (fun _ ms =>
      match ms.lookup name with
      | none => some (ms.set name (.table .header []))
      | some (.table .implied inner) =>
        some (Members.set name (.table .header inner) (ms.filter (·.1 != name)))
      | some _ => none) .header path.dropLast ms

/-- Opens a new table in the array of a header in double brackets. -/
def openItem (path : List String) (ms : Members) : Option Members :=
  match path.getLast? with
  | none => none
  | some name =>
    descend .implied (fun _ ms =>
      match ms.lookup name with
      | none => some (ms.set name (.tables [] []))
      | some (.tables last earlier) => some (ms.set name (.tables [] (last :: earlier)))
      | some _ => none) .header path.dropLast ms

def inlineMembers (pairs : List (List String × Value)) : Option Members :=
  pairs.foldlM (fun ms pair => assign pair.1 pair.2 .inline ms) []

inductive Statement
  | blank
  | pair (path : List String) (value : Value)
  | header (path : List String)
  | itemHeader (path : List String)

/-- The document so far and the path of the table that the next pairs belong to. -/
structure Document where
  current : List String
  members : Members

namespace Document

def empty : Document := ⟨[], []⟩

def add (d : Document) : Statement → Option Document
  | .blank => some d
  | .pair path value => do
    let members ←
      descend .implied (fun origin ms => assign path value origin ms) .header d.current d.members
    return { d with members }
  | .header path => do return ⟨path, ← openTable path d.members⟩
  | .itemHeader path => do return ⟨path, ← openItem path d.members⟩

end Document

def momentName : String := "$__toml_private_datetime"

/-- The moment that a member of this name spells. It has to be text. -/
def markedMoment? : Value → Option Value
  | .text text => (Moment.ofChars? text.toList).map .moment
  | _ => none

mutual

/-- A value with its moments in place, if all of them are well formed. The tables of headers in
double brackets become an array. -/
def settle : Value → Option Value
  | .array items => (settleItems items).map .array
  | .table origin members => settleTable origin members
  | .tables last earlier => do
    let last ← settleTable .header last
    let earlier ← settleTables earlier
    return .array (earlier.reverse ++ [last])
  | value => some value

def settleItems : List Value → Option (List Value)
  | [] => some []
  | value :: values => do return (← settle value) :: (← settleItems values)

/-- A table or a moment. What stands behind a moment counts for nothing. -/
def settleTable (origin : Origin) : List (String × Value) → Option Value
  | [] => some (.table origin [])
  | (name, value) :: ms =>
    if name = momentName then markedMoment? value
    else do
      return .table origin ((name, ← settle value) :: (← settleMembers ms))

def settleMembers : List (String × Value) → Option (List (String × Value))
  | [] => some []
  | (name, value) :: ms => do return (name, ← settle value) :: (← settleMembers ms)

def settleTables : List (List (String × Value)) → Option (List Value)
  | [] => some []
  | table :: tables => do return (← settleTable .header table) :: (← settleTables tables)

end

/-- A whole document, which cannot be a moment itself. -/
def Members.settle? (ms : Members) : Option Members :=
  match settleTable .header ms with
  | some (.table _ settled) => some settled
  | _ => none

end PlanningDomain.Toml
