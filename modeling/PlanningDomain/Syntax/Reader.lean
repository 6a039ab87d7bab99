import PlanningDomain.Token

/-! Readers of token sequences. A reader takes tokens from the front and yields a value, or fails.
One that succeeds also tells the furthest failure that it passed, because a later failure at the
same token has to name both expectations. -/
namespace PlanningDomain

/-- The name of what was wanted: none, exactly one, or too many to say. -/
inductive Expectation
  | unnamed
  | label (text : String)
  | several
deriving DecidableEq

namespace Expectation

def merge : Expectation → Expectation → Expectation
  | unnamed, e => e
  | e, unnamed => e
  | label a, label b => if a = b then label a else several
  | _, _ => several

def named (text : String) : Expectation → Expectation
  | label a => label a
  | _ => label text

/-- The one label, or else the given text. -/
def textOr (context : String) : Expectation → String
  | label a => a
  | _ => context

end Expectation

/-- A failure at the token that has `left - 1` others behind it, or at the end if `left` is zero. -/
structure Failure where
  left : Nat
  expectation : Expectation
deriving DecidableEq

namespace Failure

/-- The failure with fewer tokens left; at the same token, both expectations. -/
def further (e f : Failure) : Failure :=
  if e.left < f.left then e
  else if f.left < e.left then f
  else ⟨e.left, e.expectation.merge f.expectation⟩

def named (text : String) (e : Failure) : Failure :=
  { e with expectation := e.expectation.named text }

/-- The further of a failure and one that was passed on the way, if any. -/
def orPassed (e : Failure) : Option Failure → Failure
  | some f => e.further f
  | none => e

def furthest : Option Failure → Option Failure → Option Failure
  | some e, f => some (e.orPassed f)
  | none, f => f

end Failure

inductive Outcome (α : Type)
  | read (value : α) (rest : List Token) (passed : Option Failure)
  | failed (why : Failure)

def Reader (α : Type) := List Token → Outcome α

namespace Outcome

def after (passed : Option Failure) : Outcome α → Outcome α
  | read value rest later => read value rest (Failure.furthest passed later)
  | failed why => failed (why.orPassed passed)

def named (label : String) : Outcome α → Outcome α
  | read value rest passed => read value rest (passed.map (Failure.named label))
  | failed why => failed (why.named label)

end Outcome

namespace Reader

def one (label : String) (accept : Token → Option α) : Reader α
  | [] => .failed ⟨0, .label label⟩
  | t :: ts =>
    match accept t with
    | some value => .read value ts none
    | none => .failed ⟨ts.length + 1, .label label⟩

def token (t : Token) : Reader Unit :=
  one t.label fun u => if u = t then some () else none

def give (value : α) : Reader α :=
  fun ts => .read value ts none

/-- One reader behind another. -/
def andThen (r : Reader α) (next : α → Reader β) : Reader β := fun ts =>
  match r ts with
  | .read value rest passed => (next value rest).after passed
  | .failed why => .failed why

instance : Monad Reader where
  pure := give
  bind := andThen

def orElse (r s : Reader α) : Reader α := fun ts =>
  match r ts with
  | .read value rest passed => .read value rest passed
  | .failed why =>
    match s ts with
    | .read value rest passed => .read value rest passed
    | .failed other => .failed (why.further other)

/-- The value if the reader succeeds, and nothing read otherwise. -/
def optional (r : Reader α) : Reader (Option α) := fun ts =>
  match r ts with
  | .read value rest passed => .read (some value) rest passed
  | .failed why => .read none ts (some why)

/-- The values up to the first failure, the tokens from there on and the furthest failure. A reader
that takes no token is asked once. -/
def collect (r : Reader α) (ts : List Token) : List α × List Token × Option Failure :=
  match r ts with
  | .failed why => ([], ts, some why)
  | .read value rest passed =>
    if rest.length < ts.length then
      let (values, rest, later) := collect r rest
      (value :: values, rest, Failure.furthest passed later)
    else ([value], rest, passed)
termination_by ts.length

def many (r : Reader α) : Reader (List α) := fun ts =>
  let (values, rest, passed) := collect r ts
  .read values rest passed

/-- One value or more; without a first one, its failure alone. -/
def many1 (r : Reader α) : Reader (List α) := fun ts =>
  match r ts with
  | .failed why => .failed why
  | .read _ _ _ => many r ts

/-- Gives a name to a failure without one. -/
def labelled (label : String) (r : Reader α) : Reader α := fun ts =>
  (r ts).named label

def finished : Reader Unit
  | [] => .read () [] none
  | t :: ts => .failed ⟨(t :: ts).length, .unnamed⟩

def parenthesized (r : Reader α) : Reader α := do
  token .openParen
  let value ← r
  token .closeParen
  return value

def whole (r : Reader α) (ts : List Token) : Except Failure α :=
  match (r.andThen fun value => finished.andThen fun _ => give value) ts with
  | .read value _ _ => .ok value
  | .failed why => .error why

end Reader
end PlanningDomain
