import PlanningDomain.Token.Scan

/-! Parenthesised groups. Recovery from errors works on whole groups. -/
namespace PlanningDomain

/-- A list cut in two, and whether the cut is behind the parenthesis that was looked for. -/
structure Cut (α : Type) where
  front : List α
  rest : List α
  closed : Bool

namespace Cut

def push (x : α) (c : Cut α) : Cut α := { c with front := x :: c.front }

end Cut

/-- Cuts behind the parenthesis that closes the outermost of `depth` open ones. Elements without a
token count for nothing. -/
def takeBalanced (token? : α → Option Token) (depth : Nat) : List α → Cut α
  | [] => ⟨[], [], false⟩
  | x :: xs =>
    match token? x with
    | some .openParen => (takeBalanced token? (depth + 1) xs).push x
    | some .closeParen =>
      if depth = 1 then ⟨[x], xs, true⟩ else (takeBalanced token? (depth - 1) xs).push x
    | _ => (takeBalanced token? depth xs).push x

theorem takeBalanced_front_append_rest (token? : α → Option Token) (depth : Nat) (xs : List α) :
    (takeBalanced token? depth xs).front ++ (takeBalanced token? depth xs).rest = xs := by
  induction xs generalizing depth with
  | nil => rfl
  | cons x xs ih =>
    simp only [takeBalanced]
    split
    · simp [Cut.push, ih]
    · split
      · rfl
      · simp [Cut.push, ih]
    · simp [Cut.push, ih]

theorem length_takeBalanced_rest_le (token? : α → Option Token) (depth : Nat) (xs : List α) :
    (takeBalanced token? depth xs).rest.length ≤ xs.length := by
  have h := congrArg List.length (takeBalanced_front_append_rest token? depth xs)
  rw [List.length_append] at h
  omega

/-- Tokens from an opening parenthesis on, up to its partner or, unclosed, to the end. -/
structure Group where
  lexemes : List Lexeme
  closed : Bool
deriving DecidableEq

namespace Group

/-- The lexeme behind the opening parenthesis. -/
def head? (g : Group) : Option Lexeme := g.lexemes[1]?

def tokens (g : Group) : List Token := g.lexemes.map Lexeme.token

/-- The lexemes behind the head, without the closing parenthesis. -/
def body (g : Group) : List Lexeme :=
  if g.closed then (g.lexemes.drop 2).dropLast else g.lexemes.drop 2

end Group

/-- A group, or a token outside of any. -/
inductive Item
  | group (g : Group)
  | stray (l : Lexeme)
deriving DecidableEq

namespace Item

def lexemes : Item → List Lexeme
  | group g => g.lexemes
  | stray l => [l]

end Item

def splitItems (ls : List Lexeme) : List Item :=
  match ls with
  | [] => []
  | l :: rest =>
    if l.token = .openParen then
      let cut := takeBalanced (some ∘ Lexeme.token) 1 rest
      .group ⟨l :: cut.front, cut.closed⟩ :: splitItems cut.rest
    else .stray l :: splitItems rest
termination_by ls.length
decreasing_by
  · have := length_takeBalanced_rest_le (some ∘ Lexeme.token) 1 rest
    simp only [List.length_cons]
    omega
  · simp

end PlanningDomain
