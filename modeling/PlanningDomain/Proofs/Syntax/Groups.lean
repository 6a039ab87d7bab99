import PlanningDomain.Proofs.Syntax.Balance
import PlanningDomain.Syntax.Group

/-! What a group takes. Main statements: a cut goes behind the first parenthesis that closes too
much, and takes everything where there is none; so a closed group is balanced, and an unclosed one
reaches to the end. -/
namespace PlanningDomain

section TakeBalanced
variable {α : Type} {token? : α → Option Token}

private theorem openAfter_filterMap_cons (depth : Nat) (x : α) (xs : List α) :
    openAfter depth ((x :: xs).filterMap token?) =
      (openAfter depth (token? x).toList).bind (openAfter · (xs.filterMap token?)) := by
  rw [← openAfter_append]
  cases h : token? x <;> simp [h]

/-- An element that does not close the outermost open parenthesis is taken. -/
private theorem takeBalanced_cons {depth next : Nat} {x : α} {xs : List α}
    (h : openAfter depth (token? x).toList = some next) :
    takeBalanced token? (depth + 1) (x :: xs) = (takeBalanced token? (next + 1) xs).push x := by
  rw [takeBalanced]
  split
  · rename_i hx
    rw [hx] at h
    obtain rfl : depth + 1 = next := by simpa using h
    rfl
  · rename_i hx
    rw [hx] at h
    cases depth with
    | zero => simp at h
    | succ depth =>
      obtain rfl : depth = next := by simpa using h
      rw [if_neg (by omega), Nat.add_sub_cancel]
  · rename_i ho hc
    have hother : openAfter depth (token? x).toList = some depth := by
      cases hx : token? x with
      | none => rfl
      | some t => exact openAfter_other (fun ht => ho (ht ▸ hx)) (fun ht => hc (ht ▸ hx))
    obtain rfl : depth = next := Option.some.inj (hother.symm.trans h)
    rfl

/-- The cut goes behind the parenthesis that closes the outermost open one. -/
theorem takeBalanced_of_openAfter_eq_zero {depth : Nat} {inner rest : List α} {x : α}
    (h : openAfter depth (inner.filterMap token?) = some 0) (hx : token? x = some .closeParen) :
    takeBalanced token? (depth + 1) (inner ++ x :: rest) = ⟨inner ++ [x], rest, true⟩ := by
  induction inner generalizing depth with
  | nil =>
    obtain rfl : depth = 0 := by simpa using h
    simp [takeBalanced, hx]
  | cons y inner ih =>
    rw [openAfter_filterMap_cons, Option.bind_eq_some_iff] at h
    obtain ⟨next, hy, hinner⟩ := h
    rw [List.cons_append, takeBalanced_cons hy, ih hinner]
    rfl

/-- Where the outermost open parenthesis is never closed, everything is taken. -/
theorem takeBalanced_of_isSome {depth : Nat} {xs : List α}
    (h : (openAfter depth (xs.filterMap token?)).isSome) :
    takeBalanced token? (depth + 1) xs = ⟨xs, [], false⟩ := by
  induction xs generalizing depth with
  | nil => rfl
  | cons y xs ih =>
    obtain ⟨last, hlast⟩ := Option.isSome_iff_exists.1 h
    rw [openAfter_filterMap_cons, Option.bind_eq_some_iff] at hlast
    obtain ⟨next, hy, hxs⟩ := hlast
    rw [takeBalanced_cons hy, ih (Option.isSome_iff_exists.2 ⟨last, hxs⟩)]
    rfl

/-- The outermost open parenthesis is closed somewhere or nowhere. -/
theorem closes_or_stays_open (token? : α → Option Token) (depth : Nat) (xs : List α) :
    (∃ inner x rest, xs = inner ++ x :: rest ∧ token? x = some .closeParen ∧
      openAfter depth (inner.filterMap token?) = some 0) ∨
    (openAfter depth (xs.filterMap token?)).isSome := by
  induction xs generalizing depth with
  | nil => exact .inr rfl
  | cons y xs ih =>
    cases hy : openAfter depth (token? y).toList with
    | some next =>
      rcases ih next with ⟨inner, x, rest, rfl, hx, hinner⟩ | hopen
      · refine .inl ⟨y :: inner, x, rest, rfl, hx, ?_⟩
        rw [openAfter_filterMap_cons, hy, Option.bind_some, hinner]
      · right
        rwa [openAfter_filterMap_cons, hy]
    | none =>
      obtain ⟨t, ht⟩ : ∃ t, token? y = some t := by
        cases ht : token? y with
        | none => simp [ht] at hy
        | some t => exact ⟨t, rfl⟩
      rw [ht, Option.toList_some, openAfter_singleton] at hy
      obtain ⟨rfl, rfl⟩ := Token.nest_eq_none hy
      exact .inl ⟨[], y, xs, rfl, ht, rfl⟩

end TakeBalanced

/-- Groups as they stand in a text: a closed one ends with the parenthesis that closes its first,
and in an unclosed one nothing closes the first. -/
inductive Group.Proper : Group → Prop
  | closed {l r : Lexeme} {inner : List Lexeme} (hl : l.token = .openParen)
      (hr : r.token = .closeParen) (h : Balanced (inner.map Lexeme.token)) :
      Proper ⟨l :: (inner ++ [r]), true⟩
  | unclosed {l : Lexeme} {inner : List Lexeme} (hl : l.token = .openParen)
      (h : (openAfter 0 (inner.map Lexeme.token)).isSome) : Proper ⟨l :: inner, false⟩

section SplitItems
variable {l r : Lexeme} {inner rest : List Lexeme}

theorem splitItems_closed (hl : l.token = .openParen) (hr : r.token = .closeParen)
    (h : Balanced (inner.map Lexeme.token)) :
    splitItems (l :: (inner ++ r :: rest)) =
      .group ⟨l :: (inner ++ [r]), true⟩ :: splitItems rest := by
  have hcut : takeBalanced (some ∘ Lexeme.token) 1 (inner ++ r :: rest) =
      ⟨inner ++ [r], rest, true⟩ := by
    refine takeBalanced_of_openAfter_eq_zero ?_ (by simp [hr])
    rw [List.filterMap_eq_map, balanced_iff.1 h]
  rw [splitItems, if_pos hl, hcut]

theorem splitItems_unclosed (hl : l.token = .openParen)
    (h : (openAfter 0 (rest.map Lexeme.token)).isSome) :
    splitItems (l :: rest) = [.group ⟨l :: rest, false⟩] := by
  have hcut : takeBalanced (some ∘ Lexeme.token) 1 rest = ⟨rest, [], false⟩ :=
    takeBalanced_of_isSome (by rwa [List.filterMap_eq_map])
  rw [splitItems, if_pos hl, hcut]
  simp [splitItems]

def Item.tokens (i : Item) : List Token := i.lexemes.map Lexeme.token

theorem flatMap_lexemes_splitItems (ls : List Lexeme) :
    (splitItems ls).flatMap Item.lexemes = ls := by
  induction ls using splitItems.induct with
  | case1 => simp [splitItems]
  | case2 l rest hl cut ih =>
    have hcut := takeBalanced_front_append_rest (some ∘ Lexeme.token) 1 rest
    rw [splitItems, if_pos hl, List.flatMap_cons, ih]
    simp [Item.lexemes, hcut, cut]
  | case3 l rest hl ih =>
    rw [splitItems, if_neg hl, List.flatMap_cons, ih]
    rfl

theorem flatMap_tokens_splitItems (ls : List Lexeme) :
    (splitItems ls).flatMap Item.tokens = ls.map Lexeme.token := by
  have h := congrArg (List.map Lexeme.token) (flatMap_lexemes_splitItems ls)
  rwa [List.map_flatMap] at h

theorem splitItems_eq_of_flatMap {xs : List α} {tokens : α → List Token}
    (htokens : ∀ x ∈ xs, ∃ inner, tokens x = Grammar.enclosed inner ∧ Balanced inner)
    {ls : List Lexeme} (h : ls.map Lexeme.token = xs.flatMap tokens) :
    ∃ gs : List Group, splitItems ls = gs.map .group ∧ gs.map Group.tokens = xs.map tokens := by
  induction xs generalizing ls with
  | nil =>
    obtain rfl : ls = [] := by simpa using h
    exact ⟨[], by simp [splitItems], rfl⟩
  | cons x xs ih =>
    obtain ⟨inner, hx, hinner⟩ := htokens x List.mem_cons_self
    rw [List.flatMap_cons, hx, Grammar.enclosed, List.cons_append, List.append_assoc,
      List.singleton_append] at h
    obtain ⟨l, tail, rfl, hl, htail⟩ := List.map_eq_cons_iff.1 h
    obtain ⟨mid, back, rfl, rfl, hback⟩ := List.map_eq_append_iff.1 htail
    obtain ⟨r, rest, rfl, hr, hrest⟩ := List.map_eq_cons_iff.1 hback
    obtain ⟨gs, hsplit, hgs⟩ := ih (fun y hy => htokens y (List.mem_cons_of_mem _ hy)) hrest
    refine ⟨⟨l :: (mid ++ [r]), true⟩ :: gs, ?_, ?_⟩
    · rw [splitItems_closed hl hr hinner, hsplit]
      rfl
    · simp [hgs, hx, Group.tokens, Grammar.enclosed, hl, hr]

end SplitItems

/-- A sequence falls into items. An unclosed group takes all that is left. -/
inductive Splits : List Lexeme → List Item → Prop
  | nil : Splits [] []
  | stray {l : Lexeme} {rest : List Lexeme} {items : List Item} (hl : l.token ≠ .openParen)
      (hrest : Splits rest items) : Splits (l :: rest) (.stray l :: items)
  | group {l r : Lexeme} {inner rest : List Lexeme} {items : List Item} (hl : l.token = .openParen)
      (hr : r.token = .closeParen) (hinner : Balanced (inner.map Lexeme.token))
      (hrest : Splits rest items) :
      Splits (l :: (inner ++ r :: rest)) (.group ⟨l :: (inner ++ [r]), true⟩ :: items)
  | cutOff {l : Lexeme} {rest : List Lexeme} (hl : l.token = .openParen)
      (hopen : (openAfter 0 (rest.map Lexeme.token)).isSome) :
      Splits (l :: rest) [.group ⟨l :: rest, false⟩]

theorem splits_splitItems (ls : List Lexeme) : Splits ls (splitItems ls) := by
  induction hn : ls.length using Nat.strongRecOn generalizing ls with
  | ind n ih =>
  subst hn
  cases ls with
  | nil =>
    rw [splitItems]
    exact .nil
  | cons l rest =>
    by_cases hl : l.token = .openParen
    · rcases closes_or_stays_open (some ∘ Lexeme.token) 0 rest with
        ⟨inner, r, rest, rfl, hr, hinner⟩ | hopen
      · rw [List.filterMap_eq_map] at hinner
        have hbalanced := balanced_iff.2 hinner
        rw [splitItems_closed hl (Option.some.inj hr) hbalanced]
        exact .group hl (Option.some.inj hr) hbalanced (ih rest.length (by simp; omega) rest rfl)
      · rw [List.filterMap_eq_map] at hopen
        rw [splitItems_unclosed hl hopen]
        exact .cutOff hl hopen
    · rw [splitItems, if_neg hl]
      exact .stray hl (ih rest.length (by simp) rest rfl)

/-- An item that leaves nothing open and closes nothing. -/
def Item.Whole : Item → Prop
  | group g => g.closed = true
  | stray l => l.token ≠ .closeParen

instance : DecidablePred Item.Whole
  | .group g => inferInstanceAs (Decidable (g.closed = true))
  | .stray l => inferInstanceAs (Decidable (l.token ≠ .closeParen))

namespace Splits
variable {ls : List Lexeme} {items : List Item}

theorem proper (h : Splits ls items) {g : Group} (hg : .group g ∈ items) : g.Proper := by
  induction h with
  | nil => cases hg
  | stray _ _ ih => exact ih (by simpa using hg)
  | group hl hr hinner _ ih =>
    rcases List.mem_cons.1 hg with heq | hg
    · obtain rfl := Item.group.inj heq
      exact .closed hl hr hinner
    · exact ih hg
  | cutOff hl hopen =>
    obtain rfl := Item.group.inj (List.mem_singleton.1 hg)
    exact .unclosed hl hopen

/-- Balanced sequences are those that fall into closed groups and other tokens. -/
theorem balanced_iff_whole (h : Splits ls items) :
    Balanced (ls.map Lexeme.token) ↔ ∀ i ∈ items, i.Whole := by
  induction h with
  | nil => simp
  | @stray l rest items hl _ ih =>
    rw [List.forall_mem_cons, ← ih, List.map_cons]
    by_cases hc : l.token = .closeParen
    · simp [Item.Whole, hc, Balanced.not_closeParen_cons]
    · rw [Balanced.cons_iff hl hc]
      exact (and_iff_right hc).symm
  | @group l r inner rest items hl hr hinner _ ih =>
    have htokens : (l :: (inner ++ r :: rest)).map Lexeme.token =
        Grammar.enclosed (inner.map Lexeme.token) ++ rest.map Lexeme.token := by
      simp [Grammar.enclosed, hl, hr]
    rw [List.forall_mem_cons, ← ih, htokens, hinner.enclosed_append_iff]
    exact (and_iff_right rfl).symm
  | @cutOff l rest hl hopen =>
    rw [List.map_cons, hl]
    simp [Item.Whole, Balanced.not_openParen_cons hopen]

end Splits

namespace Group
variable {g : Group}

theorem head?_map_token (g : Group) : g.head?.map Lexeme.token = g.tokens[1]? := by
  simp [head?, tokens]

theorem body_map_token (g : Group) :
    g.body.map Lexeme.token =
      if g.closed then (g.tokens.drop 2).dropLast else g.tokens.drop 2 := by
  rw [body]
  split <;> simp [tokens, List.map_drop, List.map_dropLast]

theorem body_sublist (g : Group) : g.body.Sublist g.lexemes := by
  rw [body]
  split
  · exact (List.dropLast_sublist _).trans (List.drop_sublist 2 _)
  · exact List.drop_sublist 2 _

theorem mem_tokens_of_mem_body {t : Token} (h : t ∈ g.body.map Lexeme.token) : t ∈ g.tokens :=
  (g.body_sublist.map Lexeme.token).subset h

theorem Proper.head?_tokens (h : g.Proper) : g.tokens.head? = some .openParen := by
  cases h with
  | closed hl => simp [tokens, hl]
  | unclosed hl => simp [tokens, hl]

theorem Proper.tokens_eq_enclosed (h : g.Proper) (hclosed : g.closed = true) :
    ∃ inner, g.tokens = Grammar.enclosed inner ∧ Balanced inner := by
  cases h with
  | closed hl hr hinner => exact ⟨_, by simp [tokens, Grammar.enclosed, hl, hr], hinner⟩
  | unclosed => cases hclosed

/-- Nothing is open behind the head of a closed group, unless the head is a parenthesis. -/
theorem Proper.balanced_body (h : g.Proper) (hclosed : g.closed = true) {head : Token}
    (hhead : g.tokens[1]? = some head) (ho : head ≠ .openParen) (hc : head ≠ .closeParen) :
    Balanced (g.body.map Lexeme.token) := by
  obtain ⟨inner, hinner, hbalanced⟩ := h.tokens_eq_enclosed hclosed
  rw [g.body_map_token, if_pos hclosed, hinner]
  rw [hinner] at hhead
  cases inner with
  | nil => exact absurd (Option.some.inj hhead).symm hc
  | cons first content =>
    obtain rfl : first = head := Option.some.inj hhead
    simpa [Grammar.enclosed] using (Balanced.cons_iff ho hc).1 hbalanced

theorem Proper.closed_iff_balanced (h : g.Proper) : g.closed = true ↔ Balanced g.tokens := by
  constructor
  · intro hclosed
    obtain ⟨inner, htokens, hinner⟩ := h.tokens_eq_enclosed hclosed
    exact htokens ▸ hinner.enclosed
  · intro hbalanced
    cases h with
    | closed => rfl
    | unclosed hl hopen =>
      simp only [tokens, List.map_cons, hl] at hbalanced
      exact absurd hbalanced (Balanced.not_openParen_cons hopen)

end Group
end PlanningDomain
