import PlanningDomain.Proofs.Grammar.Sentence

/-! Balanced parentheses. Main statements: balance is what counting through the tokens finds, and
every tree of the grammar yields balanced tokens. -/
namespace PlanningDomain

/-- No part from the start on closes more parentheses than it opens, and the whole closes all. -/
structure Balanced (ts : List Token) : Prop where
  closes_le : ∀ front, front <+: ts → front.count .closeParen ≤ front.count .openParen
  closes_eq : ts.count .closeParen = ts.count .openParen

/-- The number of open parentheses behind a token. One that is not open cannot be closed. -/
def Token.nest (depth : Nat) : Token → Option Nat
  | .openParen => some (depth + 1)
  | .closeParen => if depth = 0 then none else some (depth - 1)
  | _ => some depth

/-- Only a parenthesis that closes too much stops the count. -/
theorem Token.nest_eq_none {depth : Nat} {t : Token} (h : t.nest depth = none) :
    depth = 0 ∧ t = .closeParen := by
  cases t <;> simp [Token.nest] at h ⊢
  exact h

/-- The number of open parentheses behind some tokens. -/
def openAfter (depth : Nat) (ts : List Token) : Option Nat :=
  ts.foldlM Token.nest depth

section OpenAfter
variable {depth : Nat} {ts us : List Token}

@[simp] theorem openAfter_nil : openAfter depth [] = some depth := rfl

private theorem openAfter_cons (t : Token) :
    openAfter depth (t :: ts) = (t.nest depth).bind (openAfter · ts) := rfl

theorem openAfter_singleton (t : Token) : openAfter depth [t] = t.nest depth := by
  simp [openAfter]

@[simp] theorem openAfter_openParen :
    openAfter depth (.openParen :: ts) = openAfter (depth + 1) ts := rfl

@[simp] private theorem openAfter_closeParen_zero : openAfter 0 (.closeParen :: ts) = none := rfl

@[simp] private theorem openAfter_closeParen_succ :
    openAfter (depth + 1) (.closeParen :: ts) = openAfter depth ts := rfl

theorem openAfter_other {t : Token} (ho : t ≠ .openParen) (hc : t ≠ .closeParen) :
    openAfter depth (t :: ts) = openAfter depth ts := by
  rw [openAfter_cons, Token.nest]
  · rfl
  · exact ho
  · exact hc

theorem openAfter_append :
    openAfter depth (ts ++ us) = (openAfter depth ts).bind (openAfter · us) :=
  List.foldlM_append

/-- The count goes through as long as no part closes too much, and ends at the difference. -/
private theorem openAfter_eq_some_iff {n : Nat} :
    openAfter depth ts = some n ↔
      (∀ front, front <+: ts → front.count .closeParen ≤ front.count .openParen + depth) ∧
        ts.count .closeParen + n = ts.count .openParen + depth := by
  induction ts generalizing depth with
  | nil => simp [eq_comm]
  | cons t ts ih =>
    have hfront (P : List Token → Prop) :
        (∀ front, front <+: t :: ts → P front) ↔ P [] ∧ ∀ front, front <+: ts → P (t :: front) := by
      simp only [List.prefix_cons_iff]
      constructor
      · intro h
        exact ⟨h [] (.inl rfl), fun front hf => h _ (.inr ⟨front, rfl, hf⟩)⟩
      · rintro ⟨hnil, hcons⟩ front (rfl | ⟨front, rfl, hf⟩)
        · exact hnil
        · exact hcons front hf
    rw [hfront]
    by_cases ho : t = .openParen
    · subst ho
      have hclose (us : List Token) :
          (Token.openParen :: us).count .closeParen = us.count .closeParen :=
        List.count_cons_of_ne (by simp)
      rw [openAfter_openParen, ih]
      simp only [hclose, List.count_cons_self, List.count_nil, Nat.zero_le, true_and,
        Nat.add_assoc, Nat.add_comm 1]
    by_cases hc : t = .closeParen
    · subst hc
      have hopen (us : List Token) :
          (Token.closeParen :: us).count .openParen = us.count .openParen :=
        List.count_cons_of_ne (by simp)
      simp only [hopen, List.count_cons_self, List.count_nil, Nat.zero_le, true_and]
      cases depth with
      | zero =>
        simp only [openAfter_closeParen_zero, reduceCtorEq, false_iff]
        rintro ⟨h, -⟩
        exact absurd (h [] List.nil_prefix) (by simp)
      | succ depth =>
        rw [openAfter_closeParen_succ, ih]
        constructor
        · rintro ⟨h, hn⟩
          exact ⟨fun front hf => by have := h front hf; omega, by omega⟩
        · rintro ⟨h, hn⟩
          exact ⟨fun front hf => by have := h front hf; omega, by omega⟩
    · rw [openAfter_other ho hc, ih]
      simp [ho, hc]

theorem openAfter_add {n : Nat} (h : openAfter depth ts = some n) (more : Nat) :
    openAfter (depth + more) ts = some (n + more) := by
  rw [openAfter_eq_some_iff] at h ⊢
  obtain ⟨hfront, hn⟩ := h
  exact ⟨fun front hf => by have := hfront front hf; omega, by omega⟩

end OpenAfter

theorem balanced_iff {ts : List Token} : Balanced ts ↔ openAfter 0 ts = some 0 := by
  rw [openAfter_eq_some_iff]
  exact ⟨fun h => ⟨h.closes_le, h.closes_eq⟩, fun h => ⟨h.1, h.2⟩⟩

instance (ts : List Token) : Decidable (Balanced ts) :=
  decidable_of_iff (openAfter 0 ts = some 0) balanced_iff.symm

namespace Balanced
variable {ts us : List Token}

theorem openAfter_eq (h : Balanced ts) (depth : Nat) : openAfter depth ts = some depth := by
  simpa using openAfter_add (balanced_iff.1 h) depth

@[simp] private theorem nil : Balanced [] := balanced_iff.2 rfl

private theorem append (ht : Balanced ts) (hu : Balanced us) : Balanced (ts ++ us) := by
  rw [balanced_iff, openAfter_append, ht.openAfter_eq]
  exact hu.openAfter_eq 0

private theorem cons {t : Token} (ho : t ≠ .openParen) (hc : t ≠ .closeParen) (h : Balanced ts) :
    Balanced (t :: ts) := by
  rw [balanced_iff, openAfter_other ho hc]
  exact h.openAfter_eq 0

theorem enclosed (h : Balanced ts) : Balanced (Grammar.enclosed ts) := by
  rw [balanced_iff, Grammar.enclosed, openAfter_openParen, openAfter_append, h.openAfter_eq]
  rfl

theorem cons_iff {t : Token} (ho : t ≠ .openParen) (hc : t ≠ .closeParen) :
    Balanced (t :: ts) ↔ Balanced ts := by
  rw [balanced_iff, balanced_iff, openAfter_other ho hc]

theorem not_closeParen_cons : ¬ Balanced (.closeParen :: ts) := by
  rw [balanced_iff, openAfter_closeParen_zero]
  simp

/-- What is never closed is not balanced. -/
theorem not_openParen_cons (h : (openAfter 0 ts).isSome) : ¬ Balanced (.openParen :: ts) := by
  obtain ⟨n, hn⟩ := Option.isSome_iff_exists.1 h
  rw [balanced_iff, openAfter_openParen, openAfter_add hn 1]
  simp

theorem enclosed_append_iff (h : Balanced ts) :
    Balanced (Grammar.enclosed ts ++ us) ↔ Balanced us := by
  rw [balanced_iff, balanced_iff, openAfter_append, h.enclosed.openAfter_eq]
  rfl

/-- Between parentheses, one balanced sequence does not go on as another. -/
theorem eq_nil_of_enclosed_append {more : List Token} (ht : Balanced ts) (hu : Balanced us)
    (h : Grammar.enclosed ts ++ more = Grammar.enclosed us) : more = [] := by
  have hinner : ts ++ .closeParen :: more = us ++ [.closeParen] := by
    simpa [Grammar.enclosed] using h
  rcases List.eq_nil_or_concat more with rfl | ⟨more, t, rfl⟩
  · rfl
  · rw [List.concat_eq_append, ← List.cons_append, ← List.append_assoc] at hinner
    obtain ⟨rfl, -⟩ := List.append_inj' hinner rfl
    have hclose := balanced_iff.1 hu
    rw [openAfter_append, ht.openAfter_eq, Option.bind_some, openAfter_closeParen_zero] at hclose
    cases hclose

private theorem flatMap {xs : List α} {tokens : α → List Token}
    (h : ∀ x ∈ xs, Balanced (tokens x)) :
    Balanced (xs.flatMap tokens) := by
  induction xs with
  | nil => exact nil
  | cons x xs ih =>
    rw [List.flatMap_cons]
    exact (h x List.mem_cons_self).append (ih fun y hy => h y (List.mem_cons_of_mem _ hy))

private theorem of_forall (h : ∀ t ∈ ts, t ≠ .openParen ∧ t ≠ .closeParen) : Balanced ts := by
  induction ts with
  | nil => exact nil
  | cons t ts ih =>
    obtain ⟨ho, hc⟩ := h t List.mem_cons_self
    exact (ih fun u hu => h u (List.mem_cons_of_mem _ hu)).cons ho hc

end Balanced

namespace Grammar

private theorem balanced_runTokens {item : String → Token} (ho : ∀ v, item v ≠ .openParen)
    (hc : ∀ v, item v ≠ .closeParen) (runs : List TypedRun) :
    Balanced (runTokens item runs) := by
  refine .flatMap fun run _ => .append (.of_forall ?_) ?_
  · simp [ho, hc]
  · cases run.type with
    | none => exact .nil
    | some type => exact .of_forall (by simp [suffixTokens])

private theorem Signature.tokens_eq_enclosed (s : Signature) :
    ∃ inner, s.tokens = enclosed inner ∧ Balanced inner :=
  ⟨_, rfl, .cons (by simp) (by simp) (balanced_runTokens (by simp) (by simp) _)⟩

private theorem Signature.balanced_tokens (s : Signature) : Balanced s.tokens := by
  obtain ⟨inner, heq, hinner⟩ := s.tokens_eq_enclosed
  exact heq ▸ hinner.enclosed

theorem Literal.tokens_eq_enclosed (l : Literal) :
    ∃ inner, l.tokens = enclosed inner ∧ Balanced inner := by
  rw [Literal.tokens]
  split
  · exact ⟨_, rfl, .cons (by simp) (by simp) l.atom.balanced_tokens⟩
  · exact l.atom.tokens_eq_enclosed

private theorem Literal.balanced_tokens (l : Literal) : Balanced l.tokens := by
  obtain ⟨inner, heq, hinner⟩ := l.tokens_eq_enclosed
  exact heq ▸ hinner.enclosed

private theorem Subtask.balanced_tokens (s : Subtask) : Balanced s.tokens := by
  rw [Subtask.tokens]
  split
  · exact s.task.balanced_tokens
  · exact .enclosed (.cons (by simp) (by simp) s.task.balanced_tokens)

private theorem Block.balanced_tokens (b : Block) : Balanced b.tokens := by
  cases b with
  | list subtasks => exact .enclosed (.flatMap fun s _ => s.balanced_tokens)
  | conjunction subtasks =>
    exact .enclosed (.cons (by simp) (by simp) (.flatMap fun s _ => s.balanced_tokens))
  | single subtask => exact subtask.balanced_tokens

private theorem balanced_parameterTokens (params : TypedList) : Balanced (parameterTokens params) :=
  .cons (by simp) (by simp) (.enclosed (balanced_runTokens (by simp) (by simp) _))

/-- The only parentheses that a section has between its own are in pairs. -/
theorem Section.balanced_inner (s : Section) : Balanced s.inner := by
  cases s with
  | requirements flags => exact .cons (by simp) (by simp) (.of_forall (by simp))
  | types list =>
    exact .cons (by simp) (by simp) (balanced_runTokens (by simp) (by simp) _)
  | predicates literals =>
    exact .cons (by simp) (by simp) (.flatMap fun l _ => l.balanced_tokens)
  | task signature =>
    exact .cons (by simp) (by simp) (.cons (by simp) (by simp) (balanced_parameterTokens _))
  | method rule =>
    have hordering : orderingToken rule.ordered ≠ .openParen ∧
        orderingToken rule.ordered ≠ .closeParen := by
      cases rule.ordered <;> simp [orderingToken]
    refine .cons (by simp) (by simp) (.cons (by simp) (by simp) ?_)
    refine .append (balanced_parameterTokens _) (.cons (by simp) (by simp) ?_)
    exact .append rule.task.balanced_tokens
      (.cons hordering.1 hordering.2 rule.block.balanced_tokens)

theorem Section.balanced_tokens (s : Section) : Balanced s.tokens :=
  s.balanced_inner.enclosed

theorem Sentence.balanced_tokens (s : Sentence) : Balanced s.tokens := by
  have hheader : openAfter 0 (headerTokens s.name) = some 1 := rfl
  have hsections : Balanced (s.sections.flatMap Section.tokens) :=
    .flatMap fun x _ => x.balanced_tokens
  rw [balanced_iff, Sentence.tokens, openAfter_append, openAfter_append, hheader,
    Option.bind_some, hsections.openAfter_eq]
  rfl

end Grammar
end PlanningDomain
