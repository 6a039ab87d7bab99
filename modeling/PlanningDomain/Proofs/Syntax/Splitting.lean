import PlanningDomain.Proofs.Syntax.Groups

/-! Where groups end. Main statement: a group ends with the first parenthesis behind which it is
balanced, and takes all that is left if there is none; a sequence falls into such groups and other
tokens, and only the last of these can be unclosed. -/
namespace PlanningDomain

/-- A count that goes through the whole goes through each part from the start on. -/
private theorem isSome_openAfter_front {depth : Nat} {ts us : List Token} (h : us <+: ts)
    (hts : (openAfter depth ts).isSome) : (openAfter depth us).isSome := by
  obtain ⟨vs, rfl⟩ := h
  rw [openAfter_append] at hts
  exact Option.isSome_of_isSome_bind hts

/-- An opening parenthesis is not balanced by a part of what leaves it open. -/
private theorem not_balanced_front {ts us : List Token} (h : us <+: ts)
    (hts : (openAfter 0 ts).isSome) : ¬ Balanced (.openParen :: us) :=
  Balanced.not_openParen_cons (isSome_openAfter_front h hts)

section TakeBalanced
variable {α : Type} {token? : α → Option Token}

/-- Elements that balance an opening parenthesis in front of them. -/
def Closes (token? : α → Option Token) (xs : List α) : Prop :=
  Balanced (.openParen :: xs.filterMap token?)

instance (xs : List α) : Decidable (Closes token? xs) :=
  inferInstanceAs (Decidable (Balanced _))

private theorem closes_concat {inner : List α} {r : α}
    (h : openAfter 0 (inner.filterMap token?) = some 0) (hr : token? r = some .closeParen) :
    Closes token? (inner ++ [r]) := by
  have hinner : Balanced (inner.filterMap token?) := balanced_iff.2 h
  simpa [Closes, Grammar.enclosed, hr] using hinner.enclosed

private theorem not_closes_front {front xs : List α} (h : front <+: xs)
    (hxs : (openAfter 0 (xs.filterMap token?)).isSome) : ¬ Closes token? front :=
  not_balanced_front (h.filterMap token?) hxs

private theorem prefix_of_closes {inner rest front : List α} {r : α}
    (h : openAfter 0 (inner.filterMap token?) = some 0) (hfront : front <+: inner ++ r :: rest)
    (hcloses : Closes token? front) : inner ++ [r] <+: front := by
  have hcut : inner ++ [r] <+: inner ++ r :: rest := by simp
  rcases List.prefix_or_prefix_of_prefix hcut hfront with hle | hle
  · exact hle
  · rcases List.prefix_concat_iff.1 hle with rfl | hle
    · exact List.prefix_rfl
    · exact absurd hcloses (not_closes_front hle (by simp [h]))

/-- Either the elements are cut behind the shortest part that closes, or no part does and all are
taken. -/
private theorem takeBalanced_cases (token? : α → Option Token) (xs : List α) :
    (∃ inner r rest, takeBalanced token? 1 xs = ⟨inner ++ [r], rest, true⟩ ∧
      xs = inner ++ r :: rest ∧ token? r = some .closeParen ∧
      openAfter 0 (inner.filterMap token?) = some 0) ∨
    takeBalanced token? 1 xs = ⟨xs, [], false⟩ ∧ (openAfter 0 (xs.filterMap token?)).isSome := by
  rcases closes_or_stays_open token? 0 xs with ⟨inner, r, rest, rfl, hr, hinner⟩ | hopen
  · exact .inl ⟨inner, r, rest, takeBalanced_of_openAfter_eq_zero hinner hr, rfl, hr, hinner⟩
  · exact .inr ⟨takeBalanced_of_isSome hopen, hopen⟩

end TakeBalanced

namespace Group.Proper
variable {g : Group}

private theorem not_balanced_front_of_tokens (h : g.Proper) {front : List Token}
    (hfront : front <+: g.tokens) (hnil : front ≠ []) (hne : front ≠ g.tokens) :
    ¬ Balanced front := by
  obtain ⟨t, us, rfl⟩ := List.exists_cons_of_ne_nil hnil
  cases h with
  | @closed l r inner hl hr hinner =>
    have htokens : Group.tokens ⟨l :: (inner ++ [r]), true⟩ =
        .openParen :: (inner.map Lexeme.token ++ [.closeParen]) := by simp [Group.tokens, hl, hr]
    rw [htokens] at hfront hne
    obtain ⟨rfl, hus⟩ := List.cons_prefix_cons.1 hfront
    rcases List.prefix_concat_iff.1 hus with rfl | hus
    · exact absurd rfl hne
    · exact not_balanced_front hus (by simp [balanced_iff.1 hinner])
  | @unclosed l inner hl hopen =>
    have htokens : Group.tokens ⟨l :: inner, false⟩ = .openParen :: inner.map Lexeme.token := by
      simp [Group.tokens, hl]
    rw [htokens] at hfront
    obtain ⟨rfl, hus⟩ := List.cons_prefix_cons.1 hfront
    exact not_balanced_front hus hopen

end Group.Proper

namespace Splits
variable {ls : List Lexeme} {items : List Item}

private theorem token_ne_of_stray_mem (h : Splits ls items) {l : Lexeme} (hl : .stray l ∈ items) :
    l.token ≠ .openParen := by
  induction h with
  | nil => cases hl
  | stray hne _ ih =>
    rcases List.mem_cons.1 hl with heq | hl
    · obtain rfl := Item.stray.inj heq
      exact hne
    · exact ih hl
  | group _ _ _ _ ih => exact ih (by simpa using hl)
  | cutOff => simp at hl

private theorem closed_of_mem_dropLast (h : Splits ls items) {g : Group}
    (hg : .group g ∈ items.dropLast) :
    g.closed = true := by
  induction h with
  | nil => cases hg
  | @stray l rest items _ _ ih =>
    cases items with
    | nil => cases hg
    | cons i items => exact ih (by simpa using hg)
  | @group l r inner rest items _ _ _ _ ih =>
    cases items with
    | nil => cases hg
    | cons i items =>
      rcases List.mem_cons.1 hg with heq | hg
      · obtain rfl := Item.group.inj heq
        rfl
      · exact ih hg
  | cutOff => cases hg

end Splits

/-- Behind an opening parenthesis, the shortest part that closes it is taken, up to the parenthesis
that does, or all that is left if no part closes it. Elements without a token count for nothing. A
sequence is cut into groups of this kind and other tokens, and nothing is lost. None of the other
tokens is an opening parenthesis. Only the last item can be an unclosed group. A group begins with
an opening parenthesis, and of its parts from the start on, none is balanced but the empty one and,
if the group is closed, the whole. -/
theorem groups_end_where_balanced :
    (∀ {α : Type} (token? : α → Option Token) (xs : List α),
      let cut := takeBalanced token? 1 xs
      cut.front ++ cut.rest = xs ∧
        ((cut.closed = true ∧ Closes token? cut.front ∧
            (∃ (inner : List α) (r : α), cut.front = inner ++ [r] ∧ token? r = some .closeParen) ∧
            ∀ front, front <+: xs → Closes token? front → cut.front <+: front) ∨
          (cut.closed = false ∧ cut.front = xs ∧
            ∀ front, front <+: xs → ¬ Closes token? front))) ∧
    (∀ (l : Lexeme) (rest : List Lexeme), l.token = .openParen →
      let cut := takeBalanced (some ∘ Lexeme.token) 1 rest
      splitItems (l :: rest) = .group ⟨l :: cut.front, cut.closed⟩ :: splitItems cut.rest) ∧
    ∀ ls : List Lexeme,
      (splitItems ls).flatMap Item.lexemes = ls ∧
      (∀ i ∈ (splitItems ls).dropLast,
        (∃ l, i = .stray l) ∨ ∃ g, i = .group g ∧ g.closed = true) ∧
      (∀ l, .stray l ∈ splitItems ls → l.token ≠ .openParen) ∧
      ∀ g, .group g ∈ splitItems ls →
        g.tokens.head? = some .openParen ∧ (g.closed = true ↔ Balanced g.tokens) ∧
        ∀ front, front <+: g.tokens → front ≠ [] → front ≠ g.tokens → ¬ Balanced front := by
  refine ⟨fun token? xs => ?_, fun l rest hl => ?_, fun ls => ?_⟩
  · refine ⟨takeBalanced_front_append_rest token? 1 xs, ?_⟩
    rcases takeBalanced_cases token? xs with ⟨inner, r, rest, hcut, rfl, hr, hinner⟩ | ⟨hcut, hopen⟩
    · rw [hcut]
      exact .inl ⟨rfl, closes_concat hinner hr, ⟨inner, r, rfl, hr⟩,
        fun front hfront hcloses => prefix_of_closes hinner hfront hcloses⟩
    · rw [hcut]
      exact .inr ⟨rfl, rfl, fun front hfront => not_closes_front hfront hopen⟩
  · rw [splitItems, if_pos hl]
  · have hsplits := splits_splitItems ls
    refine ⟨flatMap_lexemes_splitItems ls, fun i hi => ?_,
      fun l hl => hsplits.token_ne_of_stray_mem hl, fun g hg => ?_⟩
    · cases i with
      | stray l => exact .inl ⟨l, rfl⟩
      | group g => exact .inr ⟨g, rfl, hsplits.closed_of_mem_dropLast hi⟩
    · have hproper := hsplits.proper hg
      exact ⟨hproper.head?_tokens, hproper.closed_iff_balanced,
        fun front => hproper.not_balanced_front_of_tokens⟩

/-- A closed group, a parenthesis too many, and a group that the sequence ends in. -/
theorem groups_end_where_balanced_unclosed :
    let mark (t : Token) : Lexeme := ⟨t, "", ⟨0, 0⟩⟩
    let closed : List Token := [.openParen, .name "p", .openParen, .closeParen, .closeParen]
    let unclosed : List Token := [.openParen, .openParen, .name "q", .closeParen]
    let ls := (closed ++ .closeParen :: unclosed).map mark
    splitItems ls = [.group ⟨closed.map mark, true⟩, .stray (mark .closeParen),
        .group ⟨unclosed.map mark, false⟩] ∧
      (takeBalanced some 1 (closed.tail ++ [.closeParen])).front <+: closed.tail ∧
      Balanced closed ∧ (mark .closeParen).token ≠ .openParen ∧ ¬ Balanced (unclosed.take 3) := by
  intro mark closed unclosed ls
  have hsplit : splitItems ls = [.group ⟨closed.map mark, true⟩, .stray (mark .closeParen),
      .group ⟨unclosed.map mark, false⟩] := by
    simp [ls, closed, unclosed, mark, splitItems, takeBalanced, Cut.push]
  obtain ⟨hcut, -, hitems⟩ := groups_end_where_balanced
  obtain ⟨-, hlast, hstray, hgroups⟩ := hitems ls
  rw [hsplit] at hlast hstray hgroups
  refine ⟨hsplit, ?_, ?_, hstray _ (by simp), ?_⟩
  · obtain ⟨-, ⟨-, -, -, hshortest⟩ | ⟨hclosed, -⟩⟩ := hcut some (closed.tail ++ [.closeParen])
    · exact hshortest _ (List.prefix_append _ _) (by decide)
    · exact absurd hclosed (by decide)
  · obtain ⟨l, hl⟩ | ⟨g, hg, hclosed⟩ := hlast (.group ⟨closed.map mark, true⟩) (by simp)
    · cases hl
    · obtain rfl := Item.group.inj hg
      exact (hgroups ⟨closed.map mark, true⟩ (by simp)).2.1.1 hclosed
  · exact (hgroups ⟨unclosed.map mark, false⟩ (by simp)).2.2 (unclosed.take 3)
      (List.take_prefix 3 _) (by decide) (by decide)

end PlanningDomain
