import PlanningDomain.Proofs.Domain.WellFormed
import PlanningDomain.Proofs.Reading.Runs

/-! Which texts are domains. Main statements: a reading that skips no unknown section succeeds on
exactly the sentences of the grammar, and its domain is what the sentence means; any reading has a
well-formed domain; and one in silence has balanced parentheses, unless the text ends in a group
that is skipped. -/
namespace PlanningDomain

open Progress Grammar

def Placed : Option Rank → List Section → Prop
  | _, [] => True
  | last, x :: xs => x.rank.mayFollow last = true ∧ Placed (some x.rank) xs

section Placed
variable {last : Option Rank} {xs : List Section}

private theorem eq_body_of_rank {x : Section} (h : x.rank = .body) :
    ∃ part : Signature ⊕ MethodRule, x = part.elim .task .method := by
  cases x with
  | task signature => exact ⟨.inl signature, rfl⟩
  | method rule => exact ⟨.inr rule, rfl⟩
  | _ => cases h

private theorem rank_elim (part : Signature ⊕ MethodRule) :
    (part.elim Section.task Section.method).rank = .body := by
  cases part <;> rfl

/-- Behind the predicates, only tasks and methods have a place. -/
private theorem placed_predicates_iff {r : Rank} (hr : r = .predicates ∨ r = .body) :
    Placed (some r) xs ↔
      ∃ body : List (Signature ⊕ MethodRule), xs = body.map (Sum.elim .task .method) := by
  induction xs generalizing r with
  | nil => exact ⟨fun _ => ⟨[], rfl⟩, fun _ => trivial⟩
  | cons x xs ih =>
    have hfollow : x.rank.mayFollow (some r) = true ↔ x.rank = .body := by
      rcases hr with rfl | rfl <;> cases x.rank <;> decide
    rw [Placed, hfollow]
    constructor
    · rintro ⟨hx, hxs⟩
      obtain ⟨part, rfl⟩ := eq_body_of_rank hx
      obtain ⟨body, rfl⟩ := (ih (.inr (rank_elim part))).1 hxs
      exact ⟨part :: body, rfl⟩
    · rintro ⟨body, hbody⟩
      obtain ⟨part, body, rfl, rfl, rfl⟩ := List.map_eq_cons_iff.1 hbody.symm
      exact ⟨rank_elim part, (ih (.inr (rank_elim part))).2 ⟨body, rfl⟩⟩

private theorem placed_optional_iff {α : Type} {asSection : α → Section} {r : Rank}
    (hasSection : ∀ x : Section, x.rank = r ↔ ∃ a, x = asSection a)
    (hfollow : ∀ r', r'.mayFollow last = true ↔ r' = r ∨ r'.mayFollow (some r) = true) :
    Placed last xs ↔
      ∃ (o : Option α) (ys : List Section), xs = (o.map asSection).toList ++ ys ∧
        Placed (some r) ys := by
  constructor
  · intro h
    cases xs with
    | nil => exact ⟨none, [], rfl, trivial⟩
    | cons x xs =>
      obtain ⟨hx, hxs⟩ := h
      rcases (hfollow _).1 hx with rfl | hlater
      · obtain ⟨a, rfl⟩ := (hasSection x).1 rfl
        exact ⟨some a, xs, rfl, hxs⟩
      · exact ⟨none, x :: xs, rfl, hlater, hxs⟩
  · rintro ⟨_ | a, ys, rfl, hys⟩
    · cases xs with
      | nil => trivial
      | cons x xs => exact ⟨(hfollow _).2 (.inr hys.1), hys.2⟩
    · have hrank : (asSection a).rank = r := (hasSection _).2 ⟨a, rfl⟩
      exact ⟨(hfollow _).2 (.inl hrank), hrank ▸ hys⟩

private theorem placed_none_iff (name : String) :
    Placed none xs ↔ ∃ s : Sentence, s.name = name ∧ s.sections = xs := by
  have hrequirements (x : Section) : x.rank = .requirements ↔ ∃ a, x = .requirements a := by
    cases x <;> simp [Section.rank]
  have htypes (x : Section) : x.rank = .types ↔ ∃ a, x = .types a := by
    cases x <;> simp [Section.rank]
  have hpredicates (x : Section) : x.rank = .predicates ↔ ∃ a, x = .predicates a := by
    cases x <;> simp [Section.rank]
  rw [placed_optional_iff hrequirements (by intro r'; cases r' <;> decide)]
  constructor
  · rintro ⟨requirements, ys, rfl, hys⟩
    obtain ⟨types, zs, rfl, hzs⟩ :=
      (placed_optional_iff htypes (by intro r'; cases r' <;> decide)).1 hys
    obtain ⟨predicates, ws, rfl, hws⟩ :=
      (placed_optional_iff hpredicates (by intro r'; cases r' <;> decide)).1 hzs
    obtain ⟨body, rfl⟩ := (placed_predicates_iff (.inl rfl)).1 hws
    exact ⟨⟨name, requirements, types, predicates, body⟩, rfl, by simp [Sentence.sections]⟩
  · rintro ⟨s, -, rfl⟩
    refine ⟨s.requirements, _, by rw [Sentence.sections, List.append_assoc, List.append_assoc], ?_⟩
    refine (placed_optional_iff htypes (by intro r'; cases r' <;> decide)).2 ⟨s.types, _, rfl, ?_⟩
    exact (placed_optional_iff hpredicates (by intro r'; cases r' <;> decide)).2
      ⟨s.predicates, _, rfl, (placed_predicates_iff (.inl rfl)).2 ⟨s.body, rfl⟩⟩

end Placed

private theorem bodyReads_of_placed (s : Settings) {last : Option Rank} {xs : List Section}
    (h : Placed last xs) :
    BodyReads s last (xs.flatMap Section.tokens ++ [.closeParen]) xs := by
  induction xs generalizing last with
  | nil => exact .close
  | cons x xs ih =>
    rw [List.flatMap_cons, List.append_assoc]
    exact .group x.balanced_inner (.placed x rfl h.1) (ih h.2)

/-- When nothing is skipped, nothing but sections in their places is read in silence. -/
private theorem bodyReads_iff {s : Settings} (hskip : s.skipUnknownSections = false)
    {last : Option Rank} {ts : List Token} {xs : List Section} :
    BodyReads s last ts xs ↔
      ts = xs.flatMap Section.tokens ++ [.closeParen] ∧ Placed last xs := by
  constructor
  · intro h
    induction h with
    | close => exact ⟨rfl, trivial⟩
    | group hinner hadmits _ ih =>
      cases hadmits with
      | placed x hx hrank =>
        obtain ⟨rfl, hys⟩ := ih
        rw [hx]
        exact ⟨by simp, hrank, hys⟩
      | skipped hskips => simp [hskip] at hskips
    | cutOff hopen hadmits =>
      obtain ⟨hskips, -⟩ := hadmits.eq_keyword_of_isSome hopen
      simp [hskip] at hskips
  · rintro ⟨rfl, hxs⟩
    exact bodyReads_of_placed s hxs

/-- A sentence is read in silence, and the domain is what it means. -/
theorem readDomain_of_sentence {s : Settings} {text : String} {tree : Sentence}
    (hstrays : strays text = []) (htokens : tree.tokens = tokens text) :
    readDomain s text = ⟨tree.meaning s.rootType, .empty s.maxErrors⟩ := by
  have hplaced : Placed none tree.sections :=
    (placed_none_iff tree.name).2 ⟨tree, rfl, rfl⟩
  rw [readDomain_of_reads hstrays (by rw [← htokens, Sentence.tokens, List.append_assoc])
    (bodyReads_of_placed s hplaced)]
  exact congrArg (Reading.mk · _) (foldl_addTo_sections s.rootType tree)

/-- Without skipping, a reading succeeds with a domain exactly when the text has no stray characters
and its tokens are a sentence that means the domain. -/
theorem succeeds_with_iff_sentence (root : String) (maxErrors : Nat) (text : String) (d : Domain) :
    ((readDomain ⟨root, false, maxErrors⟩ text).succeeded = true ∧
      (readDomain ⟨root, false, maxErrors⟩ text).domain = d) ↔
    (strays text = [] ∧ ∃ tree : Sentence, tree.tokens = tokens text ∧ tree.meaning root = d) := by
  constructor
  · rintro ⟨hsucceeded, rfl⟩
    obtain ⟨hstrays, name, ts, xs, htokens, hreads, -⟩ := reads_of_succeeded hsucceeded
    obtain ⟨rfl, hplaced⟩ := (bodyReads_iff rfl).1 hreads
    obtain ⟨tree, rfl, rfl⟩ := (placed_none_iff name).1 hplaced
    have hsentence : tree.tokens = tokens text := by
      rw [htokens, Sentence.tokens, List.append_assoc]
    refine ⟨hstrays, tree, hsentence, ?_⟩
    rw [readDomain_of_sentence hstrays hsentence]
  · rintro ⟨hstrays, tree, htokens, rfl⟩
    rw [readDomain_of_sentence hstrays htokens]
    exact ⟨rfl, rfl⟩

end PlanningDomain

namespace PlanningDomain

open Grammar

theorem wellFormed_readDomain (s : Settings) (text : String) :
    (readDomain s text).domain.WellFormed s.rootType := by
  obtain ⟨name, xs, ds, hdomain, -, hname, hmem, -⟩ := readDomain_adds s text
  have hlexes : ∀ x ∈ xs, ∀ t ∈ x.tokens, t.Lexes := by
    intro x hx t ht
    rcases List.mem_cons.1 (hmem x hx t ht) with rfl | ht
    · exact lexesAs_iff.2 rfl
    · exact lexes_of_mem_tokens ht
  rw [hdomain]
  exact wellFormed_foldl_addTo hlexes (wellFormed_headed (hname.imp_right lexes_of_mem_tokens))

/-- Whatever the text is and however its reading ends, the domain is well-formed: every name in it
is a lexeme of its kind, parameters are distinct and typed, and the root type stays at the root. Its
requirements are words in lower case, and none of them opens a section or a block. -/
theorem recognises_only_wellFormed (s : Settings) (text : String) :
    (readDomain s text).domain.WellFormed s.rootType ∧
      ∀ flag ∈ (readDomain s text).domain.requirements,
        Token.folded flag.toList = flag ∧ flag ∉ Token.reservedKeywords.map Prod.fst := by
  have hformed := wellFormed_readDomain s text
  refine ⟨hformed, fun flag hflag => ?_⟩
  have hisFlag := hformed.requirements flag hflag
  refine ⟨(isFlag_iff.1 hisFlag).1, fun hmem => ?_⟩
  obtain ⟨e, he, rfl⟩ := List.mem_map.1 hmem
  exact not_isFlag_of_reserved e he hisFlag

end PlanningDomain

namespace PlanningDomain

open Progress Grammar

/-- The text ends within an unknown section that is skipped: one parenthesis is open in front of it,
and its own is never closed. -/
def EndsInSkippedGroup (s : Settings) (ts : List Token) : Prop :=
  s.skipUnknownSections = true ∧ ∃ front word inner,
    ts = front ++ .openParen :: .keyword word :: inner ∧ openAfter 0 front = some 1 ∧
      (openAfter 0 inner).isSome

private theorem EndsInSkippedGroup.not_balanced {s : Settings} {ts : List Token}
    (h : EndsInSkippedGroup s ts) : ¬ Balanced ts := by
  obtain ⟨-, front, word, inner, rfl, hfront, hinner⟩ := h
  obtain ⟨n, hn⟩ := Option.isSome_iff_exists.1 hinner
  rw [balanced_iff, openAfter_append, hfront, Option.bind_some, openAfter_openParen,
    openAfter_other (by simp) (by simp), ← Nat.zero_add (1 + 1), openAfter_add hn]
  simp

/-- Behind a header, an admitted body closes the last parenthesis or ends in a skipped group. -/
private theorem closes_or_endsInSkippedGroup {s : Settings} {last : Option Rank}
    {ts front : List Token} {xs : List Section} (h : BodyReads s last ts xs)
    (hfront : openAfter 0 front = some 1) :
    Balanced (front ++ ts) ∨ EndsInSkippedGroup s (front ++ ts) := by
  induction h generalizing front with
  | close =>
    left
    rw [balanced_iff, openAfter_append, hfront]
    rfl
  | @group _ _ inner ts _ _ hinner _ _ ih =>
    rw [← List.append_assoc]
    apply ih
    rw [openAfter_append, hfront]
    exact hinner.enclosed.openAfter_eq 1
  | cutOff hopen hadmits =>
    right
    obtain ⟨hskip, word, rest, rfl⟩ := hadmits.eq_keyword_of_isSome hopen
    rw [openAfter_other (by simp) (by simp)] at hopen
    exact ⟨hskip, front, word, rest, rfl, hfront, hopen⟩

/-- A successful reading is one of balanced parentheses, except for a text that ends in a skipped
group. -/
theorem balanced_iff_of_succeeded (s : Settings) (text : String)
    (h : (readDomain s text).succeeded = true) :
    Balanced (tokens text) ↔ ¬ EndsInSkippedGroup s (tokens text) := by
  obtain ⟨-, name, ts, xs, htokens, hreads, -⟩ := reads_of_succeeded h
  refine ⟨fun hbalanced hends => hends.not_balanced hbalanced, fun hnot => ?_⟩
  rw [htokens] at hnot ⊢
  exact (closes_or_endsInSkippedGroup hreads rfl).resolve_right hnot

theorem balanced_iff_of_succeeded_standard :
    (readDomain .standard "(define (domain d) (:types a))").succeeded = true ∧
      (Balanced (tokens "(define (domain d) (:types a))") ↔
        ¬ EndsInSkippedGroup .standard (tokens "(define (domain d) (:types a))")) := by
  have h : (readDomain .standard "(define (domain d) (:types a))").succeeded = true := by
    decide +kernel
  exact ⟨h, balanced_iff_of_succeeded _ _ h⟩

/-- A text that ends in a skipped group succeeds with two open parentheses. -/
theorem succeeded_not_balanced :
    (readDomain ⟨"object", true, 100⟩ "(define (domain d) (:action a").succeeded = true ∧
      ¬ Balanced (tokens "(define (domain d) (:action a") := by
  decide +kernel

end PlanningDomain
