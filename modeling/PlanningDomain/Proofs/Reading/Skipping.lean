import PlanningDomain.Proofs.Reading.Phases
import PlanningDomain.Proofs.Source.Places
import PlanningDomain.Proofs.Token.Partition

/-! Unknown sections that are passed over. Main statement: a reading that skips them differs from
one that does not by the diagnostics at their heads, and by nothing else. -/
namespace PlanningDomain

open Progress (takeHeader)

/-- The groups and lone tokens between the header and the parenthesis that closes the domain. -/
def topLevel (text : String) : List Item :=
  (splitItems ((takeHeader (scan text)).2.filterMap Scanned.lexeme?)).takeWhile fun i => !i.closes

def Token.isKeyword : Token → Bool
  | keyword _ => true
  | _ => false

/-- The head of a group, where it is a keyword without a meaning of its own. -/
def Item.unknownHead? : Item → Option Lexeme
  | group g => g.head?.filter fun l => l.token.isKeyword
  | stray _ => none

def Event.unknownHead? : Event → Option Lexeme
  | item i => i.unknownHead?
  | _ => none

/-- What is said against a section that is not known. -/
def unknownSection (table : LineTable) (head : Lexeme) : Diagnostic :=
  .ofLexeme table head "section keyword"

/-- Everything that is not said where unknown sections are skipped. -/
def silenced (text : String) : List Diagnostic :=
  ((topLevel text).filterMap Item.unknownHead?).map (unknownSection (.ofText text))

section Events
variable {text : String} {es : List Event}

theorem Course.unknownHeads_eq (h : Course (scan text) es) :
    es.filterMap Event.unknownHead? = (topLevel text).filterMap Item.unknownHead? := by
  rw [topLevel, ← h.items_eq, List.filterMap_filterMap]
  refine List.filterMap_congr fun e _ => ?_
  cases e <;> rfl

private theorem Event.mem_lexemes_of_unknownHead? {e : Event} {l : Lexeme}
    (h : e.unknownHead? = some l) :
    l ∈ e.lexemes := by
  cases e with
  | item i =>
    cases i with
    | group g =>
      obtain ⟨hhead, -⟩ := Option.filter_eq_some_iff.1 h
      exact List.mem_of_getElem? hhead
    | stray l' => cases h
  | _ => cases h

private theorem eq_of_ofLexeme_eq {l l' : Lexeme} (hl : l ∈ lexemes text) (hl' : l' ∈ lexemes text)
    {expected expected' : String}
    (h : Diagnostic.ofLexeme (.ofText text) l expected = .ofLexeme (.ofText text) l' expected') :
    l = l' := by
  have hplace := congrArg (Span.start ∘ Diagnostic.span) h
  have hstart := LineTable.position_injective (start_le_size_of_mem_lexemes hl)
    (start_le_size_of_mem_lexemes hl') hplace
  exact List.inj_on_of_nodup_map (nodup_starts_lexemes text) hl hl' hstart

private theorem exists_lexeme_of_mem_silenced {d : Diagnostic} (hd : d ∈ silenced text) :
    ∃ l, d = unknownSection (.ofText text) l := by
  obtain ⟨l, -, rfl⟩ := List.mem_map.1 hd
  exact ⟨l, rfl⟩

private theorem ofStray_not_mem_silenced (table : LineTable) (s : Stray) :
    Diagnostic.ofStray table s ∉ silenced text := by
  intro hmem
  obtain ⟨l, hl⟩ := exists_lexeme_of_mem_silenced hmem
  cases hl

private theorem atEnd_not_mem_silenced (expected : String) (place : Span) :
    Diagnostic.atEnd expected place ∉ silenced text := by
  intro hmem
  obtain ⟨l, hl⟩ := exists_lexeme_of_mem_silenced hmem
  have hquote := congrArg String.toList (Diagnostic.unexpected.inj hl).1
  simp at hquote

private theorem unknownSection_mem_silenced (h : Course (scan text) es) {e : Event} (he : e ∈ es)
    {l : Lexeme} (hl : e.unknownHead? = some l) :
    unknownSection (.ofText text) l ∈ silenced text := by
  rw [silenced, ← h.unknownHeads_eq]
  exact List.mem_map_of_mem (List.mem_filterMap.2 ⟨e, he, hl⟩)

/-- What is said of the lexemes of any other event is not silenced. -/
private theorem ofLexeme_not_mem_silenced (h : Course (scan text) es) {e : Event} (he : e ∈ es)
    (hknown : e.unknownHead? = none) {l : Lexeme} (hl : l ∈ e.lexemes) (expected : String) :
    Diagnostic.ofLexeme (.ofText text) l expected ∉ silenced text := by
  intro hmem
  rw [silenced, ← h.unknownHeads_eq] at hmem
  obtain ⟨head, hhead, hsaid⟩ := List.mem_map.1 hmem
  obtain ⟨e', he', hhead⟩ := List.mem_filterMap.1 hhead
  have hin {e : Event} (he : e ∈ es) {l : Lexeme} (hl : l ∈ e.lexemes) : l ∈ lexemes text :=
    h.lexemes_sublist.subset (List.mem_flatMap.2 ⟨e, he, hl⟩)
  have hheadMem := Event.mem_lexemes_of_unknownHead? hhead
  -- The lexeme would be the head of another event, but no lexeme is met twice.
  obtain rfl := eq_of_ofLexeme_eq (hin he' hheadMem) (hin he hl) hsaid
  have hne : e ≠ e' := by
    rintro rfl
    rw [hknown] at hhead
    cases hhead
  have hnodup : (es.flatMap Event.lexemes).Nodup :=
    ((nodup_starts_lexemes text).of_map _).sublist h.lexemes_sublist
  have hsymm : Std.Symm (Function.onFun List.Disjoint Event.lexemes) := ⟨fun _ _ h => h.symm⟩
  exact (List.nodup_flatMap.1 hnodup).2.forall he he' hne hl hheadMem

end Events

private theorem Token.exists_keyword {t : Token} (h : t.isKeyword = true) :
    ∃ word, t = .keyword word := by
  cases t with
  | keyword word => exact ⟨word, rfl⟩
  | _ => cases h

namespace Progress
variable {f f' : Frame} {p p' : Progress} {e : Event}

private theorem act_of_unknownHead? {l : Lexeme} (h : e.unknownHead? = some l) (p : Progress) :
    p.act f e =
      if f.settings.skipUnknownSections then p else p.report (unknownSection f.table l) := by
  cases e with
  | item i =>
    cases i with
    | group g =>
      obtain ⟨hhead, hkeyword⟩ := Option.filter_eq_some_iff.1 h
      obtain ⟨word, hword⟩ := Token.exists_keyword hkeyword
      rw [act, addSection, hhead]
      simp only [hword, Rank.ofToken?, skips]
      rfl
    | stray l' => cases h
  | _ => cases h

private theorem skips_of_unknownHead? {s s' : Settings} (h : e.unknownHead? = none) {g : Group}
    (he : e = .item (.group g)) {head : Lexeme} (hhead : head ∈ g.head?) :
    skips s' head.token = skips s head.token := by
  subst he
  have hknown : head.token.isKeyword = false := by
    have hnone := Option.filter_eq_none_iff.1 h head hhead
    simpa using hnone
  cases htoken : head.token with
  | keyword word =>
    rw [htoken] at hknown
    cases hknown
  | _ => rfl

section Skipping
variable (root : String) {text : String} {limit : Nat} {es : List Event} {dropped : List Diagnostic}

/-- One event under both settings. What is said of an unknown section is said by the first reading
only. -/
private theorem InStep.act_skipping (hcourse : Course (scan text) es) (he : e ∈ es)
    (h : InStep (Told limit limit (Sifted (· ∈ silenced text) dropped)) p p') :
    InStep (Told limit limit (Sifted (· ∈ silenced text)
        (dropped ++ e.unknownHead?.toList.map (unknownSection (.ofText text)))))
      (p.act ⟨⟨root, false, limit⟩, .ofText text⟩ e)
      (p'.act ⟨⟨root, true, limit⟩, .ofText text⟩ e) := by
  cases hhead : e.unknownHead? with
  | some l =>
    rw [act_of_unknownHead? hhead, act_of_unknownHead? hhead, if_neg (by simp), if_pos rfl]
    have hdrop := h.told.drop (decide_eq_true (unknownSection_mem_silenced hcourse he hhead))
    exact ⟨h.domain_eq, h.lastRank_eq, hdrop⟩
  | none =>
    -- The settings decide nothing here, and both readings report the same of the same lexemes.
    have hf : Frame.Matches ⟨⟨root, false, limit⟩, .ofText text⟩ ⟨⟨root, true, limit⟩, .ofText text⟩
        (fun l l' => l' = l ∧ l ∈ e.lexemes)
        (Told limit limit (Sifted (· ∈ silenced text) dropped)) := by
      refine Frame.matches_of_keeps rfl rfl And.left (fun hl expected => ?_)
        fun expected place => ?_
      · exact Sifted.goesWith
          (decide_eq_false (ofLexeme_not_mem_silenced hcourse he hhead hl.2 expected))
      · exact Sifted.goesWith (decide_eq_false (atEnd_not_mem_silenced expected place))
    rw [Option.toList_none, List.map_nil, List.append_nil]
    exact h.act_self hf
      (fun s => Sifted.goesWith (decide_eq_false (ofStray_not_mem_silenced _ s)))
      (fun l hl => ⟨rfl, hl⟩) fun g hg head hmem => skips_of_unknownHead? hhead hg hmem

private theorem InStep.foldl_act_skipping (hcourse : Course (scan text) es) {later : List Event}
    (hlater : later ⊆ es)
    (h : InStep (Told limit limit (Sifted (· ∈ silenced text) dropped)) p p') :
    InStep (Told limit limit (Sifted (· ∈ silenced text)
        (dropped ++ (later.filterMap Event.unknownHead?).map (unknownSection (.ofText text)))))
      (later.foldl (Progress.act ⟨⟨root, false, limit⟩, .ofText text⟩) p)
      (later.foldl (Progress.act ⟨⟨root, true, limit⟩, .ofText text⟩) p') := by
  induction later generalizing p p' dropped with
  | nil => simpa using h
  | cons e later ih =>
    obtain ⟨he, hlater⟩ := List.cons_subset.1 hlater
    have hheads : (e :: later).filterMap Event.unknownHead? =
        e.unknownHead?.toList ++ later.filterMap Event.unknownHead? := by
      cases hhead : e.unknownHead? <;> simp [hhead]
    rw [hheads, List.map_append, ← List.append_assoc]
    exact ih hlater (act_skipping root hcourse he h)

end Skipping
end Progress

private theorem readDomain_skipping (root : String) (limit : Nat) (text : String) :
    (readDomain ⟨root, true, limit⟩ text).domain = (readDomain ⟨root, false, limit⟩ text).domain ∧
      Told limit limit (Sifted (· ∈ silenced text) (silenced text))
        (readDomain ⟨root, false, limit⟩ text).log (readDomain ⟨root, true, limit⟩ text).log := by
  obtain ⟨es, hcourse⟩ := exists_course (scan text)
  have hstart : Progress.InStep (Told limit limit (Sifted (· ∈ silenced text) []))
      (.start ⟨root, false, limit⟩) (.start ⟨root, true, limit⟩) :=
    Told.start ⟨root, false, limit⟩ ⟨root, true, limit⟩ ⟨rfl, rfl⟩
  have hend := hstart.foldl_act_skipping root hcourse (List.Subset.refl es)
  rw [List.nil_append, hcourse.unknownHeads_eq] at hend
  rw [readDomain_eq_foldl hcourse, readDomain_eq_foldl hcourse]
  exact ⟨hend.domain_eq, hend.told⟩

/-- Skipping unknown sections leaves the domain as it is. Of the diagnostics, exactly those at the
heads of unknown sections are gone, and the others are the same in the same order. -/
theorem skipping_only_silences (root : String) (maxErrors : Nat) (text : String) :
    let strict : Settings := ⟨root, false, maxErrors⟩
    let lenient : Settings := ⟨root, true, maxErrors⟩
    (readDomain lenient text).domain = (readDomain strict text).domain ∧
      diagnostics lenient text = (diagnostics strict text).filter (· ∉ silenced text) ∧
      (diagnostics strict text).filter (· ∈ silenced text) = silenced text ∧
      ((readDomain strict text).log.total ≤ maxErrors →
        (readDomain lenient text).log.recorded =
            (readDomain strict text).log.recorded.filter (· ∉ silenced text) ∧
          (readDomain strict text).log.recorded.filter (· ∈ silenced text) = silenced text) := by
  intro strict lenient
  have hsifted : Sifted (· ∈ silenced text) (silenced text) (diagnostics strict text)
      (diagnostics lenient text) := by
    refine Told.related_of_forall fun limit => ?_
    rw [← log_limit, ← log_limit]
    exact (readDomain_skipping root limit text).2
  have hkept : diagnostics lenient text = (diagnostics strict text).filter (· ∉ silenced text) := by
    simpa using hsifted.1
  refine ⟨(readDomain_skipping root maxErrors text).1, hkept, hsifted.2, fun hroom => ?_⟩
  have hroom' : (readDomain lenient text).log.total ≤ maxErrors := by
    have hle := List.length_filter_le (· ∉ silenced text) (diagnostics strict text)
    rw [← hkept, length_diagnostics, length_diagnostics] at hle
    exact Nat.le_trans hle hroom
  have hstrict : (readDomain strict text).log.recorded = diagnostics strict text :=
    recorded_eq_diagnostics hroom
  have hlenient : (readDomain lenient text).log.recorded = diagnostics lenient text :=
    recorded_eq_diagnostics hroom'
  rw [hstrict, hlenient]
  exact ⟨hkept, hsifted.2⟩

/-- Two unknown sections, one of them cut off, among other faults. -/
theorem skipping_only_silences_actions :
    let text := "(define (domain d) (:action a) x (:types t $) (:requirements :r) (:action b"
    let strict : Settings := ⟨"object", false, 100⟩
    let lenient : Settings := ⟨"object", true, 100⟩
    (readDomain strict text).log.total = 5 ∧ (silenced text).length = 2 ∧
      (readDomain lenient text).domain = (readDomain strict text).domain ∧
      (readDomain lenient text).log.recorded =
        (readDomain strict text).log.recorded.filter (· ∉ silenced text) := by
  intro text strict lenient
  have htotal : (readDomain strict text).log.total = 5 := by decide +kernel
  obtain ⟨hdomain, -, -, hrecorded⟩ := skipping_only_silences "object" 100 text
  exact ⟨htotal, by decide +kernel, hdomain, (hrecorded (htotal ▸ by decide)).1⟩

end PlanningDomain
