import PlanningDomain.Proofs.Reading.Growth
import PlanningDomain.Proofs.Reading.ScanFaults
import PlanningDomain.Proofs.Token.Continued
import PlanningDomain.Proofs.Token.Partition

/-! A text that goes on behind whole groups. Main statement: what was recognised in such a text, and
what was reported except for its end, is recognised and reported in every longer text. -/
namespace PlanningDomain

open Grammar
open Progress (takeHeader)

def Lexeme.Within (size : Nat) (l : Lexeme) : Prop :=
  l.range.start ≤ size ∧ l.range.stop ≤ size

/-- An event that depends on the first bytes of a text only. -/
def Event.Within (size : Nat) : Event → Prop
  | strays ss => ∀ s ∈ ss, s.range.stop ≤ size
  | header ls => ls ≠ [] ∧ ∀ l ∈ ls, l.Within size
  | item (.stray l) => l.Within size
  | item (.group g) => g.Proper ∧ g.closed = true ∧ ∀ l ∈ g.lexemes, l.Within size
  | extra l => l.Within size
  | ended _ => False

section Agreement
variable {s : Settings} {t t' : LineTable} {size : Nat}
  (hagree : ∀ offset ≤ size, t'.position offset = t.position offset)
include hagree

private theorem Diagnostic.ofLexeme_congr {l : Lexeme} (hl : l.Within size) (expected : String) :
    Diagnostic.ofLexeme t' l expected = .ofLexeme t l expected := by
  simp only [ofLexeme, LineTable.span, hagree _ hl.1, hagree _ hl.2]

private theorem Diagnostic.ofStray_congr {x : Stray} (hx : x.range.stop ≤ size) :
    Diagnostic.ofStray t' x = .ofStray t x := by
  have hstart : x.range.start ≤ size := Nat.le_trans (Nat.le_add_right ..) hx
  simp only [ofStray, LineTable.span, hagree _ hstart, hagree _ hx]

namespace Progress

private theorem endOf_congr {ls : List Lexeme} (hne : ls ≠ []) (hls : ∀ l ∈ ls, l.Within size) :
    endOf ⟨s, t'⟩ ls = endOf ⟨s, t⟩ ls := by
  have hlast := List.getLast?_eq_some_getLast hne
  simp only [endOf, hlast, hagree _ (hls _ (List.getLast_mem hne)).2]

private theorem addFrom_congr {α : Type} {r : Reader α} {add : Domain → α → Domain}
    {ls : List Lexeme} (hls : ∀ l ∈ ls, l.Within size) (context : String) (place : Span)
    (p : Progress) :
    p.addFrom ⟨s, t'⟩ r add context ls place = p.addFrom ⟨s, t⟩ r add context ls place := by
  rw [addFrom, addFrom]
  split
  · rfl
  · rename_i why _
    rw [reportFailure, reportFailure]
    split
    · rename_i l hl
      have hmem : l ∈ ls := List.mem_of_mem_drop (List.mem_of_mem_head? hl)
      rw [reportLexeme, reportLexeme, Diagnostic.ofLexeme_congr hagree (hls l hmem)]
    · rfl

private theorem addGroup_congr {α : Type} {r : Reader α} {add : Domain → α → Domain} {g : Group}
    (hg : g.Proper) (hclosed : g.closed = true) (hls : ∀ l ∈ g.lexemes, l.Within size)
    (context : String) (p : Progress) :
    p.addGroup ⟨s, t'⟩ r add context g = p.addGroup ⟨s, t⟩ r add context g := by
  have hne : g.lexemes ≠ [] := by
    cases hg <;> simp
  rw [addGroup, addGroup, if_pos hclosed, if_pos hclosed, endOf_congr hagree hne hls,
    addFrom_congr hagree hls]

private theorem predicateItem_congr {i : Item} (hproper : ∀ g, i = .group g → g.Proper)
    (hi : i.Whole) (hls : ∀ l ∈ i.lexemes, l.Within size) (p : Progress) :
    p.predicateItem ⟨s, t'⟩ i = p.predicateItem ⟨s, t⟩ i := by
  cases i with
  | stray l =>
    have hl : l.Within size := hls l (by simp [Item.lexemes])
    rw [predicateItem, predicateItem, reportLexeme, reportLexeme,
      Diagnostic.ofLexeme_congr hagree hl]
  | group g =>
    have hadd {α : Type} {r : Reader α} {add : Domain → α → Domain} (context : String) :
        p.addGroup ⟨s, t'⟩ r add context g = p.addGroup ⟨s, t⟩ r add context g :=
      addGroup_congr hagree (hproper g rfl) hi hls context p
    rw [predicateItem, predicateItem]
    split
    · rename_i head hhead
      have hl : head.Within size := hls head (List.mem_of_getElem? hhead)
      rw [reportLexeme, reportLexeme, Diagnostic.ofLexeme_congr hagree hl, hadd]
    · exact hadd _

private theorem predicatesSection_congr {g : Group} (hclosed : g.closed = true)
    (hbody : Balanced (g.body.map Lexeme.token)) (hls : ∀ l ∈ g.lexemes, l.Within size)
    (p : Progress) : p.predicatesSection ⟨s, t'⟩ g = p.predicatesSection ⟨s, t⟩ g := by
  have hsplits := splits_splitItems g.body
  rw [predicatesSection, predicatesSection, if_pos hclosed, if_pos hclosed]
  refine List.foldl_ext _ _ p fun p i hi => predicateItem_congr hagree ?_ ?_ ?_ p
  · rintro g rfl
    exact hsplits.proper hi
  · exact hsplits.balanced_iff_whole.1 hbody i hi
  · intro l hl
    have hmem : l ∈ (splitItems g.body).flatMap Item.lexemes := List.mem_flatMap.2 ⟨i, hi, hl⟩
    rw [flatMap_lexemes_splitItems] at hmem
    exact hls l (g.body_sublist.subset hmem)

private theorem sectionBody_congr {g : Group} {head : Token} (hg : g.Proper)
    (hclosed : g.closed = true) (hhead : g.tokens[1]? = some head)
    (hls : ∀ l ∈ g.lexemes, l.Within size) (p : Progress) :
    p.sectionBody ⟨s, t'⟩ head g = p.sectionBody ⟨s, t⟩ head g := by
  cases head with
  | requirements | types | task | method => exact addGroup_congr hagree hg hclosed hls _ p
  | predicates =>
    exact predicatesSection_congr hagree hclosed
      (hg.balanced_body hclosed hhead (by simp) (by simp)) hls p
  | _ => rfl

private theorem addSection_congr {g : Group} (hg : g.Proper) (hclosed : g.closed = true)
    (hls : ∀ l ∈ g.lexemes, l.Within size) (p : Progress) :
    p.addSection ⟨s, t'⟩ g = p.addSection ⟨s, t⟩ g := by
  have hsecond := g.head?_map_token
  obtain ⟨head, hhead⟩ : ∃ head, g.head? = some head := by
    cases hg with
    | @closed l r inner =>
      cases inner with
      | nil => exact ⟨r, rfl⟩
      | cons head inner => exact ⟨head, rfl⟩
    | unclosed => cases hclosed
  have hl : head.Within size := hls head (List.mem_of_getElem? hhead)
  rw [hhead, Option.map_some] at hsecond
  simp only [addSection, hhead, rankedSection, reportLexeme, Diagnostic.ofLexeme_congr hagree hl,
    sectionBody_congr hagree hg hclosed hsecond.symm hls]

private theorem act_congr {e : Event} (he : e.Within size) (p : Progress) :
    p.act ⟨s, t'⟩ e = p.act ⟨s, t⟩ e := by
  cases e with
  | strays ss =>
    have hss : ss.map (Diagnostic.ofStray t') = ss.map (.ofStray t) :=
      List.map_congr_left fun x hx => Diagnostic.ofStray_congr hagree (he x hx)
    rw [act, act, reportStrays, reportStrays, hss]
  | header ls =>
    obtain ⟨hne, hls⟩ := he
    rw [act, act, endOf_congr hagree hne hls, addFrom_congr hagree hls]
  | item i =>
    cases i with
    | stray l => rw [act, act, reportLexeme, reportLexeme, Diagnostic.ofLexeme_congr hagree he]
    | group g => exact addSection_congr hagree he.1 he.2.1 he.2.2 p
  | extra l => rw [act, act, reportLexeme, reportLexeme, Diagnostic.ofLexeme_congr hagree he]
  | ended expected => cases he

end Progress
end Agreement

section Courses
variable {items : List Scanned} {es : List Event} {size : Nat}

def ScannedWithin (size : Nat) (items : List Scanned) : Prop :=
  ∀ x ∈ items, x.range.start ≤ size ∧ x.range.stop ≤ size

namespace ScannedWithin

private theorem sublist {more : List Scanned} (h : ScannedWithin size more)
    (hsub : items.Sublist more) : ScannedWithin size items :=
  fun x hx => h x (hsub.subset hx)

private theorem lexemes (h : ScannedWithin size items) :
    ∀ l ∈ items.filterMap Scanned.lexeme?, l.Within size := by
  intro l hl
  obtain ⟨x, hx, hxl⟩ := List.mem_filterMap.1 hl
  cases x with
  | lexeme l' =>
    obtain rfl := Option.some.inj hxl
    exact h _ hx
  | stray s => cases hxl

private theorem strays (h : ScannedWithin size items) :
    ∀ s ∈ items.filterMap Scanned.stray?, s.range.stop ≤ size := by
  intro s hs
  obtain ⟨x, hx, hxs⟩ := List.mem_filterMap.1 hs
  cases x with
  | lexeme l => cases hxs
  | stray s' =>
    obtain rfl := Option.some.inj hxs
    exact (h _ hx).2

end ScannedWithin

private theorem filterMap_token?_lexeme (l : Lexeme) (rest : List Scanned) :
    (Scanned.lexeme l :: rest).filterMap Scanned.token? =
      l.token :: rest.filterMap Scanned.token? := rfl

/-- Behind whole groups and other tokens, the text is over, or else goes on with what follows. -/
private theorem BodyCourse.goes_on (h : BodyCourse items es)
    (hbalanced : Balanced (items.filterMap Scanned.token?)) (hitems : ScannedWithin size items) :
    ∃ front, es = front ++ [.ended "')' closing the domain"] ∧ (∀ e ∈ front, e.Within size) ∧
      ∀ {more later}, BodyCourse more later → BodyCourse (items ++ more) (front ++ later) := by
  induction h with
  | ended => exact ⟨[], rfl, by simp, fun h => h⟩
  | @close l rest hl =>
    rw [filterMap_token?_lexeme, hl] at hbalanced
    exact absurd hbalanced Balanced.not_closeParen_cons
  | @stray s rest es _ ih =>
    obtain ⟨front, rfl, hfront, hmore⟩ := ih hbalanced (hitems.sublist (List.sublist_cons_self ..))
    have hs : ∀ x ∈ [s], x.range.stop ≤ size :=
      List.forall_mem_singleton.2 (hitems _ List.mem_cons_self).2
    exact ⟨.strays [s] :: front, rfl, List.forall_mem_cons.2 ⟨hs, hfront⟩,
      fun h => .stray s (hmore h)⟩
  | @token l rest es ho hc _ ih =>
    rw [filterMap_token?_lexeme, Balanced.cons_iff ho hc] at hbalanced
    obtain ⟨front, rfl, hfront, hmore⟩ := ih hbalanced (hitems.sublist (List.sublist_cons_self ..))
    exact ⟨.item (.stray l) :: front, rfl,
      List.forall_mem_cons.2 ⟨hitems _ List.mem_cons_self, hfront⟩, fun h => .token ho hc (hmore h)⟩
  | @group l r inner rest es hl hr hinner _ ih =>
    have htokens : (Scanned.lexeme l :: (inner ++ .lexeme r :: rest)).filterMap Scanned.token? =
        enclosed (inner.filterMap Scanned.token?) ++ rest.filterMap Scanned.token? := by
      simp [enclosed, filterMap_token?_lexeme, hl, hr]
    rw [htokens, hinner.enclosed_append_iff] at hbalanced
    have hgroup : (Scanned.lexeme l :: (inner ++ [.lexeme r])).Sublist
        (.lexeme l :: (inner ++ .lexeme r :: rest)) := by simp
    have hrest : rest.Sublist (.lexeme l :: (inner ++ .lexeme r :: rest)) :=
      List.IsSuffix.sublist ⟨.lexeme l :: (inner ++ [.lexeme r]), by simp⟩
    obtain ⟨front, rfl, hfront, hmore⟩ := ih hbalanced (hitems.sublist hrest)
    refine ⟨_ :: _ :: front, rfl, ?_, fun h => ?_⟩
    · refine List.forall_mem_cons.2 ⟨?_, List.forall_mem_cons.2 ⟨⟨?_, rfl, ?_⟩, hfront⟩⟩
      · exact (hitems.sublist (by simp)).strays
      · exact .closed hl hr (Scanned.filterMap_token? _ ▸ hinner)
      · simpa using (hitems.sublist hgroup).lexemes
    · rw [List.cons_append, List.append_assoc, List.cons_append]
      exact .group hl hr hinner (hmore h)
  | @cutOff l rest hl hopen =>
    rw [filterMap_token?_lexeme, hl] at hbalanced
    exact absurd hbalanced (Balanced.not_openParen_cons hopen)

private theorem takeHeader_append_of_mem (h : ∃ x ∈ items, x.token? = some .closeParen)
    (more : List Scanned) :
    takeHeader (items ++ more) = ((takeHeader items).1, (takeHeader items).2 ++ more) := by
  induction items with
  | nil => simp at h
  | cons item items ih =>
    by_cases hclose : item.token? = some .closeParen
    · simp [takeHeader, hclose]
    · have hitems : ∃ x ∈ items, x.token? = some .closeParen := by
        simpa [hclose] using h
      simp [takeHeader, hclose, ih hitems]

private theorem Course.goes_on (h : Course items es)
    (hclose : ∃ x ∈ items, x.token? = some .closeParen)
    (hbalanced : Balanced ((takeHeader items).2.filterMap Scanned.token?))
    (hitems : ScannedWithin size items) :
    ∃ front, es = front ++ [.ended "')' closing the domain"] ∧ (∀ e ∈ front, e.Within size) ∧
      ∀ more, ∃ later, Course (items ++ more) (front ++ later) ∧
        ∀ e ∈ later, e.isHeader = false := by
  have happend := Progress.takeHeader_append items
  cases h with
  | blank hblank =>
    obtain ⟨x, hx, hxclose⟩ := hclose
    obtain ⟨l, rfl, -⟩ := Scanned.eq_lexeme_of_token? hxclose
    rw [Progress.takeHeader_rest_eq_nil hblank, List.append_nil] at happend
    have hmem : .lexeme l ∈ (takeHeader items).1 := by rwa [happend]
    cases List.filterMap_eq_nil_iff.1 hblank _ hmem
  | headed hne hbody =>
    have hheader : ScannedWithin size (takeHeader items).1 :=
      hitems.sublist (List.IsPrefix.sublist ⟨_, happend⟩)
    have hrest : ScannedWithin size (takeHeader items).2 :=
      hitems.sublist (List.IsSuffix.sublist ⟨_, happend⟩)
    obtain ⟨front, rfl, hfront, hmore⟩ := hbody.goes_on hbalanced hrest
    refine ⟨_ :: _ :: front, rfl, ?_, fun more => ?_⟩
    · exact List.forall_mem_cons.2 ⟨hheader.strays,
        List.forall_mem_cons.2 ⟨⟨hne, hheader.lexemes⟩, hfront⟩⟩
    · have hlater := bodyCourse_eventsOfBody more
      have htake := takeHeader_append_of_mem hclose more
      have hcourse : Course (items ++ more) _ :=
        .headed (by rwa [htake]) (by rw [htake]; exact hmore hlater)
      rw [htake] at hcourse
      exact ⟨_, hcourse, fun e he => hlater.isHeader_eq_false he⟩

/-- A text of whole groups is read in the same course as one that goes on with it, up to its end. -/
private theorem exists_course_append {text : String} (hend : EndsInCloseParen text)
    (hwhole : ∀ i ∈ splitItems ((takeHeader (scan text)).2.filterMap Scanned.lexeme?), i.Whole)
    (more : String) :
    ∃ front later, Course (scan text) (front ++ [.ended "')' closing the domain"]) ∧
      Course (scan (text ++ more)) (front ++ later) ∧
      (∀ e ∈ front, e.Within (byteLength text.toList)) ∧ ∀ e ∈ later, e.isHeader = false := by
  have hclose : ∃ x ∈ scan text, x.token? = some .closeParen := by
    obtain ⟨l, hmem, hl, -⟩ := hend
    exact ⟨_, hmem, congrArg some hl⟩
  have hbalanced : Balanced ((takeHeader (scan text)).2.filterMap Scanned.token?) := by
    rw [Scanned.filterMap_token?]
    exact (splits_splitItems _).balanced_iff_whole.2 hwhole
  have hitems : ScannedWithin (byteLength text.toList) (scan text) := by
    intro x hx
    have := (standsIn_of_mem_scan hx).range_lt
    omega
  obtain ⟨es, hcourse⟩ := exists_course (scan text)
  obtain ⟨front, rfl, hfront, hmore⟩ := hcourse.goes_on hclose hbalanced hitems
  obtain ⟨later, hlater, hheader⟩ := hmore (scanFrom (byteLength text.toList) more.toList)
  rw [← scan_append hend] at hlater
  exact ⟨front, later, hcourse, hlater, hfront, hheader⟩

end Courses

/-- Behind a text of whole groups, more text takes nothing back: the domain has all that it had, and
everything that was reported, except for the end, is reported at the same places. -/
theorem keeps_what_was_recognised (s : Settings) {text : String} (hend : EndsInCloseParen text)
    (hwhole : ∀ i ∈ splitItems ((takeHeader (scan text)).2.filterMap Scanned.lexeme?), i.Whole)
    (more : String) :
    (readDomain s text).domain.PartOf (readDomain s (text ++ more)).domain ∧
      ∃ ds es,
        (readDomain s text).log = (DiagnosticLog.empty s.maxErrors).reportAll
          (ds ++ [.atEnd "')' closing the domain" (LineTable.ofText text).endPoint]) ∧
        (readDomain s (text ++ more)).log =
          (DiagnosticLog.empty s.maxErrors).reportAll (ds ++ es) ∧
        ((readDomain s text).log.total ≤ s.maxErrors →
          (readDomain s text).log.recorded =
              ds ++ [.atEnd "')' closing the domain" (LineTable.ofText text).endPoint] ∧
            ds <+: (readDomain s (text ++ more)).log.recorded) := by
  let f : Frame := ⟨s, .ofText text⟩
  let f' : Frame := ⟨s, .ofText (text ++ more)⟩
  obtain ⟨front, later, hcourse, hlater, hfront, hheader⟩ := exists_course_append hend hwhole more
  have hagree : ∀ offset ≤ byteLength text.toList,
      (LineTable.ofText (text ++ more)).position offset =
        (LineTable.ofText text).position offset := by
    intro offset h
    rw [LineTable.ofText, String.toList_append]
    exact LineTable.position_append h _
  -- The events that both texts share lead to the same state.
  have hshared : front.foldl (Progress.act f') (.start s) =
      front.foldl (Progress.act f) (.start s) :=
    List.foldl_ext _ _ _ fun p e he => Progress.act_congr hagree (hfront e he) p
  obtain ⟨ds, hds, -⟩ := Progress.Finds.events f (.start s) front
  obtain ⟨es, hes, -⟩ := Progress.Finds.events f' (front.foldl (Progress.act f) (.start s)) later
  have hread : readDomain s text =
      ((front.foldl (Progress.act f) (.start s)).reportEnd f "')' closing the domain").reading := by
    rw [readDomain_eq_foldl hcourse, List.foldl_append]
    rfl
  have hread' : readDomain s (text ++ more) =
      (later.foldl (Progress.act f') (front.foldl (Progress.act f) (.start s))).reading := by
    rw [readDomain_eq_foldl hlater, List.foldl_append, hshared]
  have hlog : (readDomain s text).log = (DiagnosticLog.empty s.maxErrors).reportAll
      (ds ++ [.atEnd "')' closing the domain" (LineTable.ofText text).endPoint]) := by
    rw [hread, DiagnosticLog.reportAll_append]
    exact congrArg (DiagnosticLog.report · _) hds
  have hlog' : (readDomain s (text ++ more)).log =
      (DiagnosticLog.empty s.maxErrors).reportAll (ds ++ es) := by
    rw [hread', DiagnosticLog.reportAll_append]
    exact hes.trans (congrArg (DiagnosticLog.reportAll · es) hds)
  refine ⟨?_, ds, es, hlog, hlog', fun hroom => ?_⟩
  · rw [hread, hread']
    exact Progress.foldl_act_grows (Progress.foldl_act_typesSettled (.inl rfl) front) hheader
  · rw [hlog, DiagnosticLog.total_empty_reportAll] at hroom
    have hfits : ds.length ≤ s.maxErrors := by
      rw [List.length_append] at hroom
      omega
    rw [hlog, hlog', DiagnosticLog.recorded_empty_reportAll, List.take_of_length_le hroom,
      DiagnosticLog.recorded_empty_reportAll_append hfits]
    exact ⟨rfl, List.prefix_append ..⟩

/-- The type keeps its first parent, whatever a second section of types says. -/
theorem keeps_what_was_recognised_types :
    let text := "(define (domain d) x (:types a - b)"
    let more := " (:types a - c) (:task t :parameters ()))"
    EndsInCloseParen text ∧
      (∀ i ∈ splitItems ((takeHeader (scan text)).2.filterMap Scanned.lexeme?), i.Whole) ∧
      (readDomain .standard text).domain.PartOf (readDomain .standard (text ++ more)).domain ∧
      (readDomain .standard (text ++ more)).domain.types.get? "a" = some "b" := by
  intro text more
  have hend : EndsInCloseParen text :=
    ⟨⟨.closeParen, ")", ⟨34, 35⟩⟩, by decide +kernel, rfl, by decide +kernel⟩
  have hwhole : ∀ i ∈ splitItems ((takeHeader (scan text)).2.filterMap Scanned.lexeme?),
      i.Whole := by decide +kernel
  have hpart := (keeps_what_was_recognised .standard hend hwhole more).1
  exact ⟨hend, hwhole, hpart, hpart.types "a" "b" (by decide +kernel)⟩

end PlanningDomain
