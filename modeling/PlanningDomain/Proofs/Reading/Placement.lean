import PlanningDomain.Proofs.Reading.Along

/-! Where diagnostics point. Main statement: a diagnostic of the grammar quotes a token of the text,
or stands at the end of a text that ends within the part it is about; and these diagnostics come in
the order of their places. -/
namespace PlanningDomain

open Progress (takeHeader)

section Courses
variable {items : List Scanned} {es : List Event}

private theorem not_meetsEnd_of_mem_trailerEvents {e : Event} (he : e ∈ trailerEvents items) :
    ¬ e.MeetsEnd := by
  rcases mem_trailerEvents he with ⟨ss, rfl⟩ | ⟨l, rfl⟩ <;> exact id

private theorem BodyCourse.pairwise_not_meetsEnd (h : BodyCourse items es) :
    es.Pairwise fun e _ => ¬ e.MeetsEnd := by
  induction h with
  | ended => exact List.pairwise_singleton ..
  | close =>
    exact List.pairwise_of_forall_mem_list fun e he _ _ => not_meetsEnd_of_mem_trailerEvents he
  | stray s _ ih => exact .cons (fun _ _ => id) ih
  | token _ _ _ ih => exact .cons (fun _ _ => Bool.false_ne_true) ih
  | group _ _ _ _ ih => exact .cons (fun _ _ => id) (.cons (fun _ _ => Bool.false_ne_true) ih)
  | cutOff => exact .cons (fun _ _ => id) (List.pairwise_singleton ..)

private theorem BodyCourse.lexemes_eq_of_meetsEnd (h : BodyCourse items es) {e : Event}
    (he : e ∈ es) (hend : e.MeetsEnd) :
    es.flatMap Event.lexemes = items.filterMap Scanned.lexeme? := by
  induction h with
  | ended => rfl
  | close => exact absurd hend (not_meetsEnd_of_mem_trailerEvents he)
  | stray s _ ih =>
    rcases List.mem_cons.1 he with rfl | he
    · cases hend
    · exact ih he
  | token _ _ _ ih =>
    rcases List.mem_cons.1 he with rfl | he
    · cases hend
    · simp [Event.lexemes, Item.lexemes, ih he]
  | group _ _ _ _ ih =>
    simp only [List.mem_cons] at he
    rcases he with rfl | rfl | he
    · cases hend
    · cases hend
    · simp [Event.lexemes, Item.lexemes, ih he]
  | cutOff => simp [Event.lexemes, Item.lexemes]

private theorem Course.lexemes_eq_of_meetsEnd {before after : List Event} {e : Event}
    (h : Course items (before ++ e :: after)) (hend : e.MeetsEnd) :
    (before ++ [e]).flatMap Event.lexemes = items.filterMap Scanned.lexeme? := by
  have hitems := congrArg (List.filterMap Scanned.lexeme?) (Progress.takeHeader_append items)
  rw [List.filterMap_append] at hitems
  rw [← hitems]
  generalize hes : before ++ e :: after = es at h
  cases h with
  | blank hblank =>
    have hnone := congrArg (List.flatMap Event.lexemes) hes
    rw [List.append_cons, List.flatMap_append] at hnone
    rw [hblank, Progress.takeHeader_rest_eq_nil hblank]
    exact (List.append_eq_nil_iff.1 hnone).1
  | @headed es _ hbody =>
    rcases before with _ | ⟨b, _ | ⟨b', before⟩⟩
    · obtain ⟨rfl, -⟩ := List.cons.inj hes
      cases hend
    · obtain ⟨rfl, htail⟩ := List.cons.inj hes
      obtain ⟨rfl, -⟩ := List.cons.inj htail
      rw [Progress.takeHeader_rest_eq_nil_of_forall hend]
      simp [Event.lexemes]
    · obtain ⟨rfl, htail⟩ := List.cons.inj hes
      obtain ⟨rfl, rfl⟩ := List.cons.inj htail
      have hlast := (List.pairwise_append.1 hbody.pairwise_not_meetsEnd).2.1
      obtain rfl : after = [] := List.eq_nil_iff_forall_not_mem.2 fun e' he' =>
        (List.pairwise_cons.1 hlast).1 e' he' hend
      rw [← hbody.lexemes_eq_of_meetsEnd (by simp) hend]
      simp [Event.lexemes]

/-- The diagnostics of the grammar that some events report are said along their lexemes. -/
def SaysAlong (f : Frame) (mayEnd : Prop) (stop : Nat) (p : Progress) (es : List Event) : Prop :=
  ∃ ds, (es.foldl (Progress.act f) p).log = p.log.reportAll ds ∧
    Along f.table mayEnd stop (es.flatMap Event.lexemes) (ds.filter (!·.isScan))

namespace SaysAlong
variable {f : Frame} {mayEnd : Prop} {stop : Nat} {p : Progress} {e : Event}

private theorem last (he : e.Proper) (p : Progress) :
    SaysAlong f e.MeetsEnd (e.endOffset f.table.size) p [e] := by
  obtain ⟨ds, hlog, hreports⟩ := Progress.act_reports (f := f) he p
  refine ⟨ds, hlog, ?_⟩
  rw [List.flatMap_singleton]
  exact hreports.along he

private theorem mono {mayEnd' : Prop} (h : SaysAlong f mayEnd stop p es) (hend : mayEnd → mayEnd') :
    SaysAlong f mayEnd' stop p es := by
  obtain ⟨ds, hlog, halong⟩ := h
  exact ⟨ds, hlog, halong.mono hend⟩

private theorem cons (he : e.Proper) (hend : ¬ e.MeetsEnd)
    (h : SaysAlong f mayEnd stop (p.act f e) es) :
    SaysAlong f mayEnd stop p (e :: es) := by
  obtain ⟨ds, hlog, hreports⟩ := Progress.act_reports (f := f) he p
  obtain ⟨ds', hlog', halong⟩ := h
  refine ⟨ds ++ ds', ?_, ?_⟩
  · rw [List.foldl_cons, hlog', hlog, DiagnosticLog.reportAll_append]
  · rw [List.flatMap_cons, List.filter_append]
    exact (hreports.along he).append hend halong

private theorem exists_pairwise (h : SaysAlong f mayEnd stop p es)
    (hls : (es.flatMap Event.lexemes).Pairwise fun l l' => l.range.start ≤ l'.range.start)
    (hstop : ∀ l ∈ es.flatMap Event.lexemes, l.range.start ≤ stop) :
    ∃ ds, (es.foldl (Progress.act f) p).log = p.log.reportAll ds ∧
      (ds.filter (!·.isScan)).Pairwise Diagnostic.Precedes := by
  obtain ⟨ds, hlog, halong⟩ := h
  exact ⟨ds, hlog, halong.pairwise hls hstop⟩

end SaysAlong

/-- A body says everything along its lexemes, and only its last event may say that the text is
over. -/
private theorem BodyCourse.saysAlong (h : BodyCourse items es) (hproper : ∀ e ∈ es, e.Proper)
    (f : Frame) (p : Progress) : SaysAlong f True f.table.size p es := by
  have hheader := fun e he => h.isHeader_eq_false (e := e) he
  have hpairwise := h.pairwise_not_meetsEnd
  clear h
  induction es generalizing p with
  | nil => exact ⟨[], rfl, .done⟩
  | cons e es ih =>
    obtain ⟨he, hproper⟩ := List.forall_mem_cons.1 hproper
    obtain ⟨hename, hheader⟩ := List.forall_mem_cons.1 hheader
    obtain ⟨hfirst, hpairwise⟩ := List.pairwise_cons.1 hpairwise
    cases es with
    | nil =>
      have hstop : e.endOffset f.table.size = f.table.size := by
        cases e with
        | header ls => cases hename
        | _ => rfl
      exact hstop ▸ (SaysAlong.last he p).mono fun _ => trivial
    | cons e' es =>
      exact .cons he (hfirst e' List.mem_cons_self) (ih hproper _ hheader hpairwise)

/-- No lexeme of a header starts behind the end of the header. -/
private theorem start_le_endOffset {ls : List Lexeme} {size : Nat}
    (hls : ls.Pairwise fun l l' => l.range.start ≤ l'.range.start)
    (hrange : ∀ l ∈ ls, l.range.start ≤ l.range.stop) :
    ∀ l ∈ ls, l.range.start ≤ (Event.header ls).endOffset size := by
  rcases List.eq_nil_or_concat' ls with rfl | ⟨front, last, rfl⟩
  · simp
  · have hstop : (Event.header (front ++ [last])).endOffset size = last.range.stop := by
      simp [Event.endOffset]
    obtain ⟨-, -, hfront⟩ := List.pairwise_append.1 hls
    rw [hstop]
    intro l hl
    rcases List.mem_append.1 hl with hl | hl
    · exact Nat.le_trans (hfront l hl last (by simp)) (hrange last (by simp))
    · exact List.mem_singleton.1 hl ▸ hrange last (by simp)

/-- An open header is said to be over behind its last lexeme, and then the text behind all else. -/
private theorem exists_pairwise_of_openHeader {f : Frame} {ls : List Lexeme} (hne : ls ≠ [])
    (hls : ls.Pairwise fun l l' => l.range.start ≤ l'.range.start)
    (hrange : ∀ l ∈ ls, l.range.start ≤ l.range.stop) (ss : List Stray) (expected : String)
    (p : Progress) :
    ∃ ds, ([.strays ss, .header ls, .ended expected].foldl (Progress.act f) p).log =
        p.log.reportAll ds ∧ (ds.filter (!·.isScan)).Pairwise Diagnostic.Precedes := by
  obtain ⟨ds, hlog, halong⟩ : SaysAlong f (Event.header ls).MeetsEnd
      ((Event.header ls).endOffset f.table.size) p [.strays ss, .header ls] :=
    .cons trivial id (.last (e := .header ls) hne _)
  have hflat : [Event.strays ss, .header ls].flatMap Event.lexemes = ls := by
    simp [Event.lexemes]
  rw [hflat] at halong
  refine ⟨ds ++ [.atEnd expected f.table.endPoint], ?_, ?_⟩
  · rw [DiagnosticLog.reportAll_append]
    exact congrArg (DiagnosticLog.report · _) hlog
  · rw [List.filter_append, List.pairwise_append]
    refine ⟨halong.pairwise hls (start_le_endOffset hls hrange), List.pairwise_singleton ..,
      fun d hd d' hd' => ?_⟩
    obtain rfl : d' = .atEnd expected f.table.endPoint := List.mem_singleton.1 hd'
    rcases halong.of_mem hd with ⟨l, -, -, rfl⟩ | ⟨-, -, rfl⟩
    · exact f.table.order_endPosition_isLE l.range.start
    · exact f.table.order_endPosition_isLE _

private theorem Course.exists_pairwise {text : String} (h : Course (scan text) es) (s : Settings)
    (p : Progress) :
    ∃ ds, (es.foldl (Progress.act ⟨s, .ofText text⟩) p).log = p.log.reportAll ds ∧
      (ds.filter (!·.isScan)).Pairwise Diagnostic.Precedes := by
  have hsublist := h.lexemes_sublist
  have hsorted : (es.flatMap Event.lexemes).Pairwise fun l l' => l.range.start ≤ l'.range.start :=
    ((pairwise_start_lexemes text).imp Nat.le_of_lt).sublist hsublist
  have hsize : ∀ l ∈ es.flatMap Event.lexemes, l.range.start ≤ (LineTable.ofText text).size :=
    fun l hl => start_le_size_of_mem_lexemes (hsublist.subset hl)
  have hproper := fun e he => h.proper_event (e := e) he
  cases h with
  | blank =>
    have hlast (q : Progress) : SaysAlong ⟨s, .ofText text⟩ True (LineTable.ofText text).size q
        [.ended "'(define'"] := .last (e := .ended "'(define'") trivial q
    exact SaysAlong.exists_pairwise (.cons trivial id (hlast _)) hsorted hsize
  | headed hne hbody =>
    obtain ⟨-, hproper⟩ := List.forall_mem_cons.1 hproper
    obtain ⟨hheader, hproper⟩ := List.forall_mem_cons.1 hproper
    -- An open header is said to be over at a place of its own, anything else along the lexemes.
    by_cases hopen : (Event.header ((takeHeader (scan text)).1.filterMap Scanned.lexeme?)).MeetsEnd
    · have hlexemes : ∀ l ∈ (takeHeader (scan text)).1.filterMap Scanned.lexeme?,
          l ∈ lexemes text := fun l hl => hsublist.subset (by simp [Event.lexemes, hl])
      rw [Progress.takeHeader_rest_eq_nil_of_forall hopen] at hbody
      cases hbody
      refine exists_pairwise_of_openHeader hheader ?_ ?_ _ _ p
      · simpa [Event.lexemes] using hsorted
      · exact fun l hl => Nat.le_of_lt (range_lt_of_mem_lexemes (hlexemes l hl)).1
    · exact SaysAlong.exists_pairwise
        (.cons trivial id (.cons hheader hopen (hbody.saysAlong hproper _ _))) hsorted hsize

end Courses

private theorem Along.pointsInto {text : String} {before after : List Event} {e : Event}
    {ds : List Diagnostic} (hcourse : Course (scan text) (before ++ e :: after))
    (h : Along (.ofText text) e.MeetsEnd (e.endOffset (LineTable.ofText text).size) e.lexemes ds) :
    ∀ d ∈ ds, d.PointsInto text before e := by
  intro d hd
  rcases h.of_mem hd with ⟨l, hl, expected, rfl⟩ | ⟨hend, expected, rfl⟩
  · have hmem : l ∈ lexemes text :=
      hcourse.lexemes_sublist.subset (List.mem_flatMap.2 ⟨e, by simp, hl⟩)
    obtain ⟨x, hx, hxl⟩ := List.mem_filterMap.1 hmem
    cases x with
    | stray s => cases hxl
    | lexeme l' =>
      obtain rfl := Option.some.inj hxl
      cases standsIn_of_mem_scan hx with
      | lexeme htext hmatch => exact .lexeme hl hmem htext hmatch.rule.ne_nil rfl expected
  · exact .ended hend (hcourse.lexemes_eq_of_meetsEnd hend) expected

def Settings.withRoom (s : Settings) (text : String) : Settings :=
  { s with maxErrors := (readDomain s text).log.total }

/-- The state of a reading behind some of the events of its text, with room for every diagnostic. -/
def upTo (s : Settings) (text : String) (es : List Event) : Progress :=
  es.foldl (Progress.act ⟨s.withRoom text, .ofText text⟩) (.start (s.withRoom text))

section UpTo
variable (s : Settings) {text : String} {es before after : List Event} {e : Event}

theorem log_upTo (h : Course (scan text) es) :
    (upTo s text es).log =
      (DiagnosticLog.empty (s.withRoom text).maxErrors).reportAll (diagnostics s text) := by
  rw [← log_limit]
  exact (congrArg Reading.log (readDomain_eq_foldl h (s.withRoom text))).symm

private theorem recorded_upTo (h : Course (scan text) (before ++ after)) {ds : List Diagnostic}
    (hlog : (upTo s text before).log =
      (DiagnosticLog.empty (s.withRoom text).maxErrors).reportAll ds) :
    (upTo s text before).log.recorded = ds := by
  obtain ⟨rest, hrest, -⟩ :=
    Progress.Finds.events ⟨s.withRoom text, .ofText text⟩ (upTo s text before) after
  have htotal := congrArg DiagnosticLog.total (log_upTo s h)
  rw [upTo, List.foldl_append, ← upTo, hrest, hlog, DiagnosticLog.total_reportAll,
    DiagnosticLog.total_empty_reportAll, DiagnosticLog.total_empty_reportAll,
    length_diagnostics] at htotal
  have hroom : ds.length ≤ (s.withRoom text).maxErrors := by
    rw [Settings.withRoom, ← htotal]
    exact Nat.le_add_right ..
  rw [hlog, DiagnosticLog.recorded_empty_reportAll_of_le hroom]

private theorem recorded_upTo_concat (h : Course (scan text) (before ++ e :: after)) :
    ∃ ds, (upTo s text (before ++ [e])).log.recorded = (upTo s text before).log.recorded ++ ds ∧
      e.Reports (.ofText text) (upTo s text before).lastRank ds := by
  have he : e.Proper := h.proper_event (by simp)
  obtain ⟨xs, hbefore, -⟩ := Progress.Finds.events ⟨s.withRoom text, .ofText text⟩
    (.start (s.withRoom text)) before
  obtain ⟨ds, hlog, hreports⟩ :=
    Progress.act_reports (f := ⟨s.withRoom text, .ofText text⟩) he (upTo s text before)
  have hstep : (upTo s text (before ++ [e])).log =
      (DiagnosticLog.empty (s.withRoom text).maxErrors).reportAll (xs ++ ds) := by
    rw [upTo, List.foldl_concat, ← upTo, hlog, DiagnosticLog.reportAll_append]
    exact congrArg (DiagnosticLog.reportAll · ds) hbefore
  have hcourse : Course (scan text) ((before ++ [e]) ++ after) := by
    rwa [← List.append_cons]
  refine ⟨ds, ?_, hreports⟩
  rw [recorded_upTo s hcourse hstep, recorded_upTo s h hbefore]

end UpTo

/-- What is recorded are the first of all diagnostics, and these are what the events of the text
report, one after the other. Each event reports what is in order for it: of the grammar, diagnostics
that quote one of its tokens as the text has it, or that stand at the end of the text, if the text
ends within the event. All diagnostics of the grammar come in the order of their places. -/
theorem diagnostics_point_into_text (s : Settings) (text : String) :
    (readDomain s text).log.recorded = (diagnostics s text).take s.maxErrors ∧
    (∃ es, Course (scan text) es ∧ (upTo s text es).log.recorded = diagnostics s text ∧
      ∀ before e after, es = before ++ e :: after →
        ∃ ds,
          (upTo s text (before ++ [e])).log.recorded = (upTo s text before).log.recorded ++ ds ∧
          e.Reports (.ofText text) (upTo s text before).lastRank ds ∧
          ∀ d ∈ ds, d.isScan = false → d.PointsInto text before e) ∧
    ((diagnostics s text).filter (!·.isScan)).Pairwise Diagnostic.Precedes := by
  obtain ⟨es, hcourse⟩ := exists_course (scan text)
  refine ⟨recorded_eq_take_diagnostics s text, ⟨es, hcourse, ?_, ?_⟩, ?_⟩
  · have hnil : Course (scan text) (es ++ []) := by rwa [List.append_nil]
    exact recorded_upTo s hnil (log_upTo s hcourse)
  · rintro before e after rfl
    obtain ⟨ds, hrecorded, hreports⟩ := recorded_upTo_concat s hcourse
    have halong := hreports.along (hcourse.proper_event (by simp))
    refine ⟨ds, hrecorded, hreports, fun d hd hgrammar => ?_⟩
    exact halong.pointsInto hcourse d (List.mem_filter.2 ⟨hd, by simp [hgrammar]⟩)
  · obtain ⟨ds, hlog, hpairwise⟩ :=
      hcourse.exists_pairwise (s.withRoom text) (.start (s.withRoom text))
    have hall := (log_upTo s hcourse).symm.trans hlog
    rwa [DiagnosticLog.eq_of_reportAll_eq (Nat.le_of_eq (length_diagnostics s text)) hall]

/-- A domain that is never closed is told so behind its last token. -/
theorem diagnostics_point_into_text_unclosed :
    let text := "(define (domain d) (:types a -) x"
    let e : Event := .ended "')' closing the domain"
    let d : Diagnostic := .atEnd "')' closing the domain" (.point ⟨1, 34⟩)
    d ∈ diagnostics .standard text ∧
      ∃ before after, Course (scan text) (before ++ e :: after) ∧ d.isScan = false ∧
        d.PointsInto text before e := by
  intro text e d
  obtain ⟨-, ⟨es, hcourse, -, hevents⟩, -⟩ := diagnostics_point_into_text .standard text
  have hmem : e ∈ es.filter (!·.isStrays) := by
    rw [hcourse.filter_eq]
    decide +kernel
  obtain ⟨before, after, rfl⟩ := List.append_of_mem (List.mem_of_mem_filter hmem)
  obtain ⟨ds, -, hreports, hpoints⟩ := hevents before e after rfl
  have hplace : (LineTable.ofText text).endPoint = .point ⟨1, 34⟩ := by decide +kernel
  have hd : d ∈ ds := by
    change Event.Reports _ _ (.ended "')' closing the domain") ds at hreports
    cases hreports
    rw [hplace]
    exact List.mem_singleton_self d
  exact ⟨by decide +kernel, before, after, hcourse, rfl, hpoints d hd rfl⟩

end PlanningDomain
