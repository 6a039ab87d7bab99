import Mathlib.Data.List.Basic
import PlanningDomain.Proofs.Reading.InStep

/-! Stray characters. Main statement: a reading reports every stray character of its text once, in
order, and reports no other fault of the characters; so a text with a stray character fails. -/
namespace PlanningDomain

namespace DiagnosticLog

private theorem limit_reportAll (log : DiagnosticLog) (ds : List Diagnostic) :
    (log.reportAll ds).limit = log.limit := by
  induction ds generalizing log with
  | nil => rfl
  | cons d ds ih => exact ih (log.report d)

theorem recorded_empty_reportAll (limit : Nat) (ds : List Diagnostic) :
    ((empty limit).reportAll ds).recorded = ds.take limit := by
  induction ds using List.reverseRecOn with
  | nil => rw [List.take_nil]; rfl
  | append_singleton ds d ih =>
    have hlimit : ((empty limit).reportAll ds).limit = limit := limit_reportAll ..
    rw [reportAll_append, reportAll, List.foldl_cons, List.foldl_nil, report]
    simp only [hlimit, ih, List.length_take]
    by_cases hroom : ds.length < limit
    · rw [if_pos (by omega), List.take_of_length_le (Nat.le_of_lt hroom),
        List.take_of_length_le (by rw [List.length_append]; exact hroom)]
    · rw [if_neg (by omega), List.take_append_of_le_length (by omega)]

theorem total_empty_reportAll (limit : Nat) (ds : List Diagnostic) :
    ((empty limit).reportAll ds).total = ds.length := by
  rw [total_reportAll]
  exact Nat.zero_add _

theorem recorded_empty_reportAll_of_le {limit : Nat} {ds : List Diagnostic}
    (h : ds.length ≤ limit) : ((empty limit).reportAll ds).recorded = ds := by
  rw [recorded_empty_reportAll, List.take_of_length_le h]

theorem eq_of_reportAll_eq {limit : Nat} {ds es : List Diagnostic} (hroom : ds.length ≤ limit)
    (h : (empty limit).reportAll ds = (empty limit).reportAll es) : ds = es := by
  have htotal := congrArg total h
  have hrecorded := congrArg recorded h
  rw [total_empty_reportAll, total_empty_reportAll] at htotal
  rwa [recorded_empty_reportAll_of_le hroom, recorded_empty_reportAll_of_le (htotal ▸ hroom)]
    at hrecorded

/-- As long as all diagnostics fit, further ones come behind them. -/
theorem recorded_empty_reportAll_append {limit : Nat} {ds : List Diagnostic}
    (h : ds.length ≤ limit) (es : List Diagnostic) :
    ((empty limit).reportAll (ds ++ es)).recorded = ds ++ es.take (limit - ds.length) := by
  rw [recorded_empty_reportAll, List.take_append, List.take_of_length_le h]

end DiagnosticLog

namespace Progress
variable {f : Frame} {p q r : Progress}

/-- From one state to the next, the diagnostics of these faults of the characters are reported, and
others only of the grammar. -/
def Finds (scans : List Diagnostic) (p q : Progress) : Prop :=
  ∃ ds, q.log = p.log.reportAll ds ∧ ds.filter Diagnostic.isScan = scans

/-- Since the first log, only diagnostics of the grammar were reported. -/
def GrammarSince (start log _log' : DiagnosticLog) : Prop :=
  ∃ ds, log = start.reportAll ds ∧ ds.filter Diagnostic.isScan = []

private theorem GrammarSince.report {start log log' : DiagnosticLog} {d : Diagnostic}
    (h : GrammarSince start log log') (hd : d.isScan = false) :
    GrammarSince start (log.report d) (log'.report d) := by
  obtain ⟨ds, rfl, hds⟩ := h
  refine ⟨ds ++ [d], ?_, by simp [hds, hd]⟩
  rw [DiagnosticLog.reportAll_append]
  rfl

namespace Finds
variable {scans more : List Diagnostic}

private theorem of_log_eq (h : q.log = p.log) : Finds [] p q := ⟨[], h, rfl⟩

private theorem trans (h : Finds scans p q) (h' : Finds more q r) : Finds (scans ++ more) p r := by
  obtain ⟨ds, hq, rfl⟩ := h
  obtain ⟨es, hr, rfl⟩ := h'
  exact ⟨ds ++ es, by rw [hr, hq, DiagnosticLog.reportAll_append], List.filter_append ..⟩

private theorem reportStrays (f : Frame) (p : Progress) (ss : List Stray) :
    Finds (ss.map (.ofStray f.table)) p (p.reportStrays f ss) := by
  refine ⟨ss.map (.ofStray f.table), rfl, List.filter_eq_self.2 fun d hd => ?_⟩
  obtain ⟨s, -, rfl⟩ := List.mem_map.1 hd
  rfl

private theorem act (f : Frame) (p : Progress) (e : Event) :
    Finds (e.strays?.map (.ofStray f.table)) p (p.act f e) := by
  cases hstrays : e.isStrays with
  | true =>
    cases e with
    | strays ss => exact reportStrays f p ss
    | _ => cases hstrays
  | false =>
    -- The reading is in step with itself while it reports diagnostics of the grammar.
    have hkeeps {d : Diagnostic} (hd : d.isScan = false) : d.GoesWith (GrammarSince p.log) d :=
      fun _ _ hlog => hlog.report hd
    have hf : f.Matches f Eq (GrammarSince p.log) :=
      Frame.matches_of_keeps rfl rfl Eq.symm (fun _ _ => hkeeps rfl) fun _ _ => hkeeps rfl
    have hself : InStep (GrammarSince p.log) p p := ⟨rfl, rfl, [], rfl, rfl⟩
    rw [Event.strays?_eq_nil hstrays]
    exact (hself.act hf (Event.matches_self hstrays fun _ _ => rfl) fun _ _ _ _ => rfl).told

theorem events (f : Frame) (p : Progress) (es : List Event) :
    Finds ((es.flatMap Event.strays?).map (.ofStray f.table)) p (es.foldl (Progress.act f) p) := by
  induction es generalizing p with
  | nil => exact of_log_eq rfl
  | cons e es ih =>
    rw [List.flatMap_cons, List.map_append]
    exact (act f p e).trans (ih _)

end Finds
end Progress

/-- Of everything that a reading reports, the faults of the characters are the stray characters. -/
private theorem readDomain_finds (s : Settings) (text : String) :
    ∃ ds, (readDomain s text).log = (DiagnosticLog.empty s.maxErrors).reportAll ds ∧
      ds.filter Diagnostic.isScan = (strays text).map (.ofStray (.ofText text)) := by
  obtain ⟨es, hcourse⟩ := exists_course (scan text)
  have h := Progress.Finds.events ⟨s, .ofText text⟩ (.start s) es
  rw [hcourse.strays_eq] at h
  rw [readDomain_eq_foldl hcourse]
  exact h

/-- Where all diagnostics are recorded, those of the characters are the stray characters of the text
in order, and the others are counted beside them. With a stray character, no reading succeeds. -/
theorem reports_every_stray (s : Settings) (text : String) :
    ((readDomain s text).log.total ≤ s.maxErrors →
      (readDomain s text).log.recorded.filter Diagnostic.isScan =
          (strays text).map (.ofStray (.ofText text)) ∧
        (readDomain s text).log.total = (strays text).length +
          ((readDomain s text).log.recorded.filter fun d => !d.isScan).length) ∧
      (strays text ≠ [] → (readDomain s text).succeeded = false) := by
  obtain ⟨ds, hlog, hscans⟩ := readDomain_finds s text
  have hlength : (ds.filter Diagnostic.isScan).length = (strays text).length := by
    rw [hscans, List.length_map]
  rw [Reading.succeeded, hlog, DiagnosticLog.total_empty_reportAll,
    DiagnosticLog.recorded_empty_reportAll]
  constructor
  · intro hroom
    rw [List.take_of_length_le hroom, ← hlength]
    exact ⟨hscans, List.length_eq_length_filter_add _⟩
  · intro hne
    have hpos : 0 < (strays text).length := List.length_pos_iff.2 hne
    have hle := List.length_filter_le Diagnostic.isScan ds
    rw [beq_eq_false_iff_ne]
    omega

/-- Stray characters in the header, in a group that is dropped and behind the domain. -/
theorem reports_every_stray_anywhere :
    let text := "(define $ (domain d) (:types % (a)) ) & x ="
    let r := readDomain .standard text
    r.log.total = 6 ∧
      r.log.recorded.filter Diagnostic.isScan = (strays text).map (.ofStray (.ofText text)) ∧
      r.log.total = (strays text).length + (r.log.recorded.filter fun d => !d.isScan).length ∧
      r.succeeded = false := by
  intro text r
  have htotal : r.log.total = 6 := by decide +kernel
  obtain ⟨hrecorded, hcount⟩ := (reports_every_stray .standard text).1 (htotal ▸ by decide)
  have hstrays : strays text ≠ [] := by decide +kernel
  exact ⟨htotal, hrecorded, hcount, (reports_every_stray .standard text).2 hstrays⟩

end PlanningDomain
