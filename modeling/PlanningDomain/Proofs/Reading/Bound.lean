import PlanningDomain.Proofs.Reading.InStep
import PlanningDomain.Proofs.Reading.ScanFaults

/-! The bound on recorded diagnostics. Main statement: it decides how many of the diagnostics of a
text are recorded, and nothing else; so every reading has its list of all diagnostics. -/
namespace PlanningDomain

/-- The two logs come from lists of diagnostics that are so related. -/
def Told (limit limit' : Nat) (R : List Diagnostic → List Diagnostic → Prop)
    (log log' : DiagnosticLog) : Prop :=
  ∃ ds ds', R ds ds' ∧ log = (DiagnosticLog.empty limit).reportAll ds ∧
    log' = (DiagnosticLog.empty limit').reportAll ds'

namespace Told
variable {limit limit' : Nat} {R : List Diagnostic → List Diagnostic → Prop}
  {log log' : DiagnosticLog}

theorem goesWith {d d' : Diagnostic} (h : ∀ {ds ds'}, R ds ds' → R (ds ++ [d]) (ds' ++ [d'])) :
    d.GoesWith (Told limit limit' R) d' := by
  rintro log log' ⟨ds, ds', hR, rfl, rfl⟩
  refine ⟨ds ++ [d], ds' ++ [d'], h hR, ?_, ?_⟩ <;>
    rw [DiagnosticLog.reportAll_append] <;> rfl

/-- Where the limit is not reached, the list is the one recorded. -/
theorem of_room (h : Told limit limit' R log log') (hroom : log.total ≤ limit) :
    ∃ ds', R log.recorded ds' ∧ log' = (DiagnosticLog.empty limit').reportAll ds' := by
  obtain ⟨ds, ds', hR, rfl, rfl⟩ := h
  rw [DiagnosticLog.total_empty_reportAll] at hroom
  refine ⟨ds', ?_, rfl⟩
  rwa [DiagnosticLog.recorded_empty_reportAll_of_le hroom]

private theorem related {ds ds' : List Diagnostic} (h : Told limit limit' R
      ((DiagnosticLog.empty limit).reportAll ds) ((DiagnosticLog.empty limit').reportAll ds'))
    (hds : ds.length ≤ limit) (hds' : ds'.length ≤ limit') : R ds ds' := by
  obtain ⟨es', hR, heq⟩ := h.of_room (by rwa [DiagnosticLog.total_empty_reportAll])
  rwa [DiagnosticLog.recorded_empty_reportAll_of_le hds,
    ← DiagnosticLog.eq_of_reportAll_eq hds' heq] at hR

/-- Some limit is not reached. -/
theorem related_of_forall {ds ds' : List Diagnostic}
    (h : ∀ limit, Told limit limit R ((DiagnosticLog.empty limit).reportAll ds)
      ((DiagnosticLog.empty limit).reportAll ds')) : R ds ds' :=
  (h (max ds.length ds'.length)).related (Nat.le_max_left ..) (Nat.le_max_right ..)

private theorem total_eq (h : Told limit limit' R log log')
    (hR : ∀ {ds ds'}, R ds ds' → ds'.length = ds.length) : log'.total = log.total := by
  obtain ⟨ds, ds', hds, rfl, rfl⟩ := h
  rw [DiagnosticLog.total_empty_reportAll, DiagnosticLog.total_empty_reportAll, hR hds]

theorem start (s s' : Settings) (h : R [] []) :
    Progress.InStep (Told s.maxErrors s'.maxErrors R) (.start s) (.start s') :=
  ⟨rfl, rfl, [], [], h, rfl, rfl⟩

end Told

/-- The first list falls apart into what is dropped and the second list. -/
def Sifted (drops : Diagnostic → Bool) (dropped ds ds' : List Diagnostic) : Prop :=
  ds' = ds.filter (fun d => !drops d) ∧ ds.filter drops = dropped

section Sifted
variable {drops : Diagnostic → Bool} {dropped : List Diagnostic} {limit limit' : Nat}

theorem Sifted.goesWith {d : Diagnostic} (hd : drops d = false) :
    d.GoesWith (Told limit limit' (Sifted drops dropped)) d :=
  Told.goesWith fun ⟨hkept, hdropped⟩ => ⟨by simp [hkept, hd], by simp [hdropped, hd]⟩

theorem Told.drop {log log' : DiagnosticLog} (h : Told limit limit' (Sifted drops dropped) log log')
    {d : Diagnostic} (hd : drops d = true) :
    Told limit limit' (Sifted drops (dropped ++ [d])) (log.report d) log' := by
  obtain ⟨ds, ds', ⟨hkept, hdropped⟩, rfl, rfl⟩ := h
  refine ⟨ds ++ [d], ds', ⟨by simp [hkept, hd], by simp [hdropped, hd]⟩, ?_, rfl⟩
  rw [DiagnosticLog.reportAll_append]
  rfl

end Sifted

/-- Under two limits, a reading has the same domain and is told the same diagnostics. -/
theorem readDomain_limit (s : Settings) (limit : Nat) (text : String) :
    (readDomain { s with maxErrors := limit } text).domain = (readDomain s text).domain ∧
      Told s.maxErrors limit Eq (readDomain s text).log
        (readDomain { s with maxErrors := limit } text).log := by
  obtain ⟨es, hcourse⟩ := exists_course (scan text)
  rw [readDomain_eq_foldl hcourse, readDomain_eq_foldl hcourse]
  have hkeeps (d : Diagnostic) : d.GoesWith (Told s.maxErrors limit Eq) d :=
    Told.goesWith fun h => congrArg (· ++ [d]) h
  have hf : Frame.Matches ⟨s, .ofText text⟩ ⟨{ s with maxErrors := limit }, .ofText text⟩ Eq
      (Told s.maxErrors limit Eq) :=
    Frame.matches_of_keeps rfl rfl Eq.symm (fun _ _ => hkeeps _) fun _ _ => hkeeps _
  have hstart : Progress.InStep (Told s.maxErrors limit Eq) (.start s)
      (.start { s with maxErrors := limit }) := Told.start s { s with maxErrors := limit } rfl
  have hself : ∀ e ∈ es, ∀ l ∈ e.lexemes, l = l := fun _ _ _ _ => rfl
  have hend := hstart.foldl_act_self hf rfl (fun _ => hkeeps _) hself
  exact ⟨hend.domain_eq, hend.told⟩

/-- Everything that a reading has to say, recorded or not. -/
def diagnostics (s : Settings) (text : String) : List Diagnostic :=
  (readDomain { s with maxErrors := (readDomain s text).log.total } text).log.recorded

section Diagnostics
variable (s : Settings) (text : String)

theorem total_limit (limit : Nat) :
    (readDomain { s with maxErrors := limit } text).log.total = (readDomain s text).log.total :=
  (readDomain_limit s limit text).2.total_eq fun h => h ▸ rfl

private theorem log_eq_diagnostics :
    (readDomain s text).log = (DiagnosticLog.empty s.maxErrors).reportAll (diagnostics s text) := by
  obtain ⟨ds, _, rfl, hlog, hall⟩ := (readDomain_limit s (readDomain s text).log.total text).2
  have htotal := congrArg DiagnosticLog.total hlog
  rw [DiagnosticLog.total_empty_reportAll] at htotal
  rw [diagnostics, hall, DiagnosticLog.recorded_empty_reportAll_of_le (Nat.le_of_eq htotal.symm)]
  exact hlog

theorem length_diagnostics : (diagnostics s text).length = (readDomain s text).log.total := by
  have htotal := congrArg DiagnosticLog.total (log_eq_diagnostics s text)
  rw [DiagnosticLog.total_empty_reportAll] at htotal
  exact htotal.symm

theorem recorded_eq_take_diagnostics :
    (readDomain s text).log.recorded = (diagnostics s text).take s.maxErrors := by
  have hrecorded := congrArg DiagnosticLog.recorded (log_eq_diagnostics s text)
  rwa [DiagnosticLog.recorded_empty_reportAll] at hrecorded

theorem length_recorded_readDomain :
    (readDomain s text).log.recorded.length = min (readDomain s text).log.total s.maxErrors := by
  rw [recorded_eq_take_diagnostics, List.length_take, length_diagnostics, Nat.min_comm]

end Diagnostics

theorem recorded_eq_diagnostics {s : Settings} {text : String}
    (hroom : (readDomain s text).log.total ≤ s.maxErrors) :
    (readDomain s text).log.recorded = diagnostics s text := by
  rw [recorded_eq_take_diagnostics, List.take_of_length_le (length_diagnostics s text ▸ hroom)]

theorem diagnostics_limit (s : Settings) (limit : Nat) (text : String) :
    diagnostics { s with maxErrors := limit } text = diagnostics s text := by
  rw [diagnostics, diagnostics, total_limit]

theorem log_limit (s : Settings) (limit : Nat) (text : String) :
    (readDomain { s with maxErrors := limit } text).log =
      (DiagnosticLog.empty limit).reportAll (diagnostics s text) := by
  rw [log_eq_diagnostics, diagnostics_limit]

/-- Settings with two bounds: the domain, the number of diagnostics and so the success are the same.
What is recorded under one bound is the front, as long as that bound, of what is recorded under any
bound that the diagnostics do not exceed; under the bound zero, that is nothing. -/
theorem bound_only_truncates (s : Settings) (limit other : Nat) (text : String) :
    let r := readDomain { s with maxErrors := limit } text
    let r' := readDomain { s with maxErrors := other } text
    r.domain = r'.domain ∧ r.log.total = r'.log.total ∧ r.succeeded = r'.succeeded ∧
      r.log.recorded.length = min limit r.log.total ∧
      (r'.log.total ≤ other →
        r.log.recorded = r'.log.recorded.take (min limit r.log.total)) ∧
      (readDomain { s with maxErrors := 0 } text).log.recorded = [] := by
  intro r r'
  have htotal : r.log.total = r'.log.total :=
    (total_limit s text limit).trans (total_limit s text other).symm
  have hrecorded (bound : Nat) : (readDomain { s with maxErrors := bound } text).log.recorded =
      (diagnostics s text).take bound := by
    rw [recorded_eq_take_diagnostics, diagnostics_limit]
  have hlength : (diagnostics s text).length = r.log.total :=
    (length_diagnostics s text).trans (total_limit s text limit).symm
  refine ⟨?_, htotal, ?_, ?_, fun hroom => ?_, ?_⟩
  · exact (readDomain_limit s limit text).1.trans (readDomain_limit s other text).1.symm
  · rw [Reading.succeeded, Reading.succeeded, htotal]
  · rw [hrecorded, List.length_take, hlength]
  · have hall : r'.log.recorded = diagnostics s text := by
      rw [hrecorded, List.take_of_length_le (hlength.trans htotal ▸ hroom)]
    rw [hall, hrecorded, ← hlength, List.take_eq_take_min]
  · rw [hrecorded, List.take_zero]

/-- Of three diagnostics, the first two. -/
theorem bound_only_truncates_to_two :
    let text := "(define (domain d) (:types a (:task) %)"
    let r := readDomain { Settings.standard with maxErrors := 2 } text
    let r' := readDomain { Settings.standard with maxErrors := 3 } text
    r'.log.total ≤ 3 ∧ r'.log.recorded.length = 3 ∧ r.log.recorded.length = 2 ∧
      r.log.recorded = r'.log.recorded.take (min 2 r.log.total) := by
  intro text r r'
  have hroom : r'.log.total ≤ 3 := by decide +kernel
  obtain ⟨-, -, -, hlength, htake, -⟩ := bound_only_truncates .standard 2 3 text
  exact ⟨hroom, by decide +kernel, hlength.trans (by decide +kernel), htake hroom⟩

end PlanningDomain
