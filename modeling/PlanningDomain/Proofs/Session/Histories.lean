import PlanningDomain.Proofs.Reading.Acceptance
import PlanningDomain.Proofs.Reading.Bound
import PlanningDomain.Session

/-! Sessions and the calls behind them. Main statement: each of several sessions is what the calls
on it, and on the session it was copied from, make of a new one; and it shows the outcome of the
last of these calls alone. -/
namespace PlanningDomain.Session

/-- The session that some calls make of a new one. -/
def after (c : Settings) (calls : List Call) : Session :=
  calls.foldl serve (start c)

def ofReading (c : Settings) (r : Reading) : Session :=
  ⟨c, if r.log.total = 0 then .succeeded else .failed, r.domain, r.log⟩

def unread (c : Settings) : Session := { start c with state := .failed }

/-- A call that leaves a session with the built-in settings. -/
def Call.resets : Call → Bool
  | takeDomain => true
  | _ => false

private theorem after_concat (c : Settings) (calls : List Call) (call : Call) :
    after c (calls ++ [call]) = (after c calls).serve call := by
  rw [after, List.foldl_concat, ← after]

section Serve
variable (s : Session) {files : Files} {path text : String} {fault : ReadFault}

private theorem serve_readText :
    s.serve (.readText text) = ofReading s.settings (readDomain s.settings text) := rfl

private theorem serve_readPath_ok (h : files.readText path = .ok text) :
    s.serve (.readPath files path) =
      let r := readDomain s.settings text
      ofReading s.settings { r with domain := { r.domain with filePath := path } } := by
  rw [serve, readPath, h]
  rfl

private theorem serve_readPath_error (h : files.readText path = .error fault) :
    s.serve (.readPath files path) = unread s.settings := by
  rw [serve, readPath, h]
  rfl

/-- No call changes the settings, but a session may be given up for one with others. -/
private theorem settings_serve (call : Call) :
    (s.serve call).settings = if call.resets then .standard else s.settings := by
  cases call with
  | readText text => rfl
  | readPath files path =>
    cases h : files.readText path with
    | ok text =>
      rw [serve_readPath_ok s h]
      rfl
    | error fault =>
      rw [serve_readPath_error s h]
      rfl
  | takeDomain => rfl

end Serve

private theorem settings_after (c : Settings) (calls : List Call) :
    (after c calls).settings = if calls.any Call.resets then .standard else c := by
  induction calls using List.reverseRecOn with
  | nil => rfl
  | append_singleton calls call ih =>
    rw [after_concat, settings_serve, ih, List.any_append, List.any_cons, List.any_nil,
      Bool.or_false]
    cases calls.any Call.resets <;> cases call.resets <;> rfl

def MissedFile (calls : List Call) : Prop :=
  ∃ before files path fault, calls = before ++ [.readPath files path] ∧
    files.readText path = .error fault

/-- What can be seen of a session, whatever the calls were: never one at work, as many diagnostics
as were counted or as the bound allows, and a state that fits their number. -/
structure Consistent (calls : List Call) (s : Session) : Prop where
  not_scanning : s.state ≠ .scanning
  length_recorded : s.log.recorded.length = min s.log.total s.settings.maxErrors
  succeeded_iff : s.succeeded = true ↔ s.state = .succeeded
  of_idle : s.state = .idle → s.domain = .empty ∧ s.log.recorded = [] ∧ s.log.total = 0
  of_succeeded : s.state = .succeeded → s.log.total = 0
  of_failed : s.state = .failed → 0 < s.log.total ∨
    MissedFile calls ∧ s.domain = .empty ∧ s.log.recorded = [] ∧ s.log.total = 0

private theorem consistent_start (c : Settings) (calls : List Call) :
    Consistent calls (start c) where
  not_scanning := by simp [start]
  length_recorded := by simp [start, DiagnosticLog.empty]
  succeeded_iff := by simp [start, succeeded]
  of_idle _ := ⟨rfl, rfl, rfl⟩
  of_succeeded h := by cases h
  of_failed h := by cases h

private theorem consistent_ofReading {c : Settings} {r : Reading}
    (hlength : r.log.recorded.length = min r.log.total c.maxErrors) (calls : List Call) :
    Consistent calls (ofReading c r) := by
  by_cases htotal : r.log.total = 0
  · have hstate : (ofReading c r).state = .succeeded := if_pos htotal
    exact ⟨by simp [hstate], hlength, by simp [succeeded], by simp [hstate], fun _ => htotal,
      by simp [hstate]⟩
  · have hstate : (ofReading c r).state = .failed := if_neg htotal
    exact ⟨by simp [hstate], hlength, by simp [succeeded], by simp [hstate], by simp [hstate],
      fun _ => .inl (Nat.pos_of_ne_zero htotal)⟩

private theorem consistent_unread (c : Settings) {calls : List Call} (h : MissedFile calls) :
    Consistent calls (unread c) where
  not_scanning := by simp [unread]
  length_recorded := by simp [unread, start, DiagnosticLog.empty]
  succeeded_iff := by simp [unread, succeeded]
  of_idle h := by cases h
  of_succeeded h := by cases h
  of_failed _ := .inr ⟨h, rfl, rfl, rfl⟩

theorem consistent_after (c : Settings) (calls : List Call) : Consistent calls (after c calls) := by
  rcases List.eq_nil_or_concat' calls with rfl | ⟨before, call, rfl⟩
  · exact consistent_start c []
  rw [after_concat]
  cases call with
  | readText text => exact consistent_ofReading (length_recorded_readDomain _ text) _
  | readPath files path =>
    cases h : files.readText path with
    | ok text =>
      rw [serve_readPath_ok _ h]
      refine consistent_ofReading ?_ _
      exact length_recorded_readDomain _ text
    | error fault =>
      rw [serve_readPath_error _ h]
      exact consistent_unread _ ⟨before, files, path, fault, rfl, h⟩
  | takeDomain => exact consistent_start _ _

/-- What the last call leaves, whatever the session was like before but for its settings. -/
structure LastCallDecides (calls : List Call) (s : Session) : Prop where
  readText : ∀ before text, calls = before ++ [.readText text] →
    s = ofReading s.settings (readDomain s.settings text) ∧ s.domain.filePath = ""
  readPath : ∀ before files path, calls = before ++ [.readPath files path] →
    match files.readText path with
    | .ok text =>
      s = ofReading s.settings
        { readDomain s.settings text with
          domain := { (readDomain s.settings text).domain with filePath := path } }
    | .error _ => s = unread s.settings
  takeDomain : ∀ before, calls = before ++ [.takeDomain] → s = start .standard

private theorem lastCallDecides_after (c : Settings) (calls : List Call) :
    LastCallDecides calls (after c calls) where
  readText before text h := by
    rw [h, after_concat, serve_readText]
    exact ⟨rfl, (wellFormed_readDomain _ text).filePath_eq⟩
  readPath before files path h := by
    rw [h, after_concat]
    cases hread : files.readText path with
    | ok text =>
      rw [serve_readPath_ok _ hread]
      rfl
    | error fault =>
      rw [serve_readPath_error _ hread]
      rfl
  takeDomain before h := by
    rw [h, after_concat]
    rfl

namespace Move

/-- A step that neither calls nor moves what stands in a place. -/
def Avoids (place : Nat) : Move → Prop
  | call other _ => other ≠ place
  | copy _ => True
  | swap first second => first ≠ place ∧ second ≠ place

instance (place : Nat) : DecidablePred (Avoids place)
  | call other _ => inferInstanceAs (Decidable (other ≠ place))
  | copy _ => inferInstanceAs (Decidable True)
  | swap first second => inferInstanceAs (Decidable (first ≠ place ∧ second ≠ place))

variable {α β : Type} {serve : α → Call → α}

private theorem on_map {serve' : β → Call → β} {h : α → β}
    (hserve : ∀ x c, serve' (h x) c = h (serve x c)) (xs : List α) (m : Move) :
    m.on serve' (xs.map h) = (m.on serve xs).map h := by
  cases m with
  | call place c =>
    refine List.ext_getElem? fun i => ?_
    simp only [on, List.getElem?_modify, List.getElem?_map]
    cases xs[i]? with
    | none => rfl
    | some x => by_cases hi : place = i <;> simp [hi, hserve]
  | copy place => cases hx : xs[place]? <;> simp [on, hx]
  | swap place other =>
    cases hx : xs[place]? <;> cases hy : xs[other]? <;> simp [on, hx, hy, List.map_set]

private theorem length_le_on (xs : List α) (m : Move) : xs.length ≤ (m.on serve xs).length := by
  cases m with
  | call place c => simp [on]
  | copy place => simp [on]
  | swap place other => cases hx : xs[place]? <;> cases hy : xs[other]? <;> simp [on, hx, hy]

private theorem on_getElem?_of_avoids {xs : List α} {m : Move} {place : Nat}
    (hplace : place < xs.length) (h : m.Avoids place) : (m.on serve xs)[place]? = xs[place]? := by
  cases m with
  | call other c =>
    simp [on, show other ≠ place from h]
  | copy other => exact List.getElem?_append_left hplace
  | swap first second =>
    obtain ⟨hfirst, hsecond⟩ := h
    cases hx : xs[first]? <;> cases hy : xs[second]? <;> simp [on, hx, hy, hfirst, hsecond]

/-- What is done elsewhere does not change what stands in a place. -/
private theorem foldl_on_getElem?_of_avoids {xs : List α} {moves : List Move} {place : Nat}
    (hplace : place < xs.length) (h : ∀ m ∈ moves, m.Avoids place) :
    (moves.foldl (on serve) xs)[place]? = xs[place]? := by
  induction moves generalizing xs with
  | nil => rfl
  | cons m moves ih =>
    obtain ⟨hm, hmoves⟩ := List.forall_mem_cons.1 h
    rw [List.foldl_cons, ih (Nat.lt_of_lt_of_le hplace (length_le_on xs m)) hmoves,
      on_getElem?_of_avoids hplace hm]

end Move

/-- The calls behind each of several sessions. A copy takes them along. -/
def histories (moves : List Move) : List (List Call) :=
  moves.foldl (Move.on fun calls call => calls ++ [call]) [[]]

private theorem foldl_on_serve_eq (c : Settings) (moves : List Move) :
    moves.foldl (Move.on serve) [start c] = (histories moves).map (after c) := by
  change moves.foldl (Move.on serve) ([[]].map (after c)) = _
  exact List.foldl_hom _ (Move.on_map fun calls call => (after_concat c calls call).symm)

/-- Starting from one new session, each session is what the calls behind it make of a new one. It
keeps its settings unless it was given up for a session with the built-in ones; what it shows is
consistent; the last call decides it; and steps elsewhere leave it as it is. -/
theorem sessions_show_their_last_call (c : Settings) (moves : List Move) :
    let sessions := moves.foldl (Move.on serve) [start c]
    sessions = (histories moves).map (after c) ∧
      (∀ calls ∈ histories moves,
        (after c calls).settings = (if calls.any Call.resets then .standard else c) ∧
        Consistent calls (after c calls) ∧ LastCallDecides calls (after c calls)) ∧
      ∀ (place : Nat) (later : List Move), place < sessions.length →
        (∀ m ∈ later, m.Avoids place) →
        (later.foldl (Move.on serve) sessions)[place]? = sessions[place]? := by
  intro sessions
  refine ⟨foldl_on_serve_eq c moves, fun calls _ => ?_, fun place later hplace hlater => ?_⟩
  · exact ⟨settings_after c calls, consistent_after c calls, lastCallDecides_after c calls⟩
  · exact Move.foldl_on_getElem?_of_avoids hplace hlater

/-- A copy of a failed session misses a file and is given up; the first session stays as it was. -/
theorem sessions_show_their_last_call_copied :
    let moves : List Move := [.call 0 (.readText "(define (domain d) (:types a) x"), .copy 0]
    let later : List Move :=
      [.call 1 (.readPath ⟨fun _ => .error .notFound⟩ "d.hddl"), .copy 1, .call 1 .takeDomain]
    let sessions := moves.foldl (Move.on serve) [start ⟨"object", false, 1⟩]
    0 < sessions.length ∧ (∀ m ∈ later, m.Avoids 0) ∧
      (later.foldl (Move.on serve) sessions)[0]? = sessions[0]? ∧
      sessions[0]?.map (fun s => (s.state, s.log.total, s.log.recorded.length)) =
        some (.failed, 2, 1) := by
  intro moves later sessions
  have hplace : 0 < sessions.length := by decide +kernel
  have hlater : ∀ m ∈ later, m.Avoids 0 := by decide
  obtain ⟨-, -, hstays⟩ := sessions_show_their_last_call ⟨"object", false, 1⟩ moves
  exact ⟨hplace, hlater, hstays 0 later hplace hlater, by decide +kernel⟩

end PlanningDomain.Session
