import PlanningDomain.Syntax.Reader

/-! What a reader takes, with the furthest failure left out of sight. Each way to build a reader
comes with the exact condition under which the result succeeds. -/
namespace PlanningDomain.Reader
variable {α β : Type}

/-- The reader takes the tokens in front of `rest` and yields the value. -/
def Reads (r : Reader α) (ts : List Token) (value : α) (rest : List Token) : Prop :=
  ∃ passed, r ts = .read value rest passed

/-- The reader takes nothing. -/
def Fails (r : Reader α) (ts : List Token) : Prop :=
  ∃ why, r ts = .failed why

theorem not_reads_iff {r : Reader α} {ts : List Token} :
    (¬ ∃ value rest, r.Reads ts value rest) ↔ r.Fails ts := by
  unfold Reads Fails
  cases r ts <;> simp

theorem Fails.not_reads {r : Reader α} {ts : List Token} (h : r.Fails ts) {value : α}
    {rest : List Token} : ¬ r.Reads ts value rest :=
  fun hr => not_reads_iff.2 h ⟨value, rest, hr⟩

theorem Reads.unique {r : Reader α} {ts : List Token} {v w : α} {rest rest' : List Token}
    (h : r.Reads ts v rest) (h' : r.Reads ts w rest') : v = w ∧ rest = rest' := by
  obtain ⟨_, h⟩ := h
  obtain ⟨_, h'⟩ := h'
  rw [h] at h'
  cases h'
  exact ⟨rfl, rfl⟩

section Steps
variable {ts rest : List Token}

theorem reads_one_iff {label : String} {accept : Token → Option α} {value : α} :
    (one label accept).Reads ts value rest ↔ ∃ t, accept t = some value ∧ ts = t :: rest := by
  cases ts with
  | nil => simp [Reads, one]
  | cons t ts =>
    simp only [Reads, one]
    cases h : accept t with
    | none =>
      simp only [reduceCtorEq, exists_false, false_iff]
      rintro ⟨u, hu, ⟨⟩⟩
      simp [h] at hu
    | some v =>
      simp only [Outcome.read.injEq, List.cons.injEq]
      constructor
      · intro hread
        obtain ⟨passed, rfl, rfl, rfl⟩ := hread
        exact ⟨t, h, rfl, rfl⟩
      · intro hsteps
        obtain ⟨u, hu, rfl, rfl⟩ := hsteps
        rw [h] at hu
        cases hu
        exact ⟨none, rfl, rfl, rfl⟩

@[simp] theorem reads_token_iff {t : Token} {value : Unit} :
    (token t).Reads ts value rest ↔ ts = t :: rest := by
  rw [token, reads_one_iff]
  simp

@[simp] theorem reads_pure_iff {v w : α} :
    (pure v : Reader α).Reads ts w rest ↔ v = w ∧ ts = rest := by
  simp [Reads, pure, give]

@[simp] theorem reads_bind_iff {r : Reader α} {next : α → Reader β} {w : β} :
    (r >>= next).Reads ts w rest ↔ ∃ v mid, r.Reads ts v mid ∧ (next v).Reads mid w rest := by
  change (andThen r next).Reads ts w rest ↔ _
  simp only [Reads, andThen]
  cases h : r ts with
  | failed why => simp
  | read v mid passed =>
    simp only [Outcome.read.injEq]
    constructor
    · intro hread
      obtain ⟨q, hq⟩ := hread
      cases hnext : next v mid with
      | failed why => rw [hnext] at hq; cases hq
      | read u end' later =>
        rw [hnext] at hq
        cases hq
        exact ⟨v, mid, ⟨passed, rfl, rfl, rfl⟩, later, hnext⟩
    · intro hsteps
      obtain ⟨_, _, ⟨_, rfl, rfl, rfl⟩, later, hnext⟩ := hsteps
      rw [hnext]
      exact ⟨_, rfl⟩

@[simp] theorem reads_orElse_iff {r s : Reader α} {v : α} :
    (orElse r s).Reads ts v rest ↔ r.Reads ts v rest ∨ r.Fails ts ∧ s.Reads ts v rest := by
  simp only [Reads, Fails, orElse]
  cases r ts with
  | read => simp
  | failed why => cases s ts <;> simp

/-- Of two readers that never succeed at one place, either may come first. -/
theorem reads_orElse_iff_of_disjoint {r s : Reader α} {v : α}
    (h : ∀ v rest w rest', s.Reads ts v rest → ¬ r.Reads ts w rest') :
    (orElse r s).Reads ts v rest ↔ r.Reads ts v rest ∨ s.Reads ts v rest := by
  rw [reads_orElse_iff]
  refine or_congr_right ⟨And.right, fun hs => ⟨not_reads_iff.1 ?_, hs⟩⟩
  rintro ⟨w, rest', hr⟩
  exact h v rest w rest' hs hr

@[simp] theorem reads_optional_some_iff {r : Reader α} {v : α} :
    (optional r).Reads ts (some v) rest ↔ r.Reads ts v rest := by
  simp only [Reads, optional]
  cases r ts <;> simp

@[simp] theorem reads_optional_none_iff {r : Reader α} :
    (optional r).Reads ts none rest ↔ r.Fails ts ∧ ts = rest := by
  simp only [Reads, Fails, optional]
  cases r ts <;> simp

@[simp] theorem reads_labelled_iff {label : String} {r : Reader α} {v : α} :
    (labelled label r).Reads ts v rest ↔ r.Reads ts v rest := by
  simp only [Reads, labelled]
  cases r ts <;> simp [Outcome.named]

@[simp] theorem reads_parenthesized_iff {r : Reader α} {v : α} :
    (parenthesized r).Reads ts v rest ↔
      ∃ body, ts = .openParen :: body ∧ r.Reads body v (.closeParen :: rest) := by
  simp only [parenthesized, reads_bind_iff, reads_token_iff, reads_pure_iff]
  constructor
  · intro hread
    obtain ⟨_, body, rfl, w, _, hr, _, _, rfl, rfl, rfl⟩ := hread
    exact ⟨body, rfl, hr⟩
  · intro hsteps
    obtain ⟨body, rfl, hr⟩ := hsteps
    exact ⟨(), body, rfl, v, _, hr, (), rest, rfl, rfl, rfl⟩

@[simp] private theorem reads_finished_iff {value : Unit} :
    finished.Reads ts value rest ↔ ts = [] ∧ rest = [] := by
  cases ts <;> simp [Reads, finished, eq_comm]

end Steps

/-- A whole sequence is accepted when the reader takes all of it. -/
theorem whole_eq_ok_iff {r : Reader α} {ts : List Token} {v : α} :
    r.whole ts = .ok v ↔ r.Reads ts v [] := by
  have hreads (w : α) (rest : List Token) :
      (r.andThen fun value => finished.andThen fun _ => give value).Reads ts w rest ↔
        r.Reads ts w [] ∧ rest = [] := by
    change (r >>= fun value => finished >>= fun _ => (pure value : Reader α)).Reads ts w rest ↔ _
    simp only [reads_bind_iff, reads_finished_iff, reads_pure_iff]
    constructor
    · intro hread
      obtain ⟨_, _, hr, _, _, ⟨rfl, rfl⟩, rfl, rfl⟩ := hread
      exact ⟨hr, rfl⟩
    · intro hsteps
      obtain ⟨hr, rfl⟩ := hsteps
      exact ⟨w, [], hr, (), [], ⟨rfl, rfl⟩, rfl, rfl⟩
  rw [whole]
  split
  · rename_i w rest passed h
    have hw := (hreads w rest).1 ⟨passed, h⟩
    constructor
    · rintro ⟨⟩
      exact hw.1
    · intro hv
      rw [(hw.1.unique hv).1]
  · rename_i why h
    have hfail : Fails _ ts := ⟨why, h⟩
    constructor
    · rintro ⟨⟩
    · intro hv
      exact absurd ((hreads v []).2 ⟨hv, rfl⟩) hfail.not_reads

def Progresses (r : Reader α) : Prop :=
  ∀ ⦃ts v rest⦄, r.Reads ts v rest → rest.length < ts.length

section Many
variable {r : Reader α} {ts rest : List Token}

theorem reads_many_nil_iff :
    (many r).Reads ts [] rest ↔ r.Fails ts ∧ ts = rest := by
  simp only [Reads, Fails, many]
  rw [collect]
  cases h : r ts with
  | failed why => simp
  | read v mid passed =>
    simp only [reduceCtorEq, exists_false, false_and, iff_false]
    split <;> simp

theorem reads_many_cons_iff (hr : r.Progresses) {v : α} {vs : List α} :
    (many r).Reads ts (v :: vs) rest ↔
      ∃ mid, r.Reads ts v mid ∧ (many r).Reads mid vs rest := by
  simp only [Reads, many]
  rw [collect]
  cases h : r ts with
  | failed why => simp
  | read w mid passed =>
    have hlt : mid.length < ts.length := hr ⟨passed, h⟩
    simp only [if_pos hlt, Outcome.read.injEq, List.cons.injEq]
    constructor
    · intro hread
      obtain ⟨_, ⟨rfl, rfl⟩, rfl, rfl⟩ := hread
      exact ⟨mid, ⟨passed, rfl, rfl, rfl⟩, _, rfl, rfl, rfl⟩
    · intro hsteps
      obtain ⟨_, ⟨_, rfl, rfl, rfl⟩, _, rfl, rfl, rfl⟩ := hsteps
      exact ⟨_, ⟨rfl, rfl⟩, rfl, rfl⟩

theorem reads_many1_iff {vs : List α} :
    (many1 r).Reads ts vs rest ↔ vs ≠ [] ∧ (many r).Reads ts vs rest := by
  cases h : r ts with
  | failed why =>
    have hnil : (many r).Reads ts [] ts := reads_many_nil_iff.2 ⟨⟨why, h⟩, rfl⟩
    constructor
    · intro hread
      obtain ⟨_, hvs⟩ := hread
      simp [many1, h] at hvs
    · intro hsteps
      obtain ⟨hne, hvs⟩ := hsteps
      exact absurd (hnil.unique hvs).1.symm hne
  | read v mid passed =>
    have heq : many1 r ts = many r ts := by simp [many1, h]
    constructor
    · intro hread
      obtain ⟨q, hq⟩ := hread
      rw [heq] at hq
      refine ⟨?_, q, hq⟩
      rintro rfl
      exact (reads_many_nil_iff.1 ⟨q, hq⟩).1.not_reads ⟨passed, h⟩
    · intro hsteps
      obtain ⟨-, q, hq⟩ := hsteps
      exact ⟨q, heq ▸ hq⟩

end Many
end PlanningDomain.Reader
