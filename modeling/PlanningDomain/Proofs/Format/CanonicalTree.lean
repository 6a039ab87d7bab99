import PlanningDomain.Proofs.Domain.Writable

/-! The derivation that a domain is written as: every parameter and every type in a run of its own,
and no empty section. Main statement: it means the domain again. -/
namespace PlanningDomain

open Grammar

def singleRuns (pairs : List (String × String)) : TypedList where
  runs := pairs.map fun pair => ⟨[pair.1], some pair.2⟩
  names_ne_nil := by
    intro run hrun
    obtain ⟨pair, -, rfl⟩ := List.mem_map.1 hrun
    simp

private theorem typedPairs_singleRuns (root : String) (pairs : List (String × String)) :
    typedPairs root (singleRuns pairs).runs = pairs := by
  induction pairs with
  | nil => rfl
  | cons pair pairs ih =>
    simp only [singleRuns, List.map_cons, typedPairs, nextType] at ih ⊢
    rw [ih]
    rfl

def pairTokens (item : String → Token) (pair : String × String) : List Token :=
  [item pair.1, .dash, .name pair.2]

theorem runTokens_singleRuns (item : String → Token) (pairs : List (String × String)) :
    runTokens item (singleRuns pairs).runs = pairs.flatMap (pairTokens item) := by
  simp only [runTokens, singleRuns, List.flatMap_map]
  rfl

def Task.signature (t : Task) : Signature := ⟨t.name, singleRuns t.params.pairs⟩

def Predicate.literal (p : Predicate) : Literal := ⟨p.negated, p.name, singleRuns p.params.pairs⟩

def Method.rule (m : Method) : MethodRule where
  name := m.name
  params := singleRuns m.params.pairs
  task := m.task.signature
  ordered := m.ordered
  block := .list (m.subtasks.map fun t => ⟨none, t.signature⟩)

def Domain.sentence (d : Domain) : Sentence where
  name := d.name
  requirements := if d.requirements.isEmpty then none else some d.requirements
  types := if d.types.isEmpty then none else some (singleRuns d.types.entries)
  predicates :=
    if d.predicates.isEmpty then none else some (d.predicates.map Predicate.literal)
  body := d.tasks.map (.inl ∘ Task.signature) ++ d.methods.map (.inr ∘ Method.rule)

section Meaning
variable {root : String}

private theorem Params.Settled.params_singleRuns {p : Params} (h : p.Settled) :
    (singleRuns p.pairs).params root = p := by
  have hpairs : (singleRuns p.pairs).params root = .ofPairs p.pairs := by
    rw [Params.ofPairs_eq, TypedList.params, typedPairs_singleRuns]
  rw [hpairs, h.ofPairs_pairs]

private theorem Task.Writable.meaning_signature {t : Task} (h : t.Writable) :
    t.signature.meaning root = t := by
  rw [Signature.meaning, Task.signature, h.params.params_singleRuns]

private theorem Predicate.Writable.meaning_literal {p : Predicate} (h : p.Writable) :
    p.literal.meaning root = p := by
  rw [Literal.meaning, Predicate.literal, h.params.params_singleRuns]

private theorem map_map_eq_self {α β : Type} {xs : List α} {f : α → β} {g : β → α}
    (h : ∀ x ∈ xs, g (f x) = x) : (xs.map f).map g = xs := by
  rw [List.map_map]
  exact (List.map_congr_left h).trans (List.map_id _)

private theorem Method.Writable.meaning_rule {m : Method} (h : m.Writable) :
    m.rule.meaning root = m := by
  have hsubtasks : m.rule.block.subtasks.map (Subtask.meaning root) = m.subtasks :=
    map_map_eq_self fun t ht => (h.subtasks t ht).meaning_signature
  rw [MethodRule.meaning, hsubtasks, Method.rule, h.params.params_singleRuns,
    h.task.meaning_signature]

private theorem ofList_edges {types : NameMap} (h : types.get? root ≠ some root) :
    NameMap.ofList ((singleRuns types.entries).edges root) = types := by
  have hedges : (singleRuns types.entries).edges root = types.entries := by
    rw [TypedList.edges, typedPairs_singleRuns, List.filter_eq_self]
    rintro e he
    simp only [ne_eq, decide_eq_true_eq]
    rintro rfl
    exact h (NameMap.mem_entries_iff.1 he)
  rw [hedges, NameMap.ofList_entries]

/-- The derivation of a writable domain means the domain, wherever it was read from. -/
theorem Domain.Writable.meaning_sentence {d : Domain} (h : d.Writable root) :
    d.sentence.meaning root = { d with filePath := "" } := by
  have hrequirements : d.sentence.requirements.getD [] = d.requirements := by
    rw [sentence]
    cases d.requirements <;> rfl
  have htypes : NameMap.ofList ((d.sentence.types.map (TypedList.edges root)).getD []) =
      d.types := by
    have hsentence : d.sentence.types =
        if d.types.entries.isEmpty then none else some (singleRuns d.types.entries) := rfl
    rw [← ofList_edges h.root_ne, hsentence]
    cases d.types.entries <;> rfl
  have hpredicates : (d.sentence.predicates.getD []).map (Literal.meaning root) =
      d.predicates := by
    have hmap : (d.predicates.map Predicate.literal).map (Literal.meaning root) = d.predicates :=
      map_map_eq_self fun p hp => (h.predicates p hp).meaning_literal
    rw [← hmap, sentence]
    cases d.predicates <;> simp
  have htasks : (d.sentence.body.filterMap Sum.getLeft?).map (Signature.meaning root) =
      d.tasks := by
    have hleft : d.sentence.body.filterMap Sum.getLeft? = d.tasks.map Task.signature := by
      simp [sentence, List.filterMap_append, List.filterMap_map, Function.comp_def]
    rw [hleft]
    exact map_map_eq_self fun t ht => (h.tasks t ht).meaning_signature
  have hmethods : (d.sentence.body.filterMap Sum.getRight?).map (MethodRule.meaning root) =
      d.methods := by
    have hright : d.sentence.body.filterMap Sum.getRight? = d.methods.map Method.rule := by
      simp [sentence, List.filterMap_append, List.filterMap_map, Function.comp_def]
    rw [hright]
    exact map_map_eq_self fun m hm => (h.methods m hm).meaning_rule
  rw [Sentence.meaning, hrequirements, htypes, hpredicates, htasks, hmethods]
  rfl

end Meaning
end PlanningDomain
