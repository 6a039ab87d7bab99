import PlanningDomain.Proofs.Grammar.Runs

/-! The productions and the grammar. Main statements: each production takes exactly the token
sequences that the trees of its kind yield, and what it makes of one is the form of the tree. -/
namespace PlanningDomain.Grammar

open Reader

def Signature.form (s : Signature) : TaskForm :=
  ⟨s.name, coarsen s.params.runs⟩

def Literal.form (l : Literal) : PredicateForm :=
  ⟨l.atom.name, l.negated, coarsen l.atom.params.runs⟩

def Subtask.form (s : Subtask) : TaskForm := s.task.form

def MethodRule.form (m : MethodRule) : MethodForm where
  name := m.name
  params := coarsen m.params.runs
  task := m.task.form
  ordered := m.ordered
  subtasks := m.block.subtasks.map Subtask.form

section Productions
variable {ts rest : List Token}

private theorem signature_reads_iff {v : String × List TypedRun} :
    Production.signature.Reads ts v rest ↔
      ∃ s : Signature, ts = s.tokens ++ rest ∧ (s.form.name, s.form.params) = v := by
  simp only [Production.signature, reads_parenthesized_iff, reads_bind_iff, name_reads_iff,
    reads_pure_iff]
  constructor
  · intro hread
    obtain ⟨_, rfl, name, _, rfl, runs, _, hruns, rfl, rfl⟩ := hread
    obtain ⟨list, rfl, rfl⟩ := (typedList_reads_iff readsItem_variableName).1 hruns
    exact ⟨⟨name, list⟩, by simp [Signature.tokens, enclosed], rfl⟩
  · intro htree
    obtain ⟨s, rfl, rfl⟩ := htree
    refine ⟨_, rfl, s.name, _, rfl, coarsen s.params.runs, .closeParen :: rest, ?_, rfl, rfl⟩
    exact (typedList_reads_iff readsItem_variableName).2 ⟨s.params, by simp, rfl⟩

private theorem taskReference_reads_iff {v : TaskForm} :
    Production.taskReference.Reads ts v rest ↔
      ∃ s : Signature, ts = s.tokens ++ rest ∧ s.form = v := by
  simp only [Production.taskReference, reads_labelled_iff, reads_bind_iff, signature_reads_iff,
    reads_pure_iff]
  constructor
  · intro hread
    obtain ⟨_, _, ⟨s, rfl, rfl⟩, rfl, rfl⟩ := hread
    exact ⟨s, rfl, rfl⟩
  · intro htree
    obtain ⟨s, rfl, rfl⟩ := htree
    exact ⟨_, rest, ⟨s, rfl, rfl⟩, rfl, rfl⟩

/-- A signature has a name behind its parenthesis, and then a parameter or the end. -/
private theorem signature_tokens_eq (s : Signature) (tail : List Token) :
    ∃ next more, s.tokens ++ tail = .openParen :: .name s.name :: next :: more ∧
      next ≠ .openParen := by
  obtain ⟨name, ⟨_ | ⟨⟨_ | ⟨first, others⟩, type⟩, runs⟩, hruns⟩⟩ := s
  · exact ⟨_, _, rfl, by simp⟩
  · simp at hruns
  · exact ⟨_, _, rfl, by simp⟩

private theorem negated_reads_iff {v : PredicateForm} :
    (parenthesized do
      token .not
      let (name, params) ← Production.signature
      return (⟨name, true, params⟩ : PredicateForm)).Reads ts v rest ↔
      ∃ s : Signature, ts = Literal.tokens ⟨true, s⟩ ++ rest ∧ Literal.form ⟨true, s⟩ = v := by
  simp only [reads_parenthesized_iff, reads_bind_iff, reads_token_iff, signature_reads_iff,
    reads_pure_iff]
  constructor
  · intro hread
    obtain ⟨_, rfl, _, _, rfl, _, _, ⟨s, rfl, rfl⟩, rfl, rfl⟩ := hread
    exact ⟨s, by simp [Literal.tokens, enclosed], rfl⟩
  · intro htree
    obtain ⟨s, rfl, rfl⟩ := htree
    exact ⟨_, rfl, (), _, rfl, _, _, ⟨s, by simp, rfl⟩, rfl, rfl⟩

private theorem positive_reads_iff {v : PredicateForm} :
    (do
      let (name, params) ← Production.signature
      return (⟨name, false, params⟩ : PredicateForm) : Reader PredicateForm).Reads ts v rest ↔
      ∃ s : Signature, ts = Literal.tokens ⟨false, s⟩ ++ rest ∧ Literal.form ⟨false, s⟩ = v := by
  simp only [reads_bind_iff, signature_reads_iff, reads_pure_iff]
  constructor
  · intro hread
    obtain ⟨_, _, ⟨s, rfl, rfl⟩, rfl, rfl⟩ := hread
    exact ⟨s, rfl, rfl⟩
  · intro htree
    obtain ⟨s, rfl, rfl⟩ := htree
    exact ⟨_, _, ⟨s, rfl, rfl⟩, rfl, rfl⟩

theorem predicate_reads_iff {v : PredicateForm} :
    Production.predicate.Reads ts v rest ↔
      ∃ l : Literal, ts = l.tokens ++ rest ∧ l.form = v := by
  rw [Production.predicate, reads_labelled_iff, reads_orElse_iff_of_disjoint, negated_reads_iff,
    positive_reads_iff]
  · constructor
    · rintro (⟨s, rfl, rfl⟩ | ⟨s, rfl, rfl⟩)
      · exact ⟨⟨true, s⟩, rfl, rfl⟩
      · exact ⟨⟨false, s⟩, rfl, rfl⟩
    · rintro ⟨⟨_ | _, s⟩, rfl, rfl⟩
      · exact .inr ⟨s, rfl, rfl⟩
      · exact .inl ⟨s, rfl, rfl⟩
  · intro _ _ _ _ hpos hneg
    obtain ⟨s, rfl, -⟩ := positive_reads_iff.1 hpos
    obtain ⟨s', heq, -⟩ := negated_reads_iff.1 hneg
    simp [Literal.tokens, Signature.tokens, enclosed] at heq

private theorem parameters_reads_iff {v : List TypedRun} :
    Production.parameters.Reads ts v rest ↔
      ∃ list : TypedList, ts = parameterTokens list ++ rest ∧ coarsen list.runs = v := by
  simp only [Production.parameters, reads_bind_iff, reads_token_iff, reads_parenthesized_iff]
  constructor
  · intro hread
    obtain ⟨_, _, rfl, _, rfl, hruns⟩ := hread
    obtain ⟨list, rfl, rfl⟩ := (typedList_reads_iff readsItem_variableName).1 hruns
    exact ⟨list, by simp [parameterTokens, enclosed], rfl⟩
  · intro htree
    obtain ⟨list, rfl, rfl⟩ := htree
    refine ⟨(), _, rfl, _, rfl, ?_⟩
    exact (typedList_reads_iff readsItem_variableName).2 ⟨list, by simp, rfl⟩

private theorem labelledTask_reads_iff {v : TaskForm} :
    (parenthesized do
      let _ ← Production.name
      Production.taskReference).Reads ts v rest ↔
      ∃ label s, ts = Subtask.tokens ⟨some label, s⟩ ++ rest ∧
        Subtask.form ⟨some label, s⟩ = v := by
  simp only [reads_parenthesized_iff, reads_bind_iff, name_reads_iff, taskReference_reads_iff]
  constructor
  · intro hread
    obtain ⟨_, rfl, label, _, rfl, s, rfl, rfl⟩ := hread
    exact ⟨label, s, by simp [Subtask.tokens, enclosed], rfl⟩
  · intro htree
    obtain ⟨label, s, rfl, rfl⟩ := htree
    exact ⟨_, rfl, label, _, rfl, s, by simp, rfl⟩

private theorem subtask_reads_iff {v : TaskForm} :
    Production.subtask.Reads ts v rest ↔
      ∃ s : Subtask, ts = s.tokens ++ rest ∧ s.form = v := by
  rw [Production.subtask, reads_labelled_iff, reads_orElse_iff_of_disjoint,
    labelledTask_reads_iff, taskReference_reads_iff]
  · constructor
    · rintro (⟨s, rfl, rfl⟩ | ⟨label, s, rfl, rfl⟩)
      · exact ⟨⟨none, s⟩, rfl, rfl⟩
      · exact ⟨⟨some label, s⟩, rfl, rfl⟩
    · rintro ⟨⟨_ | label, s⟩, rfl, rfl⟩
      · exact .inl ⟨s, rfl, rfl⟩
      · exact .inr ⟨label, s, rfl, rfl⟩
  · -- Behind the name a labelled subtask opens a parenthesis, and a plain one does not.
    intro _ _ _ _ hlab hplain
    obtain ⟨label, s, rfl, -⟩ := labelledTask_reads_iff.1 hlab
    obtain ⟨s', heq, -⟩ := taskReference_reads_iff.1 hplain
    obtain ⟨next, more, hnext, hne⟩ := signature_tokens_eq s' _
    rw [hnext] at heq
    simp only [Subtask.tokens, Signature.tokens, enclosed, List.cons_append, List.cons.injEq] at heq
    exact hne heq.2.2.1.symm

private theorem subtask_tokens_eq (s : Subtask) :
    ∃ name tail, s.tokens = .openParen :: .name name :: tail := by
  obtain ⟨_ | label, s⟩ := s
  · exact ⟨_, _, rfl⟩
  · exact ⟨_, _, rfl⟩

private theorem many_reads_trees_iff {α τ : Type} {r : Reader α} {tokens : τ → List Token}
    {form : τ → α}
    (h : ∀ {ts v rest}, r.Reads ts v rest ↔ ∃ x, ts = tokens x ++ rest ∧ form x = v)
    (hne : ∀ x, tokens x ≠ []) {stop : List Token} (hstop : r.Fails stop) {vs : List α} :
    (many r).Reads ts vs stop ↔
      ∃ xs : List τ, ts = xs.flatMap tokens ++ stop ∧ xs.map form = vs := by
  have hprogress : r.Progresses := by
    intro ts v rest hr
    obtain ⟨x, rfl, -⟩ := h.1 hr
    have := List.length_pos_iff.2 (hne x)
    rw [List.length_append]
    omega
  induction vs generalizing ts with
  | nil =>
    rw [reads_many_nil_iff]
    constructor
    · intro hread
      obtain ⟨-, rfl⟩ := hread
      exact ⟨[], rfl, rfl⟩
    · intro htree
      obtain ⟨xs, rfl, hxs⟩ := htree
      obtain rfl := List.map_eq_nil_iff.1 hxs
      exact ⟨hstop, rfl⟩
  | cons v vs ih =>
    rw [reads_many_cons_iff hprogress]
    constructor
    · intro hread
      obtain ⟨mid, hv, hvs⟩ := hread
      obtain ⟨x, rfl, rfl⟩ := h.1 hv
      obtain ⟨xs, rfl, rfl⟩ := ih.1 hvs
      exact ⟨x :: xs, by simp, rfl⟩
    · intro htree
      obtain ⟨xs, rfl, hxs⟩ := htree
      obtain ⟨x, xs, rfl, rfl, rfl⟩ := List.map_eq_cons_iff.1 hxs
      exact ⟨_, h.2 ⟨x, by simp, rfl⟩, ih.2 ⟨xs, rfl, rfl⟩⟩

private theorem subtask_tokens_ne_nil (s : Subtask) : s.tokens ≠ [] := by
  obtain ⟨name, tail, h⟩ := subtask_tokens_eq s
  simp [h]

private theorem subtask_fails : Production.subtask.Fails (.closeParen :: rest) := by
  refine not_reads_iff.1 ?_
  rintro ⟨v, rest', hr⟩
  obtain ⟨s, heq, -⟩ := subtask_reads_iff.1 hr
  obtain ⟨name, tail, hs⟩ := subtask_tokens_eq s
  simp [hs] at heq

private theorem many_subtask_reads_iff {vs : List TaskForm} :
    (many Production.subtask).Reads ts vs (.closeParen :: rest) ↔
      ∃ xs : List Subtask, ts = xs.flatMap Subtask.tokens ++ .closeParen :: rest ∧
        xs.map Subtask.form = vs :=
  many_reads_trees_iff subtask_reads_iff subtask_tokens_ne_nil subtask_fails

private theorem list_reads_iff {vs : List TaskForm} :
    (parenthesized (many Production.subtask)).Reads ts vs rest ↔
      ∃ xs, ts = (Block.list xs).tokens ++ rest ∧ xs.map Subtask.form = vs := by
  rw [reads_parenthesized_iff]
  constructor
  · intro hread
    obtain ⟨_, rfl, hr⟩ := hread
    obtain ⟨xs, rfl, rfl⟩ := many_subtask_reads_iff.1 hr
    exact ⟨xs, by simp [Block.tokens, enclosed], rfl⟩
  · intro htree
    obtain ⟨xs, rfl, rfl⟩ := htree
    exact ⟨_, rfl, many_subtask_reads_iff.2 ⟨xs, by simp, rfl⟩⟩

private theorem conjunction_reads_iff {vs : List TaskForm} :
    (parenthesized do
      token .and
      many Production.subtask).Reads ts vs rest ↔
      ∃ xs, ts = (Block.conjunction xs).tokens ++ rest ∧ xs.map Subtask.form = vs := by
  simp only [reads_parenthesized_iff, reads_bind_iff, reads_token_iff]
  constructor
  · intro hread
    obtain ⟨_, rfl, _, _, rfl, hr⟩ := hread
    obtain ⟨xs, rfl, rfl⟩ := many_subtask_reads_iff.1 hr
    exact ⟨xs, by simp [Block.tokens, enclosed], rfl⟩
  · intro htree
    obtain ⟨xs, rfl, rfl⟩ := htree
    exact ⟨_, rfl, (), _, rfl, many_subtask_reads_iff.2 ⟨xs, by simp, rfl⟩⟩

private theorem single_reads_iff {vs : List TaskForm} :
    (do
      let single ← Production.subtask
      return [single] : Reader (List TaskForm)).Reads ts vs rest ↔
      ∃ x : Subtask, ts = (Block.single x).tokens ++ rest ∧ [x.form] = vs := by
  simp only [reads_bind_iff, subtask_reads_iff, reads_pure_iff]
  constructor
  · intro hread
    obtain ⟨_, _, ⟨x, rfl, rfl⟩, rfl, rfl⟩ := hread
    exact ⟨x, rfl, rfl⟩
  · intro htree
    obtain ⟨x, rfl, rfl⟩ := htree
    exact ⟨_, _, ⟨x, rfl, rfl⟩, rfl, rfl⟩

/-- In front of a closing parenthesis, subtasks start with a parenthesis, if there are any. -/
private theorem starts_with_paren (xs : List Subtask) (tail : List Token) :
    ∀ t more, xs.flatMap Subtask.tokens ++ .closeParen :: tail = t :: more →
      t = .openParen ∨ t = .closeParen := by
  intro t more heq
  cases xs with
  | nil => exact .inr (List.cons.inj heq).1.symm
  | cons x xs =>
    obtain ⟨name, more', hx⟩ := subtask_tokens_eq x
    simp only [List.flatMap_cons, hx, List.cons_append, List.cons.injEq] at heq
    exact .inl heq.1.symm

private theorem subtasks_reads_iff {vs : List TaskForm} :
    Production.subtasks.Reads ts vs rest ↔
      ∃ b : Block, ts = b.tokens ++ rest ∧ b.subtasks.map Subtask.form = vs := by
  rw [Production.subtasks, reads_orElse_iff_of_disjoint, reads_orElse_iff_of_disjoint,
    list_reads_iff, conjunction_reads_iff, single_reads_iff]
  · constructor
    · rintro ((⟨xs, rfl, rfl⟩ | ⟨xs, rfl, rfl⟩) | ⟨x, rfl, rfl⟩)
      · exact ⟨.list xs, rfl, rfl⟩
      · exact ⟨.conjunction xs, rfl, rfl⟩
      · exact ⟨.single x, rfl, rfl⟩
    · rintro ⟨xs | xs | x, rfl, rfl⟩
      · exact .inl (.inl ⟨xs, rfl, rfl⟩)
      · exact .inl (.inr ⟨xs, rfl, rfl⟩)
      · exact .inr ⟨x, rfl, rfl⟩
  -- What stands behind the first parenthesis tells the three forms apart.
  · intro _ _ _ _ hc hl
    obtain ⟨xs, rfl, -⟩ := conjunction_reads_iff.1 hc
    obtain ⟨ys, heq, -⟩ := list_reads_iff.1 hl
    simp only [Block.tokens, enclosed, List.cons_append, List.cons.injEq, List.append_assoc,
      true_and] at heq
    simpa using starts_with_paren ys _ _ _ heq.symm
  · intro _ _ _ _ hs h
    obtain ⟨x, rfl, -⟩ := single_reads_iff.1 hs
    obtain ⟨name, more, hx⟩ := subtask_tokens_eq x
    rcases (reads_orElse_iff.1 h).imp_right And.right with h | h
    · obtain ⟨ys, heq, -⟩ := list_reads_iff.1 h
      simp only [Block.tokens, hx, enclosed, List.cons_append, List.cons.injEq, List.append_assoc,
        true_and] at heq
      simpa using starts_with_paren ys _ _ _ heq.symm
    · obtain ⟨ys, heq, -⟩ := conjunction_reads_iff.1 h
      simp [Block.tokens, hx, enclosed] at heq

private theorem ordering_reads_iff {v : Bool} :
    Production.ordering.Reads ts v rest ↔ ts = orderingToken v :: rest := by
  rw [Production.ordering, reads_labelled_iff, reads_orElse_iff_of_disjoint]
  · cases v <;> simp [orderingToken]
  · intro _ _ _ _ hs hr
    simp only [reads_bind_iff, reads_token_iff, reads_pure_iff] at hs hr
    obtain ⟨_, _, rfl, -⟩ := hs
    obtain ⟨_, _, heq, -⟩ := hr
    cases heq

theorem header_reads_iff {v : String} :
    Production.header.Reads ts v rest ↔ ts = headerTokens v ++ rest := by
  simp only [Production.header, reads_bind_iff, reads_token_iff, reads_parenthesized_iff,
    name_reads_iff]
  constructor
  · intro hread
    obtain ⟨_, _, rfl, _, _, rfl, _, rfl, _, _, rfl, rfl⟩ := hread
    rfl
  · rintro rfl
    exact ⟨(), _, rfl, (), _, rfl, _, rfl, (), _, rfl, rfl⟩

theorem requirements_reads_iff {v : List String} :
    Production.requirements.Reads ts v rest ↔ ts = (Section.requirements v).tokens ++ rest := by
  have hstop : Production.flag.Fails (.closeParen :: rest) :=
    not_reads_iff.1 fun ⟨_, _, h⟩ => by simp at h
  simp only [Production.requirements, reads_parenthesized_iff, reads_bind_iff, reads_token_iff,
    many_reads_iff flag_reads_iff]
  constructor
  · intro hread
    obtain ⟨_, rfl, _, _, rfl, rfl, -⟩ := hread
    simp [Section.tokens, Section.inner, enclosed]
  · rintro rfl
    exact ⟨_, rfl, (), _, rfl, by simp, hstop⟩

theorem types_reads_iff {v : List TypedRun} :
    Production.types.Reads ts v rest ↔
      ∃ list : TypedList, ts = (Section.types list).tokens ++ rest ∧ coarsen list.runs = v := by
  simp only [Production.types, reads_parenthesized_iff, reads_bind_iff, reads_token_iff,
    typedList_reads_iff readsItem_name]
  constructor
  · intro hread
    obtain ⟨_, rfl, _, _, rfl, list, rfl, rfl⟩ := hread
    exact ⟨list, by simp [Section.tokens, Section.inner, enclosed], rfl⟩
  · intro htree
    obtain ⟨list, rfl, rfl⟩ := htree
    exact ⟨_, rfl, (), _, rfl, list, by simp, rfl⟩

theorem task_reads_iff {v : TaskForm} :
    Production.task.Reads ts v rest ↔
      ∃ s : Signature, ts = (Section.task s).tokens ++ rest ∧ s.form = v := by
  simp only [Production.task, reads_parenthesized_iff, reads_bind_iff, reads_token_iff,
    name_reads_iff, parameters_reads_iff, reads_pure_iff]
  constructor
  · intro hread
    obtain ⟨_, rfl, _, _, rfl, name, _, rfl, _, _, ⟨list, rfl, rfl⟩, rfl, rfl⟩ := hread
    exact ⟨⟨name, list⟩, by simp [Section.tokens, Section.inner, enclosed], rfl⟩
  · intro htree
    obtain ⟨s, rfl, rfl⟩ := htree
    exact ⟨_, rfl, (), _, rfl, s.name, _, rfl, _, _, ⟨s.params, by simp, rfl⟩, rfl, rfl⟩

theorem method_reads_iff {v : MethodForm} :
    Production.method.Reads ts v rest ↔
      ∃ m : MethodRule, ts = (Section.method m).tokens ++ rest ∧ m.form = v := by
  simp only [Production.method, reads_parenthesized_iff, reads_bind_iff, reads_token_iff,
    name_reads_iff, parameters_reads_iff, taskReference_reads_iff, ordering_reads_iff,
    subtasks_reads_iff, reads_pure_iff]
  constructor
  · rintro ⟨_, rfl, _, _, rfl, name, _, rfl, _, _, ⟨list, rfl, rfl⟩, _, _, rfl, _, _, ⟨s, rfl, rfl⟩,
      ordered, _, rfl, _, _, ⟨b, rfl, rfl⟩, rfl, rfl⟩
    exact ⟨⟨name, list, s, ordered, b⟩, by simp [Section.tokens, Section.inner, enclosed], rfl⟩
  · intro htree
    obtain ⟨m, rfl, rfl⟩ := htree
    exact ⟨_, rfl, (), _, rfl, m.name, _, rfl, _, _, ⟨m.params, by simp, rfl⟩, (), _, rfl, _, _,
      ⟨m.task, rfl, rfl⟩, m.ordered, _, rfl, _, _, ⟨m.block, rfl, rfl⟩, rfl, rfl⟩

end Productions
end PlanningDomain.Grammar
