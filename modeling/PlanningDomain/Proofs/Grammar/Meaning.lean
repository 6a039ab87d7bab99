import PlanningDomain.Proofs.Domain.Params
import PlanningDomain.Proofs.Grammar.Productions

/-! What the trees of the grammar mean: the declarations that each one stands for, and the domain of
a whole sentence. Main statements: a declaration built from what a production keeps of a tree is the
meaning of the tree. -/
namespace PlanningDomain.Grammar
variable {root : String}

/-- The type of names in front of a typed list: the first type there, or else the root type. -/
def nextType (root : String) : List TypedRun → String
  | [] => root
  | ⟨_, some type⟩ :: _ => type
  | ⟨_, none⟩ :: runs => nextType root runs

/-- Each name of a typed list with the type that next follows it. -/
def typedPairs (root : String) : List TypedRun → List (String × String)
  | [] => []
  | run :: runs =>
    (run.names.map fun name => (name, nextType root (run :: runs))) ++ typedPairs root runs

/-- Parameters in the order of their first occurrences, each with the type of its last. -/
def TypedList.params (root : String) (list : TypedList) : Params where
  names := ((typedPairs root list.runs).map Prod.fst).eraseDups
  types := .ofList (typedPairs root list.runs)

/-- The pairs of a list of types, without the root type below itself. -/
def TypedList.edges (root : String) (list : TypedList) : List (String × String) :=
  (typedPairs root list.runs).filter (· ≠ (root, root))

def Signature.meaning (root : String) (s : Signature) : Task where
  name := s.name
  params := s.params.params root

def Literal.meaning (root : String) (l : Literal) : Predicate where
  name := l.atom.name
  negated := l.negated
  params := l.atom.params.params root

/-- The label of a subtask means nothing. -/
def Subtask.meaning (root : String) (s : Subtask) : Task :=
  s.task.meaning root

def MethodRule.meaning (root : String) (m : MethodRule) : Method where
  name := m.name
  params := m.params.params root
  task := m.task.meaning root
  ordered := m.ordered
  subtasks := m.block.subtasks.map (Subtask.meaning root)

/-- The domain that a sentence stands for. -/
def Sentence.meaning (root : String) (s : Sentence) : Domain where
  filePath := ""
  name := s.name
  requirements := s.requirements.getD []
  types := .ofList ((s.types.map (TypedList.edges root)).getD [])
  predicates := (s.predicates.getD []).map (Literal.meaning root)
  tasks := (s.body.filterMap Sum.getLeft?).map (Signature.meaning root)
  methods := (s.body.filterMap Sum.getRight?).map (MethodRule.meaning root)

private theorem foldl_pushName (names : List String) (t : Typing) :
    names.foldl Typing.pushName t = ⟨t.pending ++ names, t.resolved⟩ := by
  induction names generalizing t with
  | nil => simp
  | cons name names ih => simp [ih, Typing.pushName]

/-- What a pass will have resolved in the end. The names that wait take the next type. -/
private theorem finish_foldl_pushRun (root : String) (runs : List TypedRun) (t : Typing) :
    (runs.foldl Typing.pushRun t).finish root =
      t.resolved ++ (t.pending.map fun name => (name, nextType root runs)) ++
        typedPairs root runs := by
  induction runs generalizing t with
  | nil => simp [Typing.finish, Typing.applyType, nextType, typedPairs]
  | cons run runs ih =>
    obtain ⟨names, _ | type⟩ := run
    · simp [ih, Typing.pushRun, foldl_pushName, nextType, typedPairs]
    · simp [ih, Typing.pushRun, foldl_pushName, Typing.applyType, nextType, typedPairs]

theorem resolve_eq_typedPairs (root : String) (runs : List TypedRun) :
    Typing.resolve root runs = typedPairs root runs := by
  rw [Typing.resolve, finish_foldl_pushRun]
  rfl

theorem nextType_eq_findSome? (root : String) (runs : List TypedRun) :
    nextType root runs = (runs.findSome? TypedRun.type).getD root := by
  induction runs with
  | nil => rfl
  | cons run runs ih =>
    obtain ⟨names, _ | type⟩ := run
    · exact ih
    · rfl

private theorem nextType_append (root : String) (front back : List TypedRun) :
    nextType root (front ++ back) = nextType (nextType root back) front := by
  induction front with
  | nil => rfl
  | cons run front ih =>
    obtain ⟨names, _ | type⟩ := run
    · exact ih
    · rfl

/-- To the front of a list, the next type of its back is what the root type is to the whole. -/
theorem typedPairs_append (root : String) (front back : List TypedRun) :
    typedPairs root (front ++ back) =
      typedPairs (nextType root back) front ++ typedPairs root back := by
  induction front with
  | nil => rfl
  | cons run front ih =>
    rw [List.cons_append, typedPairs, typedPairs, ih, ← List.cons_append, nextType_append,
      List.append_assoc]

theorem map_fst_typedPairs (root : String) (runs : List TypedRun) :
    (typedPairs root runs).map Prod.fst = runs.flatMap TypedRun.names := by
  induction runs with
  | nil => rfl
  | cons run runs ih => simp [typedPairs, ih, Function.comp_def]

private theorem nextType_coarsen (root : String) (runs : List TypedRun) :
    nextType root (coarsen runs) = nextType root runs := by
  induction runs with
  | nil => rfl
  | cons run runs ih =>
    obtain ⟨names, _ | type⟩ := run
    · rw [coarsen, nextType, ← ih]
      cases coarsen runs with
      | nil => rfl
      | cons run rest => obtain ⟨_, _ | _⟩ := run <;> rfl
    · rfl

theorem typedPairs_coarsen (root : String) (runs : List TypedRun) :
    typedPairs root (coarsen runs) = typedPairs root runs := by
  induction runs with
  | nil => rfl
  | cons run runs ih =>
    have hnext := nextType_coarsen root runs
    obtain ⟨names, _ | type⟩ := run
    · rw [coarsen, typedPairs, nextType, ← ih, ← hnext]
      cases coarsen runs with
      | nil => rfl
      | cons run rest => obtain ⟨_, _ | _⟩ := run <;> simp [typedPairs, nextType]
    · rw [coarsen, typedPairs, typedPairs, ih]
      rfl

private theorem resolve_coarsen (root : String) (list : TypedList) :
    Typing.resolve root (coarsen list.runs) = typedPairs root list.runs := by
  rw [resolve_eq_typedPairs, typedPairs_coarsen]

private theorem params_ofRuns_coarsen (root : String) (list : TypedList) :
    Params.ofRuns root (coarsen list.runs) = list.params root := by
  rw [Params.ofRuns, resolve_coarsen, Params.ofPairs_eq]
  rfl

private theorem task_ofForm_form (root : String) (s : Signature) :
    Task.ofForm root s.form = s.meaning root := by
  rw [Task.ofForm, Signature.form, params_ofRuns_coarsen]
  rfl

private theorem predicate_ofForm_form (root : String) (l : Literal) :
    Predicate.ofForm root l.form = l.meaning root := by
  rw [Predicate.ofForm, Literal.form, params_ofRuns_coarsen]
  rfl

private theorem method_ofForm_form (root : String) (m : MethodRule) :
    Method.ofForm root m.form = m.meaning root := by
  have hsubtasks : (m.block.subtasks.map Subtask.form).map (Task.ofForm root) =
      m.block.subtasks.map (Subtask.meaning root) := by
    rw [List.map_map]
    exact List.map_congr_left fun s _ => task_ofForm_form root s.task
  rw [Method.ofForm, MethodRule.form, params_ofRuns_coarsen, task_ofForm_form, hsubtasks]
  rfl

/-- A domain with nothing but a name. -/
def headed (name : String) : Domain := { Domain.empty with name := name }

/-- The domain with the declarations of a section behind its own. -/
def Section.addTo (root : String) (d : Domain) : Section → Domain
  | requirements flags => { d with requirements := d.requirements ++ flags }
  | types list =>
    { d with types := (list.edges root).foldl (fun m e => m.insert e.1 e.2) d.types }
  | predicates literals =>
    { d with predicates := d.predicates ++ literals.map (Literal.meaning root) }
  | task signature => { d with tasks := d.tasks ++ [signature.meaning root] }
  | method rule => { d with methods := d.methods ++ [rule.meaning root] }

theorem foldl_addRequirement (flags : List String) (d : Domain) :
    flags.foldl Domain.addRequirement d = (Section.requirements flags).addTo root d := by
  induction flags generalizing d with
  | nil => simp [Section.addTo]
  | cons flag flags ih => simp [ih, Domain.addRequirement, Section.addTo]

/-- A section of types puts its edges into the map, save the root type below itself. -/
theorem addTypes_eq (runs : List TypedRun) (d : Domain) :
    Domain.addTypes root d runs =
      { d with
        types := ((typedPairs root runs).filter (· ≠ (root, root))).foldl
          (fun m e => m.insert e.1 e.2) d.types } := by
  rw [Domain.addTypes, resolve_eq_typedPairs]
  generalize typedPairs root runs = pairs
  induction pairs generalizing d with
  | nil => rfl
  | cons pair pairs ih =>
    obtain ⟨name, parent⟩ := pair
    rw [List.foldl_cons, ih]
    by_cases h : name = root ∧ parent = root
    · simp [h]
    · simp [h, Domain.addTypeEdge]

theorem addTypes_coarsen (list : TypedList) (d : Domain) :
    Domain.addTypes root d (coarsen list.runs) = (Section.types list).addTo root d := by
  rw [addTypes_eq, typedPairs_coarsen, Section.addTo, TypedList.edges]

theorem foldl_addPredicate (literals : List Literal) (d : Domain) :
    (literals.map Literal.form).foldl (Domain.addPredicate root) d =
      (Section.predicates literals).addTo root d := by
  induction literals generalizing d with
  | nil => simp [Section.addTo]
  | cons literal literals ih =>
    simp [ih, Domain.addPredicate, predicate_ofForm_form, Section.addTo]

theorem addTask_form (s : Signature) (d : Domain) :
    Domain.addTask root d s.form = (Section.task s).addTo root d := by
  rw [Domain.addTask, task_ofForm_form, Section.addTo]

theorem addMethod_form (m : MethodRule) (d : Domain) :
    Domain.addMethod root d m.form = (Section.method m).addTo root d := by
  rw [Domain.addMethod, method_ofForm_form, Section.addTo]

theorem foldl_addTo_sections (root : String) (s : Sentence) :
    s.sections.foldl (Section.addTo root) (headed s.name) = s.meaning root := by
  have hbody (body : List (Signature ⊕ MethodRule)) (d : Domain) :
      (body.map (Sum.elim Section.task Section.method)).foldl (Section.addTo root) d =
        { d with
          tasks := d.tasks ++ (body.filterMap Sum.getLeft?).map (Signature.meaning root)
          methods := d.methods ++ (body.filterMap Sum.getRight?).map (MethodRule.meaning root) } := by
    induction body generalizing d with
    | nil => simp
    | cons part body ih =>
      rcases part with signature | rule
      · simp [ih, Section.addTo, List.filterMap_cons]
      · simp [ih, Section.addTo, List.filterMap_cons]
  obtain ⟨name, requirements, types, predicates, body⟩ := s
  rw [Sentence.sections, List.foldl_append, hbody]
  cases requirements <;> cases types <;> cases predicates <;>
    simp [Section.addTo, Sentence.meaning, headed, Domain.empty, NameMap.ofList]

end PlanningDomain.Grammar
