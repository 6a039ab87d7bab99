import PlanningDomain.Proofs.Grammar.Meaning

/-! Typed lists cut in different ways. Main statement: all cuts of the same tokens mean the same,
and the productions yield each list in its coarsest cut. -/
namespace PlanningDomain.Grammar

open Reader Production

/-- What typed lists are made of, with the token of each item. -/
def itemKinds : List (Reader String × (String → Token)) :=
  [(Production.name, .name), (variableName, .var)]

private theorem readsItem_of_mem {kind : Reader String × (String → Token)} (h : kind ∈ itemKinds) :
    ReadsItem kind.1 kind.2 := by
  simp only [itemKinds, List.mem_cons, List.not_mem_nil, or_false] at h
  rcases h with rfl | rfl
  · exact readsItem_name
  · exact readsItem_variableName

section Cuts
variable {item : Reader String} {token : String → Token} {list list' : TypedList}

private theorem coarsen_eq_of_runTokens_eq (h : ReadsItem item token)
    (htokens : runTokens token list.runs = runTokens token list'.runs) :
    coarsen list.runs = coarsen list'.runs := by
  have hreads (l : TypedList) : (typedList item).Reads
      (runTokens token l.runs ++ [.closeParen]) (coarsen l.runs) [.closeParen] :=
    (typedList_reads_iff h).2 ⟨l, rfl, rfl⟩
  have hlist := hreads list
  rw [htokens] at hlist
  exact (hlist.unique (hreads list')).1

private theorem length_coarsen_le (runs : List TypedRun) : (coarsen runs).length ≤ runs.length := by
  induction runs with
  | nil => exact Nat.le_refl _
  | cons run runs ih =>
    obtain ⟨names, _ | type⟩ := run
    · rw [coarsen]
      cases hruns : coarsen runs with
      | nil => simp
      | cons first rest =>
        rw [hruns] at ih
        exact Nat.le_succ_of_le ih
    · exact Nat.succ_le_succ ih

/-- All cuts of the same tokens resolve to the same pairs. -/
private theorem resolve_eq_of_runTokens_eq (h : ReadsItem item token)
    (htokens : runTokens token list.runs = runTokens token list'.runs) (root : String) :
    Typing.resolve root list.runs = Typing.resolve root list'.runs := by
  calc Typing.resolve root list.runs
      = typedPairs root (coarsen list.runs) := by
        rw [resolve_eq_typedPairs, typedPairs_coarsen]
    _ = typedPairs root (coarsen list'.runs) := by
        rw [coarsen_eq_of_runTokens_eq h htokens]
    _ = Typing.resolve root list'.runs := by
        rw [resolve_eq_typedPairs, typedPairs_coarsen]

end Cuts

def TypedList.coarse (list : TypedList) : TypedList :=
  ⟨coarsen list.runs, (coarse_coarsen list.names_ne_nil).names_ne_nil⟩

private theorem TypedList.coarse_runs (list : TypedList) : Coarse list.coarse.runs :=
  coarse_coarsen list.names_ne_nil

private theorem parameterTokens_coarse (params : TypedList) :
    parameterTokens params.coarse = parameterTokens params := by
  rw [parameterTokens, TypedList.coarse, runTokens_coarsen, parameterTokens]

namespace Signature

def coarse (s : Signature) : Signature := { s with params := s.params.coarse }

def lists (s : Signature) : List TypedList := [s.params]

/-- The signature as it is cut. -/
def verbatim (s : Signature) : TaskForm := ⟨s.name, s.params.runs⟩

private theorem tokens_coarse (s : Signature) : s.coarse.tokens = s.tokens := by
  rw [tokens, coarse, TypedList.coarse, runTokens_coarsen, tokens]

private theorem coarse_lists (s : Signature) : ∀ list ∈ s.coarse.lists, Coarse list.runs := by
  intro list hlist
  obtain rfl := List.mem_singleton.1 hlist
  exact s.params.coarse_runs

end Signature

namespace Literal

def coarse (l : Literal) : Literal := { l with atom := l.atom.coarse }

def lists (l : Literal) : List TypedList := l.atom.lists

/-- The predicate as it is cut. -/
def verbatim (l : Literal) : PredicateForm := ⟨l.atom.name, l.negated, l.atom.params.runs⟩

private theorem tokens_coarse (l : Literal) : l.coarse.tokens = l.tokens := by
  rw [tokens, coarse, Signature.tokens_coarse, tokens]

end Literal

namespace Subtask

def coarse (s : Subtask) : Subtask := { s with task := s.task.coarse }

private theorem tokens_coarse (s : Subtask) : s.coarse.tokens = s.tokens := by
  obtain ⟨_ | label, s⟩ := s
  · exact s.tokens_coarse
  · exact congrArg (fun ts => enclosed (.name label :: ts)) s.tokens_coarse

end Subtask

namespace Block

def coarse : Block → Block
  | list subtasks => list (subtasks.map Subtask.coarse)
  | conjunction subtasks => conjunction (subtasks.map Subtask.coarse)
  | single subtask => single subtask.coarse

private theorem subtasks_coarse (b : Block) :
    b.coarse.subtasks = b.subtasks.map Subtask.coarse := by
  cases b <;> rfl

private theorem tokens_coarse (b : Block) : b.coarse.tokens = b.tokens := by
  have hflat (subtasks : List Subtask) :
      (subtasks.map Subtask.coarse).flatMap Subtask.tokens = subtasks.flatMap Subtask.tokens := by
    rw [List.flatMap_map]
    exact congrArg (List.flatMap · subtasks) (funext Subtask.tokens_coarse)
  cases b with
  | list subtasks => rw [coarse, tokens, hflat, tokens]
  | conjunction subtasks => rw [coarse, tokens, hflat, tokens]
  | single subtask => exact subtask.tokens_coarse

end Block

namespace MethodRule

def coarse (m : MethodRule) : MethodRule :=
  { m with params := m.params.coarse, task := m.task.coarse, block := m.block.coarse }

def lists (m : MethodRule) : List TypedList :=
  m.params :: m.task.params :: m.block.subtasks.map fun s => s.task.params

/-- The method as it is cut. -/
def verbatim (m : MethodRule) : MethodForm where
  name := m.name
  params := m.params.runs
  task := m.task.verbatim
  ordered := m.ordered
  subtasks := m.block.subtasks.map fun s => s.task.verbatim

private theorem tokens_coarse (m : MethodRule) :
    (Section.method m.coarse).tokens = (Section.method m).tokens := by
  rw [Section.tokens, Section.inner, coarse, parameterTokens_coarse, Signature.tokens_coarse,
    Block.tokens_coarse, Section.tokens, Section.inner]

private theorem verbatim_coarse (m : MethodRule) : m.coarse.verbatim = m.form := by
  rw [verbatim, coarse, Block.subtasks_coarse, List.map_map]
  rfl

private theorem coarse_lists (m : MethodRule) : ∀ list ∈ m.coarse.lists, Coarse list.runs := by
  intro list hlist
  simp only [lists, coarse, Block.subtasks_coarse, List.mem_cons, List.map_map,
    List.mem_map] at hlist
  rcases hlist with rfl | rfl | ⟨s, -, rfl⟩
  · exact m.params.coarse_runs
  · exact m.task.params.coarse_runs
  · exact s.task.params.coarse_runs

end MethodRule

/-- What a production makes of tokens is one of their trees just as it is cut, and all its typed
lists are cut as coarsely as can be. All other trees of these tokens come to the same when their
lists are coarsened. -/
structure YieldsCoarsest {α τ : Type} (production : Reader α) (tokens : τ → List Token)
    (lists : τ → List TypedList) (verbatim form : τ → α) : Prop where
  taken : ∀ ts v, production.whole ts = .ok v →
    ∃ x, ts = tokens x ∧ v = verbatim x ∧ ∀ list ∈ lists x, Coarse list.runs
  accepted : ∀ x, production.whole (tokens x) = .ok (form x)

private theorem yieldsCoarsest {α τ : Type} {production : Reader α} {tokens : τ → List Token}
    {lists : τ → List TypedList} {verbatim form : τ → α}
    (hreads : ∀ {ts v rest}, production.Reads ts v rest ↔ ∃ x, ts = tokens x ++ rest ∧ form x = v)
    (coarse : τ → τ) (htokens : ∀ x, tokens (coarse x) = tokens x)
    (hverbatim : ∀ x, verbatim (coarse x) = form x)
    (hlists : ∀ x, ∀ list ∈ lists (coarse x), Coarse list.runs) :
    YieldsCoarsest production tokens lists verbatim form where
  taken ts v h := by
    obtain ⟨x, rfl, rfl⟩ := hreads.1 (whole_eq_ok_iff.1 h)
    refine ⟨coarse x, ?_, ?_, hlists x⟩
    · rw [htokens, List.append_nil]
    · exact (hverbatim x).symm
  accepted x := by
    apply whole_eq_ok_iff.2
    apply hreads.2
    exact ⟨x, (List.append_nil _).symm, rfl⟩

private theorem types_yieldsCoarsest : YieldsCoarsest Production.types
    (fun list : TypedList => (Section.types list).tokens) (fun list => [list]) TypedList.runs
    (fun list => coarsen list.runs) := by
  apply yieldsCoarsest types_reads_iff TypedList.coarse
  · intro list
    rw [Section.tokens, Section.inner, TypedList.coarse, runTokens_coarsen]
    rfl
  · intro list
    rfl
  · simpa using TypedList.coarse_runs

private theorem predicate_yieldsCoarsest :
    YieldsCoarsest Production.predicate Literal.tokens Literal.lists
    Literal.verbatim Literal.form := by
  apply yieldsCoarsest predicate_reads_iff Literal.coarse Literal.tokens_coarse
  · intro l
    rfl
  · intro l
    exact l.atom.coarse_lists

private theorem task_yieldsCoarsest :
    YieldsCoarsest Production.task (fun s => (Section.task s).tokens)
    Signature.lists Signature.verbatim Signature.form := by
  apply yieldsCoarsest task_reads_iff Signature.coarse
  · intro s
    rw [Section.tokens, Section.inner, Signature.coarse, parameterTokens_coarse]
    rfl
  · intro s
    rfl
  · exact Signature.coarse_lists

private theorem method_yieldsCoarsest :
    YieldsCoarsest Production.method (fun m => (Section.method m).tokens)
    MethodRule.lists MethodRule.verbatim MethodRule.form :=
  yieldsCoarsest method_reads_iff MethodRule.coarse MethodRule.tokens_coarse
    MethodRule.verbatim_coarse MethodRule.coarse_lists

/-- However the same tokens are cut into a typed list, the parameters and the types that it stands
for are the same. The reader of typed lists, where a closing parenthesis follows, takes the tokens
of the runs that it yields, of which only the last may lack a type; no cut of these tokens has fewer
runs. So does each production with typed lists. -/
theorem typed_lists_mean_the_same :
    (∀ kind ∈ itemKinds, ∀ list list' : TypedList,
      runTokens kind.2 list.runs = runTokens kind.2 list'.runs → ∀ root,
        Params.ofRuns root list.runs = Params.ofRuns root list'.runs ∧
        ∀ d, Domain.addTypes root d list.runs = Domain.addTypes root d list'.runs) ∧
    (∀ kind ∈ itemKinds, ∀ ts runs rest,
      (typedList kind.1).Reads ts runs (.closeParen :: rest) →
        Coarse runs ∧ ts = runTokens kind.2 runs ++ .closeParen :: rest ∧
        ∀ list : TypedList, runTokens kind.2 list.runs = runTokens kind.2 runs →
          coarsen list.runs = runs ∧ runs.length ≤ list.runs.length) ∧
    YieldsCoarsest Production.types (fun list : TypedList => (Section.types list).tokens)
      (fun list => [list]) TypedList.runs (fun list => coarsen list.runs) ∧
    YieldsCoarsest Production.predicate Literal.tokens Literal.lists Literal.verbatim Literal.form ∧
    YieldsCoarsest Production.task (fun s => (Section.task s).tokens) Signature.lists
      Signature.verbatim Signature.form ∧
    YieldsCoarsest Production.method (fun m => (Section.method m).tokens) MethodRule.lists
      MethodRule.verbatim MethodRule.form := by
  refine ⟨?_, ?_, types_yieldsCoarsest, predicate_yieldsCoarsest, task_yieldsCoarsest,
    method_yieldsCoarsest⟩
  · intro kind hkind list list' htokens root
    have hresolve := resolve_eq_of_runTokens_eq (readsItem_of_mem hkind) htokens root
    constructor
    · rw [Params.ofRuns, Params.ofRuns, hresolve]
    · intro d
      rw [Domain.addTypes, Domain.addTypes, hresolve]
  · intro kind hkind ts runs rest hreads
    have hitem := readsItem_of_mem hkind
    obtain ⟨hcoarse, hts⟩ := (typedList_reads_coarse_iff hitem).1 hreads
    refine ⟨hcoarse, hts, ?_⟩
    intro list htokens
    let cut : TypedList := ⟨runs, hcoarse.names_ne_nil⟩
    have heq : coarsen list.runs = runs :=
      calc coarsen list.runs
          = coarsen cut.runs := coarsen_eq_of_runTokens_eq hitem htokens
        _ = runs := hcoarse.coarsen_eq
    refine ⟨heq, ?_⟩
    rw [← heq]
    exact length_coarsen_le list.runs

/-- A run cut in two. -/
theorem typed_lists_mean_the_same_recut :
    let list : TypedList := ⟨[⟨["a"], none⟩, ⟨["b"], some "t"⟩], by simp⟩
    let list' : TypedList := ⟨[⟨["a", "b"], some "t"⟩], by simp⟩
    runTokens .name list.runs = runTokens .name list'.runs ∧
      Params.ofRuns "object" list.runs = Params.ofRuns "object" list'.runs ∧
      Production.types.whole (Section.types list).tokens = .ok list'.runs := by
  intro list list'
  obtain ⟨hmean, -, htypes, -⟩ := typed_lists_mean_the_same
  have htokens : runTokens .name list.runs = runTokens .name list'.runs := rfl
  have hkind : (Production.name, Token.name) ∈ itemKinds := List.mem_cons_self
  exact ⟨htokens, (hmean _ hkind list list' htokens "object").1, htypes.accepted list⟩

end PlanningDomain.Grammar
