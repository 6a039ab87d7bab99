import PlanningDomain.Proofs.Grammar.Meaning
import PlanningDomain.Proofs.Token.Lexical

/-! Well-formed domains. Main statement: sections whose tokens stand in some text add nothing else
to a domain, whatever the root type is. -/
namespace PlanningDomain

/-- Distinct variables, each with a type that is a name or the root type. -/
structure Params.WellFormed (root : String) (p : Params) : Prop extends p.Settled where
  isVariable : ∀ name ∈ p.names, IsVariable name
  isType : ∀ e ∈ p.types.entries, IsName e.2 ∨ e.2 = root

structure Predicate.WellFormed (root : String) (p : Predicate) : Prop where
  isName : IsName p.name
  params : p.params.WellFormed root

structure Task.WellFormed (root : String) (t : Task) : Prop where
  isName : IsName t.name
  params : t.params.WellFormed root

structure Method.WellFormed (root : String) (m : Method) : Prop where
  isName : IsName m.name
  params : m.params.WellFormed root
  task : m.task.WellFormed root
  subtasks : ∀ t ∈ m.subtasks, t.WellFormed root

/-- A domain of a text in memory, which may lack its name. The root type is not declared below
itself. -/
structure Domain.WellFormed (root : String) (d : Domain) : Prop where
  filePath_eq : d.filePath = ""
  isName : d.name = "" ∨ IsName d.name
  requirements : ∀ flag ∈ d.requirements, IsFlag flag
  types : ∀ e ∈ d.types.entries, IsName e.1 ∧ (IsName e.2 ∨ e.2 = root)
  root_ne : d.types.get? root ≠ some root
  predicates : ∀ p ∈ d.predicates, p.WellFormed root
  tasks : ∀ t ∈ d.tasks, t.WellFormed root
  methods : ∀ m ∈ d.methods, m.WellFormed root

namespace Grammar

section Meaning
variable {root : String}

private theorem nextType_eq (runs : List TypedRun) (item : String → Token) :
    nextType root runs = root ∨ .name (nextType root runs) ∈ runTokens item runs := by
  induction runs with
  | nil => exact .inl rfl
  | cons run runs ih =>
    obtain ⟨names, _ | type⟩ := run
    · rw [nextType, runTokens, List.flatMap_cons]
      exact ih.imp_right fun h => List.mem_append_right _ h
    · right
      simp [nextType, runTokens, suffixTokens]

private theorem mem_runTokens_of_mem_typedPairs (item : String → Token) {runs : List TypedRun}
    {pair : String × String} (h : pair ∈ typedPairs root runs) :
    item pair.1 ∈ runTokens item runs ∧
      (pair.2 = root ∨ .name pair.2 ∈ runTokens item runs) := by
  induction runs with
  | nil => simp [typedPairs] at h
  | cons run runs ih =>
    rw [typedPairs, List.mem_append] at h
    rcases h with h | h
    · obtain ⟨name, hname, rfl⟩ := List.mem_map.1 h
      refine ⟨?_, nextType_eq _ item⟩
      rw [runTokens, List.flatMap_cons]
      exact List.mem_append_left _ (List.mem_append_left _ (List.mem_map_of_mem hname))
    · obtain ⟨hname, htype⟩ := ih h
      rw [runTokens, List.flatMap_cons]
      exact ⟨List.mem_append_right _ hname, htype.imp_right (List.mem_append_right _)⟩

private theorem Block.mem_tokens_of_mem {b : Block} {s : Subtask} (hs : s ∈ b.subtasks) {t : Token}
    (ht : t ∈ s.tokens) : t ∈ b.tokens := by
  cases b with
  | list subtasks =>
    have hmem : t ∈ subtasks.flatMap Subtask.tokens := List.mem_flatMap_of_mem hs ht
    exact List.mem_cons_of_mem _ (List.mem_append_left _ hmem)
  | conjunction subtasks =>
    have hmem : t ∈ subtasks.flatMap Subtask.tokens := List.mem_flatMap_of_mem hs ht
    exact List.mem_cons_of_mem _ (List.mem_append_left _ (List.mem_cons_of_mem _ hmem))
  | single subtask => rwa [List.mem_singleton.1 hs] at ht

private theorem TypedList.wellFormed_params {list : TypedList}
    (h : ∀ t ∈ runTokens .var list.runs, t.Lexes) : (list.params root).WellFormed root := by
  have hparams : list.params root = .ofPairs (typedPairs root list.runs) :=
    (Params.ofPairs_eq _).symm
  rw [hparams]
  refine ⟨Params.settled_ofPairs _, fun name hname => ?_, fun e he => ?_⟩
  · obtain ⟨pair, hpair, rfl⟩ := List.mem_map.1 (Params.mem_names_ofPairs.1 hname)
    exact h _ (mem_runTokens_of_mem_typedPairs .var hpair).1
  · rw [Params.ofPairs_eq] at he
    have hpair := NameMap.mem_of_mem_entries_ofList he
    exact (mem_runTokens_of_mem_typedPairs .var hpair).2.symm.imp_left (h _)

private theorem Signature.wellFormed_meaning {s : Signature} (h : ∀ t ∈ s.tokens, t.Lexes) :
    (s.meaning root).WellFormed root where
  isName := h (.name s.name) (by simp [Signature.tokens, enclosed])
  params := s.params.wellFormed_params fun t ht =>
    h t (by simp [Signature.tokens, enclosed, ht])

private theorem Literal.wellFormed_meaning {l : Literal} (h : ∀ t ∈ l.tokens, t.Lexes) :
    (l.meaning root).WellFormed root := by
  have hatom : ∀ t ∈ l.atom.tokens, t.Lexes := fun t ht => h t <| by
    rw [Literal.tokens]
    split
    · simp [enclosed, ht]
    · exact ht
  have hmeaning : (l.atom.meaning root).WellFormed root := l.atom.wellFormed_meaning hatom
  exact ⟨hmeaning.isName, hmeaning.params⟩

private theorem Subtask.wellFormed_meaning {s : Subtask} (h : ∀ t ∈ s.tokens, t.Lexes) :
    (s.meaning root).WellFormed root := by
  refine s.task.wellFormed_meaning fun t ht => h t ?_
  rw [Subtask.tokens]
  split
  · exact ht
  · simp [enclosed, ht]

private theorem MethodRule.wellFormed_meaning {m : MethodRule}
    (h : ∀ t ∈ (Section.method m).tokens, t.Lexes) : (m.meaning root).WellFormed root where
  isName := h (.name m.name) (by simp [Section.tokens, Section.inner, enclosed])
  params := m.params.wellFormed_params fun t ht => h t (by
    simp [Section.tokens, Section.inner, parameterTokens, enclosed, ht])
  task := m.task.wellFormed_meaning fun t ht => h t (by
    simp [Section.tokens, Section.inner, enclosed, ht])
  subtasks := by
    have hblock : ∀ t ∈ m.block.tokens, t.Lexes := fun t ht => h t (by
      simp [Section.tokens, Section.inner, enclosed, ht])
    intro u hu
    obtain ⟨s, hs, rfl⟩ := List.mem_map.1 hu
    exact s.wellFormed_meaning fun t ht => hblock t (m.block.mem_tokens_of_mem hs ht)

private theorem Section.wellFormed_addTo {x : Section} (h : ∀ t ∈ x.tokens, t.Lexes) {d : Domain}
    (hd : d.WellFormed root) : (x.addTo root d).WellFormed root := by
  have hinner : ∀ t ∈ x.inner, t.Lexes := fun t ht => h t (by simp [Section.tokens, enclosed, ht])
  cases x with
  | requirements flags =>
    refine { hd with requirements := fun flag hflag => ?_ }
    rcases List.mem_append.1 hflag with hflag | hflag
    · exact hd.requirements flag hflag
    · exact hinner (.keyword flag) (by simp [Section.inner, hflag])
  | types list =>
    have hedges : ∀ e ∈ list.edges root, IsName e.1 ∧ (IsName e.2 ∨ e.2 = root) := by
      intro e he
      obtain ⟨hname, htype⟩ :=
        mem_runTokens_of_mem_typedPairs .name (List.mem_of_mem_filter he)
      refine ⟨hinner (.name e.1) (List.mem_cons_of_mem _ hname), htype.symm.imp_left fun h => ?_⟩
      exact hinner (.name e.2) (List.mem_cons_of_mem _ h)
    refine { hd with types := fun e he => ?_, root_ne := fun heq => ?_ }
    · exact (NameMap.mem_entries_foldl_insert he).elim (hedges e) (hd.types e)
    · rcases NameMap.mem_entries_foldl_insert (NameMap.mem_entries_iff.2 heq) with hedge | hold
      · simp [TypedList.edges] at hedge
      · exact hd.root_ne (NameMap.mem_entries_iff.1 hold)
  | predicates literals =>
    refine { hd with predicates := fun p hp => ?_ }
    rcases List.mem_append.1 hp with hp | hp
    · exact hd.predicates p hp
    · obtain ⟨l, hl, rfl⟩ := List.mem_map.1 hp
      exact l.wellFormed_meaning fun t ht =>
        hinner t (List.mem_cons_of_mem _ (List.mem_flatMap_of_mem hl ht))
  | task signature =>
    refine { hd with tasks := fun t ht => ?_ }
    rcases List.mem_append.1 ht with ht | ht
    · exact hd.tasks t ht
    · rw [List.mem_singleton.1 ht]
      constructor
      · exact hinner (.name signature.name) (by simp [Section.inner])
      · exact signature.params.wellFormed_params fun t ht =>
          hinner t (by simp [Section.inner, parameterTokens, enclosed, ht])
  | method rule =>
    refine { hd with methods := fun m hm => ?_ }
    rcases List.mem_append.1 hm with hm | hm
    · exact hd.methods m hm
    · rw [List.mem_singleton.1 hm]
      exact rule.wellFormed_meaning h

theorem wellFormed_headed {name : String} (h : name = "" ∨ IsName name) :
    (headed name).WellFormed root := by
  constructor <;> simp [headed, Domain.empty, NameMap.empty, NameMap.get?, h]

theorem wellFormed_foldl_addTo {xs : List Section} (h : ∀ x ∈ xs, ∀ t ∈ x.tokens, t.Lexes)
    {d : Domain} (hd : d.WellFormed root) : (xs.foldl (Section.addTo root) d).WellFormed root := by
  induction xs generalizing d with
  | nil => exact hd
  | cons x xs ih =>
    exact ih (fun y hy => h y (List.mem_cons_of_mem _ hy))
      (x.wellFormed_addTo (h x List.mem_cons_self) hd)

end Meaning
end Grammar
end PlanningDomain
