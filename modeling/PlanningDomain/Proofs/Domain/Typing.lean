import Mathlib.Data.Finset.Card
import PlanningDomain.Proofs.Grammar.Meaning

/-! Sections of types, typed lists and repeated parameters. Main statements: of the parents of a
type the last counts; every pushed name comes out once and in its place, with the first type given
from its push on; and each parameter has the place of its first pair and the type of its last. -/
namespace PlanningDomain

open Grammar

variable {root : String}

/-- The pairs of a section that count. -/
def countedEdges (root : String) (runs : List TypedRun) : List (String × String) :=
  (typedPairs root runs).filter (· ≠ (root, root))

/-- Of the pairs that count for a name, this is the last. -/
def IsLastParent (root : String) (runs : List TypedRun) (name parent : String) : Prop :=
  ∃ front back, countedEdges root runs = front ++ (name, parent) :: back ∧
    name ∉ back.map Prod.fst

private theorem root_pair_not_mem_countedEdges (runs : List TypedRun) :
    (root, root) ∉ countedEdges root runs := by
  simp [countedEdges]

private theorem not_isLastParent_root {runs : List TypedRun} :
    ¬ IsLastParent root runs root root := by
  rintro ⟨front, back, heq, -⟩
  apply root_pair_not_mem_countedEdges runs
  rw [heq]
  simp

/-- Names without a type at the end take the root type, and leave all names in front as they are. -/
private theorem typedPairs_concat_untyped (runs : List TypedRun) (names : List String) :
    typedPairs root (runs ++ [⟨names, none⟩]) =
      typedPairs root runs ++ names.map fun name => (name, root) := by
  rw [typedPairs_append]
  simp [typedPairs, nextType]

namespace Domain
variable {d : Domain} {runs : List TypedRun}

private theorem addTypes_eq_foldl_countedEdges :
    addTypes root d runs =
      { d with types := (countedEdges root runs).foldl (fun m e => m.insert e.1 e.2) d.types } :=
  addTypes_eq runs d

private theorem get?_addTypes_eq_some_iff {name parent : String} :
    (addTypes root d runs).types.get? name = some parent ↔
      IsLastParent root runs name parent ∨
        name ∉ (countedEdges root runs).map Prod.fst ∧ d.types.get? name = some parent := by
  rw [addTypes_eq_foldl_countedEdges]
  exact NameMap.get?_foldl_insert_eq_some_iff

private theorem addTypes_congr {other : List TypedRun}
    (h : countedEdges root other = countedEdges root runs) :
    addTypes root d other = addTypes root d runs := by
  rw [addTypes_eq_foldl_countedEdges, addTypes_eq_foldl_countedEdges, h]

private theorem addTypes_of_countedEdges_eq_nil (h : countedEdges root runs = []) :
    addTypes root d runs = d := by
  rw [addTypes_eq_foldl_countedEdges, h]
  rfl

private theorem addTypes_addTypes :
    addTypes root (addTypes root d runs) runs = addTypes root d runs := by
  simp only [addTypes_eq_foldl_countedEdges, NameMap.foldl_insert_foldl_insert]

/-- The resolved pairs give each name the type that next follows it. Once a section is added, a name
has the parent of its last pair other than the root type below itself, or else the parent it had,
and the domain is the same in all other parts. So a root type that was not its own parent does not
become so, a root type declared without a parent keeps the one it had, be it from the same section,
and a section added twice is a section added once. -/
theorem types_keep_their_last_parent (root : String) (d : Domain) (runs : List TypedRun) :
    let added := addTypes root d runs
    Typing.resolve root runs = typedPairs root runs ∧
      (∀ name parent, added.types.get? name = some parent ↔
        IsLastParent root runs name parent ∨
          name ∉ (countedEdges root runs).map Prod.fst ∧ d.types.get? name = some parent) ∧
      { added with types := d.types } = d ∧
      (added.types.get? root = some root → d.types.get? root = some root) ∧
      addTypes root added [⟨[root], none⟩] = added ∧
      addTypes root d (runs ++ [⟨[root], none⟩]) = added ∧
      addTypes root added runs = added := by
  intro added
  have hroot : countedEdges root [⟨[root], none⟩] = [] := by
    simp [countedEdges, typedPairs, nextType]
  have hconcat : countedEdges root (runs ++ [⟨[root], none⟩]) = countedEdges root runs := by
    simp [countedEdges, typedPairs_concat_untyped]
  refine ⟨resolve_eq_typedPairs root runs, fun name parent => get?_addTypes_eq_some_iff, ?_, ?_,
    addTypes_of_countedEdges_eq_nil hroot, addTypes_congr hconcat, addTypes_addTypes⟩
  · simp only [added, addTypes_eq_foldl_countedEdges]
  · intro hself
    exact (get?_addTypes_eq_some_iff.1 hself).elim (absurd · not_isLastParent_root) And.right

/-- Names wait over a run without names for its type. Another name is declared twice, and the root
type once more below itself. -/
theorem types_keep_their_last_parent_across_runs :
    let d : Domain := { empty with types := .ofList [("object", "thing"), ("c", "a")] }
    let runs : List TypedRun :=
      [⟨["a", "object"], none⟩, ⟨[], some "b"⟩, ⟨["a"], none⟩, ⟨["object"], some "object"⟩]
    let added := addTypes "object" d runs
    added.types.get? "a" = some "object" ∧ added.types.get? "object" = some "b" ∧
      added.types.get? "c" = some "a" ∧ addTypes "object" added runs = added := by
  intro d runs added
  obtain ⟨-, hparent, -, -, -, -, htwice⟩ := types_keep_their_last_parent "object" d runs
  have ha : IsLastParent "object" runs "a" "object" :=
    ⟨[("a", "b"), ("object", "b")], [], by decide, by decide⟩
  have hroot : IsLastParent "object" runs "object" "b" :=
    ⟨[("a", "b")], [("a", "object")], by decide, by decide⟩
  have hc : "c" ∉ (countedEdges "object" runs).map Prod.fst := by decide
  exact ⟨(hparent _ _).2 (.inl ha), (hparent _ _).2 (.inl hroot),
    (hparent _ _).2 (.inr ⟨hc, by decide⟩), htwice⟩

end Domain
end PlanningDomain

namespace PlanningDomain.Typing

open Grammar

/-- What can be asked of a typed list before it is finished. -/
inductive Step
  | pushName (name : String)
  | applyType (type : String)
  | pushRun (run : TypedRun)

namespace Step

def apply (t : Typing) : Step → Typing
  | pushName name => t.pushName name
  | applyType type => t.applyType type
  | pushRun run => t.pushRun run

/-- The names that a step pushes. -/
def names : Step → List String
  | pushName name => [name]
  | applyType _ => []
  | pushRun run => run.names

/-- The type that a step gives, to its own names too. -/
def type? : Step → Option String
  | pushName _ => none
  | applyType type => some type
  | pushRun run => run.type

def toRun (step : Step) : TypedRun := ⟨step.names, step.type?⟩

private theorem apply_eq_pushRun (t : Typing) (step : Step) :
    step.apply t = t.pushRun step.toRun := by
  cases step with
  | pushName name => rfl
  | applyType type => rfl
  | pushRun run => rfl

end Step

/-- The list that some steps make. -/
def ofSteps (steps : List Step) : Typing :=
  steps.foldl Step.apply empty

private theorem finish_ofSteps (root : String) (steps : List Step) :
    (ofSteps steps).finish root = typedPairs root (steps.map Step.toRun) := by
  have hsteps : ofSteps steps = (steps.map Step.toRun).foldl pushRun empty := by
    rw [ofSteps, List.foldl_map]
    exact congrArg (List.foldl · empty steps) (funext₂ Step.apply_eq_pushRun)
  rw [hsteps]
  exact resolve_eq_typedPairs root _

private theorem map_fst_typedPairs_toRun (root : String) (steps : List Step) :
    (typedPairs root (steps.map Step.toRun)).map Prod.fst = steps.flatMap Step.names := by
  rw [map_fst_typedPairs, List.flatMap_map]
  rfl

private theorem nextType_toRun (root : String) (steps : List Step) :
    nextType root (steps.map Step.toRun) = (steps.findSome? Step.type?).getD root := by
  rw [nextType_eq_findSome?, List.findSome?_map]
  rfl

/-- Whatever the steps, a finished list has one pair for every pushed name, in the order of the
pushes. The names of each step stand between those pushed before and those pushed later, and their
type is the first one given in this step or a later one, or the root type if none is. -/
theorem names_take_the_next_type (root : String) :
    (∀ steps : List Step,
      ((ofSteps steps).finish root).map Prod.fst = steps.flatMap Step.names) ∧
    ∀ (front : List Step) (step : Step) (back : List Step), ∃ before after,
      (ofSteps (front ++ step :: back)).finish root =
        before ++ (step.names.map fun name =>
          (name, ((step :: back).findSome? Step.type?).getD root)) ++ after ∧
      before.map Prod.fst = front.flatMap Step.names ∧
      after.map Prod.fst = back.flatMap Step.names := by
  refine ⟨fun steps => ?_, fun front step back => ?_⟩
  · rw [finish_ofSteps, map_fst_typedPairs_toRun]
  · refine ⟨typedPairs (nextType root ((step :: back).map Step.toRun)) (front.map Step.toRun),
      typedPairs root (back.map Step.toRun), ?_, map_fst_typedPairs_toRun _ front,
      map_fst_typedPairs_toRun root back⟩
    rw [finish_ofSteps, List.map_append, typedPairs_append, ← nextType_toRun, List.map_cons,
      typedPairs, List.append_assoc]
    rfl

example : (ofSteps [.pushRun ⟨["?a", "?b"], none⟩, .pushName "?a", .applyType "t",
    .pushRun ⟨["?c"], some "u"⟩, .pushName "?d"]).finish "object" =
      [("?a", "t"), ("?b", "t"), ("?a", "t"), ("?c", "u"), ("?d", "object")] := by
  decide

end PlanningDomain.Typing

namespace PlanningDomain.Params

/-- What parameters tell of the pairs that they were made from. -/
structure Summarizes (p : Params) (pairs : List (String × String)) : Prop where
  mem_names_iff : ∀ name, name ∈ p.names ↔ name ∈ pairs.map Prod.fst
  /-- Names come in the order of their first pairs, and so none comes twice. -/
  in_order : p.names.Pairwise fun a b =>
    (pairs.map Prod.fst).idxOf a < (pairs.map Prod.fst).idxOf b
  mem_keys_iff : ∀ name, name ∈ p.types.keys ↔ name ∈ p.names
  /-- The last pair of a name has its type. -/
  typeOf_eq_some_iff : ∀ name type, p.typeOf name = some type ↔
    ∃ front back, pairs = front ++ (name, type) :: back ∧ name ∉ back.map Prod.fst
  /-- No name is paired with the empty type for want of one. -/
  pairs_eq : p.pairs.map (fun pair => (pair.1, some pair.2)) =
    p.names.map fun name => (name, p.typeOf name)
  size_eq : p.size = (pairs.map Prod.fst).toFinset.card

private theorem Settled.pairs_eq {p : Params} (h : p.Settled) :
    p.pairs.map (fun pair => (pair.1, some pair.2)) =
      p.names.map fun name => (name, p.typeOf name) := by
  rw [pairs, List.map_map]
  refine List.map_congr_left fun name hname => ?_
  have hkey := NameMap.mem_keys_iff.1 ((h.mem_iff name).1 hname)
  obtain ⟨type, htype⟩ := Option.isSome_iff_exists.1 hkey
  rw [Function.comp_apply, typeOf, htype, Option.getD_some]

private theorem typeOf_ofPairs_eq_some_iff {pairs : List (String × String)} {name type : String} :
    (ofPairs pairs).typeOf name = some type ↔
      ∃ front back, pairs = front ++ (name, type) :: back ∧ name ∉ back.map Prod.fst := by
  rw [ofPairs_eq, typeOf, NameMap.ofList, NameMap.get?_foldl_insert_eq_some_iff]
  simp

private theorem size_ofPairs (pairs : List (String × String)) :
    (ofPairs pairs).size = (pairs.map Prod.fst).toFinset.card := by
  have hnames : (ofPairs pairs).names.toFinset = (pairs.map Prod.fst).toFinset := by
    ext name
    rw [List.mem_toFinset, List.mem_toFinset, mem_names_ofPairs]
  rw [← hnames, List.toFinset_card_of_nodup (settled_ofPairs pairs).nodup, size]

private theorem summarizes_ofPairs (pairs : List (String × String)) :
    (ofPairs pairs).Summarizes pairs where
  mem_names_iff _ := mem_names_ofPairs
  in_order := by
    rw [ofPairs_eq]
    exact pairwise_idxOf_eraseDups _
  mem_keys_iff name := ((settled_ofPairs pairs).mem_iff name).symm
  typeOf_eq_some_iff _ _ := typeOf_ofPairs_eq_some_iff
  pairs_eq := (settled_ofPairs pairs).pairs_eq
  size_eq := size_ofPairs pairs

/-- Parameters that are pushed one by one tell the first place and the last type of each name, and
so do those of a typed list, of the pairs that the list resolves to. -/
theorem first_places_and_last_types :
    (∀ pairs : List (String × String), (ofPairs pairs).Summarizes pairs) ∧
      ∀ (root : String) (runs : List TypedRun),
        (ofRuns root runs).Summarizes (Grammar.typedPairs root runs) := by
  refine ⟨summarizes_ofPairs, fun root runs => ?_⟩
  rw [ofRuns, Grammar.resolve_eq_typedPairs]
  exact summarizes_ofPairs _

example : (ofPairs [("?x", "a"), ("?y", "b"), ("?x", "c")]).pairs = [("?x", "c"), ("?y", "b")] := by
  decide

end PlanningDomain.Params
