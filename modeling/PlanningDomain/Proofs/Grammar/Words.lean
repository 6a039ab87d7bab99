import PlanningDomain.Proofs.Grammar.Runs
import PlanningDomain.Proofs.Syntax.Delimits

/-! The productions explain their failures. Each production is followed along its definition: the
tokens that it takes are put together from single tokens in the same way, and where two ways to go
on are open, their words go apart before either is complete. -/
namespace PlanningDomain

open scoped Computability
open Reader

namespace Words

def name : Language Token := single fun t => ∃ v, t = .name v

def flag : Language Token := single fun t => ∃ w, t = .keyword w

def items (kind : Token → Prop) : Language Token := single kind * (single kind)∗

def run (kind : Token → Prop) : Language Token := items kind * (1 + only .dash * name)

def typedList (kind : Token → Prop) : Language Token := (run kind)∗

def params : Language Token := typedList fun t => ∃ v, t = .var v

def signature : Language Token := within (name * params)

def negated : Language Token := within (only .not * signature)

def parameters : Language Token := only .parameters * within params

def labelledTask : Language Token := within (name * signature)

def subtask : Language Token := signature + labelledTask

def ordering : Language Token := only .orderedSubtasks + only .unorderedSubtasks

def subtasks : Language Token := within subtask∗ + within (only .and * subtask∗) + subtask

def header : Language Token := only .openParen * (only .define * within (only .domain * name))

def requirements : Language Token := within (only .requirements * flag∗)

def types : Language Token := within (only .types * typedList fun t => ∃ v, t = .name v)

def predicate : Language Token := negated + signature

def task : Language Token := within (only .task * (name * parameters))

def method : Language Token :=
  within (only .method * (name * (parameters *
    (only .task * (signature * (ordering * subtasks))))))

end Words

private theorem delimits_name : Production.name.Delimits Words.name :=
  delimits_one (fun t => by cases t <;> simp)
    (fun t => by cases t <;> simp [Token.CalledBy, Token.label]) ⟨"", rfl⟩

private theorem delimits_variableName :
    Production.variableName.Delimits (single fun t => ∃ v, t = .var v) :=
  delimits_one (fun t => by cases t <;> simp)
    (fun t => by cases t <;> simp [Token.CalledBy, Token.label]) ⟨"", rfl⟩

private theorem delimits_flag : Production.flag.Delimits Words.flag :=
  delimits_one (fun t => by cases t <;> simp)
    (fun t => by cases t <;> simp [Token.CalledBy, Token.label]) ⟨"", rfl⟩

section TypedLists
open Words
variable {kind : Token → Prop}

private theorem mem_kstar_single_iff {ts : List Token} :
    ts ∈ (single kind)∗ ↔ ∀ t ∈ ts, kind t := by
  constructor
  · intro h
    obtain ⟨ws, rfl, hws⟩ := Language.mem_kstar.1 h
    intro t ht
    obtain ⟨w, hw, htw⟩ := List.mem_flatten.1 ht
    obtain ⟨u, hu, rfl⟩ := hws w hw
    rwa [List.mem_singleton.1 htw]
  · intro h
    refine Language.mem_kstar.2 ⟨ts.map fun t => [t], by simp [← List.flatMap_def], ?_⟩
    rintro w hw
    obtain ⟨t, ht, rfl⟩ := List.mem_map.1 hw
    exact ⟨t, h t ht, rfl⟩

private theorem mem_items_iff {ts : List Token} : ts ∈ items kind ↔ ts ≠ [] ∧ ∀ t ∈ ts, kind t := by
  rw [items, mem_single_mul_iff]
  simp only [mem_kstar_single_iff]
  constructor
  · rintro ⟨t, us, ht, hus, rfl⟩
    exact ⟨by simp, by simpa using ⟨ht, hus⟩⟩
  · rintro ⟨hne, hts⟩
    obtain ⟨t, us, rfl⟩ := List.exists_cons_of_ne_nil hne
    exact ⟨t, us, hts t List.mem_cons_self, fun u hu => hts u (List.mem_cons_of_mem _ hu), rfl⟩

private theorem stops_items {t : Token} (h : ¬ kind t) : Stops (items kind) t :=
  stops_of_forall_not_mem fun _ hw ht => h ((mem_items_iff.1 hw).2 t ht)

private theorem begins_run : Begins (run kind) kind := (begins_single.mul _).mul _

private theorem begins_dash_name :
    Begins (only .dash * Words.name) (· = .dash) := begins_single.mul _

section Item
variable (hdash : ¬ kind .dash)
include hdash

private theorem separates_items : Separates (items kind) (1 + only .dash * Words.name) := by
  refine .of_stops fun t ht => ?_
  rcases viable_add_iff.1 ht with h | h
  · cases viable_one_iff.1 h
  · rw [begins_dash_name.of_viable h]
    exact stops_items hdash

private theorem not_viable_typed {x y : List Token} {t : Token} (hx : x ∈ items kind)
    (hy : y ∈ only .dash * Words.name) : ¬ Viable (run kind) (x ++ y ++ [t]) := by
  intro hv
  rw [List.append_assoc] at hv
  have hstop : ∀ u ∈ (y ++ [t]).head?, ¬ Viable (items kind) (x ++ [u]) := by
    obtain ⟨d, n, rfl, -, rfl⟩ := mem_single_mul_iff.1 hy
    intro u hu
    obtain rfl := Option.some.inj hu
    exact stops_items hdash x hx
  rcases viable_add_iff.1 ((separates_items hdash).viable_right hx hstop hv) with hv | hv
  · simp [viable_one_iff] at hv
  · exact prefixFree_single.mul prefixFree_single t y hy hv

/-- Items take more items behind them, and nothing follows a type. -/
private theorem separates_run : Separates (run kind) (run kind)∗ := by
  refine separates_kstar begins_run.nil_not_mem fun a ha t b hv htb => ?_
  obtain ⟨x, hx, y, hy, rfl⟩ := Language.mem_mul.1 ha
  rcases hy with rfl | hy
  · obtain ⟨x', hx', y', hy', heq⟩ := Language.mem_mul.1 htb
    rw [← heq, List.append_nil, ← List.append_assoc]
    refine Language.append_mem_mul (mem_items_iff.2 ⟨?_, ?_⟩) hy'
    · simp [(mem_items_iff.1 hx).1]
    · intro u hu
      exact (List.mem_append.1 hu).elim ((mem_items_iff.1 hx).2 u) ((mem_items_iff.1 hx').2 u)
  · exact absurd hv (not_viable_typed hdash hx hy)

private theorem explains_typedRun {item : Reader String} (hitem : item.Explains (single kind)) :
    (Grammar.typedRun item).Explains (run kind) := by
  have hdashToken : (token .dash).Delimits (only .dash) := delimits_token rfl
  have hsuffix : (optional do
      token .dash
      Production.name).Explains (1 + only .dash * Words.name) :=
    (hdashToken.bind fun _ => delimits_name).explains.optional begins_dash_name.nil_not_mem
  have hitems : (many1 item).Explains (items kind) :=
    hitem.many1 begins_single.nil_not_mem (prefixFree_single.separates _)
  exact hitems.bind (fun _ => hsuffix.bind_pure _) (separates_items hdash)
    (viable_add_iff.2 (.inl (viable_one_iff.2 rfl)))

end Item

private theorem stops_typedList (hclose : ¬ kind .closeParen) :
    Stops (typedList kind) .closeParen := by
  refine stops_of_forall_not_mem fun w hw ht => ?_
  obtain ⟨ws, rfl, hws⟩ := Language.mem_kstar.1 hw
  obtain ⟨v, hv, htv⟩ := List.mem_flatten.1 ht
  obtain ⟨a, ha, b, hb, rfl⟩ := Language.mem_mul.1 (hws v hv)
  rcases List.mem_append.1 htv with htv | htv
  · exact hclose ((mem_items_iff.1 ha).2 _ htv)
  · rcases hb with rfl | hb
    · cases htv
    · obtain ⟨_, _, rfl, ⟨_, ⟨_, rfl⟩, rfl⟩, rfl⟩ := mem_single_mul_iff.1 hb
      simp at htv

private theorem encloses_typedList {item : Reader String} (hitem : item.Delimits (single kind))
    (hdash : ¬ kind .dash) (hclose : ¬ kind .closeParen) :
    (Production.typedList item).Encloses (typedList kind) where
  explains := (explains_typedRun hdash hitem.explains).many begins_run.nil_not_mem
    (separates_run hdash)
  stops := stops_typedList hclose
  viable_nil := viable_nil_kstar

private theorem encloses_params : (Production.typedList Production.variableName).Encloses params :=
  encloses_typedList delimits_variableName (by simp) (by simp)

private theorem begins_params_closeParen :
    Begins (params * only .closeParen) fun t => (∃ v, t = .var v) ∨ t = .closeParen :=
  begins_run.kstar_mul begins_single

end TypedLists

section Productions

private theorem delimits_signature : Production.signature.Delimits Words.signature := by
  have hinner := delimits_name.bind_encloses fun name =>
    encloses_params.bind_pure fun params => (name, params)
  exact hinner.parenthesized

theorem delimits_predicate : Production.predicate.Delimits Words.predicate := by
  have hnot : (token .not).Delimits (only .not) := delimits_token rfl
  have hnegated := (hnot.bind fun _ => delimits_signature.bind_pure fun v =>
    (⟨v.1, true, v.2⟩ : PredicateForm)).encloses.parenthesized
  have hpositive := delimits_signature.bind_pure fun v => (⟨v.1, false, v.2⟩ : PredicateForm)
  -- Behind the parenthesis, one has `not` and the other a name.
  have hapart : Apart Words.negated Words.signature := by
    refine .within (.of_begins ((begins_single.mul _).mul _) ((begins_single.mul _).mul _) ?_)
    rintro _ rfl ⟨v, ⟨⟩⟩
  exact (hnegated.orElse hpositive hapart).labelled (by decide)

private theorem delimits_parameters : Production.parameters.Delimits Words.parameters := by
  have hparameters : (token .parameters).Delimits (only .parameters) := delimits_token rfl
  exact hparameters.bind fun _ => encloses_params.parenthesized

private theorem delimits_taskReference : Production.taskReference.Delimits Words.signature :=
  (delimits_signature.bind_pure fun v => (⟨v.1, v.2⟩ : TaskForm)).labelled (by decide)

private theorem apart_signature_labelledTask : Apart Words.signature Words.labelledTask := by
  refine .within ?_
  rw [mul_assoc, mul_assoc]
  -- Behind the name, a label has a parenthesis.
  refine .mul prefixFree_single (.of_begins begins_params_closeParen
    (begins_within.mul _) ?_)
  rintro _ (⟨v, rfl⟩ | rfl) ⟨⟩

private theorem delimits_subtask : Production.subtask.Delimits Words.subtask := by
  have hlabelled := (delimits_name.bind fun _ => delimits_taskReference).encloses.parenthesized
  exact (delimits_taskReference.orElse hlabelled apart_signature_labelledTask).labelled
    (by decide)

private theorem begins_subtask : Begins Words.subtask (· = .openParen) :=
  begins_within.add begins_within

/-- Words in parentheses whose first token is no name are no beginnings of a subtask, and none of
them goes on from a subtask. -/
private theorem apart_within_subtask {l : Language Token} {kind : Token → Prop}
    (h : Begins (l * only .closeParen) kind) (hkind : ∀ v, ¬ kind (.name v)) :
    Apart (within l) Words.subtask := by
  have hapart {m : Language Token} : Apart (within (Words.name * m)) (within l) := by
    refine .within (.of_begins ((begins_single.mul _).mul _) h ?_)
    rintro _ ⟨v, rfl⟩
    exact hkind v
  exact (hapart.add_left hapart).symm

private theorem delimits_subtasks : Production.subtasks.Delimits Words.subtasks := by
  have hand : (token .and).Delimits (only .and) := delimits_token rfl
  have hmany := delimits_subtask.many begins_subtask (by simp)
  have hconjunction := (hand.bind_encloses fun _ => hmany).parenthesized
  have hlist : Begins (Words.subtask∗ * only .closeParen) fun t =>
      t = .openParen ∨ t = .closeParen := begins_subtask.kstar_mul begins_single
  have hand' : Begins (only .and * Words.subtask∗ * only .closeParen) (· = .and) :=
    (begins_single.mul _).mul _
  -- What follows the first parenthesis: one more or the end, `and`, or a name.
  have hapart : Apart (within Words.subtask∗) (within (only .and * Words.subtask∗)) := by
    refine .within (.of_begins hlist hand' ?_)
    rintro _ (rfl | rfl) ⟨⟩
  have hsingle : Apart (within Words.subtask∗ + within (only .and * Words.subtask∗))
      Words.subtask :=
    (apart_within_subtask hlist (by simp)).add_left (apart_within_subtask hand' (by simp))
  exact (hmany.parenthesized.orElse hconjunction hapart).orElse
    (delimits_subtask.bind_pure fun v => [v]) hsingle

private theorem delimits_ordering : Production.ordering.Delimits Words.ordering := by
  have hordered : (token .orderedSubtasks).Delimits (only .orderedSubtasks) := delimits_token rfl
  have hunordered : (token .unorderedSubtasks).Delimits (only .unorderedSubtasks) :=
    delimits_token rfl
  have hapart : Apart (only .orderedSubtasks) (only .unorderedSubtasks) := by
    refine .of_begins begins_single begins_single ?_
    rintro _ rfl ⟨⟩
  exact ((hordered.bind_pure fun _ => true).orElse (hunordered.bind_pure fun _ => false)
    hapart).labelled (by decide)

theorem delimits_header : Production.header.Delimits Words.header := by
  have hopen : (token .openParen).Delimits (only .openParen) := delimits_token rfl
  have hdefine : (token .define).Delimits (only .define) := delimits_token rfl
  have hdomain : (token .domain).Delimits (only .domain) := delimits_token rfl
  exact hopen.bind fun _ => hdefine.bind fun _ =>
    (hdomain.bind fun _ => delimits_name).encloses.parenthesized

theorem delimits_requirements : Production.requirements.Delimits Words.requirements := by
  have hmarker : (token .requirements).Delimits (only .requirements) := delimits_token rfl
  have hflag : Begins Words.flag fun t => ∃ w, t = .keyword w := begins_single
  have hflags := delimits_flag.many hflag (by simp)
  exact (hmarker.bind_encloses fun _ => hflags).parenthesized

theorem delimits_types : Production.types.Delimits Words.types := by
  have hmarker : (token .types).Delimits (only .types) := delimits_token rfl
  exact (hmarker.bind_encloses fun _ =>
    encloses_typedList delimits_name (by simp) (by simp)).parenthesized

theorem delimits_task : Production.task.Delimits Words.task := by
  have hmarker : (token .task).Delimits (only .task) := delimits_token rfl
  have hinner := hmarker.bind fun _ => delimits_name.bind fun name =>
    delimits_parameters.bind_pure fun params => (⟨name, params⟩ : TaskForm)
  exact hinner.encloses.parenthesized

theorem delimits_method : Production.method.Delimits Words.method := by
  have hmarker : (token .method).Delimits (only .method) := delimits_token rfl
  have htask : (token .task).Delimits (only .task) := delimits_token rfl
  have hinner := hmarker.bind fun _ => delimits_name.bind fun name =>
    delimits_parameters.bind fun params => htask.bind fun _ =>
    delimits_taskReference.bind fun task => delimits_ordering.bind fun ordered =>
    delimits_subtasks.bind_pure fun subtasks =>
      (⟨name, params, task, ordered, subtasks⟩ : MethodForm)
  exact hinner.encloses.parenthesized

end Productions
end PlanningDomain
