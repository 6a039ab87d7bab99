import Mathlib.Data.List.Forall2
import Mathlib.Data.List.Nodup
import PlanningDomain.CommandLine
import PlanningDomain.Domain.Import
import PlanningDomain.Proofs.Domain.Params
import PlanningDomain.Proofs.Json.ReadBack

/-! Domains through JSON. Main statement: the text of a domain decodes to the domain, and so does
its JSON value with the members of records in any order and among members of other names. -/
namespace PlanningDomain

/-- An object with these members, in any order and among members of other names. -/
def Json.HasMembers (members : List (String × Json)) (j : Json) : Prop :=
  ∃ all, j = .object all ∧ (all.filter fun m => m.1 ∈ members.map Prod.fst).Perm members

private theorem Json.hasMembers_object (members : List (String × Json)) :
    (Json.object members).HasMembers members := by
  refine ⟨members, rfl, .of_eq (List.filter_eq_self.2 fun m hm => ?_)⟩
  simpa using ⟨m.2, hm⟩

private theorem Json.member?_eq_some {all : List (String × Json)} {name : String} {value : Json}
    (hmem : (name, value) ∈ all) (hunique : ∀ m ∈ all, m.1 = name → m.2 = value) :
    Json.member? name all = some value := by
  rw [Json.member?]
  cases hlookup : all.reverse.lookup name with
  | none =>
    rw [List.lookup_eq_none_iff] at hlookup
    simpa using hlookup (name, value) (List.mem_reverse.2 hmem)
  | some found =>
    obtain ⟨front, back, heq, -⟩ := List.lookup_eq_some_iff.1 hlookup
    have hfound : (name, found) ∈ all := by
      rw [← List.mem_reverse, heq]
      simp
    rw [← hunique (name, found) hfound rfl]

/-- The look-up in such an object finds the member, whose name is that of no other. -/
private theorem Json.HasMembers.member?_eq_some {members all : List (String × Json)}
    (h : (Json.object all).HasMembers members) (hnodup : (members.map Prod.fst).Nodup)
    {name : String} {value : Json} (hmem : (name, value) ∈ members) :
    Json.member? name all = some value := by
  obtain ⟨all', heq, hperm⟩ := h
  cases heq
  have hname : name ∈ members.map Prod.fst := List.mem_map_of_mem hmem
  refine Json.member?_eq_some (List.mem_of_mem_filter (hperm.mem_iff.2 hmem)) fun m hm hsame => ?_
  -- Of all members, those with this name are among the given ones, whose names are distinct.
  have hmember : m ∈ members := by
    refine hperm.mem_iff.1 (List.mem_filter.2 ⟨hm, ?_⟩)
    rw [hsame]
    simpa using hname
  rw [List.inj_on_of_nodup_map hnodup hmember hmem hsame]

namespace Import

private theorem mapM_eq_ok {decode : α → Except ε β} {js : List α} {values : List β}
    (h : List.Forall₂ (fun value j => decode j = .ok value) values js) :
    js.mapM decode = .ok values := by
  induction h with
  | nil => rfl
  | @cons value j values js hvalue _ ih =>
    rw [List.mapM_cons, hvalue, ih]
    rfl

private theorem listOf_eq_ok {decode : Json → Except ImportError α} {js : List Json}
    {values : List α} (h : List.Forall₂ (fun value j => decode j = .ok value) values js) :
    listOf decode (.array js) = .ok values :=
  mapM_eq_ok h

private theorem asText_text (value : String) : asText (.text value) = .ok value := rfl

private theorem asPath_text (value : String) : asPath (.text value) = .ok value := rfl

private theorem asBoolean_boolean (value : Bool) : asBoolean (.boolean value) = .ok value := rfl

private theorem listOf_asText (names : List String) :
    listOf asText (.array (names.map .text)) = .ok names := by
  apply listOf_eq_ok
  rw [List.forall₂_map_right_iff, List.forall₂_same]
  exact fun name _ => asText_text name

@[simp] theorem bind_ok (a : α) (f : α → Except ε β) : (Except.ok a >>= f) = f a := rfl

@[simp] theorem pure_eq_ok (a : α) : (pure a : Except ε α) = .ok a := rfl

@[simp] theorem failure?_ok (value : Option α) : failure? (.ok value) = none := rfl

@[simp] theorem require_ok_some (name : String) (value : α) :
    require name (.ok (some value)) = .ok value := rfl

structure Fields.Holds (f : Fields) (members : List (String × Json)) : Prop where
  size_eq : f.size = none
  field_eq : ∀ name value, (name, value) ∈ members → f.field? name = some value

section Records
variable {members : List (String × Json)} {j : Json} {f : Fields}

private theorem exists_fields (h : j.HasMembers members) (hnodup : (members.map Prod.fst).Nodup)
    (type : String) (names : List String) : ∃ f, fields type names j = .ok f ∧ f.Holds members := by
  obtain ⟨all, rfl, hperm⟩ := h
  refine ⟨⟨fun name => Json.member? name all, none⟩, rfl, rfl, fun name value hmem => ?_⟩
  exact Json.HasMembers.member?_eq_some ⟨all, rfl, hperm⟩ hnodup hmem

private theorem Fields.Holds.read_eq_ok (h : f.Holds members) {name : String} {value : Json}
    (hmem : (name, value) ∈ members) {decode : Json → Except ImportError α} {a : α}
    (hdecode : decode value = .ok a) : f.read name decode = .ok (some a) := by
  rw [Fields.read, h.field_eq name value hmem]
  simp [hdecode, Except.map]

private theorem Fields.Holds.check_eq_ok (h : f.Holds members) (type : String) :
    f.check type (members.map fun m => (m.1, none)) = .ok () := by
  have hfailures : ((members.map fun m => (m.1, (none : Option ImportError))).mergeSort
      fun a b => a.1 ≤ b.1).findSome? Prod.snd = none := by
    rw [List.findSome?_eq_none_iff]
    intro e he
    obtain ⟨m, -, rfl⟩ := List.mem_map.1 (List.mem_mergeSort.1 he)
    rfl
  have hmissing : ((members.map fun m => (m.1, (none : Option ImportError))).map Prod.fst).find?
      (fun name => (f.field? name).isNone) = none := by
    rw [List.find?_eq_none]
    intro name hname
    simp only [List.map_map, List.mem_map, Function.comp_apply] at hname
    obtain ⟨m, hm, rfl⟩ := hname
    rw [h.field_eq m.1 m.2 hm]
    simp
  rw [Fields.check, Fields.fault?, h.size_eq]
  simp only [hfailures, hmissing]
  rfl

end Records

private theorem nodup_keys (m : NameMap) : m.keys.Nodup := by
  rw [NameMap.keys, List.Nodup, List.pairwise_map]
  refine m.increasing.imp fun {a b} hlt heq => ?_
  exact String.lt_irrefl _ (heq ▸ hlt)

private theorem sortedMembers_toJson (m : NameMap) :
    sortedMembers (m.entries.map fun e => (e.1, .text e.2)) =
      m.entries.map fun e => (e.1, .text e.2) := by
  have hkeys : (m.entries.map fun e => (e.1, Json.text e.2)).map Prod.fst = m.keys := by
    rw [List.map_map, NameMap.keys]
    rfl
  have hsorted : m.keys.eraseDups.mergeSort = m.keys := by
    rw [Params.eraseDups_of_nodup (nodup_keys m)]
    refine List.mergeSort_of_pairwise ?_
    rw [NameMap.keys, List.pairwise_map]
    exact m.increasing.imp fun {a b} hlt => decide_eq_true (String.not_lt.1 (String.lt_asymm hlt))
  simp only [sortedMembers, hkeys, hsorted]
  rw [NameMap.keys, List.filterMap_map]
  have hmember : ∀ e ∈ m.entries,
      ((Json.member? e.1 (m.entries.map fun e => (e.1, .text e.2))).map fun value => (e.1, value)) =
        some (e.1, .text e.2) := by
    intro e he
    have hfound : Json.member? e.1 (m.entries.map fun e => (e.1, .text e.2)) =
        some (.text e.2) := by
      refine Json.member?_eq_some (List.mem_map.2 ⟨e, he, rfl⟩) fun x hx hname => ?_
      obtain ⟨e', he', rfl⟩ := List.mem_map.1 hx
      have hvalue := NameMap.mem_entries_iff.1 he
      have hvalue' := NameMap.mem_entries_iff.1 he'
      dsimp only at hname
      rw [hname, hvalue] at hvalue'
      rw [Option.some.inj hvalue']
    rw [hfound, Option.map_some]
  exact (List.filterMap_congr hmember).trans (congrFun List.filterMap_eq_map' _)

private theorem asNameMap_toJson (m : NameMap) : asNameMap m.toJson = .ok m := by
  have hentries : (sortedMembers (m.entries.map fun e => (e.1, .text e.2))).mapM
      (fun e => do return (e.1, ← asText e.2)) = .ok m.entries := by
    rw [sortedMembers_toJson]
    apply mapM_eq_ok
    rw [List.forall₂_map_right_iff, List.forall₂_same]
    intro e _
    rfl
  rw [NameMap.toJson, asNameMap, hentries]
  exact congrArg Except.ok (NameMap.ofList_entries m)

end Import

open Import

def Params.WrittenAs (p : Params) (j : Json) : Prop :=
  j.HasMembers [("params", .array (p.names.map .text)), ("types", p.types.toJson)]

def Predicate.WrittenAs (p : Predicate) (j : Json) : Prop :=
  ∃ params, p.params.WrittenAs params ∧
    j.HasMembers [("name", .text p.name), ("negated", .boolean p.negated), ("params", params)]

def Task.WrittenAs (t : Task) (j : Json) : Prop :=
  ∃ params, t.params.WrittenAs params ∧ j.HasMembers [("name", .text t.name), ("params", params)]

def Method.WrittenAs (m : Method) (j : Json) : Prop :=
  ∃ params task subtasks, m.params.WrittenAs params ∧ m.task.WrittenAs task ∧
    List.Forall₂ Task.WrittenAs m.subtasks subtasks ∧
    j.HasMembers [("name", .text m.name), ("params", params), ("task", task),
      ("ordered_subtasks", .boolean m.ordered), ("subtasks", .array subtasks)]

def Domain.WrittenAs (d : Domain) (j : Json) : Prop :=
  ∃ predicates tasks methods, List.Forall₂ Predicate.WrittenAs d.predicates predicates ∧
    List.Forall₂ Task.WrittenAs d.tasks tasks ∧ List.Forall₂ Method.WrittenAs d.methods methods ∧
    j.HasMembers [("file_path", .text d.filePath), ("name", .text d.name),
      ("requirements", .array (d.requirements.map .text)), ("types", d.types.toJson),
      ("predicates", .array predicates), ("tasks", .array tasks), ("methods", .array methods)]

private theorem forall₂_map_self {α : Type} {xs : List α} {write : α → Json} {R : α → Json → Prop}
    (h : ∀ x, R x (write x)) : List.Forall₂ R xs (xs.map write) := by
  rw [List.forall₂_map_right_iff, List.forall₂_same]
  exact fun x _ => h x

private theorem Params.writtenAs_toJson (p : Params) : p.WrittenAs p.toJson :=
  Json.hasMembers_object _

private theorem Predicate.writtenAs_toJson (p : Predicate) : p.WrittenAs p.toJson :=
  ⟨_, p.params.writtenAs_toJson, Json.hasMembers_object _⟩

private theorem Task.writtenAs_toJson (t : Task) : t.WrittenAs t.toJson :=
  ⟨_, t.params.writtenAs_toJson, Json.hasMembers_object _⟩

private theorem Method.writtenAs_toJson (m : Method) : m.WrittenAs m.toJson :=
  ⟨_, _, _, m.params.writtenAs_toJson, m.task.writtenAs_toJson,
    forall₂_map_self Task.writtenAs_toJson, Json.hasMembers_object _⟩

private theorem Domain.writtenAs_toJson (d : Domain) : d.WrittenAs d.toJson :=
  ⟨_, _, _, forall₂_map_self Predicate.writtenAs_toJson, forall₂_map_self Task.writtenAs_toJson,
    forall₂_map_self Method.writtenAs_toJson, Json.hasMembers_object _⟩

section Decoding
variable {j : Json}

private theorem Params.WrittenAs.ofJson_eq {p : Params} (h : p.WrittenAs j) :
    Params.ofJson j = .ok p := by
  obtain ⟨f, hfields, hf⟩ := exists_fields h (by simp) "Params" ["params", "types"]
  have hnames : f.read "params" (listOf asText) = .ok (some p.names) :=
    hf.read_eq_ok (by simp) (listOf_asText p.names)
  have htypes : f.read "types" asNameMap = .ok (some p.types) :=
    hf.read_eq_ok (by simp) (asNameMap_toJson p.types)
  have hcheck : f.check "Params" [("params", none), ("types", none)] = .ok () :=
    hf.check_eq_ok "Params"
  simp [Params.ofJson, hfields, hnames, htypes, hcheck]

private theorem Predicate.WrittenAs.ofJson_eq {p : Predicate} (h : p.WrittenAs j) :
    Predicate.ofJson j = .ok p := by
  obtain ⟨params, hparams, hmembers⟩ := h
  obtain ⟨f, hfields, hf⟩ := exists_fields hmembers (by simp) "Predicate"
    ["name", "negated", "params"]
  have hname : f.read "name" asText = .ok (some p.name) :=
    hf.read_eq_ok (by simp) (asText_text p.name)
  have hnegated : f.read "negated" asBoolean = .ok (some p.negated) :=
    hf.read_eq_ok (by simp) (asBoolean_boolean p.negated)
  have hparams : f.read "params" Params.ofJson = .ok (some p.params) :=
    hf.read_eq_ok (by simp) hparams.ofJson_eq
  have hcheck :
      f.check "Predicate" [("name", none), ("negated", none), ("params", none)] = .ok () :=
    hf.check_eq_ok "Predicate"
  simp [Predicate.ofJson, hfields, hname, hnegated, hparams, hcheck]

private theorem Task.WrittenAs.ofJson_eq {t : Task} (h : t.WrittenAs j) :
    Task.ofJson j = .ok t := by
  obtain ⟨params, hparams, hmembers⟩ := h
  obtain ⟨f, hfields, hf⟩ := exists_fields hmembers (by simp) "Task" ["name", "params"]
  have hname : f.read "name" asText = .ok (some t.name) :=
    hf.read_eq_ok (by simp) (asText_text t.name)
  have hparams : f.read "params" Params.ofJson = .ok (some t.params) :=
    hf.read_eq_ok (by simp) hparams.ofJson_eq
  have hcheck : f.check "Task" [("name", none), ("params", none)] = .ok () :=
    hf.check_eq_ok "Task"
  simp [Task.ofJson, hfields, hname, hparams, hcheck]

private theorem Method.WrittenAs.ofJson_eq {m : Method} (h : m.WrittenAs j) :
    Method.ofJson j = .ok m := by
  obtain ⟨params, task, subtasks, hparams, htask, hsubtasks, hmembers⟩ := h
  obtain ⟨f, hfields, hf⟩ := exists_fields hmembers (by simp) "Method"
    ["name", "params", "task", "ordered_subtasks", "subtasks"]
  have hname : f.read "name" asText = .ok (some m.name) :=
    hf.read_eq_ok (by simp) (asText_text m.name)
  have hparams : f.read "params" Params.ofJson = .ok (some m.params) :=
    hf.read_eq_ok (by simp) hparams.ofJson_eq
  have htask : f.read "task" Task.ofJson = .ok (some m.task) :=
    hf.read_eq_ok (by simp) htask.ofJson_eq
  have hordered : f.read "ordered_subtasks" asBoolean = .ok (some m.ordered) :=
    hf.read_eq_ok (by simp) (asBoolean_boolean m.ordered)
  have hsubtasks : f.read "subtasks" (listOf Task.ofJson) = .ok (some m.subtasks) :=
    hf.read_eq_ok (by simp) (listOf_eq_ok (hsubtasks.imp fun _ _ ht => ht.ofJson_eq))
  have hcheck : f.check "Method" [("name", none), ("params", none), ("task", none),
      ("ordered_subtasks", none), ("subtasks", none)] = .ok () :=
    hf.check_eq_ok "Method"
  simp [Method.ofJson, hfields, hname, hparams, htask, hordered, hsubtasks, hcheck]

private theorem Domain.WrittenAs.ofJson_eq {d : Domain} (h : d.WrittenAs j) :
    Domain.ofJson j = .ok d := by
  obtain ⟨predicates, tasks, methods, hpredicates, htasks, hmethods, hmembers⟩ := h
  obtain ⟨f, hfields, hf⟩ := exists_fields hmembers (by simp) "HddlDomain"
    ["file_path", "name", "requirements", "types", "predicates", "tasks", "methods"]
  have hfilePath : f.read "file_path" asPath = .ok (some d.filePath) :=
    hf.read_eq_ok (by simp) (asPath_text d.filePath)
  have hname : f.read "name" asText = .ok (some d.name) :=
    hf.read_eq_ok (by simp) (asText_text d.name)
  have hrequirements : f.read "requirements" (listOf asText) = .ok (some d.requirements) :=
    hf.read_eq_ok (by simp) (listOf_asText d.requirements)
  have htypes : f.read "types" asNameMap = .ok (some d.types) :=
    hf.read_eq_ok (by simp) (asNameMap_toJson d.types)
  have hpredicates : f.read "predicates" (listOf Predicate.ofJson) = .ok (some d.predicates) :=
    hf.read_eq_ok (by simp) (listOf_eq_ok (hpredicates.imp fun _ _ hp => hp.ofJson_eq))
  have htasks : f.read "tasks" (listOf Task.ofJson) = .ok (some d.tasks) :=
    hf.read_eq_ok (by simp) (listOf_eq_ok (htasks.imp fun _ _ ht => ht.ofJson_eq))
  have hmethods : f.read "methods" (listOf Method.ofJson) = .ok (some d.methods) :=
    hf.read_eq_ok (by simp) (listOf_eq_ok (hmethods.imp fun _ _ hm => hm.ofJson_eq))
  have hcheck : f.check "HddlDomain" [("file_path", none), ("name", none), ("requirements", none),
      ("types", none), ("predicates", none), ("tasks", none), ("methods", none)] = .ok () :=
    hf.check_eq_ok "HddlDomain"
  simp [Domain.ofJson, hfields, hfilePath, hname, hrequirements, htypes, hpredicates, htasks,
    hmethods, hcheck]

end Decoding

private theorem Json.Numberless.array_map {α : Type} {xs : List α} {write : α → Json}
    (h : ∀ x, (write x).Numberless) : (Json.array (xs.map write)).Numberless :=
  .array (List.forall_mem_map.2 fun x _ => h x)

private theorem NameMap.numberless_toJson (m : NameMap) : m.toJson.Numberless :=
  .object (List.forall_mem_map.2 fun e _ => .text e.2)

private theorem Params.numberless_toJson (p : Params) : p.toJson.Numberless :=
  .object (by simpa using ⟨.array_map .text, p.types.numberless_toJson⟩)

private theorem Predicate.numberless_toJson (p : Predicate) : p.toJson.Numberless :=
  .object (by simpa using ⟨.text p.name, .boolean p.negated, p.params.numberless_toJson⟩)

private theorem Task.numberless_toJson (t : Task) : t.toJson.Numberless :=
  .object (by simpa using ⟨.text t.name, t.params.numberless_toJson⟩)

private theorem Method.numberless_toJson (m : Method) : m.toJson.Numberless :=
  .object (by simpa using ⟨.text m.name, m.params.numberless_toJson, m.task.numberless_toJson,
    .boolean m.ordered, .array_map Task.numberless_toJson⟩)

private theorem Domain.numberless_toJson (d : Domain) : d.toJson.Numberless :=
  .object (by simpa using ⟨.text d.filePath, .text d.name, .array_map .text,
    d.types.numberless_toJson, .array_map Predicate.numberless_toJson,
    .array_map Task.numberless_toJson, .array_map Method.numberless_toJson⟩)

/-- The JSON text of a domain, also with the newline that the command line puts behind it, reads as
a value that decodes to the domain; and that value decodes to the domain still with the members of
the domain, its predicates, tasks, methods and parameters in any order and among unknown ones. -/
theorem json_decodes_back (d : Domain) :
    (Json.parse? d.toJson.pretty).map Domain.ofJson = some (.ok d) ∧
      (Json.parse? (CommandLine.Format.text d .json)).map Domain.ofJson = some (.ok d) ∧
      d.WrittenAs d.toJson ∧ ∀ j, d.WrittenAs j → Domain.ofJson j = .ok d := by
  have hdecode : Domain.ofJson d.toJson = .ok d := d.writtenAs_toJson.ofJson_eq
  have hparse : Json.parse? (d.toJson.pretty ++ "") = some d.toJson :=
    Json.parse?_pretty_append d.numberless_toJson rfl
  have hline : Json.parse? (d.toJson.pretty ++ "\n") = some d.toJson :=
    Json.parse?_pretty_append d.numberless_toJson rfl
  rw [String.append_empty] at hparse
  refine ⟨?_, ?_, d.writtenAs_toJson, fun j h => h.ofJson_eq⟩
  · rw [hparse, Option.map_some, hdecode]
  · rw [CommandLine.Format.text, hline, Option.map_some, hdecode]

/-- Unknown members, members in the opposite order and parameters whose names and types do not
agree, of a task whose name no text of a domain can hold. -/
theorem json_decodes_back_reversed :
    let task : Task := ⟨"\"go\\\n\u0001é", ⟨["?x", "?x"], .ofList [("?y", "\t"), ("", "𝕏")]⟩⟩
    let d : Domain := ⟨"C:\\", "d", [], .empty, [], [task], []⟩
    let params : Json := .object [("types", task.params.types.toJson), ("typed", .boolean false),
      ("params", .array [.text "?x", .text "?x"])]
    let j : Json := .object [("methods", .array []), ("version", .integer 2),
      ("tasks", .array [.object [("params", params), ("name", .text task.name), ("cost", .null)]]),
      ("predicates", .array []), ("types", .object []), ("requirements", .array []),
      ("name", .text "d"), ("version", .integer 3), ("file_path", .text "C:\\")]
    d.WrittenAs j ∧ Domain.ofJson j = .ok d ∧
      (Json.parse? d.toJson.pretty).map Domain.ofJson = some (.ok d) := by
  intro task d params j
  have hreverse {all members : List (String × Json)}
      (h : (all.filter fun m => m.1 ∈ members.map Prod.fst) = members.reverse) :
      (Json.object all).HasMembers members :=
    ⟨all, rfl, h ▸ List.reverse_perm members⟩
  have hparams : task.params.WrittenAs params := hreverse (by simp [task])
  have htask : task.WrittenAs (.object [("params", params), ("name", .text task.name),
      ("cost", .null)]) :=
    ⟨params, hparams, hreverse (by simp)⟩
  have h : d.WrittenAs j :=
    ⟨[], _, [], .nil, .cons htask .nil, .nil, hreverse (by simp [d, NameMap.toJson, NameMap.empty])⟩
  obtain ⟨hread, -, -, hdecode⟩ := json_decodes_back d
  exact ⟨h, hdecode j h, hread⟩

end PlanningDomain
