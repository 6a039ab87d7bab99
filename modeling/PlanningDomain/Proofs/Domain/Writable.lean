import PlanningDomain.Proofs.Domain.WellFormed

/-! The domains that a text can stand for. Main statement: where the root type is a name, these are
the well-formed domains with a name. Printable domains need less: their signatures can be taken
apart. -/
namespace PlanningDomain

structure Params.Writable (p : Params) : Prop extends p.Settled where
  isVariable : ∀ name ∈ p.names, IsVariable name
  isName : ∀ e ∈ p.types.entries, IsName e.2

structure Predicate.Writable (p : Predicate) : Prop where
  isName : IsName p.name
  params : p.params.Writable

structure Task.Writable (t : Task) : Prop where
  isName : IsName t.name
  params : t.params.Writable

structure Method.Writable (m : Method) : Prop where
  isName : IsName m.name
  params : m.params.Writable
  task : m.task.Writable
  subtasks : ∀ t ∈ m.subtasks, t.Writable

/-- All but the name. The root type is not declared below itself. -/
structure Domain.PartsWritable (root : String) (d : Domain) : Prop where
  requirements : ∀ flag ∈ d.requirements, IsFlag flag
  types : ∀ e ∈ d.types.entries, IsName e.1 ∧ IsName e.2
  root_ne : d.types.get? root ≠ some root
  predicates : ∀ p ∈ d.predicates, p.Writable
  tasks : ∀ t ∈ d.tasks, t.Writable
  methods : ∀ m ∈ d.methods, m.Writable

/-- Every name can be written, and reads back as itself. -/
structure Domain.Writable (root : String) (d : Domain) : Prop
    extends d.PartsWritable root where
  isName : IsName d.name

section WellFormed
variable {root : String} (hroot : IsName root)
include hroot

private theorem Params.WellFormed.writable {p : Params} (h : p.WellFormed root) : p.Writable :=
  ⟨h.toSettled, h.isVariable, fun e he => (h.isType e he).elim id (· ▸ hroot)⟩

private theorem Predicate.WellFormed.writable {p : Predicate} (h : p.WellFormed root) :
    p.Writable :=
  ⟨h.isName, h.params.writable hroot⟩

private theorem Task.WellFormed.writable {t : Task} (h : t.WellFormed root) : t.Writable :=
  ⟨h.isName, h.params.writable hroot⟩

private theorem Method.WellFormed.writable {m : Method} (h : m.WellFormed root) : m.Writable :=
  ⟨h.isName, h.params.writable hroot, h.task.writable hroot,
    fun t ht => (h.subtasks t ht).writable hroot⟩

theorem Domain.WellFormed.partsWritable {d : Domain} (h : d.WellFormed root) :
    d.PartsWritable root where
  requirements := h.requirements
  types e he := (h.types e he).imp_right fun htype => htype.elim id (· ▸ hroot)
  root_ne := h.root_ne
  predicates p hp := (h.predicates p hp).writable hroot
  tasks t ht := (h.tasks t ht).writable hroot
  methods m hm := (h.methods m hm).writable hroot

end WellFormed
end PlanningDomain

namespace PlanningDomain

/-- Variables, each with a type that is a name, and no type for any other name. -/
structure Params.Printable (p : Params) : Prop where
  mem_iff : ∀ name, name ∈ p.names ↔ name ∈ p.types.keys
  isVariable : ∀ name ∈ p.names, IsVariable name
  isName : ∀ e ∈ p.types.entries, IsName e.2

structure Predicate.Printable (p : Predicate) : Prop where
  isName : IsName p.name
  params : p.params.Printable

structure Task.Printable (t : Task) : Prop where
  isName : IsName t.name
  params : t.params.Printable

structure Method.Printable (m : Method) : Prop where
  isName : IsName m.name
  params : m.params.Printable
  task : m.task.Printable
  subtasks : ∀ t ∈ m.subtasks, t.Printable

/-- The flags are words, in any case and reserved or not. -/
structure Domain.Printable (d : Domain) : Prop where
  isName : IsName d.name
  requirements : ∀ flag ∈ d.requirements, flag ≠ "" ∧ ∀ c ∈ flag.toList, continuesWord c = true
  types : ∀ e ∈ d.types.entries, IsName e.1 ∧ IsName e.2
  predicates : ∀ p ∈ d.predicates, p.Printable
  tasks : ∀ t ∈ d.tasks, t.Printable
  methods : ∀ m ∈ d.methods, m.Printable

theorem Params.Writable.printable {p : Params} (h : p.Writable) : p.Printable :=
  ⟨h.mem_iff, h.isVariable, h.isName⟩

theorem Predicate.Writable.printable {p : Predicate} (h : p.Writable) : p.Printable :=
  ⟨h.isName, h.params.printable⟩

theorem Task.Writable.printable {t : Task} (h : t.Writable) : t.Printable :=
  ⟨h.isName, h.params.printable⟩

namespace Params.Printable
variable {p q : Params}

theorem of_mem_pairs (h : p.Printable) {pair : String × String} (hpair : pair ∈ p.pairs) :
    IsVariable pair.1 ∧ IsName pair.2 := by
  obtain ⟨name, hname, rfl⟩ := List.mem_map.1 hpair
  obtain ⟨type, htype⟩ := Option.isSome_iff_exists.1
    (NameMap.mem_keys_iff.1 ((h.mem_iff name).1 hname))
  refine ⟨h.isVariable name hname, ?_⟩
  rw [typeOf, htype]
  exact h.isName (name, type) (NameMap.mem_entries_iff.2 htype)

theorem eq_of_pairs_eq (hp : p.Printable) (hq : q.Printable) (h : p.pairs = q.pairs) : p = q := by
  have hnames : p.names = q.names := by rw [← map_fst_pairs, h, map_fst_pairs]
  have htypes : p.types = q.types := by rw [← ofList_pairs hp.mem_iff, h, ofList_pairs hq.mem_iff]
  cases p
  cases q
  cases hnames
  cases htypes
  rfl

end Params.Printable
end PlanningDomain
