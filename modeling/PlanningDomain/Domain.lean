/-! Finite maps from names to names, and hierarchical planning domains: types, predicates, tasks and
the methods that decompose them. -/
namespace PlanningDomain

/-- The pairs of a map, each name once and the names in increasing order, so that equal maps are
equal values. -/
structure NameMap where
  entries : List (String × String)
  increasing : entries.Pairwise (·.1 < ·.1)
deriving DecidableEq

namespace NameMap

def empty : NameMap := ⟨[], .nil⟩

def isEmpty (m : NameMap) : Bool := m.entries.isEmpty

def size (m : NameMap) : Nat := m.entries.length

def keys (m : NameMap) : List String := m.entries.map Prod.fst

def get? (m : NameMap) (name : String) : Option String := m.entries.lookup name

/-- Puts a pair at its place among increasing names, over an older pair of the same name. -/
def insertEntry (name value : String) : List (String × String) → List (String × String)
  | [] => [(name, value)]
  | e :: es =>
    if name < e.1 then (name, value) :: e :: es
    else if name = e.1 then (name, value) :: es
    else e :: insertEntry name value es

private theorem mem_insertEntry {name value : String} {es : List (String × String)}
    {e : String × String} (h : e ∈ insertEntry name value es) : e = (name, value) ∨ e ∈ es := by
  induction es with
  | nil => simpa [insertEntry] using h
  | cons d ds ih =>
    simp only [insertEntry] at h
    split at h
    · simpa using h
    · split at h
      · rcases List.mem_cons.1 h with rfl | h
        · exact .inl rfl
        · exact .inr (List.mem_cons_of_mem _ h)
      · rcases List.mem_cons.1 h with rfl | h
        · exact .inr List.mem_cons_self
        · exact (ih h).imp_right (List.mem_cons_of_mem _)

private theorem lt_of_not_lt {a b : String} (h : ¬a < b) (hne : a ≠ b) : b < a := by
  rcases String.le_total a b with hab | hba
  · exact absurd (String.le_antisymm hab (String.not_lt.1 h)) hne
  · by_cases hlt : b < a
    · exact hlt
    · exact absurd (String.le_antisymm (String.not_lt.1 hlt) hba) hne

theorem pairwise_insertEntry (name value : String) {es : List (String × String)}
    (h : es.Pairwise (·.1 < ·.1)) : (insertEntry name value es).Pairwise (·.1 < ·.1) := by
  induction es with
  | nil => simp [insertEntry]
  | cons d ds ih =>
    rw [List.pairwise_cons] at h
    simp only [insertEntry]
    split
    · rename_i hlt
      refine List.pairwise_cons.2 ⟨fun e he => ?_, List.pairwise_cons.2 h⟩
      rcases List.mem_cons.1 he with rfl | he
      · exact hlt
      · exact String.lt_trans hlt (h.1 e he)
    · split
      · rename_i heq
        exact List.pairwise_cons.2 ⟨fun e he => heq ▸ h.1 e he, h.2⟩
      · rename_i hnlt hne
        refine List.pairwise_cons.2 ⟨fun e he => ?_, ih h.2⟩
        rcases mem_insertEntry he with rfl | he
        · exact lt_of_not_lt hnlt hne
        · exact h.1 e he

def insert (m : NameMap) (name value : String) : NameMap :=
  ⟨insertEntry name value m.entries, pairwise_insertEntry name value m.increasing⟩

/-- The map of some pairs; of several pairs of one name the last counts. -/
def ofList (es : List (String × String)) : NameMap :=
  es.foldl (fun m e => m.insert e.1 e.2) empty

end NameMap

/-- Parameters in order, and the type of each. A value built by `push` has a type for every name and
for no other; one read from elsewhere need not. -/
structure Params where
  names : List String
  types : NameMap
deriving DecidableEq

namespace Params

def empty : Params := ⟨[], .empty⟩

/-- A repeated name keeps its first place and takes the new type. -/
def push (p : Params) (name type : String) : Params :=
  { names := if (p.types.get? name).isSome then p.names else p.names ++ [name]
    types := p.types.insert name type }

def ofPairs (pairs : List (String × String)) : Params :=
  pairs.foldl (fun p pair => p.push pair.1 pair.2) empty

def typeOf (p : Params) (name : String) : Option String := p.types.get? name

/-- The names in order with their types; a name without a type gets the empty one. -/
def pairs (p : Params) : List (String × String) :=
  p.names.map fun name => (name, (p.typeOf name).getD "")

def size (p : Params) : Nat := p.names.length

def isEmpty (p : Params) : Bool := p.names.isEmpty

end Params

structure Predicate where
  name : String
  negated : Bool
  params : Params
deriving DecidableEq

structure Task where
  name : String
  params : Params
deriving DecidableEq

/-- A way to decompose a task. The order of unordered subtasks carries no meaning and is kept. -/
structure Method where
  name : String
  params : Params
  task : Task
  ordered : Bool
  subtasks : List Task
deriving DecidableEq

structure Domain where
  /-- The file that the domain was read from; empty for a text in memory. -/
  filePath : String
  name : String
  /-- The flags without their colons. -/
  requirements : List String
  /-- The parent of each declared type. -/
  types : NameMap
  predicates : List Predicate
  tasks : List Task
  methods : List Method
deriving DecidableEq

namespace Domain

def empty : Domain := ⟨"", "", [], .empty, [], [], []⟩

def parentOf (d : Domain) (type : String) : Option String := d.types.get? type

def hasRequirement (d : Domain) (flag : String) : Bool := d.requirements.contains flag

def predicate? (d : Domain) (name : String) : Option Predicate :=
  d.predicates.find? (·.name == name)

def task? (d : Domain) (name : String) : Option Task :=
  d.tasks.find? (·.name == name)

def method? (d : Domain) (name : String) : Option Method :=
  d.methods.find? (·.name == name)

end Domain
end PlanningDomain
