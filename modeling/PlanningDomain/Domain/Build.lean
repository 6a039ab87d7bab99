import PlanningDomain.Domain

/-! Declarations as written, and what each does to the domain. In a typed list a type counts for all
names that wait for one. Repeated predicates, tasks and methods are kept. -/
namespace PlanningDomain

/-- Names that share a type, which may be left out. -/
structure TypedRun where
  names : List String
  type : Option String
deriving DecidableEq

structure TaskForm where
  name : String
  params : List TypedRun
deriving DecidableEq

structure PredicateForm where
  name : String
  negated : Bool
  params : List TypedRun
deriving DecidableEq

structure MethodForm where
  name : String
  params : List TypedRun
  task : TaskForm
  ordered : Bool
  subtasks : List TaskForm
deriving DecidableEq

/-- Names that wait for their type, and the pairs resolved so far. -/
structure Typing where
  pending : List String
  resolved : List (String × String)
deriving DecidableEq

namespace Typing

def empty : Typing := ⟨[], []⟩

def pushName (t : Typing) (name : String) : Typing :=
  { t with pending := t.pending ++ [name] }

def applyType (t : Typing) (type : String) : Typing :=
  ⟨[], t.resolved ++ t.pending.map fun name => (name, type)⟩

/-- A run without a type leaves its names waiting. -/
def pushRun (t : Typing) (run : TypedRun) : Typing :=
  let pushed := run.names.foldl pushName t
  match run.type with
  | some type => pushed.applyType type
  | none => pushed

/-- All pairs, with the root type for the names that still wait. -/
def finish (t : Typing) (root : String) : List (String × String) :=
  (t.applyType root).resolved

def resolve (root : String) (runs : List TypedRun) : List (String × String) :=
  (runs.foldl pushRun empty).finish root

end Typing

def Params.ofRuns (root : String) (runs : List TypedRun) : Params :=
  .ofPairs (Typing.resolve root runs)

def Task.ofForm (root : String) (form : TaskForm) : Task :=
  ⟨form.name, .ofRuns root form.params⟩

def Predicate.ofForm (root : String) (form : PredicateForm) : Predicate :=
  ⟨form.name, form.negated, .ofRuns root form.params⟩

def Method.ofForm (root : String) (form : MethodForm) : Method :=
  { name := form.name
    params := .ofRuns root form.params
    task := .ofForm root form.task
    ordered := form.ordered
    subtasks := form.subtasks.map (.ofForm root) }

namespace Domain

def addRequirement (d : Domain) (flag : String) : Domain :=
  { d with requirements := d.requirements ++ [flag] }

def addTypeEdge (d : Domain) (name parent : String) : Domain :=
  { d with types := d.types.insert name parent }

/-- A type section. The root type is never made its own parent. -/
def addTypes (root : String) (d : Domain) (runs : List TypedRun) : Domain :=
  (Typing.resolve root runs).foldl
    (fun d pair => if pair.1 = root ∧ pair.2 = root then d else d.addTypeEdge pair.1 pair.2) d

def addPredicate (root : String) (d : Domain) (form : PredicateForm) : Domain :=
  { d with predicates := d.predicates ++ [.ofForm root form] }

def addTask (root : String) (d : Domain) (form : TaskForm) : Domain :=
  { d with tasks := d.tasks ++ [.ofForm root form] }

def addMethod (root : String) (d : Domain) (form : MethodForm) : Domain :=
  { d with methods := d.methods ++ [.ofForm root form] }

end Domain
end PlanningDomain
