import PlanningDomain.Domain
import PlanningDomain.Json.Writer
import PlanningDomain.Number.Shortest
import PlanningDomain.Text.Quoted

/-! A domain as a JSON value, and from one. Maps become objects with their names in order. In
reading, unknown members are ignored, and an array of exactly the fields in their order counts as a
record. -/
namespace PlanningDomain

def NameMap.toJson (m : NameMap) : Json :=
  .object (m.entries.map fun e => (e.1, .text e.2))

def Params.toJson (p : Params) : Json :=
  .object [("params", .array (p.names.map .text)), ("types", p.types.toJson)]

def Predicate.toJson (p : Predicate) : Json :=
  .object [("name", .text p.name), ("negated", .boolean p.negated), ("params", p.params.toJson)]

def Task.toJson (t : Task) : Json :=
  .object [("name", .text t.name), ("params", t.params.toJson)]

def Method.toJson (m : Method) : Json :=
  .object [("name", .text m.name), ("params", m.params.toJson), ("task", m.task.toJson),
    ("ordered_subtasks", .boolean m.ordered), ("subtasks", .array (m.subtasks.map Task.toJson))]

def Domain.toJson (d : Domain) : Json :=
  .object [("file_path", .text d.filePath), ("name", .text d.name),
    ("requirements", .array (d.requirements.map .text)), ("types", d.types.toJson),
    ("predicates", .array (d.predicates.map Predicate.toJson)),
    ("tasks", .array (d.tasks.map Task.toJson)),
    ("methods", .array (d.methods.map Method.toJson))]

inductive ImportError
  | wrongType (found : Json) (expected : String)
  | wrongLength (length : Nat) (expected : String)
  | missingField (name : String)

namespace ImportError

def describe : Json → String
  | .null => "null"
  | .boolean value => "boolean \x60" ++ (if value then "true" else "false") ++ "\x60"
  | .integer value => "integer \x60" ++ toString value ++ "\x60"
  | .real value => "floating point \x60" ++ value.realText ++ "\x60"
  | .text value => "string " ++ Text.quoted value
  | .array _ => "sequence"
  | .object _ => "map"

def message : ImportError → String
  | wrongType found expected => "invalid type: " ++ describe found ++ ", expected " ++ expected
  | wrongLength length expected => "invalid length " ++ toString length ++ ", expected " ++ expected
  | missingField name => "missing field \x60" ++ name ++ "\x60"

end ImportError

namespace Import

def asText : Json → Except ImportError String
  | .text value => .ok value
  | j => .error (.wrongType j "a string")

def asPath : Json → Except ImportError String
  | .text value => .ok value
  | j => .error (.wrongType j "path string")

def asBoolean : Json → Except ImportError Bool
  | .boolean value => .ok value
  | j => .error (.wrongType j "a boolean")

def listOf (item : Json → Except ImportError α) : Json → Except ImportError (List α)
  | .array items => items.mapM item
  | j => .error (.wrongType j "a sequence")

/-- The members of an object with each name once, in the order of the names. -/
def sortedMembers (members : List (String × Json)) : List (String × Json) :=
  let names := (members.map Prod.fst).eraseDups.mergeSort
  names.filterMap fun name => (Json.member? name members).map fun value => (name, value)

def asNameMap : Json → Except ImportError NameMap
  | .object members => do
    let entries ← (sortedMembers members).mapM fun m => do return (m.1, ← asText m.2)
    return .ofList entries
  | j => .error (.wrongType j "a map")

/-- The values of a record's fields. `size` is the number of items if they come from an array. -/
structure Fields where
  field? : String → Option Json
  size : Option Nat

/-- The fields of a record of a type, from an object or an array. -/
def fields (type : String) (names : List String) : Json → Except ImportError Fields
  | .object members => .ok ⟨fun name => Json.member? name members, none⟩
  | .array items => .ok ⟨fun name => (names.zip items).lookup name, some items.length⟩
  | j => .error (.wrongType j ("struct " ++ type))

def Fields.read (f : Fields) (name : String) (decode : Json → Except ImportError α) :
    Except ImportError (Option α) :=
  match f.field? name with
  | some j => (decode j).map some
  | none => .ok none

def failure? : Except ImportError (Option α) → Option ImportError
  | .error e => some e
  | .ok _ => none

/-- The first fault of a record. Values count before missing fields; those of an object in the order
of their names, those of an array in the order of the fields. -/
def Fields.fault? (f : Fields) (type : String) (failures : List (String × Option ImportError)) :
    Option ImportError :=
  let names := failures.map Prod.fst
  match f.size with
  | none =>
    ((failures.mergeSort fun a b => a.1 ≤ b.1).findSome? Prod.snd).or <|
      (names.find? fun name => (f.field? name).isNone).map .missingField
  | some size =>
    (failures.findSome? Prod.snd).or <|
      if size < names.length then
        some (.wrongLength size
          ("struct " ++ type ++ " with " ++ toString names.length ++ " elements"))
      else if names.length < size then some (.wrongLength size "fewer elements in array")
      else none

def require (name : String) : Except ImportError (Option α) → Except ImportError α
  | .ok (some value) => .ok value
  | .ok none => .error (.missingField name)
  | .error e => .error e

def Fields.check (f : Fields) (type : String) (failures : List (String × Option ImportError)) :
    Except ImportError Unit :=
  match f.fault? type failures with
  | some e => .error e
  | none => .ok ()

end Import

open Import

def Params.ofJson (j : Json) : Except ImportError Params := do
  let f ← fields "Params" ["params", "types"] j
  let names := f.read "params" (listOf asText)
  let types := f.read "types" asNameMap
  f.check "Params" [("params", failure? names), ("types", failure? types)]
  return ⟨← require "params" names, ← require "types" types⟩

def Predicate.ofJson (j : Json) : Except ImportError Predicate := do
  let f ← fields "Predicate" ["name", "negated", "params"] j
  let name := f.read "name" asText
  let negated := f.read "negated" asBoolean
  let params := f.read "params" Params.ofJson
  f.check "Predicate"
    [("name", failure? name), ("negated", failure? negated), ("params", failure? params)]
  return ⟨← require "name" name, ← require "negated" negated, ← require "params" params⟩

def Task.ofJson (j : Json) : Except ImportError Task := do
  let f ← fields "Task" ["name", "params"] j
  let name := f.read "name" asText
  let params := f.read "params" Params.ofJson
  f.check "Task" [("name", failure? name), ("params", failure? params)]
  return ⟨← require "name" name, ← require "params" params⟩

def Method.ofJson (j : Json) : Except ImportError Method := do
  let f ← fields "Method" ["name", "params", "task", "ordered_subtasks", "subtasks"] j
  let name := f.read "name" asText
  let params := f.read "params" Params.ofJson
  let task := f.read "task" Task.ofJson
  let ordered := f.read "ordered_subtasks" asBoolean
  let subtasks := f.read "subtasks" (listOf Task.ofJson)
  f.check "Method"
    [("name", failure? name), ("params", failure? params), ("task", failure? task),
      ("ordered_subtasks", failure? ordered), ("subtasks", failure? subtasks)]
  return {
    name := ← require "name" name
    params := ← require "params" params
    task := ← require "task" task
    ordered := ← require "ordered_subtasks" ordered
    subtasks := ← require "subtasks" subtasks }

def Domain.ofJson (j : Json) : Except ImportError Domain := do
  let f ← fields "HddlDomain"
    ["file_path", "name", "requirements", "types", "predicates", "tasks", "methods"] j
  let filePath := f.read "file_path" asPath
  let name := f.read "name" asText
  let requirements := f.read "requirements" (listOf asText)
  let types := f.read "types" asNameMap
  let predicates := f.read "predicates" (listOf Predicate.ofJson)
  let tasks := f.read "tasks" (listOf Task.ofJson)
  let methods := f.read "methods" (listOf Method.ofJson)
  f.check "HddlDomain"
    [("file_path", failure? filePath), ("name", failure? name),
      ("requirements", failure? requirements), ("types", failure? types),
      ("predicates", failure? predicates), ("tasks", failure? tasks),
      ("methods", failure? methods)]
  return {
    filePath := ← require "file_path" filePath
    name := ← require "name" name
    requirements := ← require "requirements" requirements
    types := ← require "types" types
    predicates := ← require "predicates" predicates
    tasks := ← require "tasks" tasks
    methods := ← require "methods" methods }

end PlanningDomain
