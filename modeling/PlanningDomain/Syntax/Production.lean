import PlanningDomain.Domain.Build
import PlanningDomain.Syntax.Reader

/-! The grammar of the sections of a domain. Each production here reads one parenthesised group, and
the header the tokens up to its first closing parenthesis. -/
namespace PlanningDomain.Production

open Reader

def name : Reader String :=
  one "name" fun
    | .name text => some text
    | _ => none

def variableName : Reader String :=
  one "variable" fun
    | .var text => some text
    | _ => none

def flag : Reader String :=
  one "requirement flag" fun
    | .keyword word => some word
    | _ => none

/-- Runs of items, each with a type or without. -/
def typedList (item : Reader String) : Reader (List TypedRun) :=
  many do
    let names ← many1 item
    let type ← optional do
      token .dash
      name
    return ⟨names, type⟩

/-- `(define (domain NAME)`, whose first parenthesis stays open. -/
def header : Reader String := do
  token .openParen
  token .define
  parenthesized do
    token .domain
    name

def requirements : Reader (List String) :=
  parenthesized do
    token .requirements
    many flag

def types : Reader (List TypedRun) :=
  parenthesized do
    token .types
    typedList name

def signature : Reader (String × List TypedRun) :=
  parenthesized do
    let name ← name
    let params ← typedList variableName
    return (name, params)

def predicate : Reader PredicateForm :=
  labelled "predicate" <|
    orElse
      (parenthesized do
        token .not
        let (name, params) ← signature
        return ⟨name, true, params⟩)
      (do
        let (name, params) ← signature
        return ⟨name, false, params⟩)

def parameters : Reader (List TypedRun) := do
  token .parameters
  parenthesized (typedList variableName)

def taskReference : Reader TaskForm :=
  labelled "task" do
    let (name, params) ← signature
    return ⟨name, params⟩

def task : Reader TaskForm :=
  parenthesized do
    token .task
    let name ← name
    let params ← parameters
    return ⟨name, params⟩

def ordering : Reader Bool :=
  labelled "subtask ordering" <|
    orElse
      (do
        token .orderedSubtasks
        return true)
      (do
        token .unorderedSubtasks
        return false)

/-- A task with its arguments, or one behind a label that is dropped. -/
def subtask : Reader TaskForm :=
  labelled "subtask" <|
    orElse taskReference
      (parenthesized do
        let _ ← name
        taskReference)

/-- A list of subtasks, the same behind `and`, or a single one. -/
def subtasks : Reader (List TaskForm) :=
  orElse
    (orElse (parenthesized (many subtask))
      (parenthesized do
        token .and
        many subtask))
    (do
      let single ← subtask
      return [single])

/-- `(:method name :parameters (...) :task (...) :ordered-subtasks ...)` -/
def method : Reader MethodForm :=
  parenthesized do
    token .method
    let name ← name
    let params ← parameters
    token .task
    let task ← taskReference
    let ordered ← ordering
    let subtasks ← subtasks
    return ⟨name, params, task, ordered, subtasks⟩

end PlanningDomain.Production
