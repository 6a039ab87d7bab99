import PlanningDomain.Domain

/-! Domains as text: the canonical text, with every parameter's type, every section in the order of
the grammar and no empty section, and a summary for people, with each kind of declaration and its
number. -/
namespace PlanningDomain

def Params.text (p : Params) : String :=
  " ".intercalate (p.pairs.map fun pair => pair.1 ++ " - " ++ pair.2)

/-- `(name params)`, without the blank where there are none. -/
def signatureText (name : String) (p : Params) : String :=
  if p.isEmpty then "(" ++ name ++ ")" else "(" ++ name ++ " " ++ p.text ++ ")"

def Task.text (t : Task) : String :=
  signatureText t.name t.params

def Predicate.text (p : Predicate) : String :=
  if p.negated then "(not " ++ signatureText p.name p.params ++ ")"
  else signatureText p.name p.params

/-- Each line with a newline behind it. -/
def unlines (lines : List String) : String :=
  String.join (lines.map (· ++ "\n"))

def Task.canonicalLines (t : Task) : List String :=
  ["  (:task " ++ t.name, "    :parameters (" ++ t.params.text ++ ")", "  )"]

def Method.marker (m : Method) : String :=
  if m.ordered then ":ordered-subtasks" else ":unordered-subtasks"

/-- The subtasks, one a line; a lone pair of parentheses where there are none. -/
def Method.subtaskLines (m : Method) : List String :=
  if m.subtasks.isEmpty then ["    " ++ m.marker ++ " ()"]
  else ("    " ++ m.marker ++ " (") :: (m.subtasks.map fun t => "      " ++ t.text) ++ ["    )"]

def Method.canonicalLines (m : Method) : List String :=
  ["  (:method " ++ m.name, "    :parameters (" ++ m.params.text ++ ")",
    "    :task " ++ m.task.text] ++ m.subtaskLines ++ ["  )"]

namespace Domain

def requirementLines (d : Domain) : List String :=
  if d.requirements.isEmpty then []
  else ["  (:requirements" ++ String.join (d.requirements.map (" :" ++ ·)) ++ ")"]

def typeLines (d : Domain) : List String :=
  if d.types.isEmpty then []
  else "  (:types" :: (d.types.entries.map fun e => "    " ++ e.1 ++ " - " ++ e.2) ++ ["  )"]

def predicateLines (d : Domain) : List String :=
  if d.predicates.isEmpty then []
  else "  (:predicates" :: (d.predicates.map fun p => "    " ++ p.text) ++ ["  )"]

/-- The text that reads back as the domain, as far as its names are names of the language. -/
def canonicalText (d : Domain) : String :=
  unlines <|
    ["(define (domain " ++ d.name ++ ")"] ++ d.requirementLines ++ d.typeLines ++ d.predicateLines
      ++ d.tasks.flatMap Task.canonicalLines ++ d.methods.flatMap Method.canonicalLines ++ [")"]

end Domain

def countedHeading (heading : String) (items : List α) : String :=
  heading ++ ": " ++ toString items.length

def numberedTasks (next : Nat) : List Task → List String
  | [] => []
  | t :: ts => ("      " ++ toString next ++ ". " ++ t.text) :: numberedTasks (next + 1) ts

def Method.summaryLines (m : Method) : List String :=
  let subtasks := if m.ordered then "ordered subtasks" else "unordered subtasks"
  ["  " ++ m.name ++ " (" ++ m.params.text ++ ")", "    decomposes " ++ m.task.text,
    "    " ++ countedHeading subtasks m.subtasks] ++ numberedTasks 1 m.subtasks

def Domain.summary (d : Domain) : String :=
  unlines <|
    ["domain: " ++ d.name, "requirements: [" ++ ", ".intercalate d.requirements ++ "]",
      countedHeading "types" d.types.entries]
      ++ d.types.entries.map (fun e => "  " ++ e.1 ++ " -> " ++ e.2)
      ++ [countedHeading "predicates" d.predicates]
      ++ d.predicates.map (fun p => "  " ++ p.text)
      ++ [countedHeading "tasks" d.tasks]
      ++ d.tasks.map (fun t => "  " ++ t.text)
      ++ [countedHeading "methods" d.methods]
      ++ d.methods.flatMap Method.summaryLines

end PlanningDomain
