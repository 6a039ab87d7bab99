import PlanningDomain.Domain.Build
import PlanningDomain.Token

/-! The grammar of domains, as the trees of its derivations with the tokens that each tree yields.
A token sequence is a sentence when some tree yields it.

    domain        := '(' 'define' '(' 'domain' NAME ')' requirements? types? predicates?
                       (task | method)* ')'
    requirements  := '(' ':requirements' KEYWORD* ')'
    types         := '(' ':types' (NAME+ ('-' NAME)?)* ')'
    predicates    := '(' ':predicates' predicate* ')'
    predicate     := '(' NAME typed_params ')' | '(' 'not' '(' NAME typed_params ')' ')'
    typed_params  := (VAR+ ('-' NAME)?)*
    task          := '(' ':task' NAME ':parameters' '(' typed_params ')' ')'
    method        := '(' ':method' NAME ':parameters' '(' typed_params ')'
                       ':task' '(' NAME typed_params ')'
                       (':ordered-subtasks' | ':unordered-subtasks') subtasks ')'
    subtasks      := '(' subtask* ')' | '(' 'and' subtask* ')' | subtask
    subtask       := '(' NAME typed_params ')' | '(' NAME '(' NAME typed_params ')' ')'
-/
namespace PlanningDomain.Grammar

/-- `(ITEM+ ('-' NAME)?)*` -/
structure TypedList where
  runs : List TypedRun
  names_ne_nil : ∀ run ∈ runs, run.names ≠ []

def suffixTokens : Option String → List Token
  | none => []
  | some type => [.dash, .name type]

def runTokens (item : String → Token) (runs : List TypedRun) : List Token :=
  runs.flatMap fun run => run.names.map item ++ suffixTokens run.type

def enclosed (ts : List Token) : List Token :=
  .openParen :: (ts ++ [.closeParen])

/-- A name with its parameters. -/
structure Signature where
  name : String
  params : TypedList

def Signature.tokens (s : Signature) : List Token :=
  enclosed (.name s.name :: runTokens .var s.params.runs)

/-- A predicate, as it is or within `not`. -/
structure Literal where
  negated : Bool
  atom : Signature

def Literal.tokens (l : Literal) : List Token :=
  if l.negated then enclosed (.not :: l.atom.tokens) else l.atom.tokens

/-- A task with its arguments, which may stand behind a label. -/
structure Subtask where
  label : Option String
  task : Signature

def Subtask.tokens (s : Subtask) : List Token :=
  match s.label with
  | none => s.task.tokens
  | some label => enclosed (.name label :: s.task.tokens)

inductive Block
  | list (subtasks : List Subtask)
  | conjunction (subtasks : List Subtask)
  | single (subtask : Subtask)

namespace Block

def subtasks : Block → List Subtask
  | list subtasks => subtasks
  | conjunction subtasks => subtasks
  | single subtask => [subtask]

def tokens : Block → List Token
  | list subtasks => enclosed (subtasks.flatMap Subtask.tokens)
  | conjunction subtasks => enclosed (.and :: subtasks.flatMap Subtask.tokens)
  | single subtask => subtask.tokens

end Block

structure MethodRule where
  name : String
  params : TypedList
  task : Signature
  ordered : Bool
  block : Block

def parameterTokens (params : TypedList) : List Token :=
  .parameters :: enclosed (runTokens .var params.runs)

def orderingToken (ordered : Bool) : Token :=
  if ordered then .orderedSubtasks else .unorderedSubtasks

inductive Section
  | requirements (flags : List String)
  | types (runs : TypedList)
  | predicates (literals : List Literal)
  | task (signature : Signature)
  | method (rule : MethodRule)

def Section.inner : Section → List Token
  | requirements flags => .requirements :: flags.map .keyword
  | types list => .types :: runTokens .name list.runs
  | predicates literals => .predicates :: literals.flatMap Literal.tokens
  | task signature => .task :: .name signature.name :: parameterTokens signature.params
  | method rule =>
    .method :: .name rule.name :: (parameterTokens rule.params ++ .task :: (rule.task.tokens ++
      orderingToken rule.ordered :: rule.block.tokens))

def Section.tokens (s : Section) : List Token :=
  enclosed s.inner

/-- A derivation of a whole domain. -/
structure Sentence where
  name : String
  requirements : Option (List String)
  types : Option TypedList
  predicates : Option (List Literal)
  body : List (Signature ⊕ MethodRule)

def headerTokens (name : String) : List Token :=
  .openParen :: .define :: enclosed [.domain, .name name]

namespace Sentence

def sections (s : Sentence) : List Section :=
  (s.requirements.map Section.requirements).toList ++ (s.types.map Section.types).toList ++
    (s.predicates.map Section.predicates).toList ++ s.body.map (Sum.elim .task .method)

def tokens (s : Sentence) : List Token :=
  headerTokens s.name ++ s.sections.flatMap Section.tokens ++ [.closeParen]

end Sentence
end PlanningDomain.Grammar
