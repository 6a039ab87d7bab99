import PlanningDomain.Diagnostic.Log
import PlanningDomain.Domain.Build
import PlanningDomain.Syntax.Group
import PlanningDomain.Syntax.Production
import PlanningDomain.Syntax.Reader

/-! How far a reading has come, and what one group of the body does to it. A group that no
production accepts is reported and dropped as a whole; within `:predicates` each predicate is on its
own. -/
namespace PlanningDomain

/-- The header sections come once each and in this order; tasks and methods form the body. -/
inductive Rank
  | requirements
  | types
  | predicates
  | body
deriving DecidableEq

namespace Rank

def toNat : Rank → Nat
  | requirements => 0
  | types => 1
  | predicates => 2
  | body => 3

def ofToken? : Token → Option Rank
  | .requirements => some requirements
  | .types => some types
  | .predicates => some predicates
  | .task => some body
  | .method => some body
  | _ => none

def mayFollow (r : Rank) : Option Rank → Bool
  | none => true
  | some last => last.toNat < r.toNat || (r == last && r == body)

def orderText : String :=
  "sections in the order :requirements, :types, :predicates, then tasks and methods"

end Rank

/-- What stays the same through a reading. -/
structure Frame where
  settings : Settings
  table : LineTable

/-- The domain so far, the diagnostics so far and the rank of the last admitted section. -/
structure Progress where
  domain : Domain
  log : DiagnosticLog
  lastRank : Option Rank
deriving DecidableEq

namespace Progress

def start (s : Settings) : Progress := ⟨.empty, .empty s.maxErrors, none⟩

def report (p : Progress) (d : Diagnostic) : Progress :=
  { p with log := p.log.report d }

def reportStrays (f : Frame) (p : Progress) (strays : List Stray) : Progress :=
  { p with log := p.log.reportAll (strays.map (.ofStray f.table)) }

def reportLexeme (f : Frame) (p : Progress) (l : Lexeme) (expected : String) : Progress :=
  p.report (.ofLexeme f.table l expected)

def reportEnd (f : Frame) (p : Progress) (expected : String) : Progress :=
  p.report (.atEnd expected f.table.endPoint)

def endOf (f : Frame) (ls : List Lexeme) : Span :=
  match ls.getLast? with
  | some l => .point (f.table.position l.range.stop)
  | none => f.table.endPoint

/-- A failed production names the token it failed at, or else the end at `place`; a failure without
one name is named for its context. -/
def reportFailure (f : Frame) (p : Progress) (ls : List Lexeme) (why : Failure) (context : String)
    (place : Span) : Progress :=
  let expected := why.expectation.textOr context
  match (ls.drop (ls.length - why.left)).head? with
  | some l => p.reportLexeme f l expected
  | none => p.report (.atEnd expected place)

/-- Adds what a production makes of some lexemes to the domain, or reports why it makes nothing. -/
def addFrom (f : Frame) (production : Reader α) (add : Domain → α → Domain) (context : String)
    (ls : List Lexeme) (place : Span) (p : Progress) : Progress :=
  match production.whole (ls.map Lexeme.token) with
  | .ok value => { p with domain := add p.domain value }
  | .error why => p.reportFailure f ls why context place

/-- The same for a group. An unclosed one ends where the text does. -/
def addGroup (f : Frame) (production : Reader α) (add : Domain → α → Domain) (context : String)
    (g : Group) (p : Progress) : Progress :=
  p.addFrom f production add context g.lexemes
    (if g.closed then endOf f g.lexemes else f.table.endPoint)

end Progress
end PlanningDomain

namespace PlanningDomain.Progress

/-- One item between the parentheses of a predicates section. A group with the head of a section
shows that the section was left open. -/
def predicateItem (f : Frame) (p : Progress) : Item → Progress
  | .stray l => p.reportLexeme f l "predicate"
  | .group g =>
    match g.head? with
    | some head =>
      if head.token.opensSection then p.reportLexeme f head "')' closing ':predicates'"
      else p.addGroup f Production.predicate (Domain.addPredicate f.settings.rootType) "predicate" g
    | none =>
      p.addGroup f Production.predicate (Domain.addPredicate f.settings.rootType) "predicate" g

def predicatesSection (f : Frame) (g : Group) (p : Progress) : Progress :=
  let p := (splitItems g.body).foldl (predicateItem f) p
  if g.closed then p else p.reportEnd f "')' closing ':predicates'"

def sectionBody (f : Frame) (head : Token) (g : Group) (p : Progress) : Progress :=
  let root := f.settings.rootType
  match head with
  | .requirements =>
    p.addGroup f Production.requirements (fun d flags => flags.foldl Domain.addRequirement d)
      "requirements" g
  | .types => p.addGroup f Production.types (Domain.addTypes root) "type declarations" g
  | .predicates => p.predicatesSection f g
  | .task => p.addGroup f Production.task (Domain.addTask root) "task" g
  | .method => p.addGroup f Production.method (Domain.addMethod root) "method" g
  | _ => p

/-- A section that comes too late is reported at its head. An admitted one counts even if its
production fails. -/
def rankedSection (f : Frame) (head : Lexeme) (rank : Rank) (g : Group) (p : Progress) : Progress :=
  if rank.mayFollow p.lastRank then
    { p with lastRank := some rank }.sectionBody f head.token g
  else p.reportLexeme f head Rank.orderText

/-- Whether the settings let a group with this head pass in silence. -/
def skips (s : Settings) : Token → Bool
  | .keyword _ => s.skipUnknownSections
  | _ => false

def addSection (f : Frame) (g : Group) (p : Progress) : Progress :=
  match g.head? with
  | none => p.reportEnd f "section keyword"
  | some head =>
    match Rank.ofToken? head.token with
    | some rank => p.rankedSection f head rank g
    | none =>
      if skips f.settings head.token then p else p.reportLexeme f head "section keyword"

end PlanningDomain.Progress
