import PlanningDomain.Source.Cursor
import PlanningDomain.Token.Scan

/-! What a reading is told, and what it has to say against a text: diagnostics in a bounded list
that goes on counting when it is full. -/
namespace PlanningDomain

structure Settings where
  /-- The type of parameters and types declared without one. -/
  rootType : String
  /-- Whether an unknown section is passed over in silence. -/
  skipUnknownSections : Bool
  /-- How many diagnostics are recorded. -/
  maxErrors : Nat
deriving DecidableEq

namespace Settings

def standard : Settings := ⟨"object", false, 100⟩

end Settings

inductive Diagnostic
  /-- Characters that start no token. -/
  | unrecognized (text : String) (span : Span)
  /-- A token, or the end of the text, where the grammar wants something else. -/
  | unexpected (found expected : String) (span : Span)
deriving DecidableEq

namespace Diagnostic

def span : Diagnostic → Span
  | unrecognized _ span => span
  | unexpected _ _ span => span

def isScan : Diagnostic → Bool
  | unrecognized .. => true
  | unexpected .. => false

def text : Diagnostic → String
  | unrecognized text span => span.text ++ ": unrecognized input \x60" ++ text ++ "\x60"
  | unexpected found expected span =>
    span.text ++ ": syntax error, unexpected " ++ found ++ ", expected " ++ expected

def ofStray (table : LineTable) (s : Stray) : Diagnostic :=
  unrecognized s.written (table.span s.range)

def ofLexeme (table : LineTable) (l : Lexeme) (expected : String) : Diagnostic :=
  unexpected ("'" ++ l.written ++ "'") expected (table.span l.range)

/-- The text, or a part of it that is looked at alone, is over at `place`. -/
def atEnd (expected : String) (place : Span) : Diagnostic :=
  unexpected "end of input" expected place

end Diagnostic

structure DiagnosticLog where
  limit : Nat
  recorded : List Diagnostic
  total : Nat
deriving DecidableEq

namespace DiagnosticLog

def empty (limit : Nat) : DiagnosticLog := ⟨limit, [], 0⟩

def report (log : DiagnosticLog) (d : Diagnostic) : DiagnosticLog :=
  { log with
    total := log.total + 1
    recorded := if log.recorded.length < log.limit then log.recorded ++ [d] else log.recorded }

def reportAll (log : DiagnosticLog) (ds : List Diagnostic) : DiagnosticLog :=
  ds.foldl report log

def unrecorded (log : DiagnosticLog) : Nat :=
  log.total - log.recorded.length

end DiagnosticLog
end PlanningDomain
