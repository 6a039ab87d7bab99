import PlanningDomain.Format.Text
import PlanningDomain.Session

/-! What a reading tells a logger while it goes on, apart from its outcome. -/
namespace PlanningDomain

inductive Severity
  | trace
  | debug
  | info
  | warning
  | error
deriving DecidableEq

namespace Severity

def toNat : Severity → Nat
  | trace => 0
  | debug => 1
  | info => 2
  | warning => 3
  | error => 4

def text : Severity → String
  | trace => "TRACE"
  | debug => "DEBUG"
  | info => "INFO"
  | warning => "WARN"
  | error => "ERROR"

theorem toNat_lt_five (s : Severity) : s.toNat < 5 := by
  cases s <;> decide

end Severity

/-- One thing that a logger is told. -/
inductive Notice
  | begun (previous : Session.State)
  | headed (name : String)
  /-- The head of a section that comes in order. -/
  | admitted (head : Token)
  /-- A type that takes another parent. -/
  | retyped (name previous parent : String)
  | predicate (name : String) (negated : Bool)
  | task (name : String)
  | method (name task : String)
  /-- A diagnostic, whether or not there is room to record it. -/
  | reported (d : Diagnostic)
  /-- An unknown section that the settings let pass. -/
  | passedOver (word : String)
  | finished (name : String) (diagnostics : Nat) (state : Session.State)
deriving DecidableEq

namespace Notice

def severity : Notice → Severity
  | predicate .. => .trace
  | task _ => .trace
  | method .. => .trace
  | finished .. => .info
  | reported _ => .warning
  | passedOver _ => .warning
  | _ => .debug

def isWarning (n : Notice) : Bool := Severity.warning.toNat ≤ n.severity.toNat

def stateText : Session.State → String
  | .idle => "Idle"
  | .scanning => "Scanning"
  | .succeeded => "Succeeded"
  | .failed => "Failed"

def message : Notice → String
  | begun _ => "starting parse"
  | headed _ => "domain header recognized"
  | admitted _ => "section"
  | retyped .. => "type redeclared"
  | predicate .. => "predicate"
  | task _ => "task"
  | method .. => "method"
  | reported _ => "hddl diagnostic"
  | passedOver _ => "skipping unknown section"
  | finished .. => "parse finished"

def fields : Notice → List (String × String)
  | begun previous => [("previous", stateText previous)]
  | headed name => [("domain", name)]
  | admitted head => [("section", head.spelling)]
  | retyped name previous parent => [("name", name), ("previous", previous), ("parent", parent)]
  | predicate name negated => [("name", name), ("negated", if negated then "true" else "false")]
  | task name => [("name", name)]
  | method name decomposed => [("name", name), ("task", decomposed)]
  | reported d => [("error", d.text)]
  | passedOver word => [("section", word)]
  | finished name diagnostics state =>
    [("domain", name), ("errors", toString diagnostics), ("state", stateText state)]

def line (n : Notice) : String :=
  " ".intercalate (n.severity.text :: n.message :: n.fields.map fun f => f.1 ++ "=" ++ f.2)

end Notice

/-- What is told of items one after the other, each where the items before it have led. -/
def toldAlong (told : σ → α → List Notice) (step : σ → α → σ) (s : σ) : List α → List Notice
  | [] => []
  | x :: xs => told s x ++ toldAlong told step (step s x) xs

namespace Progress

/-- The diagnostics of a step. The step is taken again with as much room as it needs to record all.
-/
def diagnosticsOf (step : Progress → Progress) (p : Progress) : List Diagnostic :=
  let total := (step { p with log := .empty 0 }).log.total
  (step { p with log := .empty total }).log.recorded

/-- The declarations that come behind those that are there already. -/
def additions (before after : Domain) : List Notice :=
  (after.predicates.drop before.predicates.length).map (fun p => .predicate p.name p.negated) ++
    (after.tasks.drop before.tasks.length).map (fun t => .task t.name) ++
    (after.methods.drop before.methods.length).map fun m => .method m.name m.task.name

/-- What a step tells that does one thing, a diagnostic or an addition. -/
def toldBy (step : Progress → Progress) (p : Progress) : List Notice :=
  (diagnosticsOf step p).map .reported ++ additions p.domain (step p).domain

def toldOfType (root : String) (d : Domain) (pair : String × String) : List Notice :=
  if pair.1 = root ∧ pair.2 = root then []
  else
    match d.parentOf pair.1 with
    | some previous => [.retyped pair.1 previous pair.2]
    | none => []

def toldOfTypes (root : String) (d : Domain) (runs : List TypedRun) : List Notice :=
  toldAlong (toldOfType root) (fun d pair => d.addTypes root [⟨[pair.1], some pair.2⟩]) d
    (Typing.resolve root runs)

def toldOfPredicates (f : Frame) (g : Group) (p : Progress) : List Notice :=
  toldAlong (fun p i => toldBy (predicateItem f · i) p) (predicateItem f) p (splitItems g.body) ++
    if g.closed then [] else [.reported (.atEnd "')' closing ':predicates'" f.table.endPoint)]

def toldOfBody (f : Frame) (head : Token) (g : Group) (p : Progress) : List Notice :=
  match head with
  | .types =>
    match Production.types.whole g.tokens with
    | .ok runs => toldOfTypes f.settings.rootType p.domain runs
    | .error _ => toldBy (sectionBody f head g) p
  | .predicates => toldOfPredicates f g p
  | _ => toldBy (sectionBody f head g) p

def toldOfSection (f : Frame) (g : Group) (p : Progress) : List Notice :=
  match g.head? with
  | none => toldBy (addSection f g) p
  | some head =>
    match Rank.ofToken? head.token, head.token with
    | some rank, token =>
      if rank.mayFollow p.lastRank then
        .admitted token :: toldOfBody f token g { p with lastRank := some rank }
      else toldBy (addSection f g) p
    | none, .keyword word =>
      if f.settings.skipUnknownSections then [.passedOver word] else toldBy (addSection f g) p
    | none, _ => toldBy (addSection f g) p

def toldOfEvent (f : Frame) (p : Progress) : Event → List Notice
  | .header ls =>
    match Production.header.whole (ls.map Lexeme.token) with
    | .ok name => [.headed name]
    | .error _ => toldBy (act f · (.header ls)) p
  | .item (.group g) => toldOfSection f g p
  | e => toldBy (act f · e) p

end Progress

def notices (s : Settings) (text : String) : List Notice :=
  let frame : Frame := ⟨s, .ofText text⟩
  toldAlong (Progress.toldOfEvent frame) (Progress.act frame) (.start s) (events (scan text))

def Session.pathNotices (s : Session) (files : Files) (path : String) : List Notice :=
  .begun s.state ::
    match files.readText path with
    | .error _ => []
    | .ok text =>
      let after := (s.readPath files path).1
      notices s.settings text ++ [.finished after.domain.name after.log.total after.state]

/-- A log. Its filters and its layout are its own, and so are the times and places that it adds. -/
structure Logger where
  /-- Whether a text is a filter. -/
  accepts : String → Bool
  /-- What is written of some notices under a filter. -/
  written : String → List Notice → String
  accepts_off : accepts "off" = true
  written_off : ∀ notices, written "off" notices = ""
  /-- The filter for warnings and errors. -/
  written_warn : ∀ notices,
    written "warn" notices = written "warn" (notices.filter Notice.isWarning)
  written_nil : ∀ filter, written filter [] = ""

namespace Logger

def filterName : String := "RUST_LOG"

/-- Without a filter, or with a text that is none, warnings and errors are written. -/
def filterIn (logger : Logger) (env : List (String × String)) : String :=
  match env.lookup filterName with
  | some filter => if logger.accepts filter then filter else "warn"
  | none => "warn"

def text (logger : Logger) (env : List (String × String)) (notices : List Notice) : String :=
  logger.written (logger.filterIn env) notices

/-- The filters of a plain log, each with the least severity that it lets through. -/
def plainFilters : List (String × Nat) :=
  [("off", 5), ("error", 4), ("warn", 3), ("info", 2), ("debug", 1), ("trace", 0)]

/-- The least severity that a plain log lets through. A text that is no filter stops everything. -/
def leastSeverity (filter : String) : Nat :=
  (plainFilters.lookup filter).getD 5

def plainText (filter : String) (notices : List Notice) : String :=
  unlines ((notices.filter fun n => leastSeverity filter ≤ n.severity.toNat).map Notice.line)

theorem plainText_off (notices : List Notice) : plainText "off" notices = "" := by
  have hleast : leastSeverity "off" = 5 := rfl
  have hnone : notices.filter (fun n => decide (5 ≤ n.severity.toNat)) = [] :=
    List.filter_eq_nil_iff.2 fun n _ => by simpa using n.severity.toNat_lt_five
  rw [plainText, hleast, hnone]
  rfl

theorem plainText_warn (notices : List Notice) :
    plainText "warn" notices = plainText "warn" (notices.filter Notice.isWarning) := by
  have hleast : (fun n : Notice => decide (leastSeverity "warn" ≤ n.severity.toNat)) =
    Notice.isWarning := rfl
  simp only [plainText, hleast, List.filter_filter, Bool.and_self]

def plain : Logger where
  accepts filter := (plainFilters.lookup filter).isSome
  written := plainText
  accepts_off := rfl
  written_off := plainText_off
  written_warn := plainText_warn
  written_nil _ := rfl

end Logger
end PlanningDomain
