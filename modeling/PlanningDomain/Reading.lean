import PlanningDomain.Syntax.Progress

/-! Reading a domain from a text. A reading never stops at an error: what it recognises survives,
and everything else is in its diagnostics. -/
namespace PlanningDomain

/-- The outcome of a reading: whatever was recognised, and the diagnostics. -/
structure Reading where
  domain : Domain
  log : DiagnosticLog
deriving DecidableEq

namespace Reading

def succeeded (r : Reading) : Bool := r.log.total == 0

end Reading

namespace Progress

/-- What stands behind the parenthesis that closes the domain: the first token there is reported,
and every stray character. -/
def trailer (f : Frame) : List Scanned → Progress → Progress
  | [], p => p
  | .stray s :: rest, p => trailer f rest (p.reportStrays f [s])
  | .lexeme l :: rest, p =>
    (p.reportLexeme f l "end of input").reportStrays f (rest.filterMap Scanned.stray?)

/-- The text behind the header: groups and lone tokens, up to the parenthesis that closes the
domain. An unclosed group has taken all that was left. -/
def body (f : Frame) (items : List Scanned) (p : Progress) : Progress :=
  match items with
  | [] => p.reportEnd f "')' closing the domain"
  | .stray s :: rest => body f rest (p.reportStrays f [s])
  | .lexeme l :: rest =>
    if l.token = .closeParen then trailer f rest p
    else if l.token = .openParen then
      let cut := takeBalanced Scanned.token? 1 rest
      let group : Group := ⟨l :: cut.front.filterMap Scanned.lexeme?, cut.closed⟩
      let p := (p.reportStrays f (cut.front.filterMap Scanned.stray?)).addSection f group
      if cut.closed then body f cut.rest p else p
    else body f rest (p.reportLexeme f l "'(' or ')'")
termination_by items.length
decreasing_by
  · simp
  · have := length_takeBalanced_rest_le Scanned.token? 1 rest
    simp only [List.length_cons]
    omega
  · simp

/-- The tokens of the header, with the stray characters among them, and what follows: a cut behind
the first closing parenthesis. -/
def takeHeader : List Scanned → List Scanned × List Scanned
  | [] => ([], [])
  | s :: rest =>
    if s.token? = some .closeParen then ([s], rest)
    else ((s :: (takeHeader rest).1), (takeHeader rest).2)

/-- The header, and behind it the body, unless there is no token at all. -/
def all (f : Frame) (items : List Scanned) (p : Progress) : Progress :=
  let (front, rest) := takeHeader items
  let header := front.filterMap Scanned.lexeme?
  let p := p.reportStrays f (front.filterMap Scanned.stray?)
  if header.isEmpty then p.reportEnd f "'(define'"
  else
    body f rest <|
      p.addFrom f Production.header (fun d name => { d with name := name }) "domain header" header
        (endOf f header)

end Progress

def readDomain (settings : Settings) (text : String) : Reading :=
  let frame : Frame := ⟨settings, .ofText text⟩
  let last := (Progress.start settings).all frame (scan text)
  ⟨last.domain, last.log⟩

/-- What a reading meets: stray characters, the header, a group or lone token of the body, the first
token behind the domain, or the end of a text that is not over yet. -/
inductive Event
  | strays (ss : List Stray)
  | header (ls : List Lexeme)
  | item (i : Item)
  | extra (l : Lexeme)
  | ended (expected : String)
deriving DecidableEq

def Progress.act (f : Frame) (p : Progress) : Event → Progress
  | .strays ss => p.reportStrays f ss
  | .header ls =>
    p.addFrom f Production.header (fun d name => { d with name := name }) "domain header" ls
      (endOf f ls)
  | .item (.stray l) => p.reportLexeme f l "'(' or ')'"
  | .item (.group g) => p.addSection f g
  | .extra l => p.reportLexeme f l "end of input"
  | .ended expected => p.reportEnd f expected

/-- What is met behind the domain. -/
def trailerEvents : List Scanned → List Event
  | [] => []
  | .stray s :: rest => .strays [s] :: trailerEvents rest
  | .lexeme l :: rest => [.extra l, .strays (rest.filterMap Scanned.stray?)]

/-- What is met behind the header. -/
def eventsOfBody (items : List Scanned) : List Event :=
  match items with
  | [] => [.ended "')' closing the domain"]
  | .stray s :: rest => .strays [s] :: eventsOfBody rest
  | .lexeme l :: rest =>
    if l.token = .closeParen then trailerEvents rest
    else if l.token = .openParen then
      let cut := takeBalanced Scanned.token? 1 rest
      .strays (cut.front.filterMap Scanned.stray?) ::
        .item (.group ⟨l :: cut.front.filterMap Scanned.lexeme?, cut.closed⟩) ::
        if cut.closed then eventsOfBody cut.rest else []
    else .item (.stray l) :: eventsOfBody rest
termination_by items.length
decreasing_by
  · simp
  · have := length_takeBalanced_rest_le Scanned.token? 1 rest
    simp only [List.length_cons]
    omega
  · simp

def events (items : List Scanned) : List Event :=
  let (front, rest) := Progress.takeHeader items
  let header := front.filterMap Scanned.lexeme?
  .strays (front.filterMap Scanned.stray?) ::
    if header.isEmpty then [.ended "'(define'"] else .header header :: eventsOfBody rest

end PlanningDomain
