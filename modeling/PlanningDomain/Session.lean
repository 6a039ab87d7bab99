import PlanningDomain.Files.Tree
import PlanningDomain.Reading

/-! A reader of domains that is used again and again and remembers its last outcome. Sessions share
nothing; a copy goes its own way, and several are told apart by their places in a list. -/
namespace PlanningDomain

inductive Session.State
  /-- Nothing has been read yet. -/
  | idle
  /-- A reading is under way. -/
  | scanning
  | succeeded
  /-- The last reading had diagnostics, or its file could not be read. -/
  | failed
deriving DecidableEq

structure Session where
  settings : Settings
  state : Session.State
  domain : Domain
  log : DiagnosticLog
deriving DecidableEq

namespace Session

def start (s : Settings) : Session :=
  ⟨s, .idle, .empty, .empty s.maxErrors⟩

def succeeded (s : Session) : Bool := s.state == .succeeded

def begin (s : Session) : Session :=
  { start s.settings with state := .scanning }

def run (s : Session) (text : String) : Session :=
  let r := readDomain s.settings text
  { s with domain := r.domain, log := r.log }

def finish (s : Session) : Session :=
  { s with state := if s.log.total = 0 then .succeeded else .failed }

def readText (s : Session) (text : String) : Session :=
  (s.begin.run text).finish

/-- Reads a file. A file that cannot be read leaves a failed session with an empty domain. -/
def readPath (s : Session) (files : Files) (path : String) : Session × Option ReadFault :=
  match files.readText path with
  | .error fault => ({ s.begin with state := .failed }, some fault)
  | .ok text =>
    let read := s.begin.run text
    ({ read with domain := { read.domain with filePath := path } }.finish, none)

end Session
end PlanningDomain

namespace PlanningDomain.Session

/-- What can be asked of one session. -/
inductive Call
  | readText (text : String)
  /-- Reads a file among those that are there at the time. -/
  | readPath (files : Files) (path : String)
  /-- Gives the domain away. A new session with the built-in settings takes the place of this one.
  -/
  | takeDomain

def serve (s : Session) : Call → Session
  | .readText text => s.readText text
  | .readPath files path => (s.readPath files path).1
  | .takeDomain => start .standard

/-- A step among several sessions. -/
inductive Move
  | call (place : Nat) (c : Call)
  /-- A copy of the session comes behind all others. -/
  | copy (place : Nat)
  | swap (place other : Nat)

namespace Move

/-- What a step does to what stands in the places; `serve` is what a call does to one of them.
Nothing happens at a place where nothing stands. -/
def on (serve : α → Call → α) (xs : List α) : Move → List α
  | call place c => xs.modify place (serve · c)
  | copy place => xs ++ xs[place]?.toList
  | swap place other =>
    match xs[place]?, xs[other]? with
    | some x, some y => (xs.set place y).set other x
    | _, _ => xs

end Move
end PlanningDomain.Session
