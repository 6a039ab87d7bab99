import PlanningDomain.Domain.Import
import PlanningDomain.Format.Text
import PlanningDomain.Format.Yaml
import PlanningDomain.Json.Writer
import PlanningDomain.Notice
import PlanningDomain.Settings.Loader

/-! The command line as a function from arguments, environment and files to its output. The
arguments are one path, options with values, and flags. -/
namespace PlanningDomain.CommandLine

inductive Format
  | report
  | json
  | yaml
  | hddl
deriving DecidableEq

def Format.ofName? (name : String) : Option Format :=
  [("report", report), ("json", json), ("yaml", yaml), ("hddl", hddl)].lookup name

inductive OptionName
  | format
  | config
  | rootType
deriving DecidableEq

/-- What the arguments have said so far. -/
structure Options where
  path : Option String
  format : Option Format
  config : Option String
  rootType : Option String
  skipUnknown : Bool
deriving DecidableEq

def Options.empty : Options := ⟨none, none, none, none, false⟩

/-- What the arguments ask for. -/
inductive Request
  | read (path : String) (options : Options)
  | help
  | version
  /-- Arguments that make no request. -/
  | usage
deriving DecidableEq

namespace Options

/-- The first argument without a dash is the path, and there is no second. -/
def setPath (o : Options) (path : String) : Option Options :=
  match o.path with
  | none => some { o with path := some path }
  | some _ => none

/-- Each option may come once. -/
def setValue (o : Options) (value : String) : OptionName → Option Options
  | .format =>
    match o.format, Format.ofName? value with
    | none, some f => some { o with format := some f }
    | _, _ => none
  | .config => if o.config.isSome then none else some { o with config := some value }
  | .rootType => if o.rootType.isSome then none else some { o with rootType := some value }

def setSkip (o : Options) : Option Options :=
  if o.skipUnknown then none else some { o with skipUnknown := true }

end Options

inductive Argument
  | path (text : String)
  /-- Two dashes alone; all arguments behind them are paths. -/
  | endOfOptions
  /-- An option whose value is attached, or is the next argument. -/
  | option (name : OptionName) (attached : Option String)
  | skipUnknown
  | help
  | version
  | unknown

/-- An argument behind two dashes, cut at its equals sign. Flags take no value. -/
def Argument.ofLong (name : List Char) (value : Option String) : Argument :=
  let name := String.ofList name
  if name = "format" then option .format value
  else if name = "config" then option .config value
  else if name = "root-type" then option .rootType value
  else if value.isSome then unknown
  else if name = "skip-unknown" then skipUnknown
  else if name = "help" then help
  else if name = "version" then version
  else unknown

/-- The value attached to an option of one letter, with an equals sign or without. -/
def attachedValue : List Char → Option String
  | [] => none
  | c :: cs => some (String.ofList (if c = '=' then cs else c :: cs))

def Argument.ofShort (letter : Char) (rest : List Char) : Argument :=
  if letter = 'f' then option .format (attachedValue rest)
  else if letter = 'c' then option .config (attachedValue rest)
  else if letter = 'h' then help
  else if letter = 'V' then version
  else unknown

def Argument.ofText (text : String) : Argument :=
  match text.toList with
  | '-' :: '-' :: [] => endOfOptions
  | '-' :: '-' :: rest =>
    let value := (rest.dropWhile (· != '='))
    ofLong (rest.takeWhile (· != '='))
      (if value.isEmpty then none else some (String.ofList value.tail))
  | '-' :: letter :: rest => ofShort letter rest
  | _ => path text

/-- Whether an argument can be the value of the option in front. -/
def isValue (text : String) : Bool :=
  match text.toList with
  | '-' :: _ :: _ => false
  | _ => true

def Options.request (o : Options) : Request :=
  match o.path with
  | some path => .read path o
  | none => .usage

/-- Arguments behind the two dashes. -/
def requestOfPaths (o : Options) : List String → Request
  | [] => o.request
  | path :: paths =>
    match o.setPath path with
    | some o => requestOfPaths o paths
    | none => .usage

/-- The request of some arguments, read from the left: the first fault, or the first call for help
or for the version, decides. -/
def requestFrom (o : Options) : List String → Request
  | [] => o.request
  | text :: rest =>
    match Argument.ofText text with
    | .path path =>
      match o.setPath path with
      | some o => requestFrom o rest
      | none => .usage
    | .endOfOptions => requestOfPaths o rest
    | .option name (some value) =>
      match o.setValue value name with
      | some o => requestFrom o rest
      | none => .usage
    | .option name none =>
      match rest with
      | [] => .usage
      | value :: rest =>
        if isValue value then
          match o.setValue value name with
          | some o => requestFrom o rest
          | none => .usage
        else .usage
    | .skipUnknown =>
      match o.setSkip with
      | some o => requestFrom o rest
      | none => .usage
    | .help => .help
    | .version => .version
    | .unknown => .usage

def Request.ofArguments (arguments : List String) : Request :=
  requestFrom .empty arguments

/-- What a run comes to. -/
structure Result where
  code : Nat
  output : String
  /-- What the run itself says on the error stream. -/
  errors : String
  /-- What it tells its log, all of it before it says anything itself. -/
  notices : List Notice
deriving DecidableEq

/-- Everything on the error stream, to which the log is written as well. -/
def Result.errorStream (r : Result) (logger : Logger) (env : List (String × String)) : String :=
  logger.text env r.notices ++ r.errors

def versionText : String := "hddl 0.1.0\n"

def usageText : String :=
  unlines ["Usage: hddl [OPTIONS] <PATH>", "",
    "  -f, --format <FORMAT>   report, json, yaml or hddl (default: report)",
    "  -c, --config <FILE>     settings laid over the built-in ones",
    "      --root-type <TYPE>  type of parameters declared without one",
    "      --skip-unknown      pass over unknown sections",
    "  -h, --help              print this text",
    "  -V, --version           print the version"]

def Format.text (d : Domain) : Format → String
  | report => d.summary
  | json => d.toJson.pretty ++ "\n"
  | yaml => Yaml.document d.toJson
  | hddl => d.canonicalText

/-- The built-in settings, under the file named on the command line, under the environment, under
the options. -/
def loader (o : Options) : Except SettingsError SettingsLoader := do
  let fromFile :=
    match o.config with
    | some path => SettingsLoader.empty.withFile path
    | none => .empty
  let withRoot ←
    match o.rootType with
    | some type => fromFile.withEnvironment.override "root_type" (.text type)
    | none => .ok fromFile.withEnvironment
  if o.skipUnknown then withRoot.override "skip_unknown_sections" (.boolean true) else .ok withRoot

/-- The diagnostics with the path in front, and how many were not recorded. -/
def diagnosticLines (path : String) (log : DiagnosticLog) : List String :=
  log.recorded.map (fun d => path ++ ": " ++ d.text) ++
    if log.unrecorded = 0 then []
    else [path ++ ": " ++ toString log.unrecorded ++ " more errors not shown"]

/-- Reads a domain and writes it in the wanted format, whole or not. -/
def readAndWrite (path : String) (format : Format) (settings : Settings) (files : Files) : Result :=
  let notices := (Session.start settings).pathNotices files path
  match (Session.start settings).readPath files path with
  | (_, some fault) => ⟨1, "", unlines ["Error: " ++ fault.message path], notices⟩
  | (session, none) =>
    let output := format.text session.domain
    if session.succeeded then ⟨0, output, "", notices⟩
    else ⟨1, output, unlines (diagnosticLines path session.log), notices⟩

def run (arguments : List String) (env : List (String × String)) (files : Files) : Result :=
  match Request.ofArguments arguments with
  | .usage => ⟨2, "", usageText, []⟩
  | .help => ⟨0, usageText, "", []⟩
  | .version => ⟨0, versionText, "", []⟩
  | .read path options =>
    match loader options >>= fun l => l.build files env with
    | .error e => ⟨1, "", unlines ["Configuration error: " ++ e.message], []⟩
    | .ok settings => readAndWrite path (options.format.getD .report) settings files

def pathsRead (arguments : List String) : List String :=
  match Request.ofArguments arguments with
  | .read path options => path :: (options.config.toList.flatMap settingsPaths)
  | _ => []

end PlanningDomain.CommandLine
