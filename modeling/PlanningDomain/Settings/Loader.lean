import PlanningDomain.Settings.Given
import PlanningDomain.Toml.Reader

/-! Settings from several sources, asked for step by step. Later sources win over earlier ones, the
built-in values are first of all, and overrides win over every source wherever they stand. -/
namespace PlanningDomain

structure Slot where
  given : Given
  origin : Option String

abbrev Slots := List (String × Slot)

namespace Slots

def put (name : String) (slot : Slot) (slots : Slots) : Slots :=
  (Text.lowercase name, slot) :: slots

/-- Sets the value at a path. A step to a member makes the first name a table, like a table for a
value, and a step to an item makes it a list. What comes to be like this has no place of origin; a
list that is there already keeps its own. -/
def setPath (path : KeyPath) (slot : Slot) (slots : Slots) : Slots :=
  match path.steps with
  | [] => slots.put path.head (if slot.given = .table then ⟨.table, none⟩ else slot)
  | .member _ :: _ => slots.put path.head ⟨.table, none⟩
  | .item _ :: _ =>
    match slots.lookup (Text.lowercase path.head) with
    | some ⟨.list, _⟩ => slots
    | _ => slots.put path.head ⟨.list, none⟩

end Slots

/-- The path of a key found in a source, where a key that is no path stands for itself. -/
def sourcePath (key : String) : KeyPath :=
  (KeyPath.ofKey? key).getD (.single key)

/-- The value of a member of a document; an empty table gives none. -/
def Given.ofToml? : Toml.Value → Option Given
  | .boolean value => some (.boolean value)
  | .integer value => some (.integer value)
  | .real value => some (.real value)
  | .text value => some (.text value)
  | .moment value => some (.text value.text)
  | .array _ => some .list
  | .tables _ _ => some .list
  | .table _ members => if members.isEmpty then none else some .table

/-- Sets what a member of a document gives. An empty table changes nothing at a path of one name; at
the end of a longer path it leaves the way to it behind. -/
def Slots.setMember (origin : String) (slots : Slots) (member : String × Toml.Value) : Slots :=
  let path := sourcePath member.1
  match Given.ofToml? member.2 with
  | some given => slots.setPath path ⟨given, some origin⟩
  | none => if path.steps.isEmpty then slots else slots.setPath path ⟨.table, none⟩

/-- The names along a path, without those that stay in place. -/
def pathNames (path : String) : List String :=
  ((path.toList.splitOn '/').map String.ofList).filter fun name => name != "" && name != "."

def joinNames (absolute : Bool) (names : List String) : String :=
  (if absolute then "/" else "") ++ "/".intercalate names

/-- The paths that are tried for a settings file, in order: the one given, and one with the usual
ending appended. A path that ends in no name has no second. -/
def settingsPaths (path : String) : List String :=
  let absolute := path.toList.head? == some '/'
  let names := pathNames path
  match names.getLast? with
  | none => [path]
  | some last =>
    if last = ".." then [path]
    else [path, joinNames absolute (names.dropLast ++ [last ++ ".toml"])]

def settingsFile? (files : Files) (path : String) : Option String :=
  (settingsPaths path).find? files.isFile

def originText (path : String) : String :=
  joinNames (path.toList.head? == some '/') (pathNames path)

inductive SettingsSource
  | file (path : String) (required : Bool)
  | environment

/-- The sources in order, and the overrides in order. Overrides of one setting under keys in
different spellings have no order of their own, for each stands under its key as spelled; here the
steps that add them give one. -/
structure SettingsLoader where
  sources : List SettingsSource
  overrides : List (KeyPath × Given)

namespace SettingsLoader

def empty : SettingsLoader := ⟨[], []⟩

def withFile (l : SettingsLoader) (path : String) : SettingsLoader :=
  { l with sources := l.sources ++ [.file path true] }

def withOptionalFile (l : SettingsLoader) (path : String) : SettingsLoader :=
  { l with sources := l.sources ++ [.file path false] }

def withEnvironment (l : SettingsLoader) : SettingsLoader :=
  { l with sources := l.sources ++ [.environment] }

def override (l : SettingsLoader) (key : String) (value : Given) :
    Except SettingsError SettingsLoader :=
  match KeyPath.ofKey? key with
  | some path => .ok { l with overrides := l.overrides ++ [(path, value)] }
  | none => .error (.malformedKey key)

def standardSlots : Slots :=
  [("root_type", ⟨.text Settings.standard.rootType, none⟩),
    ("skip_unknown_sections", ⟨.boolean Settings.standard.skipUnknownSections, none⟩),
    ("max_errors", ⟨.integer Settings.standard.maxErrors, none⟩)]

/-- Lays one source over the values so far. A file that need not be there need not be readable
either, but what it holds must be well formed. -/
def layer (files : Files) (env : List (String × String)) (slots : Slots) :
    SettingsSource → Except SettingsError Slots
  | .environment =>
    .ok <| env.foldl (fun slots v =>
      match Environment.key? v.1 with
      | some key => slots.setPath (sourcePath key) ⟨Environment.given v.2, some "the environment"⟩
      | none => slots) slots
  | .file path required =>
    match settingsFile? files path with
    | none => if required then .error (.missingFile path) else .ok slots
    | some found =>
      match files.readText found with
      | .error fault => if required then .error (.unreadableFile fault) else .ok slots
      | .ok text =>
        match Toml.parse? text with
        | some members => .ok (members.foldl (Slots.setMember (originText found)) slots)
        | none => .error (.malformedFile found)

/-- The value in force for a key, brought to the type of the setting. -/
def setting (slots : Slots) (key : String) (convert : Given → Except Given.Mismatch α) :
    Except SettingsError α :=
  let slot := (slots.lookup key).getD ⟨.nothing, none⟩
  (convert slot.given).mapError fun m => .wrongType m.found m.expected key slot.origin

def build (l : SettingsLoader) (files : Files) (env : List (String × String)) :
    Except SettingsError Settings := do
  let layered ← l.sources.foldlM (layer files env) standardSlots
  let slots := l.overrides.foldl (fun slots o => slots.setPath o.1 ⟨o.2, none⟩) layered
  return {
    rootType := ← setting slots "root_type" Given.toText
    skipUnknownSections := ← setting slots "skip_unknown_sections" Given.toBoolean
    maxErrors := ← setting slots "max_errors" Given.toNatural }

end SettingsLoader

/-- One step in putting a loader together. -/
inductive LoaderStep
  /-- Adds a file that has to be there. -/
  | file (path : String)
  | optionalFile (path : String)
  | environment
  | override (key : String) (value : Given)

namespace LoaderStep

def apply (l : SettingsLoader) : LoaderStep → Except SettingsError SettingsLoader
  | file path => .ok (l.withFile path)
  | optionalFile path => .ok (l.withOptionalFile path)
  | environment => .ok l.withEnvironment
  | override key value => l.override key value

end LoaderStep

def SettingsLoader.ofSteps (steps : List LoaderStep) : Except SettingsError SettingsLoader :=
  steps.foldlM LoaderStep.apply .empty

def Settings.ofSteps (steps : List LoaderStep) (files : Files) (env : List (String × String)) :
    Except SettingsError Settings := do
  (← SettingsLoader.ofSteps steps).build files env

end PlanningDomain
