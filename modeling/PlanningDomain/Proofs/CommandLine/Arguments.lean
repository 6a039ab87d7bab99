import PlanningDomain.Proofs.CommandLine.Outcome

/-! Arguments and the options they spell. Main statement: whatever the order of the arguments and
the spelling of each, they ask for the options that they say one by one. -/
namespace PlanningDomain.CommandLine

def Format.name : Format → String
  | report => "report"
  | json => "json"
  | yaml => "yaml"
  | hddl => "hddl"

/-- The name of an option behind two dashes. -/
def OptionName.long : OptionName → String
  | format => "format"
  | config => "config"
  | rootType => "root-type"

/-- The letter of an option behind one dash. -/
def OptionName.letter? : OptionName → Option Char
  | format => some 'f'
  | config => some 'c'
  | rootType => none

inductive Saying
  | path (text : String)
  | option (name : OptionName) (value : String)
  | skipUnknown
deriving DecidableEq

/-- The spellings of what can be said: a value is the next argument, or it is attached, with an
equals sign or behind the letter without one. -/
inductive Saying.Spelled : Saying → List String → Prop
  | path {text : String} (h : isValue text) : Spelled (.path text) [text]
  | long {name : OptionName} {value : String} (h : isValue value) :
    Spelled (.option name value) ["--" ++ name.long, value]
  | longAttached (name : OptionName) (value : String) :
    Spelled (.option name value) ["--" ++ name.long ++ "=" ++ value]
  | short {name : OptionName} {letter : Char} {value : String}
    (hletter : name.letter? = some letter) (h : isValue value) :
    Spelled (.option name value) [String.ofList ['-', letter], value]
  | shortAttached {name : OptionName} {letter : Char} {value : String}
    (hletter : name.letter? = some letter) (h : value ≠ "")
    (hequals : value.toList.head? ≠ some '=') :
    Spelled (.option name value) [String.ofList ['-', letter] ++ value]
  | shortEquals {name : OptionName} {letter : Char} (hletter : name.letter? = some letter)
    (value : String) : Spelled (.option name value) [String.ofList ['-', letter, '='] ++ value]
  | skipUnknown : Spelled .skipUnknown ["--skip-unknown"]

/-- Arguments that say some things in order. -/
inductive Say : List Saying → List String → Prop
  | nil : Say [] []
  | cons {s : Saying} {sayings : List Saying} {texts rest : List String} (h : s.Spelled texts)
    (hrest : Say sayings rest) : Say (s :: sayings) (texts ++ rest)

inductive Field
  | path
  | option (name : OptionName)
  | skipUnknown
deriving DecidableEq

def Saying.field : Saying → Field
  | path _ => .path
  | option name _ => .option name
  | skipUnknown => .skipUnknown

namespace Options

def say (o : Options) : Saying → Option Options
  | .path text => o.setPath text
  | .option name value => o.setValue value name
  | .skipUnknown => o.setSkip

/-- What has to be said for some options. -/
def sayings (o : Options) : List Saying :=
  o.path.toList.map .path ++ (o.format.toList.map fun f => .option .format f.name) ++
    o.config.toList.map (.option .config) ++ o.rootType.toList.map (.option .rootType) ++
    if o.skipUnknown then [.skipUnknown] else []

end Options

private theorem ofText_path {text : String} (h : isValue text) :
    Argument.ofText text = .path text := by
  have hdash {c : Char} {cs : List Char} : text.toList ≠ '-' :: c :: cs := fun heq => by
    simp [isValue, heq] at h
  unfold Argument.ofText
  split
  · rename_i heq
    exact absurd heq hdash
  · rename_i heq
    exact absurd heq hdash
  · rename_i heq
    exact absurd heq hdash
  · rfl

private theorem ofText_long (name : OptionName) :
    Argument.ofText ("--" ++ name.long) = .option name none := by
  cases name <;> simp [Argument.ofText, OptionName.long, Argument.ofLong]

private theorem ofText_longAttached (name : OptionName) (value : String) :
    Argument.ofText ("--" ++ name.long ++ "=" ++ value) = .option name (some value) := by
  cases name <;> simp [Argument.ofText, OptionName.long, Argument.ofLong]

private theorem ofText_short {name : OptionName} {letter : Char} (h : name.letter? = some letter)
    (rest : List Char) :
    Argument.ofText (String.ofList ('-' :: letter :: rest)) =
      .option name (attachedValue rest) := by
  cases name <;> cases h <;> simp [Argument.ofText, Argument.ofShort]

private theorem attachedValue_toList {value : String} (h : value ≠ "")
    (hequals : value.toList.head? ≠ some '=') : attachedValue value.toList = some value := by
  cases hvalue : value.toList with
  | nil => exact absurd (String.toList_eq_nil_iff.1 hvalue) h
  | cons c cs =>
    have hc : c ≠ '=' := fun heq => hequals (by rw [hvalue, heq, List.head?_cons])
    rw [attachedValue, if_neg hc, ← hvalue, String.ofList_toList]

private theorem requestFrom_option {name : OptionName} {text value : String} (o : Options)
    (rest : List String) :
    (Argument.ofText text = .option name (some value) →
      requestFrom o (text :: rest) =
        (o.setValue value name).elim .usage fun o => requestFrom o rest) ∧
    (Argument.ofText text = .option name none → isValue value →
      requestFrom o (text :: value :: rest) =
        (o.setValue value name).elim .usage fun o => requestFrom o rest) := by
  refine ⟨fun h => ?_, fun h hvalue => ?_⟩
  · simp only [requestFrom, h]
    cases o.setValue value name <;> rfl
  · simp only [requestFrom, h, hvalue, if_true]
    cases o.setValue value name <;> rfl

private theorem requestFrom_spelled {s : Saying} {texts : List String} (h : s.Spelled texts)
    (o : Options) (rest : List String) :
    requestFrom o (texts ++ rest) = (o.say s).elim .usage fun o => requestFrom o rest := by
  cases h with
  | @path text h =>
    simp only [List.singleton_append, requestFrom, ofText_path h, Options.say]
    cases o.setPath text <;> rfl
  | @long name value h => exact (requestFrom_option o rest).2 (ofText_long name) h
  | longAttached name value => exact (requestFrom_option o rest).1 (ofText_longAttached name value)
  | short hletter h => exact (requestFrom_option o rest).2 (ofText_short hletter []) h
  | @shortAttached name letter value hletter h hequals =>
    refine (requestFrom_option o rest).1 ?_
    have htext : String.ofList ['-', letter] ++ value =
        String.ofList ('-' :: letter :: value.toList) := by
      rw [← String.toList_inj]
      simp
    rw [htext, ofText_short hletter, attachedValue_toList h hequals]
  | @shortEquals name letter hletter value =>
    refine (requestFrom_option o rest).1 ?_
    have htext : String.ofList ['-', letter, '='] ++ value =
        String.ofList ('-' :: letter :: '=' :: value.toList) := by
      rw [← String.toList_inj]
      simp
    rw [htext, ofText_short hletter, attachedValue, if_pos rfl, String.ofList_toList]
  | skipUnknown =>
    have htext : Argument.ofText "--skip-unknown" = .skipUnknown := by
      simp [Argument.ofText, Argument.ofLong]
    simp only [List.singleton_append, requestFrom, htext, Options.say]
    cases o.setSkip <;> rfl

/-- Arguments say one thing after another, and the first that cannot be said makes them no request.
-/
private theorem requestFrom_say {sayings : List Saying} {arguments : List String}
    (h : Say sayings arguments) (o : Options) :
    requestFrom o arguments = (sayings.foldlM Options.say o).elim .usage Options.request := by
  induction h generalizing o with
  | nil => rfl
  | cons h hrest ih =>
    rw [requestFrom_spelled h, List.foldlM_cons]
    cases o.say _ with
    | none => rfl
    | some o' => exact ih o'

private theorem Format.ofName?_eq_some {name : String} {f : Format} :
    Format.ofName? name = some f ↔ name = f.name := by
  refine ⟨fun h => ?_, ?_⟩
  · obtain ⟨front, back, hsplit, -⟩ := List.lookup_eq_some_iff.1 h
    have hmem :
        (name, f) ∈ [("report", report), ("json", json), ("yaml", yaml), ("hddl", hddl)] := by
      simp [hsplit]
    simp only [List.mem_cons, Prod.mk.injEq, List.not_mem_nil, or_false] at hmem
    rcases hmem with ⟨rfl, rfl⟩ | ⟨rfl, rfl⟩ | ⟨rfl, rfl⟩ | ⟨rfl, rfl⟩ <;> rfl
  · rintro rfl
    cases f <;> rfl

namespace Options
variable {o o' : Options}

private theorem say_eq_some {s : Saying} : o.say s = some o' ↔
    match s with
    | .path text => o.path = none ∧ { o with path := some text } = o'
    | .option .format name =>
      o.format = none ∧ ∃ f : Format, name = f.name ∧ { o with format := some f } = o'
    | .option .config text => o.config = none ∧ { o with config := some text } = o'
    | .option .rootType text => o.rootType = none ∧ { o with rootType := some text } = o'
    | .skipUnknown => o.skipUnknown = false ∧ { o with skipUnknown := true } = o' := by
  obtain ⟨path, format, config, rootType, skip⟩ := o
  rcases s with text | ⟨_ | _ | _, value⟩ | _
  · cases path <;> simp [say, setPath]
  · simp only [← Format.ofName?_eq_some]
    cases format <;> cases hf : Format.ofName? value <;> simp [say, setValue, hf]
  · cases config <;> simp [say, setValue]
  · cases rootType <;> simp [say, setValue]
  · cases skip <;> simp [say, setSkip]

private theorem perm_sayings_of_say {s : Saying} (h : o.say s = some o') :
    o'.sayings.Perm (s :: o.sayings) := by
  refine List.perm_iff_count.2 fun x => ?_
  rcases s with text | ⟨_ | _ | _, value⟩ | _
  · obtain ⟨hempty, rfl⟩ := say_eq_some.1 h
    simp [sayings, hempty, List.count_cons, Nat.add_assoc, Nat.add_comm]
  · obtain ⟨hempty, f, rfl, rfl⟩ := say_eq_some.1 h
    simp [sayings, hempty, List.count_cons]
    omega
  · obtain ⟨hempty, rfl⟩ := say_eq_some.1 h
    simp [sayings, hempty, List.count_cons]
    omega
  · obtain ⟨hempty, rfl⟩ := say_eq_some.1 h
    simp [sayings, hempty, List.count_cons]
    omega
  · obtain ⟨hempty, rfl⟩ := say_eq_some.1 h
    simp [sayings, hempty, List.count_cons]
    omega

private theorem nodup_fields (o : Options) : (o.sayings.map Saying.field).Nodup := by
  obtain ⟨path, format, config, rootType, skip⟩ := o
  cases path <;> cases format <;> cases config <;> cases rootType <;> cases skip <;>
    simp [sayings, Saying.field]

private theorem Format.name_injective : Function.Injective Format.name := by
  intro f f' h
  exact Option.some.inj ((Format.ofName?_eq_some.2 rfl).symm.trans (Format.ofName?_eq_some.2 h))

private theorem eq_of_perm (h : o.sayings.Perm o'.sayings) : o = o' := by
  have hmem (s : Saying) : s ∈ o.sayings ↔ s ∈ o'.sayings := h.mem_iff
  obtain ⟨path, format, config, rootType, skip⟩ := o
  obtain ⟨path', format', config', rootType', skip'⟩ := o'
  obtain rfl : path = path' := Option.ext fun text => by
    simpa [sayings, eq_comm] using hmem (.path text)
  obtain rfl : config = config' := Option.ext fun text => by
    simpa [sayings] using hmem (.option .config text)
  obtain rfl : rootType = rootType' := Option.ext fun text => by
    simpa [sayings] using hmem (.option .rootType text)
  obtain rfl : format = format' := Option.ext fun f => by
    simpa [sayings, Format.name_injective.eq_iff] using hmem (.option .format f.name)
  obtain rfl : skip = skip' := by simpa [sayings] using hmem .skipUnknown
  rfl

private theorem exists_say {s : Saying} (hmem : s ∈ o'.sayings)
    (hfree : s.field ∉ o.sayings.map Saying.field) : ∃ o₁, o.say s = some o₁ := by
  have hnone {α : Type} {x : Option α} (h : ∀ a, ¬ x = some a) : x = none :=
    Option.eq_none_iff_forall_ne_some.2 h
  rcases s with text | ⟨_ | _ | _, value⟩ | _
  · have hempty : o.path = none := hnone (by simpa [sayings, Saying.field] using hfree)
    exact ⟨_, say_eq_some.2 ⟨hempty, rfl⟩⟩
  · have hempty : o.format = none := hnone (by simpa [sayings, Saying.field] using hfree)
    obtain ⟨f, -, rfl⟩ : ∃ f, o'.format = some f ∧ f.name = value := by simpa [sayings] using hmem
    exact ⟨_, say_eq_some.2 ⟨hempty, f, rfl, rfl⟩⟩
  · have hempty : o.config = none := hnone (by simpa [sayings, Saying.field] using hfree)
    exact ⟨_, say_eq_some.2 ⟨hempty, rfl⟩⟩
  · have hempty : o.rootType = none := hnone (by simpa [sayings, Saying.field] using hfree)
    exact ⟨_, say_eq_some.2 ⟨hempty, rfl⟩⟩
  · have hempty : o.skipUnknown = false := by simpa [sayings, Saying.field] using hfree
    exact ⟨_, say_eq_some.2 ⟨hempty, rfl⟩⟩

/-- Some things can be said one after another if the options that come of it say just these things
beside what was said before. -/
private theorem foldlM_say_eq_some {sayings : List Saying} :
    sayings.foldlM say o = some o' ↔ o'.sayings.Perm (sayings ++ o.sayings) := by
  induction sayings generalizing o with
  | nil => exact ⟨fun h => Option.some.inj h ▸ .refl _, fun h => congrArg some (eq_of_perm h.symm)⟩
  | cons s sayings ih =>
    rw [List.foldlM_cons, Option.bind_eq_bind, Option.bind_eq_some_iff]
    constructor
    · rintro ⟨mid, hmid, hrest⟩
      exact (ih.1 hrest).trans (((perm_sayings_of_say hmid).append_left _).trans List.perm_middle)
    · intro h
      -- The fields of any options are distinct, so that of the first saying is free in these.
      have hfields : (s.field :: ((sayings ++ o.sayings).map Saying.field)).Nodup :=
        (h.map Saying.field).nodup_iff.1 o'.nodup_fields
      have hfree : s.field ∉ o.sayings.map Saying.field := by
        simp only [List.nodup_cons, List.map_append, List.mem_append, not_or] at hfields
        exact hfields.1.2
      obtain ⟨mid, hmid⟩ := exists_say (h.mem_iff.2 List.mem_cons_self) hfree
      exact ⟨mid, hmid, ih.2 (h.trans (List.perm_middle.symm.trans
        ((perm_sayings_of_say hmid).symm.append_left _)))⟩

end Options

/-- Arguments ask for options if they say what these options say, each thing in any of its spellings
and all of them in any order; and they ask for no others. -/
theorem ofArguments_eq_read {sayings : List Saying} {arguments : List String}
    (h : Say sayings arguments) {path : String} {o : Options} :
    Request.ofArguments arguments = .read path o ↔ o.path = some path ∧ o.sayings.Perm sayings := by
  have hfold : sayings.foldlM Options.say .empty = some o ↔ o.sayings.Perm sayings := by
    rw [Options.foldlM_say_eq_some]
    simp [Options.sayings, Options.empty]
  rw [← hfold, Request.ofArguments, requestFrom_say h]
  cases sayings.foldlM Options.say .empty with
  | none => simp
  | some o' =>
    rw [Option.elim_some, Options.request, Option.some.injEq]
    constructor
    · intro hread
      split at hread
      · rename_i hpath
        cases hread
        exact ⟨hpath, rfl⟩
      · cases hread
    · rintro ⟨hpath, rfl⟩
      rw [hpath]

example : Request.ofArguments ["-ca.toml", "--root-type", "thing", "d.hddl", "--skip-unknown"] =
    .read "d.hddl" ⟨some "d.hddl", none, some "a.toml", some "thing", true⟩ := by
  decide +kernel

/-- So each thing is said once at most, and what a run then reads is read under the settings of
these options. -/
theorem run_of_say {sayings : List Saying} {arguments : List String} (h : Say sayings arguments)
    {path : String} {o : Options} (hpath : o.path = some path) (hperm : o.sayings.Perm sayings)
    (env : List (String × String)) (files : Files) :
    run arguments env files = match o.settings env files with
      | .error e => ⟨1, "", unlines ["Configuration error: " ++ e.message], []⟩
      | .ok settings => readAndWrite path (o.format.getD .report) settings files := by
  rw [run, (ofArguments_eq_read h).2 ⟨hpath, hperm⟩]
  rfl

end PlanningDomain.CommandLine
