import PlanningDomain.Proofs.Settings.Sources


/-! Which value a setting takes. Main statement: the last override for a setting decides, or else
the last source that sets it, or else its built-in value, whatever the order of overrides among
sources. -/
namespace PlanningDomain

def overridePath (entry : String × Given) : Except SettingsError (KeyPath × Given) :=
  match KeyPath.ofKey? entry.1 with
  | some path => .ok (path, entry.2)
  | none => .error (.malformedKey entry.1)

private theorem foldlM_apply (steps : List LoaderStep) (l : SettingsLoader) :
    steps.foldlM LoaderStep.apply l =
      (fun overrides => ⟨l.sources ++ steps.filterMap LoaderStep.source?, l.overrides ++ overrides⟩)
        <$> (steps.filterMap LoaderStep.override?).mapM overridePath := by
  induction steps generalizing l with
  | nil => simp
  | cons step steps ih =>
    rw [List.foldlM_cons]
    cases step with
    | file _ | optionalFile _ | environment =>
      refine (ih _).trans ?_
      simp [SettingsLoader.withFile, SettingsLoader.withOptionalFile,
        SettingsLoader.withEnvironment, List.filterMap_cons, LoaderStep.source?,
        LoaderStep.override?]
    | override key value =>
      simp only [LoaderStep.apply, SettingsLoader.override, List.filterMap_cons,
        LoaderStep.source?, LoaderStep.override?, List.mapM_cons, overridePath]
      cases KeyPath.ofKey? key with
      | none => rfl
      | some path =>
        refine (ih _).trans ?_
        simp only [List.append_assoc]
        cases (steps.filterMap LoaderStep.override?).mapM overridePath <;> rfl

/-- Sources and overrides are collected apart. -/
theorem Settings.ofSteps_eq (steps : List LoaderStep) (files : Files)
    (env : List (String × String)) :
    Settings.ofSteps steps files env =
      ((steps.filterMap LoaderStep.override?).mapM overridePath >>= fun overrides =>
        SettingsLoader.build ⟨steps.filterMap LoaderStep.source?, overrides⟩ files env) := by
  rw [Settings.ofSteps, SettingsLoader.ofSteps, foldlM_apply]
  cases (steps.filterMap LoaderStep.override?).mapM overridePath <;> rfl

private theorem mapM_overridePath {entries : List (String × Given)}
    (h : ∀ e ∈ entries, (KeyPath.ofKey? e.1).isSome) :
    entries.mapM overridePath = .ok (entries.map fun e => (sourcePath e.1, e.2)) := by
  induction entries with
  | nil => rfl
  | cons e entries ih =>
    obtain ⟨he, hentries⟩ := List.forall_mem_cons.1 h
    obtain ⟨path, hpath⟩ := Option.isSome_iff_exists.1 he
    rw [List.mapM_cons, ih hentries, overridePath, hpath, List.map_cons, sourcePath_of_ofKey? hpath]
    rfl

private theorem LoaderStep.proper_override {files : Files} {env : List (String × String)}
    {s : Setting} {g : Given} (h : (s.convert g).isOk) :
    (LoaderStep.override s.key g).Proper files env := by
  have hkey : (KeyPath.ofKey? s.key).isSome := by cases s <;> decide +kernel
  refine ⟨nofun, ?_⟩
  rintro _ ⟨⟩
  refine ⟨hkey, fun _ _ => steps_sourcePath s.lowercase_key, fun s' g' hg' => ?_⟩
  rw [Setting.given?_key] at hg'
  split at hg'
  · rename_i heq
    cases heq
    cases hg'
    exact h
  · cases hg'

namespace Settings
variable {files files' : Files} {env env' : List (String × String)} {steps steps' : List LoaderStep}

/-- What decides is a value that the setting can take. -/
private theorem isOk_convert_decisive (h : ∀ step ∈ steps, step.Proper files env) {s : Setting}
    {g : Given} (hg : s.decisive files env steps = some g) : (s.convert g).isOk := by
  rcases Option.or_eq_some_iff.1 hg with hoverride | ⟨-, hsource⟩
  · obtain ⟨entry, hmem, hgiven⟩ := List.mem_filterMap.1 (List.mem_of_getLast? hoverride)
    obtain ⟨step, hstep, hentry⟩ := List.mem_filterMap.1 hmem
    exact ((h step hstep).override entry hentry).2.taken s g hgiven
  · obtain ⟨source, hmem, hsupplies⟩ := List.mem_filterMap.1 (List.mem_of_getLast? hsource)
    obtain ⟨step, hstep, hsource⟩ := List.mem_filterMap.1 hmem
    obtain ⟨entries, hentries, hproper, -⟩ := (h step hstep).source source hsource
    rw [SettingsSource.supplies?, hentries, Option.bind_some] at hsupplies
    obtain ⟨entry, hentry, hgiven⟩ := List.exists_of_findSome?_eq_some hsupplies
    exact (hproper entry hentry).taken s g hgiven

/-- Proper steps make settings, each with the value that decides. -/
theorem ofSteps_takes (h : ∀ step ∈ steps, step.Proper files env) :
    ∃ c, Settings.ofSteps steps files env = .ok c ∧
      ∀ s : Setting, s.Takes c (s.decisive files env steps) := by
  have hoverride : ∀ e ∈ steps.filterMap LoaderStep.override?,
      (KeyPath.ofKey? e.1).isSome ∧ ProperEntry e := by
    intro e he
    obtain ⟨step, hstep, hentry⟩ := List.mem_filterMap.1 he
    exact (h step hstep).override e hentry
  have hsource : ∀ source ∈ steps.filterMap LoaderStep.source?, source.Proper files env := by
    intro source hsource
    obtain ⟨step, hstep, heq⟩ := List.mem_filterMap.1 hsource
    exact (h step hstep).source source heq
  obtain ⟨layered, hlayered, hsupplied⟩ :=
    Slots.given?_foldlM (f := SettingsSource.supplies? files env)
      (fun source hs => SettingsSource.given?_layer (hsource source hs))
      SettingsLoader.standardSlots
  rw [ofSteps_eq, mapM_overridePath fun e he => (hoverride e he).1]
  refine SettingsLoader.build_takes hlayered (fun s => ?_) fun s g => isOk_convert_decisive h
  have hset : ∀ e ∈ steps.filterMap LoaderStep.override?, ∀ slots : Slots,
      (slots.setOverride (sourcePath e.1, e.2)).given? s = (s.given? e).or (slots.given? s) :=
    fun e he slots => Slots.given?_setPath (hoverride e he).2 none slots
  rw [List.foldl_map, Slots.given?_foldl (f := Setting.given?) hset, hsupplied,
    Setting.given?_standardSlots, Setting.decisive, Option.or_assoc]

/-- Settings depend on what decides and on nothing else. -/
private theorem ofSteps_eq_of_decisive_eq (h : ∀ step ∈ steps, step.Proper files env)
    (h' : ∀ step ∈ steps', step.Proper files' env')
    (hdecisive : ∀ s : Setting, s.decisive files' env' steps' = s.decisive files env steps) :
    Settings.ofSteps steps' files' env' = Settings.ofSteps steps files env := by
  obtain ⟨c, hc, htakes⟩ := ofSteps_takes h
  obtain ⟨c', hc', htakes'⟩ := ofSteps_takes h'
  simp only [hdecisive] at htakes'
  rw [hc, hc', Setting.eq_of_takes htakes htakes']

/-- Only the order of the sources and the order of the overrides count. -/
theorem ofSteps_congr
    (hsource : steps'.filterMap LoaderStep.source? = steps.filterMap LoaderStep.source?)
    (hoverride : steps'.filterMap LoaderStep.override? = steps.filterMap LoaderStep.override?) :
    Settings.ofSteps steps' files env = Settings.ofSteps steps files env := by
  rw [ofSteps_eq, ofSteps_eq, hsource, hoverride]

private theorem ofSteps_absent {path : String} (hpath : settingsFile? files path = none)
    (front back : List LoaderStep) :
    Settings.ofSteps (front ++ .optionalFile path :: back) files env =
      Settings.ofSteps (front ++ back) files env := by
  simp only [ofSteps_eq, List.filterMap_append, List.filterMap_cons, LoaderStep.source?,
    LoaderStep.override?, SettingsLoader.build, SettingsLoader.foldlM_layer_absent hpath]

private theorem ofSteps_unknown {key : String} {path : KeyPath}
    (hkey : KeyPath.ofKey? key = some path)
    (hpath : ∀ s : Setting, Text.lowercase path.head ≠ s.key) (value : Given)
    {front back : List LoaderStep} (h : ∀ step ∈ front ++ back, step.Proper files env) :
    Settings.ofSteps (front ++ .override key value :: back) files env =
      Settings.ofSteps (front ++ back) files env := by
  have hnone (s : Setting) : s.given? (key, value) = none := by
    refine if_neg fun hlower => hpath s ?_
    rw [← sourcePath_of_ofKey? hkey, sourcePath_eq_single (steps_sourcePath hlower)]
    exact hlower
  have hproper : ∀ step ∈ front ++ .override key value :: back, step.Proper files env := by
    intro step hstep
    rw [List.mem_append, List.mem_cons] at hstep
    rcases hstep with hstep | rfl | hstep
    · exact h step (List.mem_append_left back hstep)
    · refine ⟨nofun, fun entry hentry => ?_⟩
      cases hentry
      refine ⟨by rw [hkey, Option.isSome_some], fun s hs => absurd ?_ (hpath s), fun s g hg => ?_⟩
      · rwa [sourcePath_of_ofKey? hkey] at hs
      · rw [hnone] at hg
        cases hg
    · exact h step (List.mem_append_right front hstep)
  refine ofSteps_eq_of_decisive_eq h hproper fun s => ?_
  simp only [Setting.decisive, List.filterMap_append, List.filterMap_cons, LoaderStep.override?,
    LoaderStep.source?, hnone]

private theorem ofSteps_supplies (h : ∀ step ∈ steps, step.Proper files env)
    (h' : ∀ step ∈ steps, step.Proper files' env')
    (hsupplies : ∀ source ∈ steps.filterMap LoaderStep.source?, ∀ s : Setting,
      source.supplies? files' env' s = source.supplies? files env s) :
    Settings.ofSteps steps files' env' = Settings.ofSteps steps files env := by
  refine ofSteps_eq_of_decisive_eq h h' fun s => ?_
  rw [Setting.decisive, Setting.decisive,
    List.filterMap_congr fun source hs => hsupplies source hs s]

private theorem ofSteps_missing {path : String} (hmem : .file path ∈ steps)
    (hpath : settingsFile? files path = none) :
    ∃ e, Settings.ofSteps steps files env = .error e := by
  have hsource : .file path true ∈ steps.filterMap LoaderStep.source? :=
    List.mem_filterMap.2 ⟨_, hmem, rfl⟩
  obtain ⟨e, he⟩ : ∃ e, (steps.filterMap LoaderStep.source?).foldlM (SettingsLoader.layer files env)
      SettingsLoader.standardSlots = .error e :=
    SettingsLoader.foldlM_layer_error hsource hpath _
  rw [ofSteps_eq]
  cases (steps.filterMap LoaderStep.override?).mapM overridePath with
  | error e' => exact ⟨e', rfl⟩
  | ok overrides =>
    refine ⟨e, ?_⟩
    change SettingsLoader.build _ files env = _
    rw [SettingsLoader.build, he]
    rfl

end Settings

namespace CommandLine

def Options.steps (o : Options) : List LoaderStep :=
  o.config.toList.map .file ++ .environment ::
    (o.rootType.toList.map fun name => .override Setting.rootType.key (.text name)) ++
    if o.skipUnknown then [.override Setting.skipUnknownSections.key (.boolean true)] else []

/-- What an option gives to a setting. -/
def Options.flag? (o : Options) : Setting → Option Given
  | .rootType => o.rootType.map .text
  | .skipUnknownSections => if o.skipUnknown then some (.boolean true) else none
  | .maxErrors => none

private theorem Options.settings_eq_ofSteps (o : Options) (env : List (String × String))
    (files : Files) :
    o.settings env files = Settings.ofSteps o.steps files env := by
  obtain ⟨path, format, config, rootType, skipUnknown⟩ := o
  cases config <;> cases rootType <;> cases skipUnknown <;> rfl

/-- Options win over the environment, and the environment wins over the file. -/
theorem Options.decisive_steps (o : Options) (files : Files) (env : List (String × String))
    (s : Setting) :
    s.decisive files env o.steps =
      (o.flag? s).or ((SettingsSource.environment.supplies? files env s).or
        (o.config.bind fun path => (SettingsSource.file path true).supplies? files env s)) := by
  have hsources : o.steps.filterMap LoaderStep.source? =
      o.config.toList.map (.file · true) ++ [.environment] := by
    obtain ⟨path, format, config, rootType, skipUnknown⟩ := o
    cases config <;> cases rootType <;> cases skipUnknown <;> rfl
  have hflags : ((o.steps.filterMap LoaderStep.override?).filterMap s.given?).getLast? =
      o.flag? s := by
    obtain ⟨path, format, config, rootType, skipUnknown⟩ := o
    cases config <;> cases rootType <;> cases skipUnknown <;> cases s <;>
      simp [steps, flag?, List.filterMap_cons, LoaderStep.override?, Setting.given?_key]
  rw [Setting.decisive, hflags, hsources, List.filterMap_append, List.getLast?_append,
    getLast?_filterMap_singleton]
  cases o.config with
  | none => rfl
  | some path =>
    rw [Option.toList_some, List.map_singleton, getLast?_filterMap_singleton, Option.bind_some]

private theorem Options.proper_steps {o : Options} {files : Files} {env : List (String × String)}
    (hconfig : ∀ path ∈ o.config, (SettingsSource.file path true).Proper files env)
    (henv : SettingsSource.environment.Proper files env) :
    ∀ step ∈ o.steps, step.Proper files env := by
  intro step hstep
  simp only [steps, List.mem_append, List.mem_cons, List.mem_map, Option.mem_toList,
    List.mem_ite_nil_right, List.not_mem_nil, or_false] at hstep
  rcases hstep with (⟨path, hpath, rfl⟩ | rfl | ⟨name, -, rfl⟩) | ⟨-, rfl⟩
  · refine ⟨?_, nofun⟩
    rintro _ ⟨⟩
    exact hconfig path hpath
  · refine ⟨?_, nofun⟩
    rintro _ ⟨⟩
    exact henv
  · exact LoaderStep.proper_override rfl
  · exact LoaderStep.proper_override rfl

end CommandLine

/-- Proper steps, in any order and number, make settings. Each setting takes its last override, or
else the value of the last source in order that gives it one, or else its built-in value; that the
last override counts also between two spellings of a key is a choice of the loader. So overrides may
be moved among sources; an optional file that is not there changes nothing, nor does an override for
no setting, nor what else files and variables give. On the command line, options win over the
environment, which wins over the file that was named, and the file wins over built-in values. If a
file that has to be there is not, no settings come about, whatever the other steps are. -/
theorem settings_follow_precedence (files : Files) (env : List (String × String)) :
    (∀ steps, (∀ step ∈ steps, LoaderStep.Proper files env step) →
      ∃ c, Settings.ofSteps steps files env = .ok c ∧
        ∀ s : Setting, s.Takes c (s.decisive files env steps)) ∧
    (∀ steps steps' : List LoaderStep,
      steps'.filterMap LoaderStep.source? = steps.filterMap LoaderStep.source? →
      steps'.filterMap LoaderStep.override? = steps.filterMap LoaderStep.override? →
      Settings.ofSteps steps' files env = Settings.ofSteps steps files env) ∧
    (∀ path front back, settingsFile? files path = none →
      Settings.ofSteps (front ++ .optionalFile path :: back) files env =
        Settings.ofSteps (front ++ back) files env) ∧
    (∀ key path value front back, KeyPath.ofKey? key = some path →
      (∀ s : Setting, Text.lowercase path.head ≠ s.key) →
      (∀ step ∈ front ++ back, LoaderStep.Proper files env step) →
      Settings.ofSteps (front ++ .override key value :: back) files env =
        Settings.ofSteps (front ++ back) files env) ∧
    (∀ steps files' env', (∀ step ∈ steps, LoaderStep.Proper files env step) →
      (∀ step ∈ steps, LoaderStep.Proper files' env' step) →
      (∀ source ∈ steps.filterMap LoaderStep.source?, ∀ s : Setting,
        source.supplies? files' env' s = source.supplies? files env s) →
      Settings.ofSteps steps files' env' = Settings.ofSteps steps files env) ∧
    (∀ o : CommandLine.Options,
      (∀ path ∈ o.config, (SettingsSource.file path true).Proper files env) →
      SettingsSource.environment.Proper files env →
      ∃ c, o.settings env files = .ok c ∧
        ∀ s : Setting, s.Takes c ((o.flag? s).or
          ((SettingsSource.environment.supplies? files env s).or
            (o.config.bind fun path => (SettingsSource.file path true).supplies? files env s)))) ∧
    (∀ steps path, .file path ∈ steps → settingsFile? files path = none →
      ∃ e, Settings.ofSteps steps files env = .error e) := by
  refine ⟨fun _ => Settings.ofSteps_takes, fun _ _ => Settings.ofSteps_congr,
    fun _ front back h => Settings.ofSteps_absent h front back,
    fun _ _ value _ _ hkey hpath h => Settings.ofSteps_unknown hkey hpath value h,
    fun _ _ _ => Settings.ofSteps_supplies, fun o hconfig henv => ?_,
    fun _ _ => Settings.ofSteps_missing⟩
  obtain ⟨c, hc, htakes⟩ := Settings.ofSteps_takes (o.proper_steps hconfig henv)
  refine ⟨c, (o.settings_eq_ofSteps env files).trans hc, fun s => ?_⟩
  rw [← o.decisive_steps]
  exact htakes s

/-- Overrides under keys in any case, a file, a file that is not there, and the environment. -/
theorem settings_follow_precedence_layered :
    let files : Files := ⟨fun path =>
      if path = "hddl.toml" then
        .ok "Root_Type = 'thing'\nMAX_ERRORS = 5\ncolour = 'red'".toUTF8.toList
      else .error .notFound⟩
    let env := [("HDDL_MAX_ERRORS", "7"), ("hddl_root_type", "entity"), ("PATH", "/bin")]
    let sources : List LoaderStep := [.file "hddl.toml", .optionalFile "gone.toml", .environment]
    let root : LoaderStep := .override "ROOT_TYPE" (.text "item")
    let colour : LoaderStep := .override "colour" .list
    let o : CommandLine.Options := ⟨none, none, some "hddl.toml", none, true⟩
    (∀ step ∈ root :: sources, step.Proper files env) ∧
      Settings.ofSteps [.file "hddl.toml"] files env = .ok ⟨"thing", false, 5⟩ ∧
      Settings.ofSteps (root :: sources) files env = .ok ⟨"item", false, 7⟩ ∧
      Settings.ofSteps (sources ++ [root]) files env = .ok ⟨"item", false, 7⟩ ∧
      Settings.ofSteps [.file "hddl.toml", .environment] files env =
        Settings.ofSteps sources files env ∧
      Settings.ofSteps (sources ++ [colour]) files env = Settings.ofSteps sources files env ∧
      Settings.ofSteps sources files (("HDDL_COLOUR", "red") :: env) =
        Settings.ofSteps sources files env ∧
      o.settings env files = .ok ⟨"entity", true, 7⟩ ∧
      ∃ e, Settings.ofSteps [root, .file "gone.toml"] files env = .error e := by
  intro files env sources root colour o
  obtain ⟨htakes, hmoved, habsent, hunknown, hother, hline, hmissing⟩ :=
    settings_follow_precedence files env
  have hproper : ∀ step ∈ root :: sources, step.Proper files env := by decide +kernel
  have hsources : ∀ step ∈ sources, step.Proper files env :=
    fun step hstep => hproper step (List.mem_cons_of_mem root hstep)
  have hgone : settingsFile? files "gone.toml" = none := by decide +kernel
  have hthing : Settings.ofSteps [.file "hddl.toml"] files env = .ok ⟨"thing", false, 5⟩ := by
    have hfile : ∀ step ∈ [LoaderStep.file "hddl.toml"], step.Proper files env :=
      List.forall_mem_singleton.2 (hsources (.file "hddl.toml") (by simp [sources]))
    obtain ⟨c, hc, hvalues⟩ := htakes _ hfile
    obtain rfl : c = ⟨"thing", false, 5⟩ := Setting.eq_of_takes hvalues (by decide +kernel)
    exact hc
  have hitem : Settings.ofSteps (root :: sources) files env = .ok ⟨"item", false, 7⟩ := by
    obtain ⟨c, hc, hvalues⟩ := htakes _ hproper
    obtain rfl : c = ⟨"item", false, 7⟩ := Setting.eq_of_takes hvalues (by decide +kernel)
    exact hc
  have hentity : o.settings env files = .ok ⟨"entity", true, 7⟩ := by
    have hconfig : ∀ path ∈ o.config, (SettingsSource.file path true).Proper files env := by
      rintro _ ⟨⟩
      exact (hsources (.file "hddl.toml") (by simp [sources])).source _ rfl
    have henv : SettingsSource.environment.Proper files env :=
      (hsources .environment (by simp [sources])).source _ rfl
    obtain ⟨c, hc, hvalues⟩ := hline o hconfig henv
    obtain rfl : c = ⟨"entity", true, 7⟩ := Setting.eq_of_takes hvalues (by decide +kernel)
    exact hc
  exact ⟨hproper, hthing, hitem, (hmoved (root :: sources) _ rfl rfl).trans hitem,
    (habsent "gone.toml" [.file "hddl.toml"] [.environment] hgone).symm,
    hunknown "colour" (.single "colour") .list sources [] (by decide +kernel) (by decide +kernel)
      hsources,
    hother sources files _ hsources (by decide +kernel) (by decide +kernel), hentity,
    hmissing _ "gone.toml" (by simp) hgone⟩

end PlanningDomain
