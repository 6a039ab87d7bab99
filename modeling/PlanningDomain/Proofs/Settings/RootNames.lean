import PlanningDomain.Proofs.Reading.Acceptance
import PlanningDomain.Proofs.Settings.Precedence
import PlanningDomain.Proofs.Token.Rules

/-! Root types named by a variable. Main statement: a variable names the root type that an option of
the same text names, save for a few names that a variable does not give as text. -/
namespace PlanningDomain

private theorem toNat_lt_of_isAlphanum {c : Char} (h : c.isAlphanum = true) : c.toNat < 128 := by
  simp [Char.isAlphanum, Char.isAlpha, Char.isUpper, Char.isLower, Char.isDigit,
    UInt32.le_iff_toNat_le] at h
  omega

private theorem isDigit_of_isAlpha {c : Char} (h : c.isAlpha = true) : c.isDigit = false := by
  simp [Char.isAlpha, Char.isUpper, Char.isLower, Char.isDigit, UInt32.le_iff_toNat_le] at h ⊢
  omega

private theorem SpellsWord.isAscii {cs : List Char} (h : SpellsWord cs) :
    ∀ c ∈ cs, c.toNat < 128 := by
  cases cs with
  | nil => cases h
  | cons c cs =>
    obtain ⟨hc, hcs⟩ := h
    refine List.forall_mem_cons.2 ⟨?_, fun d hd => ?_⟩
    · rcases hc with hc | rfl
      · exact toNat_lt_of_isAlphanum (by rw [Char.isAlphanum, hc, Bool.true_or])
      · decide
    · rcases hcs d hd with hd | rfl | rfl
      · exact toNat_lt_of_isAlphanum hd
      · decide
      · decide

private theorem SpellsWord.head_facts {c : Char} {cs : List Char} (h : SpellsWord (c :: cs)) :
    c.isDigit = false ∧ c ≠ '.' ∧ c ≠ '-' ∧ c ≠ '+' := by
  rcases h.1 with hc | rfl
  · refine ⟨isDigit_of_isAlpha hc, ?_, ?_, ?_⟩
    all_goals
      rintro rfl
      cases hc
  · decide

private theorem lowercase_eq_folded {word : String} (h : ∀ c ∈ word.toList, c.toNat < 128) :
    Text.lowercase word = Token.folded word.toList := by
  have hlower (cs before : List Char) (h : ∀ c ∈ cs, c.toNat < 128) :
      Text.lowerFrom before cs = cs.map Char.toLower := by
    induction cs generalizing before with
    | nil => rfl
    | cons c cs ih =>
      obtain ⟨hc, hcs⟩ := List.forall_mem_cons.1 h
      rw [Text.lowerFrom, lowerBetween_of_ascii hc, ih _ hcs, List.singleton_append, List.map_cons]
  rw [Text.lowercase, hlower _ _ h, Token.folded]

namespace Environment

/-- The names that a variable does not give as text, in lower case, and what each is as text again.
-/
def foreignNames : List (String × String) :=
  [("true", "true"), ("false", "false"), ("inf", "inf"), ("infinity", "inf"), ("nan", "NaN")]

private theorem mem_foreignNames_iff {word : String} :
    word ∈ foreignNames.map Prod.fst ↔
      word = "true" ∨ word = "false" ∨ word = "inf" ∨ word = "infinity" ∨ word = "nan" := by
  simp [foreignNames]

/-- The root type that a name in a variable makes. -/
def rootType (name : String) : String :=
  (foreignNames.lookup (Token.folded name.toList)).getD name

private theorem rootType_of_not_mem {name : String}
    (h : Token.folded name.toList ∉ foreignNames.map Prod.fst) : rootType name = name := by
  have hlookup : foreignNames.lookup (Token.folded name.toList) = none := by
    rw [← Option.not_isSome_iff_eq_none, NameMap.isSome_lookup_iff]
    exact h
  rw [rootType, hlookup, Option.getD_none]

private theorem rootType_eq_self_iff {name : String} :
    rootType name = name ↔
      (Token.folded name.toList ∈ foreignNames.map Prod.fst →
        name ∈ foreignNames.map Prod.snd) := by
  by_cases hmem : Token.folded name.toList ∈ foreignNames.map Prod.fst
  · constructor
    · intro hself _
      have hvalue : rootType name ∈ foreignNames.map Prod.snd := by
        rw [rootType]
        rcases mem_foreignNames_iff.1 hmem with h | h | h | h | h <;>
          simp [h, foreignNames, List.lookup_cons]
      rwa [hself] at hvalue
    · intro h
      have hname := h hmem
      simp only [foreignNames, List.map_cons, List.map_nil, List.mem_cons, List.not_mem_nil,
        or_false] at hname
      rcases hname with rfl | rfl | rfl | rfl | rfl <;> decide
  · exact ⟨fun _ h => absurd h hmem, fun _ => rootType_of_not_mem hmem⟩

private theorem integer?_eq_none {cs : List Char} (h : SpellsWord cs) : integer? cs = none := by
  cases cs with
  | nil => cases h
  | cons c cs =>
    obtain ⟨hdigit, -, hminus, hplus⟩ := h.head_facts
    simp [integer?, Numeral.splitSign, hminus, hplus, isNumeral, hdigit]

private theorem decimal?_eq_none {cs : List Char} (h : SpellsWord cs) (negative : Bool) :
    Numeral.decimal? negative cs = none := by
  cases cs with
  | nil => cases h
  | cons c cs =>
    obtain ⟨hdigit, hpoint, -, -⟩ := h.head_facts
    simp [Numeral.decimal?, hdigit, hpoint]

/-- Of all words only the names of special numbers are numbers. -/
private theorem real?_of_word {cs : List Char} (h : SpellsWord cs) :
    Numeral.real? cs =
      if Token.folded cs = "inf" ∨ Token.folded cs = "infinity" then some (.infinite false)
      else if Token.folded cs = "nan" then some .nan
      else none := by
  cases cs with
  | nil => cases h
  | cons c cs =>
    obtain ⟨-, -, hminus, hplus⟩ := h.head_facts
    simp only [Numeral.real?, Numeral.splitSign, hminus, hplus, if_false, decimal?_eq_none h,
      Token.folded]
    rfl

private theorem toText_given {name : String} (h : SpellsWord name.toList) :
    (given name).toText = .ok (rootType name) := by
  rw [given, lowercase_eq_folded h.isAscii, integer?_eq_none h, real?_of_word h]
  by_cases hmem : Token.folded name.toList ∈ foreignNames.map Prod.fst
  · rw [rootType]
    rcases mem_foreignNames_iff.1 hmem with h | h | h | h | h <;> rw [h] <;> rfl
  · rw [rootType_of_not_mem hmem]
    rw [mem_foreignNames_iff, not_or, not_or, not_or, not_or] at hmem
    simp only [hmem, if_false, or_self]
    rfl

end Environment

/-- A variable that sets the root type, or a part of it. -/
def ConcernsRoot (v : String × String) : Prop :=
  ∃ key ∈ Environment.key? v.1, Text.lowercase (sourcePath key).head = Setting.rootType.key

instance (v : String × String) : Decidable (ConcernsRoot v) :=
  inferInstanceAs (Decidable (∃ key ∈ Environment.key? v.1,
    Text.lowercase (sourcePath key).head = Setting.rootType.key))

namespace Slots

private theorem lookup_setVariable_congr {slots slots' : Slots} {key : String}
    (h : slots.lookup key = slots'.lookup key) (v : String × String) :
    (slots.setVariable v).lookup key = (slots'.setVariable v).lookup key := by
  rw [setVariable, setVariable]
  cases Environment.key? v.1 with
  | none => exact h
  | some _ => exact lookup_setPath_congr h _ _

private theorem lookup_setOverride_congr {slots slots' : Slots} {key : String}
    (h : slots.lookup key = slots'.lookup key) (o : KeyPath × Given) :
    (slots.setOverride o).lookup key = (slots'.setOverride o).lookup key :=
  lookup_setPath_congr h _ _

private theorem lookup_foldl_congr {α : Type} {step : Slots → α → Slots} {key : String}
    (hstep : ∀ {slots slots' : Slots}, slots.lookup key = slots'.lookup key →
      ∀ x, (step slots x).lookup key = (step slots' x).lookup key)
    {slots slots' : Slots} (h : slots.lookup key = slots'.lookup key) (xs : List α) :
    (xs.foldl step slots).lookup key = (xs.foldl step slots').lookup key := by
  induction xs generalizing slots slots' with
  | nil => exact h
  | cons x xs ih => exact ih (hstep h x)

private theorem lookup_setVariable_of_not {v : String × String} (h : ¬ ConcernsRoot v)
    (slots : Slots) :
    (slots.setVariable v).lookup Setting.rootType.key = slots.lookup Setting.rootType.key := by
  rw [setVariable]
  cases hkey : Environment.key? v.1 with
  | none => rfl
  | some key => exact lookup_setPath_of_ne (fun heq => h ⟨key, hkey, heq⟩) _ _

private theorem lookup_foldl_of_forall {α : Type} {step : Slots → α → Slots} {key : String}
    {xs : List α} (h : ∀ x ∈ xs, ∀ slots : Slots, (step slots x).lookup key = slots.lookup key)
    (slots : Slots) :
    (xs.foldl step slots).lookup key = slots.lookup key := by
  induction xs generalizing slots with
  | nil => rfl
  | cons x xs ih =>
    obtain ⟨hx, hxs⟩ := List.forall_mem_cons.1 h
    rw [List.foldl_cons, ih hxs, hx]

private theorem setVariable_root (name : String) (slots : Slots) :
    slots.setVariable ("HDDL_ROOT_TYPE", name) =
      slots.setPath (.single Setting.rootType.key)
        ⟨Environment.given name, some "the environment"⟩ := by
  have hkey : Environment.key? "HDDL_ROOT_TYPE" = some Setting.rootType.key := by decide +kernel
  rw [setVariable, hkey, ← sourcePath_eq_single (steps_sourcePath Setting.rootType.lowercase_key)]

/-- A name in a variable makes the settings that an override with its root type makes. -/
private theorem settings_setVariable {name : String} (hname : SpellsWord name.toList)
    {front back : List (String × String)} (hother : ∀ v ∈ front ++ back, ¬ ConcernsRoot v)
    {overrides : List (KeyPath × Given)}
    (hoverrides : ∀ o ∈ overrides, Text.lowercase o.1.head ≠ Setting.rootType.key) (slots : Slots) :
    (overrides.foldl setOverride
        ((front ++ ("HDDL_ROOT_TYPE", name) :: back).foldl setVariable slots)).settings =
      (((.single Setting.rootType.key, .text (Environment.rootType name)) :: overrides).foldl
        setOverride ((front ++ back).foldl setVariable slots)).settings := by
  rw [List.foldl_append, List.foldl_append, List.foldl_cons, List.foldl_cons, setVariable_root]
  refine settings_congr fun s => ?_
  by_cases hs : s = .rootType
  · subst hs
    -- What comes behind the variable and behind the override does not concern the root type.
    have hback (slots : Slots) :
        (back.foldl setVariable slots).given? .rootType = slots.given? .rootType := by
      rw [given?, lookup_foldl_of_forall (fun v hv => lookup_setVariable_of_not
        (hother v (List.mem_append_right front hv))), given?]
    have hlast (slots : Slots) :
        (overrides.foldl setOverride slots).given? .rootType = slots.given? .rootType := by
      have hstep : ∀ o ∈ overrides, ∀ slots : Slots,
          (slots.setOverride o).lookup Setting.rootType.key =
            slots.lookup Setting.rootType.key :=
        fun o ho slots => lookup_setPath_of_ne (hoverrides o ho) _ slots
      rw [given?, lookup_foldl_of_forall hstep, given?]
    have hroot (slot : Slot) (slots : Slots) :
        (slots.setPath (.single Setting.rootType.key) slot).given? .rootType = some slot.given := by
      rw [given?_setPath_single, if_pos Setting.rootType.lowercase_key]
    have hvariable := ((hlast _).trans (hback _)).trans
      (hroot ⟨Environment.given name, some "the environment"⟩ (front.foldl setVariable slots))
    have hoverride := (hlast _).trans (hroot ⟨.text (Environment.rootType name), none⟩
      (back.foldl setVariable (front.foldl setVariable slots)))
    have hconvert : Setting.rootType.convert (Environment.given name) =
        .ok (Environment.rootType name) := Environment.toText_given hname
    exact (setting_eq_ok hvariable hconvert).trans (setting_eq_ok hoverride rfl).symm
  · have hhead : Text.lowercase (KeyPath.single Setting.rootType.key).head ≠ s.key := by
      revert hs
      cases s <;> decide +kernel
    have hlookup {slots slots' : Slots} (h : slots.lookup s.key = slots'.lookup s.key) :
        SettingsLoader.setting slots s.key s.convert =
          SettingsLoader.setting slots' s.key s.convert := by
      rw [SettingsLoader.setting, SettingsLoader.setting, h]
    refine hlookup (lookup_foldl_congr lookup_setOverride_congr ?_ overrides)
    rw [setOverride, lookup_setPath_of_ne hhead]
    exact lookup_foldl_congr lookup_setVariable_congr (lookup_setPath_of_ne hhead _ _) back

end Slots

private theorem SettingsLoader.build_behind_environment (sources : List SettingsSource)
    (overrides : List (KeyPath × Given)) (files : Files) (env : List (String × String)) :
    SettingsLoader.build ⟨sources ++ [.environment], overrides⟩ files env =
      (sources.foldlM (layer files env) standardSlots >>= fun slots =>
        (overrides.foldl Slots.setOverride (env.foldl Slots.setVariable slots)).settings) := by
  rw [build_eq, List.foldlM_append, bind_assoc]
  refine bind_congr fun slots => ?_
  rw [List.foldlM_cons, layer_environment]
  rfl

namespace CommandLine

def Options.overrides (o : Options) : List (KeyPath × Given) :=
  (o.rootType.toList.map fun name => (.single Setting.rootType.key, .text name)) ++
    if o.skipUnknown then [(.single Setting.skipUnknownSections.key, .boolean true)] else []

private theorem Options.settings_eq_build (o : Options) (env : List (String × String))
    (files : Files) :
    o.settings env files =
      SettingsLoader.build ⟨o.config.toList.map (.file · true) ++ [.environment], o.overrides⟩
        files env := by
  obtain ⟨path, format, config, rootType, skipUnknown⟩ := o
  cases config <;> cases rootType <;> cases skipUnknown <;> rfl

private theorem Options.settings_setVariable {o : Options} (ho : o.rootType = none) {name : String}
    (hname : SpellsWord name.toList) {front back : List (String × String)}
    (hother : ∀ v ∈ front ++ back, ¬ ConcernsRoot v) (files : Files) :
    o.settings (front ++ ("HDDL_ROOT_TYPE", name) :: back) files =
      { o with rootType := some (Environment.rootType name) }.settings (front ++ back) files := by
  have hoverrides : ∀ e ∈ o.overrides, Text.lowercase e.1.head ≠ Setting.rootType.key := by
    rw [overrides, ho]
    cases o.skipUnknown <;> decide +kernel
  have hcons : { o with rootType := some (Environment.rootType name) }.overrides =
      (.single Setting.rootType.key, .text (Environment.rootType name)) :: o.overrides := by
    rw [overrides, overrides, ho]
    rfl
  have hfiles (env env' : List (String × String)) :
      (o.config.toList.map (SettingsSource.file · true)).foldlM (SettingsLoader.layer files env)
          SettingsLoader.standardSlots =
        (o.config.toList.map (SettingsSource.file · true)).foldlM (SettingsLoader.layer files env')
          SettingsLoader.standardSlots := by
    cases o.config <;> rfl
  rw [settings_eq_build, settings_eq_build, SettingsLoader.build_behind_environment,
    SettingsLoader.build_behind_environment, hcons, hfiles _ (front ++ back)]
  exact bind_congr fun slots => Slots.settings_setVariable hname hother hoverrides slots

end CommandLine

/-- Runs for one path and format under the same settings have the same result. -/
private theorem CommandLine.run_eq_of_settings_eq {arguments arguments' : List String}
    {path : String} {o o' : CommandLine.Options} {env env' : List (String × String)}
    {files : Files} (h : CommandLine.Request.ofArguments arguments = .read path o)
    (h' : CommandLine.Request.ofArguments arguments' = .read path o')
    (hformat : o'.wantedFormat = o.wantedFormat)
    (hsettings : o'.settings env' files = o.settings env files) :
    CommandLine.run arguments' env' files = CommandLine.run arguments env files := by
  cases hc : o.settings env files with
  | error e => rw [run_error h hc, run_error h' (hsettings.trans hc)]
  | ok c => rw [run_ok h hc, run_ok h' (hsettings.trans hc), hformat]

private theorem Slots.settings_root (name : String) :
    (SettingsLoader.standardSlots.setPath (.single Setting.rootType.key)
      ⟨.text name, none⟩).settings = .ok ⟨name, false, 100⟩ := by
  refine settings_eq_ok fun s => ?_
  have hgiven (t : Setting) := given?_setPath_single (s := t) Setting.rootType.key
    ⟨.text name, none⟩ SettingsLoader.standardSlots
  simp only [Setting.lowercase_key, Setting.given?_standardSlots] at hgiven
  cases s with
  | rootType => exact setting_eq_ok (hgiven .rootType) rfl
  | skipUnknownSections => exact setting_eq_ok (hgiven .skipUnknownSections) rfl
  | maxErrors => exact setting_eq_ok (hgiven .maxErrors) rfl

private theorem Settings.ofSteps_override_root (name : String) (files : Files) :
    Settings.ofSteps [.override "root_type" (.text name)] files [] = .ok ⟨name, false, 100⟩ := by
  have hpath : overridePath (Setting.rootType.key, .text name) =
      .ok (.single Setting.rootType.key, .text name) := by
    have hkey : KeyPath.ofKey? Setting.rootType.key = some (.single Setting.rootType.key) := by
      decide +kernel
    rw [overridePath, hkey]
  change Settings.ofSteps [.override Setting.rootType.key (.text name)] files [] = _
  rw [ofSteps_eq]
  simp only [List.filterMap_cons, LoaderStep.override?, List.filterMap_nil, List.mapM_cons, hpath]
  change SettingsLoader.build ⟨[], [(.single Setting.rootType.key, .text name)]⟩ files [] = _
  rw [SettingsLoader.build_eq, List.foldlM_nil, pure_bind]
  exact Slots.settings_root name

private theorem Settings.ofSteps_variable_root {name : String} (hname : SpellsWord name.toList)
    (files : Files) :
    Settings.ofSteps [.environment] files [("HDDL_ROOT_TYPE", name)] =
      .ok ⟨Environment.rootType name, false, 100⟩ := by
  have hslots := @Slots.settings_setVariable name hname [] [] (by simp) [] (by simp)
    SettingsLoader.standardSlots
  simp only [List.nil_append, List.foldl_nil, List.foldl_cons, Slots.setOverride] at hslots
  have hbuild := SettingsLoader.build_behind_environment [] [] files [("HDDL_ROOT_TYPE", name)]
  rw [List.foldlM_nil, pure_bind, List.foldl_nil, List.foldl_cons, List.foldl_nil, hslots,
    Slots.settings_root] at hbuild
  rw [ofSteps_eq]
  simpa only [List.filterMap_cons, List.filterMap_nil, LoaderStep.source?, LoaderStep.override?,
    List.mapM_nil, pure_bind, List.nil_append] using hbuild

private theorem rootType_eq_of_domain_eq {s s' : Settings}
    (h : ∀ text, (readDomain s text).domain = (readDomain s' text).domain) :
    s.rootType = s'.rootType := by
  let text := "(define (domain d) (:predicates (p ?x)))"
  let tree : Grammar.Sentence := ⟨"d", none, none,
    some [⟨false, "p", [⟨["?x"], none⟩], by simp⟩], []⟩
  have hstrays : strays text = [] := by decide +kernel
  have htokens : tree.tokens = tokens text := by decide +kernel
  have heq := h text
  rw [readDomain_of_sentence hstrays htokens, readDomain_of_sentence hstrays htokens] at heq
  have hparams :=
    congrArg (fun d : Domain => d.predicates.map fun p => p.params.types.get? "?x") heq
  simpa [tree, Grammar.Sentence.meaning, Grammar.Literal.meaning, Grammar.TypedList.params,
    Grammar.typedPairs, Grammar.nextType, NameMap.get?_ofList] using hparams

/-- A name in a variable sets the root type to that name, save for the foreign ones, and an option
sets it to any name. The two show in the domains unless the name is its own root type. Whatever else
is set, a run with the variable is a run with the option for its root type. -/
theorem variables_name_root_types {name : String} (hname : IsName name) (files : Files) :
    Settings.ofSteps [.environment] files [("HDDL_ROOT_TYPE", name)] =
        .ok ⟨Environment.rootType name, false, 100⟩ ∧
      Settings.ofSteps [.override "root_type" (.text name)] files [] = .ok ⟨name, false, 100⟩ ∧
      ((∀ text, (readDomain ⟨Environment.rootType name, false, 100⟩ text).domain =
          (readDomain ⟨name, false, 100⟩ text).domain) ↔ Environment.rootType name = name) ∧
      (Environment.rootType name = name ↔
        (Token.folded name.toList ∈ Environment.foreignNames.map Prod.fst →
          name ∈ Environment.foreignNames.map Prod.snd)) ∧
      ∀ arguments arguments' path o front back,
        CommandLine.Request.ofArguments arguments = .read path o → o.rootType = none →
        CommandLine.Request.ofArguments arguments' =
          .read path { o with rootType := some (Environment.rootType name) } →
        (∀ v ∈ front ++ back, ¬ ConcernsRoot v) →
        CommandLine.run arguments (front ++ ("HDDL_ROOT_TYPE", name) :: back) files =
          CommandLine.run arguments' (front ++ back) files := by
  refine ⟨Settings.ofSteps_variable_root hname.spellsWord files,
    Settings.ofSteps_override_root name files, ⟨rootType_eq_of_domain_eq, fun h text => ?_⟩,
    Environment.rootType_eq_self_iff, ?_⟩
  · rw [h]
  · intro arguments arguments' path o front back h hroot h' hother
    exact CommandLine.run_eq_of_settings_eq h' h rfl
      (CommandLine.Options.settings_setVariable hroot hname.spellsWord hother files)

/-- A name that is its own root type, among other variables. -/
theorem variables_name_root_types_thing :
    let files : Files :=
      ⟨fun path =>
        if path = "d.hddl" then .ok "(define (domain d))".toUTF8.toList else .error .notFound⟩
    Settings.ofSteps [.environment] files [("HDDL_ROOT_TYPE", "thing")] =
        .ok ⟨"thing", false, 100⟩ ∧
      (∀ text, (readDomain ⟨Environment.rootType "thing", false, 100⟩ text).domain =
        (readDomain ⟨"thing", false, 100⟩ text).domain) ∧
      CommandLine.run ["d.hddl"]
          [("PATH", "/bin"), ("HDDL_ROOT_TYPE", "thing"), ("HDDL_MAX_ERRORS", "7")] files =
        CommandLine.run ["d.hddl", "--root-type", "thing"]
          [("PATH", "/bin"), ("HDDL_MAX_ERRORS", "7")] files := by
  intro files
  obtain ⟨hvariable, -, hdomains, -, hruns⟩ :=
    variables_name_root_types (by decide +kernel : IsName "thing") files
  have hself : Environment.rootType "thing" = "thing" := by decide +kernel
  rw [hself] at hvariable
  exact ⟨hvariable, hdomains.2 hself,
    hruns ["d.hddl"] ["d.hddl", "--root-type", "thing"] "d.hddl"
      ⟨some "d.hddl", none, none, none, false⟩ [("PATH", "/bin")] [("HDDL_MAX_ERRORS", "7")]
      (by decide +kernel) rfl (by decide +kernel) (by decide +kernel)⟩

/-- A name in upper case that a variable takes for a truth value. -/
theorem variables_rename_root_types :
    let files : Files := ⟨fun _ => .error .notFound⟩
    IsName "TRUE" ∧
      Settings.ofSteps [.environment] files [("HDDL_ROOT_TYPE", "TRUE")] =
        .ok ⟨"true", false, 100⟩ ∧
      Settings.ofSteps [.override "root_type" (.text "TRUE")] files [] = .ok ⟨"TRUE", false, 100⟩ ∧
      ¬ ∀ name, IsName name → ∃ c,
        Settings.ofSteps [.environment] files [("HDDL_ROOT_TYPE", name)] = .ok c ∧
          c.rootType = name := by
  intro files
  have hname : IsName "TRUE" := by decide +kernel
  have hvariable : Settings.ofSteps [.environment] files [("HDDL_ROOT_TYPE", "TRUE")] =
      .ok ⟨"true", false, 100⟩ := by decide +kernel
  refine ⟨hname, hvariable, by decide +kernel, fun h => ?_⟩
  obtain ⟨c, hc, hroot⟩ := h "TRUE" hname
  rw [hvariable] at hc
  cases hc
  exact absurd hroot (by decide)

end PlanningDomain
