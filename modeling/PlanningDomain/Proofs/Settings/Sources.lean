import PlanningDomain.Proofs.CommandLine.Outcome
import PlanningDomain.Proofs.Settings.Slots

/-! What files and variables give to settings. Main statement: a proper source puts what it supplies
over what was in force, and settings come about where each takes the value in force. -/
namespace PlanningDomain

namespace SettingsSource

/-- The entries of a source. A file that has to be there must be readable too. -/
def entries? (files : Files) (env : List (String × String)) :
    SettingsSource → Option (List (String × Given))
  | environment => some <| env.filterMap fun v =>
      (Environment.key? v.1).map fun key => (key, Environment.given v.2)
  | file path required =>
    let absent := if required then none else some []
    match settingsFile? files path with
    | none => absent
    | some found =>
      match files.readText found with
      | .error _ => absent
      | .ok text => (Toml.parse? text).map fun members => members.map memberEntry

/-- A source that is there, with one value for each setting at most, which the setting can take. -/
def Proper (files : Files) (env : List (String × String)) (source : SettingsSource) : Prop :=
  ∃ entries ∈ source.entries? files env, (∀ e ∈ entries, ProperEntry e) ∧
    ∀ s : Setting, (entries.filterMap s.given?).length ≤ 1

instance (files : Files) (env : List (String × String)) (source : SettingsSource) :
    Decidable (source.Proper files env) :=
  inferInstanceAs (Decidable (∃ entries ∈ source.entries? files env,
    (∀ e ∈ entries, ProperEntry e) ∧ ∀ s : Setting, (entries.filterMap s.given?).length ≤ 1))

/-- What a source gives to a setting. -/
def supplies? (files : Files) (env : List (String × String)) (s : Setting)
    (source : SettingsSource) : Option Given :=
  (source.entries? files env).bind fun entries => entries.findSome? s.given?

end SettingsSource

namespace LoaderStep

def source? : LoaderStep → Option SettingsSource
  | file path => some (.file path true)
  | optionalFile path => some (.file path false)
  | environment => some .environment
  | override .. => none

def override? : LoaderStep → Option (String × Given)
  | override key value => some (key, value)
  | _ => none

/-- A step with a proper source, or an override under a path, for a setting that can take the value
or for none. -/
structure Proper (files : Files) (env : List (String × String)) (step : LoaderStep) : Prop where
  source : ∀ source ∈ step.source?, source.Proper files env
  override : ∀ entry ∈ step.override?, (KeyPath.ofKey? entry.1).isSome ∧ ProperEntry entry

instance (files : Files) (env : List (String × String)) (step : LoaderStep) :
    Decidable (step.Proper files env) :=
  decidable_of_iff
    ((∀ source ∈ step.source?, source.Proper files env) ∧
      ∀ entry ∈ step.override?, (KeyPath.ofKey? entry.1).isSome ∧ ProperEntry entry)
    ⟨fun h => ⟨h.1, h.2⟩, fun h => ⟨h.1, h.2⟩⟩

end LoaderStep

namespace Setting

/-- The value that decides: that of the last override, or else that of the last source with one. -/
def decisive (files : Files) (env : List (String × String)) (steps : List LoaderStep)
    (s : Setting) : Option Given :=
  ((steps.filterMap LoaderStep.override?).filterMap s.given?).getLast?.or
    ((steps.filterMap LoaderStep.source?).filterMap (SettingsSource.supplies? files env s)).getLast?

/-- A setting has what it makes of a given value, or its built-in value if none is given. -/
def Takes (s : Setting) (c : Settings) : Option Given → Prop
  | some g => s.convert g = .ok (s.value c)
  | none => s.value c = s.value .standard

theorem lowercase_key (s : Setting) : Text.lowercase s.key = s.key := by
  cases s <;> decide +kernel

theorem given?_key (s s' : Setting) (g : Given) :
    s.given? (s'.key, g) = if s' = s then some g else none := by
  have hkey : s'.key = s.key ↔ s' = s := by cases s <;> cases s' <;> decide
  simp only [given?, lowercase_key, hkey]

def standard : Setting → Given
  | rootType => .text Settings.standard.rootType
  | skipUnknownSections => .boolean Settings.standard.skipUnknownSections
  | maxErrors => .integer Settings.standard.maxErrors

private theorem convert_standard (s : Setting) :
    s.convert s.standard = .ok (s.value .standard) := by
  cases s <;> rfl

theorem given?_standardSlots (s : Setting) :
    SettingsLoader.standardSlots.given? s = some s.standard := by
  cases s <;> rfl

private theorem takes_iff {s : Setting} {c : Settings} {o : Option Given} :
    s.Takes c o ↔ s.convert (o.getD s.standard) = .ok (s.value c) := by
  cases o with
  | none => rw [Takes, Option.getD_none, convert_standard, Except.ok.injEq, eq_comm]
  | some g => rfl

instance : (s : Setting) → DecidableEq s.Value
  | rootType => inferInstanceAs (DecidableEq String)
  | skipUnknownSections => inferInstanceAs (DecidableEq Bool)
  | maxErrors => inferInstanceAs (DecidableEq Nat)

instance (s : Setting) (c : Settings) (o : Option Given) : Decidable (s.Takes c o) :=
  decidable_of_iff ((s.convert (o.getD s.standard)).toOption = some (s.value c)) <| by
    rw [takes_iff]
    cases s.convert (o.getD s.standard) <;> simp [Except.toOption]

theorem eq_of_takes {c c' : Settings} {o : Setting → Option Given}
    (h : ∀ s : Setting, s.Takes c (o s)) (h' : ∀ s : Setting, s.Takes c' (o s)) : c = c' := by
  have heq (s : Setting) : s.value c = s.value c' := by
    have hok := takes_iff.1 (h s)
    rw [takes_iff.1 (h' s)] at hok
    exact (Except.ok.inj hok).symm
  obtain ⟨root, skip, max⟩ := c
  obtain ⟨root', skip', max'⟩ := c'
  obtain rfl : root = root' := heq .rootType
  obtain rfl : skip = skip' := heq .skipUnknownSections
  obtain rfl : max = max' := heq .maxErrors
  rfl

end Setting

section Sources
variable {files : Files} {env : List (String × String)}

private theorem getLast?_filterMap_eq_findSome? {α β : Type} {f : α → Option β} {xs : List α}
    (h : (xs.filterMap f).length ≤ 1) : (xs.filterMap f).getLast? = xs.findSome? f := by
  rw [← List.head?_filterMap]
  match xs.filterMap f, h with
  | [], _ => rfl
  | [_], _ => rfl

theorem SettingsSource.given?_layer {source : SettingsSource} (h : source.Proper files env)
    (slots : Slots) :
    ∃ slots', SettingsLoader.layer files env slots source = .ok slots' ∧
      ∀ s, slots'.given? s = (source.supplies? files env s).or (slots.given? s) := by
  obtain ⟨entries, hentries, hproper, honce⟩ := h
  have hsupplies (s : Setting) :
      source.supplies? files env s = (entries.filterMap s.given?).getLast? := by
    rw [supplies?, hentries, Option.bind_some, getLast?_filterMap_eq_findSome? (honce s)]
  have habsent {required : Bool} (h : (if required then none else some []) = some entries)
      (e : SettingsError) :
      ∃ slots', (if required then Except.error e else .ok slots) = .ok slots' ∧
        ∀ s, slots'.given? s = (source.supplies? files env s).or (slots.given? s) := by
    cases required with
    | true => cases h
    | false =>
      refine ⟨slots, rfl, fun s => ?_⟩
      rw [hsupplies, ← Option.some.inj h]
      rfl
  cases source with
  | environment =>
    refine ⟨_, SettingsLoader.layer_environment files env slots, fun s => ?_⟩
    cases hentries
    rw [hsupplies, ← Slots.given?_foldl (f := Setting.given?)
      (fun e he slots => Slots.given?_setPath (hproper e he) (some "the environment") slots) slots,
      List.foldl_filterMap]
    congr 2
    funext slots v
    rw [Slots.setVariable]
    cases Environment.key? v.1 <;> rfl
  | file path required =>
    cases hfound : settingsFile? files path with
    | none =>
      simp only [entries?, SettingsLoader.layer, hfound] at hentries ⊢
      exact habsent hentries _
    | some found =>
      cases hread : files.readText found with
      | error fault =>
        simp only [entries?, SettingsLoader.layer, hfound, hread] at hentries ⊢
        exact habsent hentries _
      | ok text =>
        simp only [entries?, SettingsLoader.layer, hfound, hread] at hentries ⊢
        obtain ⟨members, hmembers, rfl⟩ := Option.map_eq_some_iff.1 hentries
        simp only [hmembers]
        refine ⟨_, rfl, fun s => ?_⟩
        rw [hsupplies, List.filterMap_map]
        exact Slots.given?_foldl (f := fun s => s.given? ∘ memberEntry)
          (fun m hm slots =>
            Slots.given?_setMember (hproper _ (List.mem_map_of_mem hm)) _ slots) slots

/-- A file that has to be there and is not lets nothing come about. -/
theorem SettingsLoader.foldlM_layer_error {sources : List SettingsSource} {path : String}
    (hmem : .file path true ∈ sources) (hmissing : settingsFile? files path = none)
    (slots : Slots) : ∃ e, sources.foldlM (SettingsLoader.layer files env) slots = .error e := by
  obtain ⟨front, back, rfl⟩ := List.append_of_mem hmem
  rw [List.foldlM_append]
  cases hfront : front.foldlM (SettingsLoader.layer files env) slots with
  | error e => exact ⟨e, rfl⟩
  | ok mid =>
    refine ⟨.missingFile path, ?_⟩
    simp only [List.foldlM_cons, SettingsLoader.layer, hmissing]
    rfl

theorem SettingsLoader.foldlM_layer_absent {path : String}
    (h : settingsFile? files path = none) (front back : List SettingsSource) (slots : Slots) :
    (front ++ .file path false :: back).foldlM (SettingsLoader.layer files env) slots =
      (front ++ back).foldlM (SettingsLoader.layer files env) slots := by
  rw [List.foldlM_append, List.foldlM_append]
  congr 1
  funext mid
  simp only [List.foldlM_cons, SettingsLoader.layer, h]
  rfl

end Sources

theorem SettingsLoader.build_takes {l : SettingsLoader} {files : Files}
    {env : List (String × String)} {layered : Slots} {o : Setting → Option Given}
    (hlayered : l.sources.foldlM (layer files env) standardSlots = .ok layered)
    (hgiven : ∀ s, (l.overrides.foldl Slots.setOverride layered).given? s =
      (o s).or (some s.standard))
    (htaken : ∀ s g, o s = some g → (s.convert g).isOk) :
    ∃ c, l.build files env = .ok c ∧ ∀ s : Setting, s.Takes c (o s) := by
  have hvalue (s : Setting) : ∃ x, s.convert ((o s).getD s.standard) = .ok x := by
    cases hs : o s with
    | none => exact ⟨_, s.convert_standard⟩
    | some g =>
      have hok := htaken s g hs
      cases hg : s.convert g with
      | error m => rw [hg] at hok; cases hok
      | ok x => exact ⟨x, hg⟩
  choose x hx using hvalue
  have hsetting (s : Setting) :
      setting (l.overrides.foldl Slots.setOverride layered) s.key s.convert = .ok (x s) := by
    refine Slots.setting_eq_ok ((hgiven s).trans ?_) (hx s)
    cases o s <;> rfl
  have hvalues (s : Setting) :
      s.value ⟨x .rootType, x .skipUnknownSections, x .maxErrors⟩ = x s := by cases s <;> rfl
  refine ⟨⟨x .rootType, x .skipUnknownSections, x .maxErrors⟩, ?_, fun s => Setting.takes_iff.2 ?_⟩
  · rw [build_eq, hlayered]
    exact Slots.settings_eq_ok fun s => (hsetting s).trans (by rw [hvalues])
  · rw [hx, hvalues]

end PlanningDomain
