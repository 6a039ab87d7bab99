import PlanningDomain.Proofs.Domain.NameMap
import PlanningDomain.Settings.Loader

/-! The values in force while entries are laid over each other. Main statements: an entry for a
setting takes effect under its key in any case of its letters, and of several entries for a setting
the last is in force. -/
namespace PlanningDomain

/-- What can be set. -/
inductive Setting
  | rootType
  | skipUnknownSections
  | maxErrors
deriving DecidableEq

namespace Setting

def key : Setting → String
  | rootType => "root_type"
  | skipUnknownSections => "skip_unknown_sections"
  | maxErrors => "max_errors"

abbrev Value : Setting → Type
  | rootType => String
  | skipUnknownSections => Bool
  | maxErrors => Nat

def convert : (s : Setting) → Given → Except Given.Mismatch s.Value
  | rootType => Given.toText
  | skipUnknownSections => Given.toBoolean
  | maxErrors => Given.toNatural

def value (c : Settings) : (s : Setting) → s.Value
  | rootType => c.rootType
  | skipUnknownSections => c.skipUnknownSections
  | maxErrors => c.maxErrors

private theorem forall_iff {p : Setting → Prop} :
    (∀ s, p s) ↔ p rootType ∧ p skipUnknownSections ∧ p maxErrors := by
  refine ⟨fun h => ⟨h _, h _, h _⟩, fun h s => ?_⟩
  cases s with
  | rootType => exact h.1
  | skipUnknownSections => exact h.2.1
  | maxErrors => exact h.2.2

instance {p : Setting → Prop} [DecidablePred p] : Decidable (∀ s, p s) :=
  decidable_of_iff _ forall_iff.symm

/-- What an entry gives to a setting; the case of letters in its key does not matter. -/
def given? (s : Setting) (entry : String × Given) : Option Given :=
  if Text.lowercase entry.1 = s.key then some entry.2 else none

end Setting

theorem lowerBetween_of_ascii {c : Char} (hc : c.toNat < 128) (before after : List Char) :
    Text.lowerBetween before c after = [c.toLower] := by
  have hsigma : c.toNat ≠ 0x3A3 := by omega
  simp [Text.lowerBetween, Text.lowerChar, hsigma, hc]

private theorem mem_lowerFrom {c : Char} {before cs : List Char} (hc : c.toNat < 128) (h : c ∈ cs) :
    c.toLower ∈ Text.lowerFrom before cs := by
  induction cs generalizing before with
  | nil => cases h
  | cons d cs ih =>
    rw [Text.lowerFrom, List.mem_append]
    rcases List.mem_cons.1 h with rfl | h
    · left
      rw [lowerBetween_of_ascii hc]
      exact List.mem_singleton_self _
    · exact .inr (ih h)

private theorem mem_lowercase {c : Char} {text : String} (hc : c.toNat < 128)
    (h : c ∈ text.toList) :
    c.toLower ∈ (Text.lowercase text).toList := by
  rw [Text.lowercase, String.toList_ofList]
  exact mem_lowerFrom hc h

namespace KeyPath

/-- A path of one name is spelled by that name, and every longer one has a sign in its spelling. -/
private theorem spelling_of_ofKey? {key : String} {path : KeyPath} (h : ofKey? key = some path) :
    path = .single key ∨ path.steps ≠ [] ∧ ('.' ∈ key.toList ∨ '[' ∈ key.toList) := by
  simp only [ofKey?, readName, bind, Option.bind_eq_some_iff, Option.ite_none_left_eq_some,
    pure, Option.some.injEq, Prod.exists, Prod.mk.injEq] at h
  obtain ⟨head, rest, ⟨-, rfl, rfl⟩, steps, hsteps, rfl⟩ := h
  have hkey := List.takeWhile_append_dropWhile (p := isNameChar) (l := key.toList)
  cases hrest : key.toList.dropWhile isNameChar with
  | nil =>
    left
    rw [hrest] at hsteps hkey
    rw [List.append_nil] at hkey
    cases hsteps
    rw [hkey, String.ofList_toList, single]
  | cons c cs =>
    right
    rw [hrest] at hsteps
    have hmem : c ∈ key.toList := by
      rw [← hkey, hrest]
      simp
    simp only [List.length_cons, readSteps] at hsteps
    split at hsteps
    · rename_i hdot
      simp only [bind, pure, Option.bind_eq_some_iff] at hsteps
      obtain ⟨_, _, _, _, heq⟩ := hsteps
      cases heq
      exact ⟨by simp, .inl (hdot ▸ hmem)⟩
    · split at hsteps
      · rename_i hbracket
        simp only [bind, pure, Option.bind_eq_some_iff] at hsteps
        obtain ⟨_, _, _, _, heq⟩ := hsteps
        cases heq
        exact ⟨by simp, .inr (hbracket ▸ hmem)⟩
      · cases hsteps

end KeyPath

theorem sourcePath_of_ofKey? {key : String} {path : KeyPath} (h : KeyPath.ofKey? key = some path) :
    sourcePath key = path := by
  rw [sourcePath, h, Option.getD_some]

theorem sourcePath_eq_single {key : String} (h : (sourcePath key).steps = []) :
    sourcePath key = .single key := by
  cases hkey : KeyPath.ofKey? key with
  | none => rw [sourcePath, hkey, Option.getD_none]
  | some path =>
    rw [sourcePath_of_ofKey? hkey] at h ⊢
    exact (KeyPath.spelling_of_ofKey? hkey).resolve_right fun hlong => hlong.1 h

/-- The key of a setting is no longer path, whatever the case of its letters. -/
theorem steps_sourcePath {key : String} {s : Setting} (h : Text.lowercase key = s.key) :
    (sourcePath key).steps = [] := by
  cases hkey : KeyPath.ofKey? key with
  | none => rw [sourcePath, hkey, Option.getD_none, KeyPath.single]
  | some path =>
    rw [sourcePath_of_ofKey? hkey]
    rcases KeyPath.spelling_of_ofKey? hkey with rfl | ⟨-, hsign⟩
    · rfl
    · -- A sign would stay in the key in lower case.
      exfalso
      have hdot : '.' ∉ s.key.toList := by cases s <;> decide
      have hbracket : '[' ∉ s.key.toList := by cases s <;> decide
      rw [← h] at hdot hbracket
      rcases hsign with hmem | hmem
      · exact hdot (mem_lowercase (by decide) hmem)
      · exact hbracket (mem_lowercase (by decide) hmem)

/-- An entry that gives each setting a value that it can take, or none. What an entry may be that
concerns no setting is left open. -/
structure ProperEntry (entry : String × Given) : Prop where
  /-- No member of a setting and no item of one is set. -/
  whole : ∀ s : Setting, Text.lowercase (sourcePath entry.1).head = s.key →
    (sourcePath entry.1).steps = []
  taken : ∀ s : Setting, ∀ g ∈ s.given? entry, (s.convert g).isOk

instance (entry : String × Given) : Decidable (ProperEntry entry) :=
  decidable_of_iff
    ((∀ s : Setting, Text.lowercase (sourcePath entry.1).head = s.key →
        (sourcePath entry.1).steps = []) ∧
      ∀ s : Setting, ∀ g ∈ s.given? entry, (s.convert g).isOk)
    ⟨fun h => ⟨h.1, h.2⟩, fun h => ⟨h.1, h.2⟩⟩

namespace Slots
variable {s : Setting}

def given? (slots : Slots) (s : Setting) : Option Given :=
  (slots.lookup s.key).map Slot.given

private theorem lookup_put (name key : String) (slot : Slot) (slots : Slots) :
    (slots.put name slot).lookup key =
      if Text.lowercase name = key then some slot else slots.lookup key := by
  rw [put, List.lookup_cons]
  by_cases h : Text.lowercase name = key
  · simp [h]
  · rw [beq_eq_false_iff_ne.2 (Ne.symm h), if_neg h]

private theorem given?_put (name : String) (slot : Slot) (slots : Slots) :
    (slots.put name slot).given? s =
      if Text.lowercase name = s.key then some slot.given else slots.given? s := by
  rw [given?, lookup_put]
  split <;> rfl

/-- A path that begins elsewhere does not concern a key. -/
theorem lookup_setPath_of_ne {path : KeyPath} {key : String}
    (hhead : Text.lowercase path.head ≠ key) (slot : Slot) (slots : Slots) :
    (slots.setPath path slot).lookup key = slots.lookup key := by
  rw [setPath]
  split
  · rw [lookup_put, if_neg hhead]
  · rw [lookup_put, if_neg hhead]
  · split
    · rfl
    · rw [lookup_put, if_neg hhead]

def setOverride (slots : Slots) (o : KeyPath × Given) : Slots :=
  slots.setPath o.1 ⟨o.2, none⟩

def setVariable (slots : Slots) (v : String × String) : Slots :=
  match Environment.key? v.1 with
  | some key => slots.setPath (sourcePath key) ⟨Environment.given v.2, some "the environment"⟩
  | none => slots

/-- What is set elsewhere before does not matter to a key. -/
theorem lookup_setPath_congr {slots slots' : Slots} {key : String}
    (h : slots.lookup key = slots'.lookup key) (path : KeyPath) (slot : Slot) :
    (slots.setPath path slot).lookup key = (slots'.setPath path slot).lookup key := by
  by_cases hhead : Text.lowercase path.head = key
  · subst hhead
    simp only [setPath, h]
    split
    · simp only [lookup_put, if_true]
    · simp only [lookup_put, if_true]
    · split
      · exact h
      · simp only [lookup_put, if_true]
  · rw [lookup_setPath_of_ne hhead, lookup_setPath_of_ne hhead, h]

private theorem given?_setPath_of_ne {path : KeyPath} (hhead : Text.lowercase path.head ≠ s.key)
    (slot : Slot) (slots : Slots) : (slots.setPath path slot).given? s = slots.given? s := by
  rw [given?, lookup_setPath_of_ne hhead, given?]

theorem given?_setPath_single (name : String) (slot : Slot) (slots : Slots) :
    (slots.setPath (.single name) slot).given? s =
      if Text.lowercase name = s.key then some slot.given else slots.given? s := by
  simp only [setPath, KeyPath.single, given?_put]
  split
  · split
    · rename_i htable
      rw [htable]
    · rfl
  · rfl

/-- A proper entry sets what it gives and nothing else. -/
theorem given?_setPath {entry : String × Given} (hentry : ProperEntry entry)
    (origin : Option String) (slots : Slots) :
    (slots.setPath (sourcePath entry.1) ⟨entry.2, origin⟩).given? s =
      (s.given? entry).or (slots.given? s) := by
  rw [Setting.given?]
  by_cases hsteps : (sourcePath entry.1).steps = []
  · rw [sourcePath_eq_single hsteps, given?_setPath_single]
    split
    · rw [Option.some_or]
    · rw [Option.none_or]
  · rw [given?_setPath_of_ne fun hhead => hsteps (hentry.whole s hhead),
      if_neg fun hkey => hsteps (steps_sourcePath hkey), Option.none_or]

end Slots

/-- What a member of a document gives. An empty table gives what any table does: nothing that a
setting could take. -/
def memberEntry (member : String × Toml.Value) : String × Given :=
  (member.1, (Given.ofToml? member.2).getD .table)

private theorem Setting.not_isOk_convert_table (s : Setting) : ¬ (s.convert .table).isOk := by
  cases s <;> decide

namespace Slots
variable {s : Setting}

theorem given?_setMember {member : String × Toml.Value} (hentry : ProperEntry (memberEntry member))
    (origin : String) (slots : Slots) :
    (slots.setMember origin member).given? s =
      (s.given? (memberEntry member)).or (slots.given? s) := by
  have hset (o : Option String) := given?_setPath hentry (s := s) o slots
  rw [setMember]
  cases hgiven : Given.ofToml? member.2 with
  | some g => simpa [memberEntry, hgiven] using hset (some origin)
  | none =>
    have htable : memberEntry member = (member.1, .table) := by rw [memberEntry, hgiven]; rfl
    rw [htable] at hentry hset ⊢
    by_cases hsteps : (sourcePath member.1).steps = []
    · -- Nothing is set, and the entry is for no setting, for none takes a table.
      have hnone : s.given? (member.1, .table) = none := by
        rw [Setting.given?]
        split
        · rename_i hkey
          exact absurd (hentry.taken s .table (if_pos hkey)) s.not_isOk_convert_table
        · rfl
      simp [hsteps, hnone]
    · simpa [hsteps] using hset none

end Slots

namespace Slots
variable {slots slots' : Slots} {s : Setting}

def settings (slots : Slots) : Except SettingsError Settings := do
  let setting (s : Setting) := SettingsLoader.setting slots s.key s.convert
  return {
    rootType := ← setting .rootType
    skipUnknownSections := ← setting .skipUnknownSections
    maxErrors := ← setting .maxErrors }

theorem setting_eq_ok {g : Given} {x : s.Value} (hgiven : slots.given? s = some g)
    (hx : s.convert g = .ok x) : SettingsLoader.setting slots s.key s.convert = .ok x := by
  obtain ⟨slot, hslot, rfl⟩ := Option.map_eq_some_iff.1 hgiven
  rw [SettingsLoader.setting, hslot]
  simp only [Option.getD_some, hx]
  rfl

theorem settings_congr (h : ∀ s : Setting, SettingsLoader.setting slots s.key s.convert =
      SettingsLoader.setting slots' s.key s.convert) : slots.settings = slots'.settings := by
  simp only [settings, h]

theorem settings_eq_ok {c : Settings}
    (h : ∀ s : Setting, SettingsLoader.setting slots s.key s.convert = .ok (s.value c)) :
    slots.settings = .ok c := by
  simp only [settings, h]
  rfl

end Slots

theorem SettingsLoader.build_eq (l : SettingsLoader) (files : Files)
    (env : List (String × String)) :
    l.build files env = (l.sources.foldlM (layer files env) standardSlots >>= fun layered =>
      (l.overrides.foldl Slots.setOverride layered).settings) :=
  rfl

theorem SettingsLoader.layer_environment (files : Files) (env : List (String × String))
    (slots : Slots) :
    layer files env slots .environment = .ok (env.foldl Slots.setVariable slots) :=
  rfl

section Fold
variable {α β ε : Type}

private theorem getLast?_filterMap_cons_or (f : α → Option β) (x : α) (xs : List α) (o : Option β) :
    ((x :: xs).filterMap f).getLast?.or o = (xs.filterMap f).getLast?.or ((f x).or o) := by
  cases hx : f x with
  | none => simp [hx]
  | some y => cases h : (xs.filterMap f).getLast? <;> simp [hx, List.getLast?_cons, h]

theorem getLast?_filterMap_singleton (f : α → Option β) (x : α) :
    ([x].filterMap f).getLast? = f x := by
  cases h : f x <;> simp [h]

variable {f : Setting → α → Option Given}

theorem Slots.given?_foldl {step : Slots → α → Slots} {xs : List α} {s : Setting}
    (hstep : ∀ x ∈ xs, ∀ slots, (step slots x).given? s = (f s x).or (slots.given? s))
    (slots : Slots) :
    (xs.foldl step slots).given? s = (xs.filterMap (f s)).getLast?.or (slots.given? s) := by
  induction xs generalizing slots with
  | nil => rfl
  | cons x xs ih =>
    obtain ⟨hx, hxs⟩ := List.forall_mem_cons.1 hstep
    rw [List.foldl_cons, ih hxs, hx, getLast?_filterMap_cons_or]

/-- The same, if each step may fail but does not. -/
theorem Slots.given?_foldlM {step : Slots → α → Except ε Slots} {xs : List α}
    (hstep : ∀ x ∈ xs, ∀ slots, ∃ slots', step slots x = .ok slots' ∧
      ∀ s, slots'.given? s = (f s x).or (slots.given? s))
    (slots : Slots) :
    ∃ slots', xs.foldlM step slots = .ok slots' ∧
      ∀ s, slots'.given? s = (xs.filterMap (f s)).getLast?.or (slots.given? s) := by
  induction xs generalizing slots with
  | nil => exact ⟨slots, rfl, fun _ => rfl⟩
  | cons x xs ih =>
    obtain ⟨hx, hxs⟩ := List.forall_mem_cons.1 hstep
    obtain ⟨mid, hmid, hgiven⟩ := hx slots
    obtain ⟨slots', hslots', hlast⟩ := ih hxs mid
    refine ⟨slots', ?_, fun s => ?_⟩
    · rw [List.foldlM_cons, hmid]
      exact hslots'
    · rw [hlast, hgiven, getLast?_filterMap_cons_or]

end Fold
end PlanningDomain
