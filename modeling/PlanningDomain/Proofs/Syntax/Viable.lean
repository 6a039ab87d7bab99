import Mathlib.Computability.MyhillNerode
import PlanningDomain.Token

/-! Beginnings of words. Main statements: which tokens begin a word of a sum, a product or a
repetition; and when a word of a product can be cut in one way only, in front of a token that the
first part cannot take. -/
namespace PlanningDomain

open scoped Computability

def Viable (l : Language Token) (ts : List Token) : Prop := ∃ more, ts ++ more ∈ l

section Viable
variable {l m : Language Token} {ts us : List Token}

theorem viable_of_mem (h : ts ∈ l) : Viable l ts := ⟨[], by rwa [List.append_nil]⟩

theorem Viable.of_append (h : Viable l (ts ++ us)) : Viable l ts := by
  obtain ⟨more, hmore⟩ := h
  exact ⟨us ++ more, by rwa [← List.append_assoc]⟩

theorem Viable.head {t : Token} (h : Viable l (t :: ts)) : Viable l [t] :=
  (show Viable l ([t] ++ ts) from h).of_append

private theorem Viable.nil (h : Viable l ts) : Viable l [] :=
  (show Viable l ([] ++ ts) from h).of_append

theorem Viable.mono (hlm : ∀ w ∈ l, w ∈ m) (h : Viable l ts) : Viable m ts := by
  obtain ⟨more, hmore⟩ := h
  exact ⟨more, hlm _ hmore⟩

theorem viable_add_iff : Viable (l + m) ts ↔ Viable l ts ∨ Viable m ts := by
  simp only [Viable, Language.mem_add, exists_or]

theorem viable_leftQuotient_iff {w : List Token} :
    Viable (l.leftQuotient w) ts ↔ Viable l (w ++ ts) := by
  simp only [Viable, Language.mem_leftQuotient, List.append_assoc]

theorem viable_one_iff : Viable 1 ts ↔ ts = [] := by
  simp [Viable, Language.mem_one]

theorem viable_mul_of_mem (hts : ts ∈ l) (hus : Viable m us) : Viable (l * m) (ts ++ us) := by
  obtain ⟨more, hmore⟩ := hus
  exact ⟨more, by rw [List.append_assoc]; exact Language.append_mem_mul hts hmore⟩

theorem Viable.mul_right (h : Viable l ts) (hm : Viable m []) : Viable (l * m) ts := by
  obtain ⟨more, hmore⟩ := h
  exact (viable_mul_of_mem hmore hm).of_append.of_append

/-- What begins a word of a product begins a word of its first factor, or goes on behind one. -/
theorem Viable.of_mul (h : Viable (l * m) ts) :
    Viable l ts ∨ ∃ a b, ts = a ++ b ∧ a ∈ l ∧ Viable m b := by
  obtain ⟨more, hmore⟩ := h
  obtain ⟨a, ha, b, hb, heq⟩ := Language.mem_mul.1 hmore
  rcases List.append_eq_append_iff.1 heq with ⟨c, rfl, rfl⟩ | ⟨c, rfl, rfl⟩
  · exact .inr ⟨a, c, rfl, ha, more, hb⟩
  · exact .inl ⟨c, ha⟩

theorem viable_nil_mul_iff : Viable (l * m) [] ↔ Viable l [] ∧ Viable m [] := by
  constructor
  · rintro ⟨more, hmore⟩
    obtain ⟨a, ha, b, hb, -⟩ := Language.mem_mul.1 hmore
    exact ⟨⟨a, ha⟩, b, hb⟩
  · rintro ⟨hl, hm⟩
    exact hl.mul_right hm

theorem viable_nil_kstar : Viable l∗ [] := viable_of_mem (Language.nil_mem_kstar l)

theorem mem_kstar_iff : ts ∈ l∗ ↔ ts = [] ∨ ts ∈ l * l∗ := by
  rw [← Language.mem_one, ← Language.mem_add, Language.one_add_self_mul_kstar_eq_kstar]

theorem viable_kstar_iff (hne : ts ≠ []) : Viable l∗ ts ↔ Viable (l * l∗) ts := by
  simp [Viable, mem_kstar_iff, hne]

end Viable

/-- Behind a word, the token cannot go on with a word. -/
def Stops (l : Language Token) (t : Token) : Prop := ∀ w ∈ l, ¬ Viable l (w ++ [t])

def PrefixFree (l : Language Token) : Prop := ∀ t, Stops l t

structure Apart (l m : Language Token) : Prop where
  left : ∀ w ∈ l, ¬ Viable m w
  right : ∀ w ∈ m, ¬ Viable l w

/-- A cut of tokens behind a word of the first language, which the next token does not go on with.
-/
structure CutsClean (l : Language Token) (ts a b : List Token) : Prop where
  eq : ts = a ++ b
  mem : a ∈ l
  stops : ∀ t ∈ b.head?, ¬ Viable l (a ++ [t])

/-- Every word of the product can be cut clean into words of its factors. -/
def Separates (l m : Language Token) : Prop := ∀ ts ∈ l * m, ∃ a b, CutsClean l ts a b ∧ b ∈ m

section Cuts
variable {l m p : Language Token} {t : Token} {w x a b : List Token}

/-- A clean cut of tokens that start with a word is not within that word. -/
theorem CutsClean.exists_append (h : CutsClean l (w ++ x) a b) (hw : w ∈ l) :
    ∃ c, a = w ++ c ∧ x = c ++ b := by
  rcases List.append_eq_append_iff.1 h.eq with ⟨c, ha, hx⟩ | ⟨c, hw', hb⟩
  · exact ⟨c, ha, hx⟩
  · cases c with
    | nil => exact ⟨[], by simpa using hw'.symm, by simpa using hb.symm⟩
    | cons t c =>
      have hnext : Viable l (a ++ [t]) := ⟨c, by rw [List.append_assoc]; exact hw' ▸ hw⟩
      exact absurd hnext (h.stops t (by simp [hb]))

theorem Separates.viable (h : Separates l m) {ts : List Token} (hts : Viable (l * m) ts) :
    Viable l ts ∨ ∃ a b, CutsClean l ts a b ∧ Viable m b := by
  obtain ⟨more, hmore⟩ := hts
  obtain ⟨a, b, hcut, hb⟩ := h _ hmore
  rcases List.append_eq_append_iff.1 hcut.eq with ⟨c, rfl, -⟩ | ⟨c, rfl, rfl⟩
  · exact .inl ⟨c, hcut.mem⟩
  · refine .inr ⟨a, c, ⟨rfl, hcut.mem, fun t ht => hcut.stops t ?_⟩, more, hb⟩
    obtain ⟨c, rfl⟩ := List.head?_eq_some_iff.1 ht
    rfl

theorem Separates.of_stops (h : ∀ t, Viable m [t] → Stops l t) : Separates l m := by
  intro ts hts
  obtain ⟨a, ha, b, hb, rfl⟩ := Language.mem_mul.1 hts
  refine ⟨a, b, ⟨rfl, ha, fun t ht => ?_⟩, hb⟩
  obtain ⟨b, rfl⟩ := List.head?_eq_some_iff.1 ht
  exact h t (viable_of_mem hb).head a ha

theorem PrefixFree.separates (h : PrefixFree l) (m : Language Token) : Separates l m :=
  .of_stops fun t _ => h t

/-- Behind a word that cannot go on, only the second factor is left. -/
theorem Separates.viable_right (h : Separates l m) (hw : w ∈ l)
    (hx : ∀ t ∈ x.head?, ¬ Viable l (w ++ [t])) (hv : Viable (l * m) (w ++ x)) : Viable m x := by
  have hcons {t : Token} {x : List Token} : ¬ Viable l (w ++ [t]) → ¬ Viable l (w ++ t :: x) := by
    intro hstop hv
    rw [List.append_cons] at hv
    exact hstop hv.of_append
  rcases h.viable hv with hl | ⟨a, b, hcut, hb⟩
  · cases x with
    | nil => exact (viable_nil_mul_iff.1 hv.nil).2
    | cons t x => exact absurd hl (hcons (hx t rfl))
  · obtain ⟨c, rfl, rfl⟩ := hcut.exists_append hw
    cases c with
    | nil => exact hb
    | cons t c => exact absurd (viable_of_mem hcut.mem) (hcons (hx t rfl))

private theorem PrefixFree.viable_right (h : PrefixFree l) (hw : w ∈ l)
    (hv : Viable (l * m) (w ++ x)) :
    Viable m x :=
  (h.separates m).viable_right hw (fun t _ => h t w hw) hv

theorem stops_of_forall_not_mem (h : ∀ w ∈ l, t ∉ w) : Stops l t := by
  rintro w - ⟨more, hmore⟩
  exact h _ hmore (by simp)

private theorem Viable.of_kstar (h : Viable l∗ [t]) : Viable l [t] := by
  obtain ⟨more, hmore⟩ := h
  obtain ⟨ws, hws, hmem⟩ := Language.mem_kstar_iff_exists_nonempty.1 hmore
  cases ws with
  | nil => cases hws
  | cons w ws =>
    obtain ⟨hw, hne⟩ := hmem w List.mem_cons_self
    obtain ⟨u, w, rfl⟩ := List.exists_cons_of_ne_nil hne
    obtain rfl : t = u := (List.cons.inj hws).1
    exact (viable_of_mem hw).head

theorem PrefixFree.stops_kstar (h : PrefixFree l) (ht : ¬ Viable l [t]) : Stops l∗ t := by
  intro w hw hv
  obtain ⟨ws, rfl, hws⟩ := Language.mem_kstar.1 hw
  clear hw
  induction ws with
  | nil => exact ht hv.of_kstar
  | cons w ws ih =>
    rw [List.flatten_cons, List.append_assoc, viable_kstar_iff (by simp)] at hv
    exact ih (fun v hv => hws v (List.mem_cons_of_mem _ hv))
      (h.viable_right (hws w List.mem_cons_self) hv)

/-- A repetition can be cut clean if a word takes whatever word stands behind it, whenever it can
take the first token of that. -/
theorem separates_kstar (hnil : [] ∉ l)
    (habsorb : ∀ a ∈ l, ∀ t b, Viable l (a ++ [t]) → t :: b ∈ l → a ++ t :: b ∈ l) :
    Separates l l∗ := by
  intro ts hts
  obtain ⟨a, ha, b, hb, rfl⟩ := Language.mem_mul.1 hts
  clear hts
  obtain ⟨ws, rfl, hws⟩ := Language.mem_kstar.1 hb
  clear hb
  induction ws generalizing a with
  | nil => exact ⟨a, [], ⟨rfl, ha, by simp⟩, Language.nil_mem_kstar l⟩
  | cons w ws ih =>
    have hw := hws w List.mem_cons_self
    have hrest : ∀ v ∈ ws, v ∈ l := fun v hv => hws v (List.mem_cons_of_mem _ hv)
    obtain ⟨t, w, rfl⟩ := List.exists_cons_of_ne_nil (ne_of_mem_of_not_mem hw hnil)
    by_cases ht : Viable l (a ++ [t])
    · rw [List.flatten_cons, ← List.append_assoc]
      exact ih _ (habsorb a ha t w ht hw) hrest
    · refine ⟨a, _, ⟨rfl, ha, fun u hu => ?_⟩, Language.join_mem_kstar hws⟩
      obtain rfl : t = u := Option.some.inj hu
      exact ht

theorem Stops.mul (hl : PrefixFree l) (h : Stops m t) : Stops (l * m) t := by
  intro w hw hv
  obtain ⟨a, ha, b, hb, rfl⟩ := Language.mem_mul.1 hw
  rw [List.append_assoc] at hv
  exact h b hb (hl.viable_right ha hv)

theorem PrefixFree.mul (hl : PrefixFree l) (hm : PrefixFree m) : PrefixFree (l * m) :=
  fun t => (hm t).mul hl

theorem PrefixFree.add (hl : PrefixFree l) (hm : PrefixFree m) (h : Apart l m) :
    PrefixFree (l + m) := by
  intro t w hw hv
  rcases hw with hw | hw
  · rcases viable_add_iff.1 hv with hv | hv
    · exact hl t w hw hv
    · exact h.left w hw hv.of_append
  · rcases viable_add_iff.1 hv with hv | hv
    · exact h.right w hw hv.of_append
    · exact hm t w hw hv

theorem Apart.symm (h : Apart l m) : Apart m l := ⟨h.right, h.left⟩

theorem Apart.add_left {n : Language Token} (hl : Apart l n) (hm : Apart m n) :
    Apart (l + m) n where
  left w hw := hw.elim (hl.left w) (hm.left w)
  right w hw hv := (viable_add_iff.1 hv).elim (hl.right w hw) (hm.right w hw)

/-- Languages that go apart behind the same beginning. -/
theorem Apart.mul (hp : PrefixFree p) (h : Apart l m) : Apart (p * l) (p * m) where
  left w hw hv := by
    obtain ⟨a, ha, b, hb, rfl⟩ := Language.mem_mul.1 hw
    exact h.left b hb (hp.viable_right ha hv)
  right w hw hv := by
    obtain ⟨a, ha, b, hb, rfl⟩ := Language.mem_mul.1 hw
    exact h.right b hb (hp.viable_right ha hv)

end Cuts

def single (kind : Token → Prop) : Language Token := {ts | ∃ t, kind t ∧ ts = [t]}

def within (l : Language Token) : Language Token :=
  single (· = .openParen) * (l * single (· = .closeParen))

section Single
variable {l m : Language Token} {kind : Token → Prop} {t : Token} {ts : List Token}

theorem mem_single_mul_iff : ts ∈ single kind * l ↔ ∃ t us, kind t ∧ us ∈ l ∧ ts = t :: us := by
  rw [Language.mem_mul]
  constructor
  · rintro ⟨_, ⟨t, ht, rfl⟩, us, hus, rfl⟩
    exact ⟨t, us, ht, hus, rfl⟩
  · rintro ⟨t, us, ht, hus, rfl⟩
    exact ⟨[t], ⟨t, ht, rfl⟩, us, hus, rfl⟩

theorem viable_single_iff : Viable (single kind) [t] ↔ kind t := by
  constructor
  · rintro ⟨more, u, hu, heq⟩
    obtain rfl : t = u := (List.cons.inj heq).1
    exact hu
  · exact fun h => viable_of_mem ⟨t, h, rfl⟩

theorem prefixFree_single : PrefixFree (single kind) := by
  rintro t _ ⟨u, hu, rfl⟩ ⟨more, v, hv, heq⟩
  simp at heq

/-- Behind a single token that stops a language, nothing goes on. -/
theorem PrefixFree.mul_single (h : Stops l t) : PrefixFree (l * single (· = t)) := by
  intro u w hw hv
  have hsep : Separates l (single (· = t)) :=
    .of_stops fun v hv => by rw [viable_single_iff.1 hv]; exact h
  obtain ⟨a, ha, _, ⟨s, rfl, rfl⟩, rfl⟩ := Language.mem_mul.1 hw
  rw [List.append_assoc] at hv
  have hstop : ∀ v ∈ ([s] ++ [u]).head?, ¬ Viable l (a ++ [v]) := by
    intro v hv
    obtain rfl := Option.some.inj hv
    exact h a ha
  obtain ⟨more, v, -, heq⟩ := hsep.viable_right ha hstop hv
  simp at heq

theorem viable_nil_single (h : kind t) : Viable (single kind) [] := ⟨[t], t, h, rfl⟩

end Single

/-- Every word starts with a token of the kind; there is no empty word. -/
def Begins (l : Language Token) (kind : Token → Prop) : Prop := ∀ w ∈ l, ∃ t ∈ w.head?, kind t

section Begins
variable {l m : Language Token} {kind other : Token → Prop}

theorem Begins.nil_not_mem (h : Begins l kind) : [] ∉ l := by
  intro hnil
  obtain ⟨t, ht, -⟩ := h _ hnil
  cases ht

theorem Begins.of_viable (h : Begins l kind) {t : Token} (hv : Viable l [t]) : kind t := by
  obtain ⟨more, hmore⟩ := hv
  obtain ⟨u, hu, hkind⟩ := h _ hmore
  obtain rfl : t = u := Option.some.inj hu
  exact hkind

theorem begins_single : Begins (single kind) kind := by
  rintro _ ⟨t, ht, rfl⟩
  exact ⟨t, rfl, ht⟩

private theorem Begins.mono (h : Begins l kind) (hk : ∀ t, kind t → other t) : Begins l other := by
  intro w hw
  obtain ⟨t, ht, hkind⟩ := h w hw
  exact ⟨t, ht, hk t hkind⟩

theorem Begins.mul (h : Begins l kind) (m : Language Token) : Begins (l * m) kind := by
  intro w hw
  obtain ⟨a, ha, b, -, rfl⟩ := Language.mem_mul.1 hw
  obtain ⟨t, ht, hkind⟩ := h a ha
  exact ⟨t, by rw [List.head?_append, ht]; rfl, hkind⟩

theorem Begins.add (hl : Begins l kind) (hm : Begins m kind) : Begins (l + m) kind :=
  fun w hw => hw.elim (hl w) (hm w)

theorem begins_within : Begins (within l) (· = .openParen) := begins_single.mul _

theorem Begins.kstar_mul (hl : Begins l kind) (hm : Begins m other) :
    Begins (l∗ * m) fun t => kind t ∨ other t := by
  rw [← Language.one_add_self_mul_kstar_eq_kstar, add_mul, one_mul, mul_assoc]
  exact (hm.mono fun _ => .inr).add ((hl.mul _).mono fun _ => .inl)

/-- No two words start with the same token. -/
theorem Apart.of_begins (hl : Begins l kind) (hm : Begins m other)
    (h : ∀ t, kind t → ¬ other t) : Apart l m where
  left w hw hv := by
    obtain ⟨t, ht, hkind⟩ := hl w hw
    obtain ⟨w, rfl⟩ := List.head?_eq_some_iff.1 ht
    exact h t hkind (hm.of_viable hv.head)
  right w hw hv := by
    obtain ⟨t, ht, hkind⟩ := hm w hw
    obtain ⟨w, rfl⟩ := List.head?_eq_some_iff.1 ht
    exact h t (hl.of_viable hv.head) hkind

/-- Behind their parenthesis, the words go apart. -/
theorem Apart.within (h : Apart (l * single (· = .closeParen)) (m * single (· = .closeParen))) :
    Apart (within l) (within m) :=
  .mul prefixFree_single h

end Begins
end PlanningDomain
