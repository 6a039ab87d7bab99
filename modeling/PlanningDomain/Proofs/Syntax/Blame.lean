import PlanningDomain.Proofs.Syntax.Viable
import PlanningDomain.Syntax.Reader

/-! What a failure says. A failure is right for a language if it blames the first token that makes
the tokens hopeless, or the end of tokens that could go on, and if a label that it names is that of
exactly the tokens that could stand there. Main statement: of two failures that are right for two
languages, the further one is right for both together. -/
namespace PlanningDomain

/-- A diagnostic calls tokens of one kind by its label, and flags by a second name. -/
def Token.CalledBy (t : Token) (text : String) : Prop :=
  t.label = text ∨ text = "requirement flag" ∧ ∃ word, t = .keyword word

def IsTokenLabel (text : String) : Prop := ∃ t : Token, t.CalledBy text

def Token.ofEachKind : List Token :=
  [openParen, closeParen, dash, define, domain, not, and, requirements, types, predicates, task,
    method, parameters, orderedSubtasks, unorderedSubtasks, keyword "", var "", name ""]

private theorem Token.label_mem_ofEachKind (t : Token) : t.label ∈ ofEachKind.map label := by
  cases t <;> simp [ofEachKind, label]

private theorem isTokenLabel_iff {text : String} :
    IsTokenLabel text ↔ text ∈ Token.ofEachKind.map Token.label ∨ text = "requirement flag" := by
  constructor
  · rintro ⟨t, rfl | ⟨rfl, -⟩⟩
    · exact .inl t.label_mem_ofEachKind
    · exact .inr rfl
  · rintro (h | rfl)
    · obtain ⟨t, -, rfl⟩ := List.mem_map.1 h
      exact ⟨t, .inl rfl⟩
    · exact ⟨.keyword "", .inr ⟨rfl, "", rfl⟩⟩

instance : DecidablePred IsTokenLabel := fun _ => decidable_of_iff _ isTokenLabel_iff.symm

/-- What an expectation says of the tokens that may come next: without a name there are none, and a
token label names them all. Names of other things say nothing here. -/
def Expectation.Names (next : Token → Prop) : Expectation → Prop
  | unnamed => ∀ t, ¬ next t
  | label text => IsTokenLabel text → ∀ t, next t ↔ t.CalledBy text
  | several => True

section Names
variable {p q : Token → Prop} {e f : Expectation}

private theorem Expectation.Names.congr (h : e.Names p) (hpq : ∀ t, p t ↔ q t) : e.Names q := by
  rwa [← funext fun t => propext (hpq t)]

private theorem Expectation.Names.merge (he : e.Names p) (hf : f.Names q) :
    (e.merge f).Names fun t => p t ∨ q t := by
  cases e with
  | unnamed => exact hf.congr fun t => by simp [he t]
  | several => cases f <;> trivial
  | label a =>
    cases f with
    | unnamed => exact he.congr fun t => by simp [hf t]
    | several => trivial
    | label b =>
      by_cases hab : a = b
      · subst hab
        rw [Expectation.merge, if_pos rfl]
        exact fun ha t => by simp only [he ha t, hf ha t, or_self]
      · rw [Expectation.merge, if_neg hab]
        trivial

private theorem Expectation.Names.named (he : e.Names p) {text : String} (h : ¬ IsTokenLabel text) :
    (e.named text).Names p := by
  cases e with
  | label a => exact he
  | unnamed => exact fun hlabel => absurd hlabel h
  | several => exact fun hlabel => absurd hlabel h

end Names

/-- A failure behind `front`, in front of `back`. -/
structure BlamesAt (l : Language Token) (front back : List Token) (why : Failure) : Prop where
  left_eq : why.left = back.length
  viable : Viable l front
  hopeless : ∀ t ∈ back.head?, ¬ Viable l (front ++ [t])
  names : why.expectation.Names fun t => Viable l (front ++ [t])

/-- The failure blames one of the tokens, or their end, and rightly so. -/
def Blames (l : Language Token) (ts : List Token) (why : Failure) : Prop :=
  ∃ front back, ts = front ++ back ∧ BlamesAt l front back why

section Blames
variable {l m : Language Token} {ts us front back : List Token} {e f : Failure}

private theorem BlamesAt.congr {front' : List Token} (h : BlamesAt l front back e)
    (hfront : Viable m front')
    (hnext : ∀ t, Viable l (front ++ [t]) ↔ Viable m (front' ++ [t])) :
    BlamesAt m front' back e where
  left_eq := h.left_eq
  viable := hfront
  hopeless t ht := (hnext t).not.1 (h.hopeless t ht)
  names := h.names.congr hnext

private theorem Blames.left_le (h : Blames l ts e) : e.left ≤ ts.length := by
  obtain ⟨front, back, rfl, h⟩ := h
  rw [h.left_eq, List.length_append]
  omega

theorem Blames.named (h : Blames l ts e) {text : String} (htext : ¬ IsTokenLabel text) :
    Blames l ts (e.named text) := by
  obtain ⟨front, back, rfl, h⟩ := h
  exact ⟨front, back, rfl, h.left_eq, h.viable, h.hopeless, h.names.named htext⟩

/-- Beyond the token that is blamed, nothing is viable. -/
private theorem BlamesAt.not_viable {front' back' : List Token} (h : BlamesAt l front back e)
    (heq : front ++ back = front' ++ back') (hlt : back'.length < back.length) :
    ¬ Viable l (front' ++ us) := by
  rcases List.append_eq_append_iff.1 heq with ⟨c, rfl, rfl⟩ | ⟨c, -, rfl⟩
  · cases c with
    | nil => simp at hlt
    | cons t c =>
      intro hv
      rw [List.append_cons, List.append_assoc] at hv
      exact h.hopeless t rfl hv.of_append
  · rw [List.length_append] at hlt
    omega

/-- The other language adds nothing where it has no next token. -/
private theorem BlamesAt.add_right (h : BlamesAt l front back e)
    (hm : ∀ t, ¬ Viable m (front ++ [t])) : BlamesAt (l + m) front back e :=
  h.congr (viable_add_iff.2 (.inl h.viable)) fun t => by
    rw [viable_add_iff, or_iff_left (hm t)]

/-- Of two failures on the same tokens, the further is right of both languages together. -/
theorem Blames.further (he : Blames l ts e) (hf : Blames m ts f) :
    Blames (l + m) ts (e.further f) := by
  obtain ⟨front, back, rfl, he⟩ := he
  obtain ⟨front', back', heq, hf⟩ := hf
  rw [Failure.further, he.left_eq, hf.left_eq]
  split
  · rename_i hlt
    exact ⟨front, back, rfl, he.add_right fun t => hf.not_viable heq.symm hlt⟩
  split
  · rename_i hlt
    rw [add_comm]
    exact ⟨front', back', heq, hf.add_right fun t => he.not_viable heq hlt⟩
  · obtain ⟨rfl, rfl⟩ := List.append_inj' heq (by omega)
    refine ⟨front, back, rfl, rfl, viable_add_iff.2 (.inl he.viable), fun t ht => ?_, ?_⟩
    · rw [viable_add_iff]
      exact not_or.2 ⟨he.hopeless t ht, hf.hopeless t ht⟩
    · exact (he.names.merge hf.names).congr fun t => viable_add_iff.symm

theorem Blames.add_right (h : Blames l ts e) (hm : ∀ t, ¬ Viable m [t]) :
    Blames (l + m) ts e := by
  obtain ⟨front, back, rfl, h⟩ := h
  refine ⟨front, back, rfl, h.add_right fun t hv => ?_⟩
  cases front with
  | nil => exact hm t hv
  | cons u front => exact hm u hv.head

theorem Blames.leftQuotient {w : List Token} (h : Blames (l.leftQuotient w) ts e) :
    Blames l (w ++ ts) e := by
  obtain ⟨front, back, rfl, h⟩ := h
  refine ⟨w ++ front, back, (List.append_assoc ..).symm, h.congr ?_ fun t => ?_⟩
  · exact viable_leftQuotient_iff.1 h.viable
  · rw [viable_leftQuotient_iff, List.append_assoc]

/-- Languages with the same words from here on have the same failures. -/
theorem Blames.congr (h : Blames l ts e) (hfront : ∀ front, Viable l front → Viable m front)
    (hnext : ∀ front, front <+: ts → ∀ t, Viable l (front ++ [t]) ↔ Viable m (front ++ [t])) :
    Blames m ts e := by
  obtain ⟨front, back, rfl, h⟩ := h
  exact ⟨front, back, rfl, h.congr (hfront front h.viable) (hnext front (List.prefix_append ..))⟩

end Blames

/-- What a reader passed on its way to `ts` says of the language of what may follow: it blames one
of these tokens, or it stays behind them and nothing may follow. -/
inductive Passes (l : Language Token) (ts : List Token) : Option Failure → Prop
  | here {why : Failure} (h : Blames l ts why) : Passes l ts (some why)
  | behind {passed : Option Failure} (h : ∀ why ∈ passed, ts.length < why.left)
      (hnext : ∀ t, ¬ Viable l [t]) : Passes l ts passed

section Passes
variable {l m : Language Token} {ts us : List Token} {p q : Option Failure} {e : Failure}

/-- A failure that stays behind the tokens is never the further one. -/
private theorem further_eq_of_lt {e f : Failure} (he : e.left ≤ ts.length)
    (hf : ts.length < f.left) : e.further f = e ∧ f.further e = e := by
  have hlt : e.left < f.left := by omega
  simp [Failure.further, hlt, Nat.lt_asymm hlt]

theorem Blames.orPassed (he : Blames l ts e) (hp : Passes m ts p) :
    Blames (l + m) ts (e.orPassed p) := by
  cases hp with
  | here hf => exact he.further hf
  | behind hlt hnext =>
    cases p with
    | none => exact he.add_right hnext
    | some f =>
      rw [Failure.orPassed, (further_eq_of_lt he.left_le (hlt f rfl)).1]
      exact he.add_right hnext

theorem Passes.furthest (hp : Passes l ts p) (hq : Passes m ts q) :
    Passes (l + m) ts (Failure.furthest p q) := by
  cases hp with
  | here he => exact .here (he.orPassed hq)
  | behind hlt hnext =>
    cases hq with
    | here hf =>
      rw [add_comm]
      cases p with
      | none => exact .here (hf.add_right hnext)
      | some e =>
        rw [Failure.furthest, Failure.orPassed, (further_eq_of_lt hf.left_le (hlt e rfl)).2]
        exact .here (hf.add_right hnext)
    | behind hlt' hnext' =>
      refine .behind (fun why hwhy => ?_) fun t ht => ?_
      · cases p with
        | none => exact hlt' why hwhy
        | some e =>
          obtain rfl := Option.some.inj hwhy
          have he := hlt e rfl
          cases q with
          | none => exact he
          | some f =>
            have hf := hlt' f rfl
            rw [Failure.orPassed, Failure.further]
            split
            · exact he
            split
            · exact hf
            · exact he
      · exact (viable_add_iff.1 ht).elim (hnext t) (hnext' t)

theorem Passes.named (h : Passes l ts p) {text : String} (htext : ¬ IsTokenLabel text) :
    Passes l ts (p.map (Failure.named text)) := by
  cases h with
  | here h => exact .here (h.named htext)
  | behind hlt hnext =>
    refine .behind (fun why hwhy => ?_) hnext
    obtain ⟨f, hf, rfl⟩ := Option.map_eq_some_iff.1 hwhy
    exact hlt f hf

theorem Passes.congr (h : Passes l ts p) (hfront : ∀ front, Viable l front → Viable m front)
    (hnext : ∀ front, front <+: ts → ∀ t, Viable l (front ++ [t]) ↔ Viable m (front ++ [t])) :
    Passes m ts p := by
  cases h with
  | here h => exact .here (h.congr hfront hnext)
  | behind hlt hno => exact .behind hlt fun t => (hnext [] List.nil_prefix t).not.1 (hno t)

theorem Passes.quotient_congr {w : List Token} (h : Passes (l.leftQuotient w) ts p)
    (hiff : ∀ front, Viable l (w ++ front) ↔ Viable m (w ++ front)) :
    Passes (m.leftQuotient w) ts p := by
  have hquotient (front : List Token) :
      Viable (l.leftQuotient w) front ↔ Viable (m.leftQuotient w) front := by
    rw [viable_leftQuotient_iff, viable_leftQuotient_iff, hiff]
  exact h.congr (fun front => (hquotient front).1) fun front _ t => hquotient _

/-- What was passed is still right behind some of the tokens. -/
theorem Passes.leftQuotient (h : Passes l (us ++ ts) p) : Passes (l.leftQuotient us) ts p := by
  cases h with
  | @here why h =>
    obtain ⟨front, back, heq, h⟩ := h
    by_cases hle : back.length ≤ ts.length
    · -- The token that is blamed is not among the first ones.
      obtain ⟨c, rfl, rfl⟩ : ∃ c, front = us ++ c ∧ ts = c ++ back := by
        rcases List.append_eq_append_iff.1 heq with ⟨c, hfront, hts⟩ | ⟨c, hus, hback⟩
        · exact ⟨c, hfront, hts⟩
        · obtain rfl : c = [] := by
            rw [hback, List.length_append] at hle
            exact List.length_eq_zero_iff.1 (by omega)
          exact ⟨[], by simpa using hus.symm, by simpa using hback.symm⟩
      refine .here ⟨c, back, rfl, h.congr (viable_leftQuotient_iff.2 h.viable) fun t => ?_⟩
      rw [viable_leftQuotient_iff, List.append_assoc]
    · have hlt : ts.length < back.length := by omega
      refine .behind (fun f hf => ?_) fun t ht => ?_
      · obtain rfl := Option.some.inj hf
        rwa [h.left_eq]
      · exact h.not_viable heq.symm hlt (viable_leftQuotient_iff.1 ht)
  | behind hlt hnext =>
    refine .behind (fun why hwhy => ?_) fun t ht => ?_
    · have := hlt why hwhy
      rw [List.length_append] at this
      omega
    · rw [viable_leftQuotient_iff] at ht
      cases us with
      | nil => exact hnext t ht
      | cons u us => exact hnext u ht.head

end Passes

end PlanningDomain
