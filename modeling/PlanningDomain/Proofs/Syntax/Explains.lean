import PlanningDomain.Proofs.Syntax.Blame
import PlanningDomain.Syntax.Reader

/-! Readers that fail for the right reason. Main statements: each way to build a reader keeps the
failures right, as long as the words of its parts can be cut in one way only; and a reader of a
whole sequence accepts exactly the words, and blames any other sequence. -/
namespace PlanningDomain

open scoped Computability

/-- An outcome on `ts` of a reader of the words of a language. A value stands for the longest word
at the front, and what was passed tells of longer ones; a failure is right, and no word is there. -/
inductive Outcome.Explains (l : Language Token) (ts : List Token) : Outcome α → Prop
  | read {value : α} {word rest : List Token} {passed : Option Failure} (heq : ts = word ++ rest)
      (hword : word ∈ l) (longest : ∀ w ∈ l, w <+: ts → w <+: word)
      (hpassed : Passes (l.leftQuotient word) rest passed) :
      Explains l ts (read value rest passed)
  | failed {why : Failure} (hwhy : Blames l ts why) (hnone : ∀ w ∈ l, ¬ w <+: ts) :
      Explains l ts (failed why)

def Reader.Explains (r : Reader α) (l : Language Token) : Prop := ∀ ts, (r ts).Explains l ts

section Outcomes
variable {α β : Type} {l m : Language Token} {ts word rest : List Token} {passed : Option Failure}

private theorem Outcome.Explains.named {o : Outcome α} (h : o.Explains l ts) {text : String}
    (htext : ¬ IsTokenLabel text) : (o.named text).Explains l ts := by
  cases h with
  | read heq hword longest hpassed => exact .read heq hword longest (hpassed.named htext)
  | failed hwhy hnone => exact .failed (hwhy.named htext) hnone

private theorem Outcome.Explains.withValue {v : α} (h : (Outcome.read v rest passed).Explains l ts)
    (w : β) : (Outcome.read w rest passed).Explains l ts := by
  cases h with
  | read heq hword longest hpassed => exact .read heq hword longest hpassed

private theorem Blames.mul_right {why : Failure} (h : Blames l ts why) (hnone : ∀ w ∈ l, ¬ w <+: ts)
    (hm : Viable m []) : Blames (l * m) ts why := by
  refine h.congr (fun front hfront => hfront.mul_right hm) fun front hfront t => ?_
  refine ⟨fun hv => hv.mul_right hm, fun hv => hv.of_mul.elim id ?_⟩
  rintro ⟨a, b, heq, ha, -⟩
  rcases List.prefix_concat_iff.1 ⟨b, heq.symm⟩ with rfl | ha'
  · exact viable_of_mem ha
  · exact absurd (ha'.trans hfront) (hnone a ha)

private theorem Outcome.Explains.failed_mul {why : Failure} (hwhy : Blames l ts why)
    (hnone : ∀ w ∈ l, ¬ w <+: ts) (hm : Viable m []) :
    (Outcome.failed why : Outcome β).Explains (l * m) ts := by
  refine .failed (hwhy.mul_right hnone hm) fun w hw hts => ?_
  obtain ⟨a, ha, b, hb, rfl⟩ := Language.mem_mul.1 hw
  exact hnone a ha ((List.prefix_append a b).trans hts)

section Behind
variable (hsep : Separates l m) (hword : word ∈ l)
  (longest : ∀ w ∈ l, w <+: word ++ rest → w <+: word)
include hsep hword longest

/-- Behind the longest word, what begins a word of the product goes on with the first factor or is
of the second. -/
private theorem viable_mul_behind_iff (hm : Viable m []) {front : List Token}
    (hfront : front <+: rest) (t : Token) : Viable (l.leftQuotient word + m) (front ++ [t]) ↔
      Viable ((l * m).leftQuotient word) (front ++ [t]) := by
  rw [viable_add_iff, viable_leftQuotient_iff, viable_leftQuotient_iff]
  constructor
  · rintro (hv | hv)
    · exact hv.mul_right hm
    · exact viable_mul_of_mem hword hv
  · intro hv
    rcases hsep.viable hv with hl | ⟨a, b, hcut, hb⟩
    · exact .inl hl
    obtain ⟨c, rfl, hc⟩ := hcut.exists_append hword
    rcases List.eq_nil_or_concat b with rfl | ⟨b, u, rfl⟩
    · left
      rw [hc, List.append_nil]
      exact viable_of_mem hcut.mem
    · right
      rw [List.concat_eq_append, ← List.append_assoc] at hc
      obtain ⟨rfl, ⟨⟩⟩ := List.append_inj' hc rfl
      have hlong : word ++ c <+: word :=
        longest _ hcut.mem ((List.prefix_append_right_inj word).2
          ((List.prefix_append c b).trans hfront))
      obtain rfl : c = [] := by simpa using hlong.length_le
      simpa using hb

/-- A word of the product at the front is cut behind the longest word, or it stops before that. -/
private theorem eq_append_of_mem_mul {w : List Token} (hw : w ∈ l * m) (hpre : w <+: word ++ rest) :
    (w <+: word ∧ [] ∈ m) ∨ ∃ b ∈ m, w = word ++ b ∧ b <+: rest := by
  obtain ⟨a, b, hcut, hb⟩ := hsep w hw
  obtain rfl := hcut.eq
  obtain ⟨c, rfl⟩ := longest a hcut.mem ((List.prefix_append a b).trans hpre)
  rw [List.append_assoc, List.prefix_append_right_inj] at hpre
  cases c with
  | nil => exact .inr ⟨b, hb, by simp, hpre⟩
  | cons t c =>
    cases b with
    | nil => exact .inl ⟨by simp, hb⟩
    | cons u b =>
      obtain rfl : u = t := (List.cons_prefix_cons.1 hpre).1
      exact absurd ⟨c, by rwa [List.append_assoc]⟩ (hcut.stops u rfl)

/-- An outcome behind the longest word is one of the product. -/
private theorem Outcome.Explains.after (hpassed : Passes (l.leftQuotient word) rest passed)
    (hm : Viable m []) {o : Outcome β} (ho : o.Explains m rest) :
    (o.after passed).Explains (l * m) (word ++ rest) := by
  have hviable (front : List Token) :
      Viable (l.leftQuotient word + m) front → Viable ((l * m).leftQuotient word) front := by
    rw [viable_add_iff, viable_leftQuotient_iff, viable_leftQuotient_iff]
    exact fun hv => hv.elim (fun hv => hv.mul_right hm) (viable_mul_of_mem hword)
  cases ho with
  | failed hwhy hnone =>
    have hblames := hwhy.orPassed hpassed
    rw [add_comm] at hblames
    refine .failed (hblames.congr hviable fun front hfront t => ?_).leftQuotient fun w hw hpre => ?_
    · exact viable_mul_behind_iff hsep hword longest hm hfront t
    · rcases eq_append_of_mem_mul hsep hword longest hw hpre with ⟨-, hnil⟩ | ⟨b, hb, -, hbr⟩
      · exact hnone [] hnil List.nil_prefix
      · exact hnone b hb hbr
  | @read value word' rest' later heq hword' longest' hlater =>
    subst heq
    have hquotient (front : List Token) :
        Viable ((l.leftQuotient word).leftQuotient word' + m.leftQuotient word') front ↔
          Viable (l.leftQuotient word + m) (word' ++ front) := by
      simp only [viable_add_iff, viable_leftQuotient_iff]
    refine .read (List.append_assoc ..).symm (Language.append_mem_mul hword hword') ?_ ?_
    · intro w hw hpre
      rcases eq_append_of_mem_mul hsep hword longest hw hpre with ⟨hle, -⟩ | ⟨b, hb, rfl, hbr⟩
      · exact hle.trans (List.prefix_append ..)
      · exact (List.prefix_append_right_inj word).2 (longest' b hb hbr)
    · rw [Language.leftQuotient_append]
      refine (hpassed.leftQuotient.furthest hlater).congr (fun front hv => ?_)
        fun front hfront t => ?_
      · rw [viable_leftQuotient_iff]
        exact hviable _ ((hquotient front).1 hv)
      · rw [hquotient, viable_leftQuotient_iff, ← List.append_assoc]
        exact viable_mul_behind_iff hsep hword longest hm
          ((List.prefix_append_right_inj word').2 hfront) t

end Behind
end Outcomes

namespace Reader

section Steps
variable {α β : Type} {l m : Language Token}

theorem explains_one {label : String} {accept : Token → Option α} {kind : Token → Prop}
    (hkind : ∀ t, (accept t).isSome ↔ kind t) (hlabel : ∀ t, kind t ↔ t.CalledBy label)
    (hsome : ∃ t, kind t) : (one label accept).Explains (single kind) := by
  have hviable : Viable (single kind) [] := hsome.elim fun _ h => viable_nil_single h
  have hnames : (Expectation.label label).Names fun t => Viable (single kind) ([] ++ [t]) :=
    fun _ t => viable_single_iff.trans (hlabel t)
  intro ts
  cases ts with
  | nil =>
    refine .failed ⟨[], [], rfl, rfl, hviable, by simp, hnames⟩ ?_
    rintro w ⟨t, -, rfl⟩ h
    simp at h
  | cons t ts =>
    cases haccept : accept t with
    | some v =>
      have hword : [t] ∈ single kind := ⟨t, (hkind t).1 (by simp [haccept]), rfl⟩
      simp only [one, haccept]
      refine .read (show t :: ts = [t] ++ ts from rfl) hword ?_ (.behind (by simp) fun u hu => ?_)
      · rintro w ⟨u, -, rfl⟩ h
        simpa using h
      · exact prefixFree_single u _ hword (viable_leftQuotient_iff.1 hu)
    | none =>
      have hno : ¬ kind t := fun h => by simpa [haccept] using (hkind t).2 h
      simp only [one, haccept]
      refine .failed ⟨[], t :: ts, rfl, rfl, hviable, fun u hu => ?_, hnames⟩ ?_
      · obtain rfl : t = u := Option.some.inj hu
        exact mt viable_single_iff.1 hno
      · rintro w ⟨u, hu, rfl⟩ h
        obtain rfl : u = t := (List.cons_prefix_cons.1 h).1
        exact hno hu

private theorem explains_pure (v : α) : (pure v : Reader α).Explains 1 := by
  intro ts
  refine .read (show ts = [] ++ ts from rfl) rfl ?_ (.behind (by simp) ?_)
  · rintro w rfl -
    exact List.prefix_rfl
  · simp [viable_one_iff]

theorem Explains.bind {r : Reader α} {next : α → Reader β} (hr : r.Explains l)
    (hnext : ∀ v, (next v).Explains m) (hsep : Separates l m) (hm : Viable m []) :
    (r >>= next).Explains (l * m) := by
  intro ts
  change (andThen r next ts).Explains (l * m) ts
  have h := hr ts
  rw [andThen]
  cases hout : r ts with
  | failed why =>
    rw [hout] at h
    cases h with
    | failed hwhy hnone => exact .failed_mul hwhy hnone hm
  | read v rest passed =>
    rw [hout] at h
    cases h with
    | read heq hword longest hpassed =>
      subst heq
      exact .after hsep hword longest hpassed hm (hnext v rest)

/-- What is made of the value says nothing of the tokens. -/
theorem Explains.bind_pure {r : Reader α} (hr : r.Explains l) (g : α → β) :
    (r >>= fun v => pure (g v)).Explains l := by
  have h := hr.bind (fun v => explains_pure (g v)) (.of_stops (by simp [viable_one_iff]))
    (viable_one_iff.2 rfl)
  rwa [mul_one] at h

theorem Explains.labelled {r : Reader α} (hr : r.Explains l) {text : String}
    (htext : ¬ IsTokenLabel text) : (labelled text r).Explains l :=
  fun ts => (hr ts).named htext

/-- Two readers of languages that have no beginning of a word in common with a whole one. -/
theorem Explains.orElse {r s : Reader α} (hr : r.Explains l) (hs : s.Explains m) (h : Apart l m) :
    (orElse r s).Explains (l + m) := by
  intro ts
  have hr := hr ts
  have hs := hs ts
  rw [Reader.orElse]
  cases hrout : r ts with
  | read v rest passed =>
    rw [hrout] at hr
    cases hr with
    | @read _ word _ _ heq hword longest hpassed =>
      refine .read heq (.inl hword) (fun w hw hpre => ?_) (hpassed.quotient_congr fun front => ?_)
      · rcases hw with hw | hw
        · exact longest w hw hpre
        · refine (List.prefix_or_prefix_of_prefix hpre ⟨rest, heq.symm⟩).resolve_right ?_
          rintro ⟨more, rfl⟩
          exact h.left word hword (viable_of_mem hw).of_append
      · rw [viable_add_iff, or_iff_left fun hv => h.left word hword hv.of_append]
  | failed why =>
    rw [hrout] at hr
    cases hr with
    | failed hwhy hnone =>
      cases hsout : s ts with
      | read v rest passed =>
        rw [hsout] at hs
        cases hs with
        | @read _ word _ _ heq hword longest hpassed =>
          refine .read heq (.inr hword) (fun w hw hpre => ?_)
            (hpassed.quotient_congr fun front => ?_)
          · exact hw.elim (fun hw => absurd hpre (hnone w hw)) (fun hw => longest w hw hpre)
          · rw [viable_add_iff, or_iff_right fun hv => h.right word hword hv.of_append]
      | failed other =>
        rw [hsout] at hs
        cases hs with
        | failed hother hnone' =>
          exact .failed (hwhy.further hother) fun w hw => hw.elim (hnone w) (hnone' w)

theorem Explains.optional {r : Reader α} (hr : r.Explains l) (hnil : [] ∉ l) :
    (optional r).Explains (1 + l) := by
  intro ts
  have hr := hr ts
  rw [Reader.optional]
  cases hout : r ts with
  | read v rest passed =>
    rw [hout] at hr
    cases hr with
    | @read _ word _ _ heq hword longest hpassed =>
      have hne : word ≠ [] := ne_of_mem_of_not_mem hword hnil
      refine .read heq (.inr hword) (fun w hw hpre => ?_) (hpassed.quotient_congr fun front => ?_)
      · rcases hw with rfl | hw
        · exact List.nil_prefix
        · exact longest w hw hpre
      · rw [viable_add_iff, viable_one_iff]
        simp [hne]
  | failed why =>
    rw [hout] at hr
    cases hr with
    | failed hwhy hnone =>
      refine .read (show ts = [] ++ ts from rfl) (.inl rfl) (fun w hw hpre => ?_) (.here ?_)
      · rcases hw with rfl | hw
        · exact List.prefix_rfl
        · exact absurd hpre (hnone w hw)
      · rw [Language.leftQuotient_nil, add_comm]
        exact hwhy.add_right (by simp [viable_one_iff])

/-- Of a repetition, only the empty word is not a word and more words. -/
private theorem explains_kstar_of_mul (hnil : [] ∉ l) {ts rest : List Token} {v : α}
    {passed : Option Failure} (h : (Outcome.read v rest passed).Explains (l * l∗) ts) :
    (Outcome.read v rest passed).Explains l∗ ts := by
  cases h with
  | @read _ word _ _ heq hword longest hpassed =>
    have hne : word ≠ [] := by
      rintro rfl
      obtain ⟨a, ha, b, -, hab⟩ := Language.mem_mul.1 hword
      exact hnil ((List.append_eq_nil_iff.1 hab).1 ▸ ha)
    refine .read heq (mem_kstar_iff.2 (.inr hword)) (fun w hw hpre => ?_)
      (hpassed.quotient_congr fun front => (viable_kstar_iff (by simp [hne])).symm)
    rcases mem_kstar_iff.1 hw with rfl | hw
    · exact List.nil_prefix
    · exact longest w hw hpre

section Many
variable {r : Reader α} (hr : r.Explains l) (hnil : [] ∉ l) (hsep : Separates l l∗)
include hr hnil hsep

/-- A repetition with a first value reads the words behind it. -/
private theorem explains_many_of_read {ts rest : List Token} {v : α} {passed : Option Failure}
    (hout : r ts = .read v rest passed) (hrest : (many r rest).Explains l∗ rest) :
    (many r ts).Explains (l * l∗) ts := by
  have h := hr ts
  rw [hout] at h
  cases h with
  | @read _ word _ _ heq hword longest hpassed =>
    subst heq
    have hlt : rest.length < (word ++ rest).length := by
      have := List.length_pos_iff.2 (ne_of_mem_of_not_mem hword hnil)
      rw [List.length_append]
      omega
    have hmany : many r (word ++ rest) = .read (v :: (collect r rest).1) (collect r rest).2.1
        (Failure.furthest passed (collect r rest).2.2) := by
      rw [many, collect, hout]
      simp only [if_pos hlt]
    rw [hmany]
    exact (Outcome.Explains.after hsep hword longest hpassed viable_nil_kstar hrest).withValue _

theorem Explains.many : (many r).Explains l∗ := by
  intro ts
  induction hn : ts.length using Nat.strongRecOn generalizing ts with
  | ind n ih =>
  subst hn
  have h := hr ts
  cases hout : r ts with
  | failed why =>
    rw [hout] at h
    cases h with
    | failed hwhy hnone =>
      rw [Reader.many, collect, hout]
      refine .read (show ts = [] ++ ts from rfl) (Language.nil_mem_kstar l) (fun w hw hpre => ?_)
        (.here ?_)
      · rcases mem_kstar_iff.1 hw with rfl | hw
        · exact List.prefix_rfl
        · obtain ⟨a, ha, b, -, rfl⟩ := Language.mem_mul.1 hw
          exact absurd ((List.prefix_append a b).trans hpre) (hnone a ha)
      · have hmul : Blames (l * l∗) ts why := hwhy.mul_right hnone viable_nil_kstar
        exact hmul.congr (fun front hv => hv.mono fun w hw => mem_kstar_iff.2 (.inr hw))
          fun front _ t => (viable_kstar_iff (by simp)).symm
  | read v rest passed =>
    have hlt : rest.length < ts.length := by
      rw [hout] at h
      cases h with
      | @read _ word _ _ heq hword _ _ =>
        have := List.length_pos_iff.2 (ne_of_mem_of_not_mem hword hnil)
        rw [heq, List.length_append]
        omega
    have hmul := explains_many_of_read hr hnil hsep hout (ih _ hlt rest rfl)
    rw [Reader.many] at hmul ⊢
    exact explains_kstar_of_mul hnil hmul

theorem Explains.many1 : (many1 r).Explains (l * l∗) := by
  intro ts
  rw [Reader.many1]
  cases hout : r ts with
  | failed why =>
    have h := hr ts
    rw [hout] at h
    cases h with
    | failed hwhy hnone => exact .failed_mul hwhy hnone viable_nil_kstar
  | read v rest passed =>
    exact explains_many_of_read hr hnil hsep hout (Explains.many hr hnil hsep rest)

end Many

/-- A whole sequence is read when nothing is left behind the value. -/
private theorem whole_eq (r : Reader α) (ts : List Token) :
    r.whole ts = match r ts with
      | .read v [] _ => .ok v
      | .read _ (t :: rest) passed =>
        .error ((⟨(t :: rest).length, .unnamed⟩ : Failure).orPassed passed)
      | .failed why => .error why := by
  rw [whole, andThen]
  cases r ts with
  | failed why => rfl
  | read v rest passed =>
    cases rest with
    | nil => rfl
    | cons t rest => rfl

/-- Behind a whole word, a token is hopeless unless a longer word has it there. -/
private theorem blames_end {t : Token} {rest : List Token} :
    Blames 1 (t :: rest) ⟨(t :: rest).length, .unnamed⟩ :=
  ⟨[], t :: rest, rfl, rfl, viable_one_iff.2 rfl, by simp [viable_one_iff],
    by simp [Expectation.Names, viable_one_iff]⟩

/-- A sequence that is not accepted is refused for the right reason. -/
theorem Explains.blames_of_whole {r : Reader α} (hr : r.Explains l) {ts : List Token}
    {why : Failure} (h : r.whole ts = .error why) : Blames l ts why := by
  have hts := hr ts
  rw [whole_eq] at h
  cases hout : r ts with
  | failed other =>
    rw [hout] at h hts
    cases h
    cases hts with
    | failed hwhy _ => exact hwhy
  | read v rest passed =>
    rw [hout] at h hts
    cases hts with
    | @read _ word _ _ heq hword _ hpassed =>
      cases rest with
      | nil => cases h
      | cons t rest =>
        cases h
        subst heq
        have hnil : Viable (l.leftQuotient word) [] :=
          viable_leftQuotient_iff.2 (viable_of_mem (by rwa [List.append_nil]))
        have hone (front : List Token) :
            Viable (1 + l.leftQuotient word) front ↔ Viable (l.leftQuotient word) front := by
          rw [viable_add_iff, viable_one_iff, or_iff_right_of_imp]
          rintro rfl
          exact hnil
        exact ((blames_end.orPassed hpassed).congr (fun front => (hone front).1)
          fun front _ t => hone _).leftQuotient

theorem Explains.whole_eq_ok_iff {r : Reader α} (hr : r.Explains l) {ts : List Token} :
    (∃ v, r.whole ts = .ok v) ↔ ts ∈ l := by
  have hts := hr ts
  rw [whole_eq]
  cases hout : r ts with
  | failed why =>
    rw [hout] at hts
    cases hts with
    | failed _ hnone => simpa using fun h => hnone ts h List.prefix_rfl
  | read v rest passed =>
    rw [hout] at hts
    cases hts with
    | @read _ word _ _ heq hword longest _ =>
      cases rest with
      | nil => simpa [heq] using hword
      | cons t rest =>
        simp only [reduceCtorEq, exists_false, false_iff]
        intro h
        have hle := (longest ts h List.prefix_rfl).length_le
        rw [heq, List.length_append, List.length_cons] at hle
        omega

end Steps
end Reader
end PlanningDomain
