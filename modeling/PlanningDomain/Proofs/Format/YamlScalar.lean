import Mathlib.Algebra.Group.Nat.Defs
import Mathlib.Tactic.SplitIfs
import PlanningDomain.Format.Yaml

/-! Text as scalars of YAML. Main statements: a text on one line can be told from its scalar, which
is no word and no number; and the scalar of a text without line breaks is on one line. -/
namespace PlanningDomain.Yaml

def Unbroken (cs : List Char) : Prop := ∀ c ∈ cs, isBreak c = false

instance (cs : List Char) : Decidable (Unbroken cs) :=
  List.decidableBAll (fun c => isBreak c = false) cs

theorem Unbroken.append {cs ds : List Char} (h : Unbroken cs) (h' : Unbroken ds) :
    Unbroken (cs ++ ds) :=
  fun c hc => (List.mem_append.1 hc).elim (h c) (h' c)

/-- Text between single quotes, where a quote stands for itself behind another. -/
def undoubled : List Char → List Char
  | [] => []
  | [c] => [c]
  | c :: d :: rest => if c = '\x27' then '\x27' :: undoubled rest else c :: undoubled (d :: rest)

def hexNumber (digits : List Char) : Nat :=
  digits.foldl (fun n c => n * 16 + digitValue c) 0

/-- How many hexadecimal digits follow a letter behind a backslash. -/
def escapeWidth : Char → Nat
  | 'x' => 2
  | 'u' => 4
  | 'U' => 8
  | _ => 0

/-- Text between double quotes. A backslash and what follows it stand for one character. -/
def unescaped : List Char → List Char
  | [] => []
  | [c] => [c]
  | c :: d :: rest =>
    if c ≠ '\\' then c :: unescaped (d :: rest)
    else if escapeWidth d = 0 then
      ((shortEscapes.find? (·.2 == d)).map Prod.fst).getD d :: unescaped rest
    else
      Char.ofNat (hexNumber (rest.take (escapeWidth d))) :: unescaped (rest.drop (escapeWidth d))
termination_by cs => cs.length
decreasing_by
  · simp
  · simp only [List.length_cons]
    omega
  · simp only [List.length_drop, List.length_cons]
    omega

/-- The text that a scalar on one line stands for, if it does not stand for something else. -/
def textOf? : List Char → Option (List Char)
  | [] => none
  | c :: cs =>
    if c = '\x27' then some (undoubled cs.dropLast)
    else if c = '"' then some (unescaped cs.dropLast)
    else if isAmbiguous (c :: cs) then none
    else some (c :: cs)

private theorem undoubled_doubled (cs : List Char) :
    undoubled (cs.flatMap fun c => if c = '\x27' then [c, c] else [c]) = cs := by
  induction cs with
  | nil => rfl
  | cons c cs ih =>
    rw [List.flatMap_cons]
    split
    · rename_i hc
      rw [List.cons_append, List.cons_append, List.nil_append, undoubled, if_pos hc, ih, hc]
    · rename_i hc
      rw [List.cons_append, List.nil_append]
      cases h : cs.flatMap (fun c => if c = '\x27' then [c, c] else [c]) with
      | nil =>
        rw [h] at ih
        rw [undoubled, ← ih]
        rfl
      | cons d ds => rw [undoubled, if_neg hc, ← h, ih]

private theorem digitValue_hexDigit : ∀ n < 16, digitValue (hexDigit n) = n := by
  decide

private theorem length_hexDigits (n width : Nat) : (hexDigits n width).length = width := by
  induction width generalizing n with
  | zero => rfl
  | succ width ih => simp [hexDigits, ih]

private theorem hexNumber_append (digits : List Char) (c : Char) :
    hexNumber (digits ++ [c]) = hexNumber digits * 16 + digitValue c := by
  simp [hexNumber]

private theorem hexNumber_hexDigits (n width : Nat) :
    hexNumber (hexDigits n width) = n % 16 ^ width := by
  induction width generalizing n with
  | zero => simp [hexDigits, hexNumber, Nat.mod_one]
  | succ width ih =>
    rw [hexDigits, hexNumber_append, ih, digitValue_hexDigit _ (Nat.mod_lt _ (by decide)),
      Nat.pow_succ, Nat.mul_comm (16 ^ width), Nat.mod_mul]
    omega

private theorem unescaped_hexDigits {d : Char} (hd : escapeWidth d ≠ 0) {c : Char}
    (hc : c.toNat < 16 ^ escapeWidth d) (rest : List Char) :
    unescaped ('\\' :: d :: (hexDigits c.toNat (escapeWidth d) ++ rest)) = c :: unescaped rest := by
  rw [unescaped, if_neg (by simp), if_neg hd, List.take_left' (length_hexDigits ..),
    List.drop_left' (length_hexDigits ..), hexNumber_hexDigits, Nat.mod_eq_of_lt hc,
    Char.ofNat_toNat]

private theorem unescaped_cons {c : Char} (hc : c ≠ '\\') (rest : List Char) :
    unescaped (c :: rest) = c :: unescaped rest := by
  cases rest with
  | nil => simp [unescaped]
  | cons d rest => rw [unescaped, if_pos hc]

private theorem width_shortEscapes : ∀ e ∈ shortEscapes, escapeWidth e.2 = 0 ∧
    ((shortEscapes.find? (·.2 == e.2)).map Prod.fst).getD e.2 = e.1 := by
  decide

private theorem unescaped_escaped (c : Char) (rest : List Char) :
    unescaped (escaped c ++ rest) = c :: unescaped rest := by
  rw [escaped]
  split
  · rename_i letter hletter
    obtain ⟨front, back, hsplit, -⟩ := List.lookup_eq_some_iff.1 hletter
    obtain ⟨hwidth, hback⟩ := width_shortEscapes (c, letter) (by simp [hsplit])
    rw [List.cons_append, List.cons_append, List.nil_append, unescaped, if_neg (by simp),
      if_pos hwidth]
    exact congrArg (· :: unescaped rest) hback
  · rename_i hletter
    split_ifs with hprintable htwo hfour
    · refine unescaped_cons ?_ rest
      rintro rfl
      cases hletter
    · exact unescaped_hexDigits (d := 'x') (by decide) htwo rest
    · exact unescaped_hexDigits (d := 'u') (by decide) hfour rest
    · exact unescaped_hexDigits (d := 'U') (by decide) c.val.toNat_lt rest

private theorem unescaped_flatMap_escaped (cs : List Char) :
    unescaped (cs.flatMap escaped) = cs := by
  induction cs with
  | nil => simp [unescaped]
  | cons c cs ih => rw [List.flatMap_cons, unescaped_escaped, ih]

/-- A text on one line can be told from its scalar, which is no word and no number. -/
theorem textOf?_scalar {text : String} (h : '\n' ∉ text.toList) :
    textOf? (scalar text) = some text.toList := by
  have hsingle (cs : List Char) : textOf? (singleQuoted cs) = some cs := by
    rw [singleQuoted, List.cons_append, textOf?, if_pos rfl, List.dropLast_concat,
      undoubled_doubled]
  have hdouble (cs : List Char) : textOf? (doubleQuoted cs) = some cs := by
    rw [doubleQuoted, List.cons_append, textOf?, if_neg (by decide), if_pos rfl,
      List.dropLast_concat, unescaped_flatMap_escaped]
  rw [scalar, if_neg (by simpa using h)]
  split_ifs with hplain hquotes
  · rw [Bool.and_eq_true, Bool.not_eq_true'] at hplain
    cases htext : text.toList with
    | nil => simp [htext, allowsPlain] at hplain
    | cons c cs =>
      rw [htext] at hplain
      have hfirst : firstMarks.contains c = false := by
        simp only [allowsPlain, startsWithMark, Bool.and_eq_true, Bool.not_eq_true',
          Bool.or_eq_false_iff] at hplain
        exact hplain.1.1.2.1.1.1
      have hne {mark : Char} (hmark : mark ∈ firstMarks) : c ≠ mark := by
        rintro rfl
        simp [hmark] at hfirst
      rw [textOf?, if_neg (hne (by decide)), if_neg (hne (by decide)), if_neg (by simp [hplain.2])]
  · exact hsingle _
  · exact hdouble _

private theorem unbroken_singleQuoted {cs : List Char} (h : Unbroken cs) :
    Unbroken (singleQuoted cs) := by
  intro d hd
  simp only [singleQuoted, List.cons_append, List.mem_cons, List.mem_append, List.mem_flatMap,
    List.not_mem_nil, or_false] at hd
  rcases hd with rfl | ⟨c, hc, hd⟩ | rfl
  · rfl
  · have : d = c := by
      split at hd <;> simpa using hd
    exact this ▸ h c hc
  · rfl

private theorem isBreak_hexDigit : ∀ n < 16, isBreak (hexDigit n) = false := by
  decide

private theorem unbroken_hexDigits (n width : Nat) : Unbroken (hexDigits n width) := by
  induction width generalizing n with
  | zero => exact fun c hc => absurd hc List.not_mem_nil
  | succ width ih =>
    refine (ih _).append fun c hc => ?_
    rw [List.mem_singleton.1 hc]
    exact isBreak_hexDigit _ (Nat.mod_lt _ (by decide))

private theorem isBreak_shortEscapes : ∀ e ∈ shortEscapes, isBreak e.2 = false := by
  decide

private theorem unbroken_escaped {c : Char} (hc : isBreak c = false) : Unbroken (escaped c) := by
  have hmarks (front : List Char) (hfront : Unbroken front) (width : Nat) :
      Unbroken (front ++ hexDigits c.toNat width) :=
    hfront.append (unbroken_hexDigits _ _)
  rw [escaped]
  split
  · rename_i letter hletter
    obtain ⟨front, back, hsplit, -⟩ := List.lookup_eq_some_iff.1 hletter
    have hbreak := isBreak_shortEscapes (c, letter) (by simp [hsplit])
    simp only [Unbroken, List.mem_cons, List.not_mem_nil, or_false]
    rintro d (rfl | rfl)
    · rfl
    · exact hbreak
  · split_ifs
    · exact fun d hd => List.mem_singleton.1 hd ▸ hc
    · exact hmarks ['\\', 'x'] (by decide) 2
    · exact hmarks ['\\', 'u'] (by decide) 4
    · exact hmarks ['\\', 'U'] (by decide) 8

private theorem unbroken_doubleQuoted {cs : List Char} (h : Unbroken cs) :
    Unbroken (doubleQuoted cs) := by
  intro d hd
  simp only [doubleQuoted, List.cons_append, List.mem_cons, List.mem_append, List.mem_flatMap,
    List.not_mem_nil, or_false] at hd
  rcases hd with rfl | ⟨c, hc, hd⟩ | rfl
  · rfl
  · exact unbroken_escaped (h c hc) d hd
  · rfl

/-- The scalar of a text without line breaks is on one line. -/
theorem scalar_ne_nil_and_unbroken {text : String} (h : Unbroken text.toList) :
    scalar text ≠ [] ∧ Unbroken (scalar text) := by
  have hnewline : '\n' ∉ text.toList := fun hmem => absurd (h _ hmem) (by decide)
  rw [scalar, if_neg (by simpa using hnewline)]
  split_ifs with hplain
  · refine ⟨?_, h⟩
    intro hnil
    simp [hnil, allowsPlain] at hplain
  · exact ⟨by simp [singleQuoted], unbroken_singleQuoted h⟩
  · exact ⟨by simp [doubleQuoted], unbroken_doubleQuoted h⟩

end PlanningDomain.Yaml
