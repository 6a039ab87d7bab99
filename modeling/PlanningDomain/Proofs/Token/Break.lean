import Mathlib.Data.List.TakeWhile
import PlanningDomain.Token

/-! Where a token ends. What stands behind a token changes nothing about it, as long as it cannot
go on with the token's word; and a token written alone is the same token again. -/
namespace PlanningDomain

/-- A text that cannot go on with a word in front of it. -/
def Breaks (cs : List Char) : Prop :=
  ∀ c ∈ cs.head?, continuesWord c = false

@[simp] theorem breaks_nil : Breaks [] := by
  simp [Breaks]

@[simp] theorem breaks_cons {c : Char} {cs : List Char} :
    Breaks (c :: cs) ↔ continuesWord c = false := by
  simp [Breaks]

theorem Breaks.append {cs ds : List Char} (hc : Breaks cs) (hd : Breaks ds) :
    Breaks (cs ++ ds) := by
  cases cs with
  | nil => exact hd
  | cons c cs => exact breaks_cons.2 (breaks_cons.1 hc)

theorem continuesWord_of_startsWord {c : Char} (h : startsWord c = true) :
    continuesWord c = true := by
  simp only [startsWord, Bool.or_eq_true] at h
  simp only [continuesWord, Char.isAlphanum, Bool.or_eq_true]
  exact .inl (h.imp_left .inl)

private theorem takeWhile_continuesWord_append {cs ds : List Char} (h : Breaks ds) :
    (cs ++ ds).takeWhile continuesWord = cs.takeWhile continuesWord := by
  induction cs with
  | nil =>
    cases ds with
    | nil => rfl
    | cons d ds => simp [breaks_cons.1 h]
  | cons c cs ih => simp only [List.cons_append, List.takeWhile_cons, ih]

private theorem dropWhile_continuesWord_append {cs ds : List Char} (h : Breaks ds) :
    (cs ++ ds).dropWhile continuesWord = cs.dropWhile continuesWord ++ ds := by
  induction cs with
  | nil =>
    cases ds with
    | nil => rfl
    | cons d ds => simp [breaks_cons.1 h]
  | cons c cs ih =>
    simp only [List.cons_append, List.dropWhile_cons, ih]
    split <;> rfl

/-- A word and what follows it, with more text behind. -/
private theorem splitWord_append {cs ds : List Char} (h : Breaks ds) :
    splitWord (cs ++ ds) = (splitWord cs).map fun (word, rest) => (word, rest ++ ds) := by
  cases cs with
  | nil =>
    cases ds with
    | nil => rfl
    | cons d ds =>
      have hd : ¬ startsWord d = true := fun hs => by
        simpa [breaks_cons.1 h] using continuesWord_of_startsWord hs
      simp [splitWord, hd]
  | cons c cs =>
    simp only [splitWord, List.cons_append, takeWhile_continuesWord_append h,
      dropWhile_continuesWord_append h]
    split <;> rfl

/-- The same token with more text behind it. -/
def Munch.before (m : Munch) (ds : List Char) : Munch :=
  { m with rest := m.rest ++ ds }

private theorem signedWord_append (sign : Char) (token : List Char → Token) {cs ds : List Char}
    (h : Breaks ds) :
    signedWord sign token (cs ++ ds) = (signedWord sign token cs).map (·.before ds) := by
  simp only [signedWord, splitWord_append h, Option.map_map]
  rfl

/-- The token in front of a break is found whatever stands behind the break. -/
theorem munch?_append {cs ds : List Char} (hne : cs ≠ []) (h : Breaks ds) :
    munch? (cs ++ ds) = (munch? cs).map (·.before ds) := by
  cases cs with
  | nil => exact absurd rfl hne
  | cons c cs =>
    have hword : splitWord (c :: cs ++ ds) =
        (splitWord (c :: cs)).map fun (word, rest) => (word, rest ++ ds) := splitWord_append h
    rw [List.cons_append] at hword
    simp only [munch?, List.cons_append, signedWord_append _ _ h, hword]
    split_ifs
    iterate 5 rfl
    simp only [Option.map_map]
    rfl

/-- A token at the front of a text, in each of the ways in which there can be one. -/
inductive Munches : List Char → Munch → Prop
  | openParen (rest : List Char) : Munches ('(' :: rest) ⟨.openParen, ['('], rest⟩
  | closeParen (rest : List Char) : Munches (')' :: rest) ⟨.closeParen, [')'], rest⟩
  | dash (rest : List Char) : Munches ('-' :: rest) ⟨.dash, ['-'], rest⟩
  | keyword {cs word rest : List Char} (h : splitWord cs = some (word, rest)) :
      Munches (':' :: cs) ⟨.ofKeyword word, ':' :: word, rest⟩
  | var {cs word rest : List Char} (h : splitWord cs = some (word, rest)) :
      Munches ('?' :: cs) ⟨.ofVariable word, '?' :: word, rest⟩
  | word {cs word rest : List Char} (h : splitWord cs = some (word, rest)) :
      Munches cs ⟨.ofWord word, word, rest⟩

private theorem munch?_of_startsWord {c : Char} {cs : List Char} (h : startsWord c = true) :
    munch? (c :: cs) =
      (splitWord (c :: cs)).map fun (word, rest) => ⟨.ofWord word, word, rest⟩ := by
  have hne : ∀ d, startsWord d = false → c ≠ d := by
    rintro d hd rfl
    rw [hd] at h
    cases h
  rw [munch?, if_neg (hne '(' rfl), if_neg (hne ')' rfl), if_neg (hne '-' rfl),
    if_neg (hne ':' rfl), if_neg (hne '?' rfl)]

theorem munch?_eq_some_iff {cs : List Char} {m : Munch} : munch? cs = some m ↔ Munches cs m := by
  constructor
  · intro h
    cases cs with
    | nil => cases h
    | cons c cs =>
      simp only [munch?, signedWord] at h
      split_ifs at h with hopen hclose hdash hcolon hmark
      · subst hopen
        cases h
        exact .openParen cs
      · subst hclose
        cases h
        exact .closeParen cs
      · subst hdash
        cases h
        exact .dash cs
      all_goals obtain ⟨⟨word, rest⟩, hw, rfl⟩ := Option.map_eq_some_iff.1 h
      · subst hcolon
        exact .keyword hw
      · subst hmark
        exact .var hw
      · exact .word hw
  · intro h
    cases h with
    | openParen | closeParen | dash => rfl
    | keyword h => simp [munch?, signedWord, h]
    | var h => simp [munch?, signedWord, h]
    | word h =>
      cases cs with
      | nil => cases h
      | cons c cs =>
        have hc : startsWord c = true := by
          by_contra hc
          simp [splitWord, hc] at h
        rw [munch?_of_startsWord hc, h]
        rfl

end PlanningDomain
