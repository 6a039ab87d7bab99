import PlanningDomain.Proofs.Settings.Precedence

/-! Settings files in lines. Main statements: lines of one key and one value each read as these
members, in order, and a file of such lines supplies what they give. -/
namespace PlanningDomain
namespace Toml

/-- Spellings that fit on a line: truth values, whole numbers in decimal digits, and text in quotes
without escapes. -/
inductive Spells : List Char → Value → Prop
  | boolean (value : Bool) : Spells (toString value).toList (.boolean value)
  | natural {n : Nat} (h : n < signLimit) : Spells (Nat.toDigits 10 n) (.integer n)
  | negative {n : Nat} (h : n ≤ signLimit) : Spells ('-' :: Nat.toDigits 10 n) (.integer (-n))
  | literal {cs : List Char} (h : ∀ c ∈ cs, isTextChar c ∧ c ≠ '\x27') :
    Spells ('\x27' :: (cs ++ ['\x27'])) (.text (String.ofList cs))
  | basic {cs : List Char} (h : ∀ c ∈ cs, isTextChar c ∧ c ≠ '"' ∧ c ≠ '\\') :
    Spells ('"' :: (cs ++ ['"'])) (.text (String.ofList cs))

/-- A bare key, and a value in one of its spellings. -/
structure Line where
  key : String
  spelling : List Char
  value : Value
  key_ne : key.toList ≠ []
  bare : ∀ c ∈ key.toList, isBareKeyChar c
  spells : Spells spelling value

namespace Line

def chars (l : Line) : List Char := l.key.toList ++ ' ' :: '=' :: ' ' :: l.spelling

def text (l : Line) : String := String.ofList l.chars

def member (l : Line) : String × Value := (l.key, l.value)

end Line

private theorem digit_of_mem {n : Nat} {c : Char} (h : c ∈ Nat.toDigits 10 n) : c.isDigit :=
  Nat.isDigit_of_mem_toDigits (by decide) (by decide) h

private theorem isGrouped_of_all {digit : Char → Bool} (hunderscore : digit '_' = false)
    {cs : List Char} (hne : cs ≠ []) (h : ∀ c ∈ cs, digit c) : isGrouped digit cs := by
  induction cs with
  | nil => exact absurd rfl hne
  | cons c cs ih =>
    obtain ⟨hc, hcs⟩ := List.forall_mem_cons.1 h
    cases cs with
    | nil => exact hc
    | cons d cs =>
      have hd : d ≠ '_' := by
        rintro rfl
        simp [hunderscore] at hcs
      rw [isGrouped, if_neg hd, hc, ih (by simp) hcs]
      rfl

private theorem head?_toDigits {n : Nat} (h : 0 < n) : (Nat.toDigits 10 n).head? ≠ some '0' := by
  induction n using Nat.strong_induction_on with
  | _ n ih =>
    by_cases hn : n < 10
    · rw [Nat.toDigits_of_lt_base hn]
      interval_cases n <;> decide
    · rw [Nat.toDigits_of_base_le (by decide) (by omega), List.head?_append_of_ne_nil _
        Nat.toDigits_ne_nil]
      exact ih (n / 10) (by omega) (by omega)

private theorem isWhole_toDigits (n : Nat) : isWhole (Nat.toDigits 10 n) := by
  have hgrouped : isGrouped Char.isDigit (Nat.toDigits 10 n) :=
    isGrouped_of_all rfl Nat.toDigits_ne_nil fun c => digit_of_mem
  rw [isWhole, hgrouped, Bool.true_and, Bool.or_eq_true]
  rcases Nat.eq_zero_or_pos n with rfl | hn
  · exact .inl rfl
  · exact .inr (bne_iff_ne.2 (head?_toDigits hn))

private theorem valueIn_toDigits (n : Nat) : valueIn 10 (Nat.toDigits 10 n) = n := by
  have hfilter : (Nat.toDigits 10 n).filter (· != '_') = Nat.toDigits 10 n := by
    refine List.filter_eq_self.2 fun c hc => bne_iff_ne.2 ?_
    rintro rfl
    exact Nat.underscore_not_in_toDigits hc
  rw [valueIn, hfilter]
  conv_rhs => rw [← Nat.ofDigitChars_ten_toDigits (n := n), Nat.ofDigitChars_eq_foldl]
  refine List.foldl_ext _ _ _ fun m c hc => ?_
  rw [digitValue, if_pos (digit_of_mem hc), Nat.mul_comm]

private theorem integer?_decimal {cs : List Char} {sign : Option Char} {n : Nat}
    (hmark : ∀ c rest, cs = '0' :: c :: rest → c.isDigit)
    (hsign : splitSign cs = (sign, Nat.toDigits 10 n)) :
    integer? cs = signedWord? (sign == some '-') n := by
  unfold integer?
  split
  · exact absurd (hmark _ _ rfl) (by decide)
  · exact absurd (hmark _ _ rfl) (by decide)
  · exact absurd (hmark _ _ rfl) (by decide)
  · rw [hsign]
    simp only [isWhole_toDigits, valueIn_toDigits, if_true]

private theorem integer?_natural (n : Nat) :
    integer? (Nat.toDigits 10 n) = signedWord? false n := by
  have hall : ∀ c ∈ Nat.toDigits 10 n, c.isDigit := fun c => digit_of_mem
  have hsign : splitSign (Nat.toDigits 10 n) = (none, Nat.toDigits 10 n) := by
    cases h : Nat.toDigits 10 n with
    | nil => rfl
    | cons c cs =>
      have hc : c.isDigit := hall c (by simp [h])
      refine if_neg ?_
      rintro (rfl | rfl) <;> cases hc
  exact integer?_decimal (fun c rest h => hall c (by simp [h])) hsign

private theorem integer?_negative (n : Nat) :
    integer? ('-' :: Nat.toDigits 10 n) = signedWord? true n := by
  have hsign : splitSign ('-' :: Nat.toDigits 10 n) = (some '-', Nat.toDigits 10 n) := rfl
  exact integer?_decimal (fun c rest h => absurd (List.cons.inj h).1 (by decide)) hsign

private theorem ofWord?_of_integer? {cs : List Char} {i : Int} (h : integer? cs = some i)
    (hhead : cs.head? ≠ some 't' ∧ cs.head? ≠ some 'f') : ofWord? cs = some (.integer i) := by
  rw [ofWord?, if_neg, if_neg, h]
  · rfl
  · rintro rfl
    exact hhead.2 rfl
  · rintro rfl
    exact hhead.1 rfl

private theorem readWord_line {word : List Char} {v : Value} (hword : ∀ c ∈ word, isWordChar c)
    (hv : ofWord? word = some v) (rest : List Char) :
    readWord (word ++ '\n' :: rest) = some (v, '\n' :: rest) := by
  have hbreak : isWordChar '\n' = false := rfl
  rw [readWord, List.takeWhile_append_of_pos hword, List.dropWhile_append_of_pos hword,
    List.takeWhile_cons_of_neg (by simp [hbreak]), List.dropWhile_cons_of_neg (by simp [hbreak]),
    List.append_nil, hv]
  rfl

private theorem readBasic_line {cs : List Char} (h : ∀ c ∈ cs, isTextChar c ∧ c ≠ '"' ∧ c ≠ '\\')
    (rest : List Char) {fuel : Nat} (hfuel : cs.length < fuel) :
    readBasic fuel (cs ++ '"' :: rest) = some (cs, rest) := by
  induction cs generalizing fuel with
  | nil =>
    obtain ⟨fuel, rfl⟩ := Nat.exists_eq_add_of_lt hfuel
    simp [readBasic]
  | cons c cs ih =>
    obtain ⟨⟨htext, hquote, hescape⟩, hcs⟩ := List.forall_mem_cons.1 h
    obtain ⟨fuel, rfl⟩ : ∃ n, fuel = n + 1 := ⟨fuel - 1, by omega⟩
    have hmore : cs.length < fuel := by simpa using hfuel
    simp [readBasic, hquote, hescape, htext, ih hcs hmore]

private theorem readLiteral_line {cs : List Char} (h : ∀ c ∈ cs, isTextChar c ∧ c ≠ '\x27')
    (rest : List Char) : readLiteral (cs ++ '\x27' :: rest) = some (cs, rest) := by
  have hinside : ∀ c ∈ cs, (c != '\x27') = true := fun c hc => bne_iff_ne.2 (h c hc).2
  have htext : cs.all isTextChar := List.all_eq_true.2 fun c hc => (h c hc).1
  simp [readLiteral, List.takeWhile_append_of_pos hinside, List.dropWhile_append_of_pos hinside,
    htext]

private theorem readQuoted_line {q : Char} (hq : q ≠ '\n') {cs : List Char} (h : ∀ c ∈ cs, c ≠ q)
    (rest : List Char) :
    readQuoted (q :: (cs ++ q :: '\n' :: rest)) = readShort (q :: (cs ++ q :: '\n' :: rest)) := by
  cases cs with
  | nil => rw [List.nil_append, readQuoted, if_neg fun hrun => hq hrun.2.1]
  | cons c cs =>
    have hc : q ≠ c := (h c List.mem_cons_self).symm
    unfold readQuoted
    split
    · rename_i heq
      obtain ⟨rfl, htail⟩ := List.cons.inj heq
      obtain ⟨rfl, -⟩ := List.cons.inj htail
      exact if_neg fun hrun => hc hrun.1
    · rfl

private theorem readValue_word {word : List Char} {v : Value} (hword : ∀ c ∈ word, isWordChar c)
    (hv : ofWord? word = some v) (depth fuel : Nat) (rest : List Char) :
    readValue depth (fuel + 1) (word ++ '\n' :: rest) = some (v, '\n' :: rest) := by
  have hhead {c : Char} (hc : (word ++ '\n' :: rest).head? = some c) :
      isWordChar c ∨ c = '\n' := by
    cases word with
    | nil => exact .inr (Option.some.inj hc).symm
    | cons d word =>
      obtain rfl := Option.some.inj hc
      exact .inl (hword d List.mem_cons_self)
  unfold readValue
  split
  · rename_i h
    exact absurd (hhead h) (by decide)
  · rename_i h
    exact absurd (hhead h) (by decide)
  · rename_i h
    exact absurd (hhead h) (by decide)
  · rename_i h
    exact absurd (hhead h) (by decide)
  · exact readWord_line hword hv rest

/-- The value behind the equals sign is read up to the end of its line. -/
private theorem readValue_line {cs : List Char} {v : Value} (h : Spells cs v) (depth fuel : Nat)
    (rest : List Char) :
    readValue depth (fuel + 1) (cs ++ '\n' :: rest) = some (v, '\n' :: rest) := by
  have hdigits {n : Nat} : ∀ c ∈ Nat.toDigits 10 n, isWordChar c := fun c hc => by
    simp [isWordChar, Char.isAlphanum, digit_of_mem hc]
  have hhead {n : Nat} {d : Char} (hd : ¬ d.isDigit) : (Nat.toDigits 10 n).head? ≠ some d :=
    fun heq => hd (digit_of_mem (List.mem_of_head? heq))
  cases h with
  | boolean value => cases value <;> rfl
  | @natural n h =>
    exact readValue_word hdigits (ofWord?_of_integer? ((integer?_natural n).trans (if_pos h))
      ⟨hhead (by decide), hhead (by decide)⟩) depth fuel rest
  | @negative n h =>
    exact readValue_word (List.forall_mem_cons.2 ⟨by decide, hdigits⟩)
      (ofWord?_of_integer? ((integer?_negative n).trans (if_pos h)) (by simp)) depth fuel rest
  | @literal text h =>
    have hread := readLiteral_line h ('\n' :: rest)
    have hquoted := readQuoted_line (by decide) (fun c hc => (h c hc).2) rest
    simp only [List.cons_append, List.append_assoc, List.nil_append]
    rw [readValue, List.head?_cons, hquoted]
    simp [readShort, hread]
  | @basic text h =>
    have hquoted := readQuoted_line (by decide) (fun c hc => (h c hc).2.1) rest
    simp only [List.cons_append, List.append_assoc, List.nil_append]
    rw [readValue, List.head?_cons, hquoted, readShort, if_pos rfl,
      readBasic_line h ('\n' :: rest) (by simp)]
    rfl

private theorem skipBlanks_cons {c : Char} (hc : isBlank c = false) (cs : List Char) :
    skipBlanks (c :: cs) = c :: cs :=
  List.dropWhile_cons_of_neg (by simp [hc])

private theorem Spells.skipBlanks_append {cs : List Char} {v : Value} (h : Spells cs v)
    (rest : List Char) : skipBlanks (cs ++ rest) = cs ++ rest := by
  cases h with
  | boolean value => cases value <;> rfl
  | @natural n h =>
    have hall : ∀ c ∈ Nat.toDigits 10 n, c.isDigit := fun c => digit_of_mem
    cases hn : Nat.toDigits 10 n with
    | nil => exact absurd hn Nat.toDigits_ne_nil
    | cons c cs =>
      refine skipBlanks_cons ?_ (cs ++ rest)
      have hc : c.isDigit := hall c (by simp [hn])
      rw [isBlank, Bool.or_eq_false_iff, beq_eq_false_iff_ne, beq_eq_false_iff_ne]
      refine ⟨?_, ?_⟩ <;> (rintro rfl; cases hc)
  | negative h => exact skipBlanks_cons rfl _
  | literal h => exact skipBlanks_cons rfl _
  | basic h => exact skipBlanks_cons rfl _

private theorem ne_of_isBareKeyChar {c d : Char} (hc : isBareKeyChar c)
    (hd : isBareKeyChar d = false) : c ≠ d := by
  rintro rfl
  rw [hd] at hc
  cases hc

namespace Line
variable (l : Line)

private theorem exists_chars :
    ∃ c cs, isBareKeyChar c ∧ l.key.toList = c :: cs := by
  cases hkey : l.key.toList with
  | nil => exact absurd hkey l.key_ne
  | cons c cs => exact ⟨c, cs, l.bare c (by simp [hkey]), rfl⟩

private theorem skipBlanks_key (rest : List Char) :
    skipBlanks (l.key.toList ++ rest) = l.key.toList ++ rest := by
  obtain ⟨c, cs, hc, hkey⟩ := l.exists_chars
  have hblank : isBlank c = false := by
    simp [isBlank, ne_of_isBareKeyChar hc (d := ' ') rfl, ne_of_isBareKeyChar hc (d := '\t') rfl]
  rw [hkey]
  exact skipBlanks_cons hblank _

private theorem readKey_append (rest : List Char) :
    readKey (l.key.toList ++ ' ' :: '=' :: rest) = some ([l.key], '=' :: rest) := by
  have hpart :
      readKeyPart (l.key.toList ++ ' ' :: '=' :: rest) = some (l.key, ' ' :: '=' :: rest) := by
    have hbreak : isBareKeyChar ' ' = false := rfl
    rw [readKeyPart, List.takeWhile_append_of_pos l.bare, List.dropWhile_append_of_pos l.bare,
      List.takeWhile_cons_of_neg (by simp [hbreak]), List.dropWhile_cons_of_neg (by simp [hbreak])]
    simp [l.key_ne]
  have hequals : skipBlanks (' ' :: '=' :: rest) = '=' :: rest := rfl
  simp [readKey, readKeyParts, l.skipBlanks_key, hpart, hequals, nestingLimit]

private theorem readStatement_chars (rest : List Char) :
    readStatement (l.chars ++ '\n' :: rest) = some (.pair [l.key] l.value, '\n' :: rest) := by
  obtain ⟨c, cs, hc, hkey⟩ := l.exists_chars
  have hne {d : Char} (hd : isBareKeyChar d = false) : c ≠ d := ne_of_isBareKeyChar hc hd
  have hskip := l.skipBlanks_key (' ' :: '=' :: ' ' :: (l.spelling ++ '\n' :: rest))
  have hread := l.readKey_append (' ' :: (l.spelling ++ '\n' :: rest))
  have hblanks : skipBlanks (' ' :: (l.spelling ++ '\n' :: rest)) = l.spelling ++ '\n' :: rest :=
    l.spells.skipBlanks_append ('\n' :: rest)
  rw [hkey, List.cons_append] at hskip hread
  have hchars : l.chars ++ '\n' :: rest =
      c :: (cs ++ ' ' :: '=' :: ' ' :: (l.spelling ++ '\n' :: rest)) := by
    simp [chars, hkey]
  rw [hchars]
  unfold readStatement
  rw [hskip]
  split
  · rename_i heq
    cases heq
  · rename_i heq
    exact absurd (List.cons.inj heq).1 (hne rfl)
  · rename_i heq
    exact absurd (List.cons.inj heq).1 (hne rfl)
  · rename_i heq
    obtain ⟨rfl, rfl⟩ := List.cons.inj heq
    rw [if_neg (by simp [hne (d := '#') rfl, hne (d := '\n') rfl, hne (d := '\r') rfl]), hread]
    simp [hblanks, readValue_line l.spells]

end Line

private theorem Members.set_of_lookup {name : String} {ms : Members} (h : ms.lookup name = none)
    (value : Value) : ms.set name value = ms ++ [(name, value)] := by
  induction ms with
  | nil => rfl
  | cons m ms ih =>
    rw [List.lookup_cons] at h
    split at h
    · cases h
    · rename_i hne
      rw [Members.set, if_neg fun heq => by simp [heq] at hne, ih h, List.cons_append]

private theorem Document.add_pair {ms : Members} {name : String} (h : ms.lookup name = none)
    (value : Value) :
    Document.add ⟨[], ms⟩ (.pair [name] value) = some ⟨[], ms ++ [(name, value)]⟩ := by
  simp [Document.add, descend, assign, h, Members.set_of_lookup h]

private theorem readDocument_lines (lines : List Line) {ms : Members} {fuel : Nat}
    (hfuel : lines.length < fuel)
    (hnodup : ((ms ++ lines.map Line.member).map Prod.fst).Nodup) :
    readDocument fuel ⟨[], ms⟩ (lines.flatMap fun l => l.chars ++ ['\n']) =
      some ⟨[], ms ++ lines.map Line.member⟩ := by
  -- The members read so far grow; that their keys and those to come differ is kept.
  induction lines generalizing ms fuel with
  | nil =>
    obtain ⟨fuel, rfl⟩ : ∃ n, fuel = n + 1 := ⟨fuel - 1, by simp at hfuel; omega⟩
    simp [readDocument]
  | cons l lines ih =>
    obtain ⟨fuel, rfl⟩ : ∃ n, fuel = n + 1 := ⟨fuel - 1, by simp at hfuel; omega⟩
    have hnew : ms.lookup l.key = none := by
      rw [List.lookup_eq_none_iff]
      intro m hm
      rw [List.map_append, List.nodup_append] at hnodup
      have hne : m.1 ≠ l.key :=
        hnodup.2.2 m.1 (List.mem_map_of_mem hm) l.key (by simp [Line.member])
      exact bne_iff_ne.2 hne.symm
    have hnodup' : ((ms ++ [l.member] ++ lines.map Line.member).map Prod.fst).Nodup := by
      simpa using hnodup
    have hmore := ih (by simpa using hfuel) hnodup'
    have hline := l.readStatement_chars (lines.flatMap fun l => l.chars ++ ['\n'])
    have hend (rest : List Char) : readLineEnd ('\n' :: rest) = some rest := rfl
    rw [List.flatMap_cons, List.append_assoc, List.singleton_append, readDocument,
      if_neg (by simp)]
    simpa [hline, hend, Document.add_pair hnew, Line.member] using hmore

private theorem Spells.settle {cs : List Char} {v : Value} (h : Spells cs v) :
    settle v = some v := by
  cases h <;> rw [Toml.settle] <;> simp

private theorem settleMembers_lines (lines : List Line) :
    settleMembers (lines.map Line.member) = some (lines.map Line.member) := by
  induction lines with
  | nil => rfl
  | cons l lines ih => simp [settleMembers, Line.member, l.spells.settle, ih]

private theorem settle?_lines (lines : List Line) :
    Members.settle? (lines.map Line.member) = some (lines.map Line.member) := by
  cases lines with
  | nil => rfl
  | cons l lines =>
    have hmark : l.key ≠ momentName := fun h =>
      absurd (l.bare '$' (by rw [h]; decide)) (by decide)
    simp [Members.settle?, settleTable, Line.member, hmark, l.spells.settle, settleMembers_lines]

/-- Lines with different keys are read as their members, in order. -/
theorem parse?_lines {lines : List Line} (h : (lines.map Line.key).Nodup) :
    parse? (unlines (lines.map Line.text)) = some (lines.map Line.member) := by
  have hchars : (unlines (lines.map Line.text)).toList =
      lines.flatMap fun l => l.chars ++ ['\n'] := by
    simp [unlines, String.toList_join, List.flatMap_map, Line.text]
  have hmark : (lines.flatMap fun l => l.chars ++ ['\n']).head? ≠ some '\uFEFF' := by
    cases lines with
    | nil => nofun
    | cons l lines =>
      obtain ⟨c, cs, hc, hkey⟩ := l.exists_chars
      simpa [Line.chars, hkey] using ne_of_isBareKeyChar hc rfl
  have hlength : lines.length < (lines.flatMap fun l => l.chars ++ ['\n']).length + 1 := by simp
  have hnodup : (([] ++ lines.map Line.member).map Prod.fst).Nodup := by
    simpa [Function.comp_def, Line.member] using h
  have hread := readDocument_lines lines hlength hnodup
  rw [parse?, hchars, if_neg hmark, Document.empty]
  simp only [hread, List.nil_append]
  exact settle?_lines lines

end Toml

namespace SettingsSource

/-- A file of lines with different keys supplies what its line for a setting gives, whatever the
case of the letters in the key. -/
theorem supplies?_lines {files : Files} {env : List (String × String)} {path found : String}
    {lines : List Toml.Line} (hfound : settingsFile? files path = some found)
    (hread : files.readText found = .ok (unlines (lines.map Toml.Line.text)))
    (hkeys : (lines.map Toml.Line.key).Nodup) (required : Bool) (s : Setting) :
    (file path required).supplies? files env s =
      lines.findSome? fun l => s.given? (memberEntry l.member) := by
  have hentries : (file path required).entries? files env =
      some (lines.map fun l => memberEntry l.member) := by
    simp [entries?, hfound, hread, Toml.parse?_lines hkeys, Function.comp_def]
  rw [supplies?, hentries, Option.bind_some, List.findSome?_map]
  rfl

end SettingsSource
end PlanningDomain
