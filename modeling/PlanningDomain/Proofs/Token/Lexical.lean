import Mathlib
import PlanningDomain.Proofs.Token.Outline

/-! Texts that are one token. Main statement: every token of any text, written in its usual
spelling, is the same token again. -/
namespace PlanningDomain

/-- The whole text is one lexeme, and its token is the given one. -/
def LexesAs (text : String) (t : Token) : Prop :=
  scan text = [.lexeme ⟨t, text, ⟨0, byteLength text.toList⟩⟩]

instance (text : String) (t : Token) : Decidable (LexesAs text t) :=
  inferInstanceAs (Decidable (_ = _))

/-- A word that is neither reserved nor has a sign in front. -/
def IsName (text : String) : Prop := LexesAs text (.name text)

def IsVariable (text : String) : Prop := LexesAs text (.var text)

/-- A lower-case word that, behind a colon, is not reserved. -/
def IsFlag (word : String) : Prop := LexesAs (":" ++ word) (.keyword word)

instance (text : String) : Decidable (IsName text) := inferInstanceAs (Decidable (LexesAs ..))

instance (text : String) : Decidable (IsVariable text) := inferInstanceAs (Decidable (LexesAs ..))

instance (word : String) : Decidable (IsFlag word) := inferInstanceAs (Decidable (LexesAs ..))

private theorem le_start_scanFrom {offset : Nat} {cs : List Char} :
    ∀ x ∈ scanFrom offset cs, offset ≤ x.range.start := by
  induction offset, cs using scanFrom.induct with
  | case1 offset => simp [scanFrom]
  | case2 offset c rest hblank ih =>
    rw [scanFrom_of_isBlank hblank]
    intro x hx
    have := ih x hx
    omega
  | case3 offset rest hblank ih =>
    rw [scanFrom_semicolon]
    intro x hx
    have := ih x hx
    omega
  | case4 offset c rest hblank hsemi m hm stop ih =>
    rw [scanFrom_of_munch? hm]
    intro x hx
    rcases List.mem_cons.1 hx with rfl | hx
    · exact Nat.le_refl _
    · have := ih x hx
      omega
  | case5 offset c rest hblank hsemi hm ih =>
    rw [scanFrom_stray (Bool.eq_false_iff.2 hblank) hsemi hm]
    intro x hx
    rcases List.mem_cons.1 hx with rfl | hx
    · exact Nat.le_refl _
    · have := ih x hx
      omega

theorem lexesAs_iff {text : String} {t : Token} :
    LexesAs text t ↔ munch? text.toList = some ⟨t, text.toList, []⟩ := by
  rw [LexesAs, scan]
  cases hcs : text.toList with
  | nil => simp [scanFrom, munch?]
  | cons c cs =>
    constructor
    · intro h
      have hlate : ∀ {offset cs'}, scanFrom offset cs' = scanFrom 0 (c :: cs) → offset = 0 := by
        intro offset cs' hs
        rw [h] at hs
        exact Nat.le_zero.1 (le_start_scanFrom _ (hs ▸ List.mem_singleton_self _))
      have hsize := c.utf8Size_pos
      cases hm : munch? (c :: cs) with
      | some m =>
        rw [scanFrom_of_munch? hm] at h
        simp only [List.cons.injEq, Scanned.lexeme.injEq, Lexeme.mk.injEq] at h
        obtain ⟨⟨htoken, hwritten, -⟩, -⟩ := h
        have hw : m.written = c :: cs := by rw [← hcs, ← hwritten, String.toList_ofList]
        have hrest : m.rest = [] := by
          have := (munch?_eq_some hm).1
          rw [hw] at this
          exact List.self_eq_append_right.1 this
        rw [← htoken, ← hw, ← hrest]
      | none =>
        exfalso
        by_cases hblank : isBlank c = true
        · have := hlate (scanFrom_of_isBlank hblank).symm
          omega
        · by_cases hsemi : c = ';'
          · subst hsemi
            have := hlate scanFrom_semicolon.symm
            simp only [byteLength] at this
            omega
          · rw [scanFrom_stray (Bool.eq_false_iff.2 hblank) hsemi hm] at h
            simp at h
    · intro h
      rw [scanFrom_of_munch? h]
      simp [scanFrom, ← hcs]

def IsWord (cs : List Char) : Prop :=
  splitWord cs = some (cs, [])

theorem isWord_cons {c : Char} {cs : List Char} :
    IsWord (c :: cs) ↔ startsWord c = true ∧ ∀ d ∈ cs, continuesWord d = true := by
  simp only [IsWord, splitWord]
  split
  · rename_i hc
    simp [hc]
  · rename_i hc
    simp [hc]

theorem isWord_of_splitWord {cs word rest : List Char} (h : splitWord cs = some (word, rest)) :
    IsWord word := by
  cases cs with
  | nil => simp [splitWord] at h
  | cons c cs =>
    simp only [splitWord] at h
    split at h
    · rename_i hc
      simp only [Option.some.injEq, Prod.mk.injEq] at h
      obtain ⟨rfl, -⟩ := h
      exact isWord_cons.2 ⟨hc, fun d hd => (List.mem_takeWhile_imp hd)⟩
    · cases h

theorem startsWord_toLower (c : Char) : startsWord c.toLower = startsWord c := by
  by_cases hc : c.isUpper = true
  · simp [startsWord, Char.isAlpha, hc]
  · rw [Char.toLower_eq_of_not_isUpper hc]

theorem continuesWord_toLower (c : Char) : continuesWord c.toLower = continuesWord c := by
  by_cases hc : c.isUpper = true
  · simp [continuesWord, Char.isAlphanum, Char.isAlpha, hc]
  · rw [Char.toLower_eq_of_not_isUpper hc]

private theorem IsWord.map_toLower {word : List Char} (h : IsWord word) :
    IsWord (word.map Char.toLower) := by
  cases word with
  | nil => exact h
  | cons c cs =>
    obtain ⟨hc, hcs⟩ := isWord_cons.1 h
    rw [List.map_cons, isWord_cons, startsWord_toLower]
    refine ⟨hc, fun d hd => ?_⟩
    obtain ⟨e, he, rfl⟩ := List.mem_map.1 hd
    rw [continuesWord_toLower]
    exact hcs e he

theorem folded_map_toLower (word : List Char) :
    Token.folded (word.map Char.toLower) = Token.folded word := by
  simp [Token.folded, Function.comp_def]

private theorem lexesAs_reservedKeyword :
    ∀ e ∈ Token.reservedKeywords, LexesAs e.2.spelling e.2 := by
  decide_cbv

private theorem lexesAs_reservedName :
    ∀ e ∈ Token.reservedNames, LexesAs e.2.spelling e.2 := by
  decide_cbv

theorem mem_of_lookup {key : String} {t : Token} {es : List (String × Token)}
    (h : es.lookup key = some t) : (key, t) ∈ es := by
  obtain ⟨_, _, rfl, _⟩ := List.lookup_eq_some_iff.1 h
  simp

private theorem lexesAs_ofKeyword {word : List Char} (h : IsWord word) :
    LexesAs (Token.ofKeyword word).spelling (Token.ofKeyword word) := by
  cases hlookup : Token.reservedKeywords.lookup (Token.folded word) with
  | some t =>
    rw [Token.ofKeyword, hlookup]
    exact lexesAs_reservedKeyword _ (mem_of_lookup hlookup)
  | none =>
    have hkeyword : Token.ofKeyword (word.map Char.toLower) = .keyword (Token.folded word) := by
      simp [Token.ofKeyword, folded_map_toLower, hlookup]
    have hsplit : splitWord (word.map Char.toLower) = some (word.map Char.toLower, []) :=
      h.map_toLower
    rw [Token.ofKeyword, hlookup, lexesAs_iff]
    simp [Token.spelling, Token.folded, munch?, signedWord, hsplit, hkeyword]

/-- A flag is a word in lower case that, behind a colon, is a keyword of any kind but the reserved.
-/
theorem isFlag_iff {word : String} :
    IsFlag word ↔
      Token.folded word.toList = word ∧ ∃ other, LexesAs (":" ++ word) (.keyword other) := by
  have hword {other : String} (h : LexesAs (":" ++ word) (.keyword other)) :
      other = Token.folded word.toList := by
    rw [lexesAs_iff, String.toList_append] at h
    obtain ⟨⟨found, rest⟩, hsplit, hmunch⟩ : ∃ w, splitWord word.toList = some w ∧ _ :=
      Option.map_eq_some_iff.1 h
    simp only [Munch.mk.injEq] at hmunch
    obtain ⟨htoken, hwritten, -⟩ := hmunch
    obtain rfl : found = word.toList := (List.cons.inj hwritten).2
    rw [Token.ofKeyword] at htoken
    cases hlookup : Token.reservedKeywords.lookup (Token.folded word.toList) with
    | none =>
      rw [hlookup, Option.getD_none, Token.keyword.injEq] at htoken
      exact htoken.symm
    | some t =>
      have hmem := mem_of_lookup hlookup
      rw [hlookup, Option.getD_some] at htoken
      simp [Token.reservedKeywords, htoken] at hmem
  constructor
  · intro h
    exact ⟨(hword h).symm, word, h⟩
  · rintro ⟨hfolded, other, h⟩
    rwa [hword h, hfolded] at h

theorem not_isFlag_of_reserved : ∀ e ∈ Token.reservedKeywords, ¬ IsFlag e.1 := by
  decide_cbv

private theorem lexesAs_ofVariable {word : List Char} (h : IsWord word) :
    LexesAs (Token.ofVariable word).spelling (Token.ofVariable word) := by
  have hsplit : splitWord word = some (word, []) := h
  rw [lexesAs_iff]
  simp [Token.ofVariable, Token.spelling, munch?, signedWord, hsplit]

private theorem lexesAs_ofWord {word : List Char} (h : IsWord word) :
    LexesAs (Token.ofWord word).spelling (Token.ofWord word) := by
  cases hlookup : Token.reservedNames.lookup (Token.folded word) with
  | some t =>
    rw [Token.ofWord, hlookup]
    exact lexesAs_reservedName _ (mem_of_lookup hlookup)
  | none =>
    have hname : Token.ofWord word = .name (String.ofList word) := by
      rw [Token.ofWord, hlookup, Option.getD_none]
    have hsplit : splitWord word = some (word, []) := h
    rw [hname, lexesAs_iff, Token.spelling, String.toList_ofList, ← hname]
    exact munch?_eq_some_iff.2 (.word hsplit)

private theorem lexesAs_of_munch? {cs : List Char} {m : Munch} (h : munch? cs = some m) :
    LexesAs m.token.spelling m.token := by
  cases munch?_eq_some_iff.1 h with
  | openParen rest => exact (lexesAs_iff.2 rfl : LexesAs "(" .openParen)
  | closeParen rest => exact (lexesAs_iff.2 rfl : LexesAs ")" .closeParen)
  | dash rest => exact (lexesAs_iff.2 rfl : LexesAs "-" .dash)
  | keyword hw => exact lexesAs_ofKeyword (isWord_of_splitWord hw)
  | var hw => exact lexesAs_ofVariable (isWord_of_splitWord hw)
  | word hw => exact lexesAs_ofWord (isWord_of_splitWord hw)

/-- Every token of a text, in its usual spelling, is one lexeme of the same token. -/
theorem lexesAs_of_mem_scanFrom {offset : Nat} {cs : List Char} {l : Lexeme}
    (h : .lexeme l ∈ scanFrom offset cs) : LexesAs l.token.spelling l.token := by
  induction offset, cs using scanFrom.induct with
  | case1 offset => simp [scanFrom] at h
  | case2 offset c rest hblank ih =>
    rw [scanFrom_of_isBlank hblank] at h
    exact ih h
  | case3 offset rest hblank ih =>
    rw [scanFrom_semicolon] at h
    exact ih h
  | case4 offset c rest hblank hsemi m hm stop ih =>
    rw [scanFrom_of_munch? hm] at h
    rcases List.mem_cons.1 h with h | h
    · cases h
      exact lexesAs_of_munch? hm
    · exact ih h
  | case5 offset c rest hblank hsemi hm ih =>
    rw [scanFrom_stray (Bool.eq_false_iff.2 hblank) hsemi hm] at h
    rcases List.mem_cons.1 h with h | h
    · cases h
    · exact ih h

def Token.Lexes (t : Token) : Prop := LexesAs t.spelling t

theorem lexes_of_mem_tokens {text : String} {t : Token} (h : t ∈ tokens text) : t.Lexes := by
  obtain ⟨l, hl, rfl⟩ := List.mem_map.1 h
  obtain ⟨item, hitem, hlexeme⟩ := List.mem_filterMap.1 hl
  cases item with
  | stray s => cases hlexeme
  | lexeme l' =>
    obtain rfl := Option.some.inj hlexeme
    exact lexesAs_of_mem_scanFrom hitem

end PlanningDomain
