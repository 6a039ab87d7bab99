import PlanningDomain.Proofs.Token.Lexical

/-! The rules by which characters are a token, apart from any scanner. Main statements: the token at
the front of a text is the one of the longest rule that applies there, a reserved one if there are
several of that length; and where no token is found, no rule applies. -/
namespace PlanningDomain

namespace Token

/-- Everything that is reserved. The case of ASCII letters does not count. -/
def reservedSpellings : List (String × Token) :=
  [("(", openParen), (")", closeParen), ("-", dash),
   ("define", define), ("domain", domain), ("not", not), ("and", and),
   (":requirements", requirements), (":types", types), (":predicates", predicates),
   (":task", task), (":method", method), (":parameters", parameters),
   (":ordered-subtasks", orderedSubtasks), (":ordered-tasks", orderedSubtasks),
   (":unordered-subtasks", unorderedSubtasks), (":subtasks", unorderedSubtasks),
   (":tasks", unorderedSubtasks)]

/-- A kind of token that there is only one of. -/
def isReserved : Token → Bool
  | keyword _ | var _ | name _ => false
  | _ => true

end Token

/-- A letter or an underscore, and behind it letters, digits, underscores and dashes. -/
def SpellsWord : List Char → Prop
  | [] => False
  | c :: cs => (c.isAlpha = true ∨ c = '_') ∧
      ∀ d ∈ cs, d.isAlphanum = true ∨ d = '_' ∨ d = '-'

inductive TokenRule : List Char → Token → Prop
  | reserved {cs : List Char} {t : Token} (h : (Token.folded cs, t) ∈ Token.reservedSpellings) :
      TokenRule cs t
  | keyword {word : List Char} (h : SpellsWord word) :
      TokenRule (':' :: word) (.keyword (Token.folded word))
  | var {word : List Char} (h : SpellsWord word) :
      TokenRule ('?' :: word) (.var (String.ofList ('?' :: word)))
  | name {word : List Char} (h : SpellsWord word) : TokenRule word (.name (String.ofList word))

/-- Of all that is a token at the front of a text, the longest slice, and among its tokens the
reserved one. -/
structure LongestMatch (text slice : List Char) (t : Token) : Prop where
  front : slice <+: text
  rule : TokenRule slice t
  longest : ∀ other u, other <+: text → TokenRule other u → other.length ≤ slice.length
  reserved : ∀ u, (Token.folded slice, u) ∈ Token.reservedSpellings → t = u

def NoMatch (text : List Char) : Prop :=
  ∀ slice t, slice <+: text → ¬ TokenRule slice t

theorem spellsWord_iff_isWord {cs : List Char} : SpellsWord cs ↔ IsWord cs := by
  cases cs with
  | nil => simp [SpellsWord, IsWord, splitWord]
  | cons c cs =>
    rw [isWord_cons]
    simp [SpellsWord, startsWord, continuesWord, or_assoc]

instance (cs : List Char) : Decidable (SpellsWord cs) :=
  decidable_of_iff (splitWord cs = some (cs, [])) spellsWord_iff_isWord.symm

private theorem folded_toList (cs : List Char) :
    (Token.folded cs).toList = cs.map Char.toLower := by
  simp [Token.folded]

theorem toLower_eq_iff {c d : Char} (hd : d.isAlpha = false) : c.toLower = d ↔ c = d := by
  by_cases hc : c.isUpper = true
  · constructor
    · rintro rfl
      simp [Char.isAlpha, hc] at hd
    · rintro rfl
      simp [Char.isAlpha, hc] at hd
  · rw [Char.toLower_eq_of_not_isUpper hc]

private theorem spellsWord_map_toLower {cs : List Char} :
    SpellsWord (cs.map Char.toLower) ↔ SpellsWord cs := by
  rw [spellsWord_iff_isWord, spellsWord_iff_isWord]
  cases cs with
  | nil => rfl
  | cons c cs =>
    simp [isWord_cons, startsWord_toLower, continuesWord_toLower]

private theorem length_le_of_splitWord {cs word rest other : List Char}
    (h : splitWord cs = some (word, rest)) (hother : SpellsWord other) (hfront : other <+: cs) :
    other.length ≤ word.length := by
  cases other with
  | nil => exact Nat.zero_le _
  | cons c other =>
    obtain ⟨more, rfl⟩ := hfront
    obtain ⟨hc, hrest⟩ := isWord_cons.1 (spellsWord_iff_isWord.1 hother)
    rw [List.cons_append, splitWord, if_pos hc, List.takeWhile_append_of_pos hrest,
      Option.some.injEq, Prod.mk.injEq] at h
    rw [← h.1]
    simp

private theorem not_spellsWord_of_splitWord {cs other : List Char} (h : splitWord cs = none)
    (hfront : other <+: cs) : ¬ SpellsWord other := by
  intro hother
  cases other with
  | nil => exact hother
  | cons c other =>
    obtain ⟨more, rfl⟩ := hfront
    have hc := (isWord_cons.1 (spellsWord_iff_isWord.1 hother)).1
    rw [List.cons_append, splitWord, if_pos hc] at h
    cases h

namespace Token

private theorem mem_reservedKeywords_of_mem {word : List Char} {t : Token}
    (h : (folded (':' :: word), t) ∈ reservedSpellings) : (folded word, t) ∈ reservedKeywords := by
  have htable : ∀ e ∈ reservedSpellings, e.1.toList.head? = some ':' →
      (String.ofList e.1.toList.tail, e.2) ∈ reservedKeywords := by
    decide
  simpa [folded_toList, folded] using htable _ h (by simp [folded_toList])

private theorem mem_reservedNames_of_mem {word : List Char} {t : Token} (hword : SpellsWord word)
    (h : (folded word, t) ∈ reservedSpellings) : (folded word, t) ∈ reservedNames := by
  have htable : ∀ e ∈ reservedSpellings, SpellsWord e.1.toList → e ∈ reservedNames := by
    decide
  exact htable _ h (by rwa [folded_toList, spellsWord_map_toLower])

private theorem not_mem_reservedSpellings_variable (word : List Char) (t : Token) :
    (folded ('?' :: word), t) ∉ reservedSpellings := by
  have htable : ∀ e ∈ reservedSpellings, e.1.toList.head? ≠ some '?' := by
    decide
  intro h
  exact htable _ h (by simp [folded_toList])

private theorem ofKeyword_eq_of_mem {word : List Char} {t : Token}
    (h : (folded word, t) ∈ reservedKeywords) : ofKeyword word = t := by
  have htable : ∀ e ∈ reservedKeywords, reservedKeywords.lookup e.1 = some e.2 := by
    decide
  rw [ofKeyword, htable _ h, Option.getD_some]

private theorem ofWord_eq_of_mem {word : List Char} {t : Token}
    (h : (folded word, t) ∈ reservedNames) : ofWord word = t := by
  have htable : ∀ e ∈ reservedNames, reservedNames.lookup e.1 = some e.2 := by
    decide
  rw [ofWord, htable _ h, Option.getD_some]

theorem isReserved_of_mem {spelling : String} {t : Token}
    (h : (spelling, t) ∈ reservedSpellings) : t.isReserved = true := by
  have htable : ∀ e ∈ reservedSpellings, e.2.isReserved = true := by
    decide
  exact htable _ h

end Token

theorem TokenRule.cases_chars {cs : List Char} {t : Token} (h : TokenRule cs t) :
    cs = ['('] ∨ cs = [')'] ∨ cs = ['-'] ∨ (∃ word, cs = ':' :: word ∧ SpellsWord word) ∨
      (∃ word, cs = '?' :: word ∧ SpellsWord word) ∨ SpellsWord cs := by
  cases h with
  | reserved h =>
    have htable : ∀ e ∈ Token.reservedSpellings, e.1.toList = ['('] ∨ e.1.toList = [')'] ∨
        e.1.toList = ['-'] ∨ (e.1.toList.head? = some ':' ∧ SpellsWord e.1.toList.tail) ∨
        SpellsWord e.1.toList := by
      decide
    have hsign {d : Char} (hd : d.isAlpha = false) (heq : cs.map Char.toLower = [d]) :
        cs = [d] := by
      obtain ⟨c, rest, rfl, hc, hrest⟩ := List.map_eq_cons_iff.1 heq
      rw [(toLower_eq_iff hd).1 hc, List.map_eq_nil_iff.1 hrest]
    have hshape := htable _ h
    rw [folded_toList, spellsWord_map_toLower] at hshape
    rcases hshape with h | h | h | ⟨hcolon, hword⟩ | hword
    · exact .inl (hsign rfl h)
    · exact .inr (.inl (hsign rfl h))
    · exact .inr (.inr (.inl (hsign rfl h)))
    · cases cs with
      | nil => cases hcolon
      | cons c word =>
        obtain rfl : c = ':' := (toLower_eq_iff rfl).1 (Option.some.inj hcolon)
        exact .inr (.inr (.inr (.inl ⟨word, rfl, spellsWord_map_toLower.1 hword⟩)))
    · exact .inr (.inr (.inr (.inr (.inr hword))))
  | keyword h => exact .inr (.inr (.inr (.inl ⟨_, rfl, h⟩)))
  | var h => exact .inr (.inr (.inr (.inr (.inl ⟨_, rfl, h⟩))))
  | name h => exact .inr (.inr (.inr (.inr (.inr h))))

theorem TokenRule.ne_nil {cs : List Char} {t : Token} (h : TokenRule cs t) : cs ≠ [] := by
  rcases h.cases_chars with rfl | rfl | rfl | ⟨word, rfl, -⟩ | ⟨word, rfl, -⟩ | hword
  · simp
  · simp
  · simp
  · simp
  · simp
  · rintro rfl
    exact hword

private theorem exists_munches_of_rule {text slice : List Char} {t : Token}
    (hfront : slice <+: text) (h : TokenRule slice t) : ∃ m, Munches text m := by
  have hword {cs word : List Char} (hword : SpellsWord word) (hfront : word <+: cs) :
      ∃ found rest, splitWord cs = some (found, rest) := by
    cases hsplit : splitWord cs with
    | some found => exact ⟨found.1, found.2, rfl⟩
    | none => exact absurd hword (not_spellsWord_of_splitWord hsplit hfront)
  obtain ⟨more, rfl⟩ := hfront
  rcases h.cases_chars with rfl | rfl | rfl | ⟨word, rfl, hw⟩ | ⟨word, rfl, hw⟩ | hw
  · exact ⟨_, .openParen more⟩
  · exact ⟨_, .closeParen more⟩
  · exact ⟨_, .dash more⟩
  · obtain ⟨found, rest, hsplit⟩ := hword hw (List.prefix_append word more)
    exact ⟨_, .keyword hsplit⟩
  · obtain ⟨found, rest, hsplit⟩ := hword hw (List.prefix_append word more)
    exact ⟨_, .var hsplit⟩
  · obtain ⟨found, rest, hsplit⟩ := hword hw (List.prefix_append slice more)
    exact ⟨_, .word hsplit⟩

theorem noMatch_of_munch? {text : List Char} (h : munch? text = none) : NoMatch text := by
  intro slice t hfront hrule
  obtain ⟨m, hm⟩ := exists_munches_of_rule hfront hrule
  rw [munch?_eq_some_iff.2 hm] at h
  cases h

namespace Munches
variable {text : List Char} {m : Munch}

private theorem rule (h : Munches text m) : TokenRule m.written m.token := by
  cases h with
  | openParen rest =>
    have htable : (Token.folded ['('], Token.openParen) ∈ Token.reservedSpellings := by decide
    exact .reserved htable
  | closeParen rest =>
    have htable : (Token.folded [')'], Token.closeParen) ∈ Token.reservedSpellings := by decide
    exact .reserved htable
  | dash rest =>
    have htable : (Token.folded ['-'], Token.dash) ∈ Token.reservedSpellings := by decide
    exact .reserved htable
  | @keyword cs word rest h =>
    have hword := spellsWord_iff_isWord.2 (isWord_of_splitWord h)
    have htable : ∀ e ∈ Token.reservedKeywords, (":" ++ e.1, e.2) ∈ Token.reservedSpellings := by
      decide
    simp only [Token.ofKeyword]
    cases hlookup : Token.reservedKeywords.lookup (Token.folded word) with
    | none => exact .keyword hword
    | some t =>
      refine .reserved ?_
      have hfolded : Token.folded (':' :: word) = ":" ++ Token.folded word := by
        rw [String.ext_iff, String.toList_append, folded_toList, folded_toList]
        rfl
      rw [hfolded]
      exact htable _ (mem_of_lookup hlookup)
  | var h => exact .var (spellsWord_iff_isWord.2 (isWord_of_splitWord h))
  | @word _ word rest h =>
    have hword := spellsWord_iff_isWord.2 (isWord_of_splitWord h)
    have htable : ∀ e ∈ Token.reservedNames, e ∈ Token.reservedSpellings := by
      decide
    simp only [Token.ofWord]
    cases hlookup : Token.reservedNames.lookup (Token.folded word) with
    | none => exact .name hword
    | some t => exact .reserved (htable _ (mem_of_lookup hlookup))

private theorem length_le (h : Munches text m) {other : List Char} {u : Token}
    (hfront : other <+: text) (hother : TokenRule other u) : other.length ≤ m.written.length := by
  have hstarts {c : Char} {cs : List Char} (hc : startsWord c = false)
      (hfront : other <+: c :: cs) : ¬ SpellsWord other := by
    intro hword
    cases other with
    | nil => exact hword
    | cons d other =>
      obtain rfl := (List.cons_prefix_cons.1 hfront).1
      rw [(isWord_cons.1 (spellsWord_iff_isWord.1 hword)).1] at hc
      cases hc
  -- The first character of the text leaves one kind of rule.
  cases h with
  | openParen rest | closeParen rest | dash rest =>
    have hnot := hstarts rfl hfront
    rcases hother.cases_chars with rfl | rfl | rfl | ⟨word, rfl, -⟩ | ⟨word, rfl, -⟩ | hword
    iterate 3 exact Nat.le_refl _
    · simp at hfront
    · simp at hfront
    · exact absurd hword hnot
  | keyword h =>
    have hnot := hstarts rfl hfront
    rcases hother.cases_chars with rfl | rfl | rfl | ⟨word, rfl, hword⟩ | ⟨word, rfl, -⟩ | hword
    iterate 3 simp at hfront
    · exact Nat.succ_le_succ
        (length_le_of_splitWord h hword (List.cons_prefix_cons.1 hfront).2)
    · simp at hfront
    · exact absurd hword hnot
  | var h =>
    have hnot := hstarts rfl hfront
    rcases hother.cases_chars with rfl | rfl | rfl | ⟨word, rfl, -⟩ | ⟨word, rfl, hword⟩ | hword
    iterate 3 simp at hfront
    · simp at hfront
    · exact Nat.succ_le_succ
        (length_le_of_splitWord h hword (List.cons_prefix_cons.1 hfront).2)
    · exact absurd hword hnot
  | word h =>
    have hpos := List.length_pos_iff.2 (splitWord_eq_some h).2
    have hnone {c : Char} {cs : List Char} (hc : startsWord c = false) :
        ¬ c :: cs <+: text := by
      rintro ⟨more, rfl⟩
      simp [splitWord, hc] at h
    rcases hother.cases_chars with rfl | rfl | rfl | ⟨word, rfl, -⟩ | ⟨word, rfl, -⟩ | hword
    iterate 3 exact hpos
    · exact absurd hfront (hnone rfl)
    · exact absurd hfront (hnone rfl)
    · exact length_le_of_splitWord h hword hfront

private theorem reserved (h : Munches text m) {u : Token}
    (hu : (Token.folded m.written, u) ∈ Token.reservedSpellings) : m.token = u := by
  have hopen : ∀ e ∈ Token.reservedSpellings, e.1 = "(" → .openParen = e.2 := by decide
  have hclose : ∀ e ∈ Token.reservedSpellings, e.1 = ")" → .closeParen = e.2 := by decide
  have hdash : ∀ e ∈ Token.reservedSpellings, e.1 = "-" → .dash = e.2 := by decide
  cases h with
  | openParen rest => exact hopen _ hu rfl
  | closeParen rest => exact hclose _ hu rfl
  | dash rest => exact hdash _ hu rfl
  | keyword h => exact Token.ofKeyword_eq_of_mem (Token.mem_reservedKeywords_of_mem hu)
  | var h => exact absurd hu (Token.not_mem_reservedSpellings_variable _ u)
  | word h =>
    have hword := spellsWord_iff_isWord.2 (isWord_of_splitWord h)
    exact Token.ofWord_eq_of_mem (Token.mem_reservedNames_of_mem hword hu)

end Munches

/-- The token at the front of a text is the longest match there. -/
theorem longestMatch_of_munch? {text : List Char} {m : Munch} (h : munch? text = some m) :
    LongestMatch text m.written m.token where
  front := ⟨m.rest, (munch?_eq_some h).1.symm⟩
  rule := (munch?_eq_some_iff.1 h).rule
  longest _ _ hfront hother := (munch?_eq_some_iff.1 h).length_le hfront hother
  reserved _ hu := (munch?_eq_some_iff.1 h).reserved hu

theorem LexesAs.rule {text : String} {t : Token} (h : LexesAs text t) : TokenRule text.toList t :=
  (longestMatch_of_munch? (lexesAs_iff.1 h)).rule

private theorem TokenRule.spellsWord {cs : List Char} {name : String}
    (h : TokenRule cs (.name name)) :
    SpellsWord cs := by
  generalize ht : Token.name name = t at h
  cases h with
  | reserved hmem =>
    subst ht
    cases Token.isReserved_of_mem hmem
  | keyword | var => cases ht
  | name hword => exact hword

theorem IsName.spellsWord {name : String} (h : IsName name) : SpellsWord name.toList :=
  (LexesAs.rule h).spellsWord

/-- A token is reserved exactly if its slice is a reserved spelling. -/
theorem LongestMatch.isReserved_iff {text slice : List Char} {t : Token}
    (h : LongestMatch text slice t) :
    t.isReserved = true ↔ Token.folded slice ∈ Token.reservedSpellings.map Prod.fst := by
  constructor
  · intro ht
    cases h.rule with
    | reserved hmem => exact List.mem_map_of_mem hmem
    | keyword | var | name => cases ht
  · intro hmem
    obtain ⟨⟨spelling, u⟩, hu, rfl⟩ := List.mem_map.1 hmem
    rw [h.reserved u hu]
    exact Token.isReserved_of_mem hu

end PlanningDomain
