import PlanningDomain.Proofs.Token.Partition

/-! The case of ASCII letters. Main statement: texts that differ in nothing else scan alike;
scanning commutes with lower case. -/
namespace PlanningDomain

/-- The second text is the first with some of its ASCII letters in the other case. -/
def Recased (text other : String) : Prop :=
  List.Forall₂ (fun c d => d = c ∨ d = c.toLower ∨ d = c.toUpper) text.toList other.toList

instance (text other : String) : Decidable (Recased text other) :=
  inferInstanceAs (Decidable (List.Forall₂ _ _ _))

def Token.keepsSpelling : Token → Bool
  | .var _ | .name _ => true
  | _ => false

/-- Items at one place of two texts: one stray character, or lexemes of one token, where a variable
and a name are as each text spells them. -/
inductive Scanned.Alike : Scanned → Scanned → Prop
  | stray (s : Stray) : Alike (.stray s) (.stray s)
  | fixed {t : Token} (h : t.keepsSpelling = false) (written written' : String)
      (range : ByteRange) : Alike (.lexeme ⟨t, written, range⟩) (.lexeme ⟨t, written', range⟩)
  | var (written written' : String) (range : ByteRange) :
      Alike (.lexeme ⟨.var written, written, range⟩) (.lexeme ⟨.var written', written', range⟩)
  | name (written written' : String) (range : ByteRange) :
      Alike (.lexeme ⟨.name written, written, range⟩) (.lexeme ⟨.name written', written', range⟩)

/-- The token of the same word in lower case. -/
def Token.lowered : Token → Token
  | .var spelling => .var (folded spelling.toList)
  | .name spelling => .name (folded spelling.toList)
  | t => t

def Munch.lowered (m : Munch) : Munch :=
  ⟨m.token.lowered, m.written.map Char.toLower, m.rest.map Char.toLower⟩

def Lexeme.lowered (l : Lexeme) : Lexeme :=
  { l with token := l.token.lowered, written := Token.folded l.written.toList }

def Scanned.lowered : Scanned → Scanned
  | .lexeme l => .lexeme l.lowered
  | .stray s => .stray s

private theorem utf8Size_toLower (c : Char) : c.toLower.utf8Size = c.utf8Size := by
  by_cases h : c.isUpper = true
  · have hone {d : Char} (hd : d.toNat ≤ 127) : d.utf8Size = 1 :=
      Char.utf8Size_eq_one_iff.2 (UInt32.le_iff_toNat_le.2 hd)
    have hle : c.toNat ≤ 90 := by
      simp only [Char.isUpper, UInt32.le_iff_toNat_le, decide_eq_true_eq] at h
      exact h.2
    have hlower : c.toLower.toNat ≤ 127 := by
      rw [Char.toLower_eq_of_isUpper h, Char.toNat_ofNat]
      split <;> omega
    rw [hone hlower, hone (by omega)]
  · rw [Char.toLower_eq_of_not_isUpper h]

private theorem byteLength_map_toLower (cs : List Char) :
    byteLength (cs.map Char.toLower) = byteLength cs := by
  induction cs with
  | nil => rfl
  | cons c cs ih => rw [List.map_cons, byteLength, byteLength, utf8Size_toLower, ih]

private theorem isBlank_toLower (c : Char) : isBlank c.toLower = isBlank c := by
  rw [Bool.eq_iff_iff]
  simp [isBlank, toLower_eq_iff]

private theorem inComment_toLower (c : Char) : inComment c.toLower = inComment c := by
  rw [Bool.eq_iff_iff]
  simp [inComment, toLower_eq_iff]

private theorem splitWord_map_toLower (cs : List Char) :
    splitWord (cs.map Char.toLower) =
      (splitWord cs).map fun (word, rest) => (word.map Char.toLower, rest.map Char.toLower) := by
  have hcontinues : continuesWord ∘ Char.toLower = continuesWord := funext continuesWord_toLower
  cases cs with
  | nil => rfl
  | cons c cs =>
    simp only [List.map_cons, splitWord, startsWord_toLower, List.takeWhile_map, List.dropWhile_map,
      hcontinues]
    split <;> rfl

namespace Token

private theorem keepsSpelling_lowered (t : Token) : t.lowered.keepsSpelling = t.keepsSpelling := by
  cases t <;> rfl

private theorem lowered_eq_self {t : Token} (h : t.keepsSpelling = false) : t.lowered = t := by
  cases t with
  | var spelling | name spelling => cases h
  | _ => rfl

private theorem ofKeyword_map_toLower (word : List Char) :
    ofKeyword (word.map Char.toLower) = (ofKeyword word).lowered := by
  have htable : ∀ e ∈ reservedKeywords, e.2.lowered = e.2 := by decide
  rw [ofKeyword, ofKeyword, folded_map_toLower]
  cases hlookup : reservedKeywords.lookup (folded word) with
  | none => rfl
  | some t => exact (htable _ (mem_of_lookup hlookup)).symm

private theorem ofWord_map_toLower (word : List Char) :
    ofWord (word.map Char.toLower) = (ofWord word).lowered := by
  have htable : ∀ e ∈ reservedNames, e.2.lowered = e.2 := by decide
  rw [ofWord, ofWord, folded_map_toLower]
  cases hlookup : reservedNames.lookup (folded word) with
  | none => simp [lowered, folded]
  | some t => exact (htable _ (mem_of_lookup hlookup)).symm

private theorem ofVariable_map_toLower (word : List Char) :
    ofVariable (word.map Char.toLower) = (ofVariable word).lowered := by
  simp [ofVariable, lowered, folded]

end Token

private theorem signedWord_map_toLower {sign : Char} (hsign : sign.toLower = sign)
    {token : List Char → Token}
    (htoken : ∀ word, token (word.map Char.toLower) = (token word).lowered) (cs : List Char) :
    signedWord sign token (cs.map Char.toLower) = (signedWord sign token cs).map Munch.lowered := by
  simp only [signedWord, splitWord_map_toLower, Option.map_map]
  congr 1
  funext found
  obtain ⟨word, rest⟩ := found
  simp [Munch.lowered, htoken, hsign]

/-- The token at the front of a text in lower case is that of the text, in lower case. -/
private theorem munch?_map_toLower (cs : List Char) :
    munch? (cs.map Char.toLower) = (munch? cs).map Munch.lowered := by
  cases cs with
  | nil => rfl
  | cons c cs =>
    have hword := splitWord_map_toLower (c :: cs)
    rw [List.map_cons] at hword
    simp only [List.map_cons, munch?, toLower_eq_iff (d := '(') rfl, toLower_eq_iff (d := ')') rfl,
      toLower_eq_iff (d := '-') rfl, toLower_eq_iff (d := ':') rfl, toLower_eq_iff (d := '?') rfl]
    split_ifs with hopen hclose hdash hcolon hmark
    · subst hopen; rfl
    · subst hclose; rfl
    · subst hdash; rfl
    · subst hcolon
      exact signedWord_map_toLower rfl Token.ofKeyword_map_toLower cs
    · subst hmark
      exact signedWord_map_toLower rfl Token.ofVariable_map_toLower cs
    · rw [hword, Option.map_map, Option.map_map]
      congr 1
      funext found
      obtain ⟨word, rest⟩ := found
      simp [Munch.lowered, Token.ofWord_map_toLower]

private theorem toLower_eq_of_munch? {c : Char} {rest : List Char} (h : munch? (c :: rest) = none) :
    c.toLower = c := by
  refine Char.toLower_eq_of_not_isUpper fun hupper => ?_
  have hstarts : startsWord c = true := by simp [startsWord, Char.isAlpha, hupper]
  have hsplit : splitWord (c :: rest) =
      some (c :: rest.takeWhile continuesWord, rest.dropWhile continuesWord) := if_pos hstarts
  have hmunch := munch?_eq_some_iff.2 (.word hsplit)
  rw [h] at hmunch
  cases hmunch

private theorem scanFrom_map_toLower (offset : Nat) (cs : List Char) :
    scanFrom offset (cs.map Char.toLower) = (scanFrom offset cs).map Scanned.lowered := by
  induction offset, cs using scanFrom.induct with
  | case1 offset => simp [scanFrom]
  | case2 offset c rest hblank ih =>
    rw [List.map_cons, scanFrom_of_isBlank ((isBlank_toLower c).trans hblank),
      scanFrom_of_isBlank hblank, utf8Size_toLower, ih]
  | case3 offset rest hblank ih =>
    have hcomment : inComment ∘ Char.toLower = inComment := funext inComment_toLower
    rw [List.map_cons, show ';'.toLower = ';' from rfl, scanFrom_semicolon, scanFrom_semicolon,
      List.takeWhile_map, List.dropWhile_map, hcomment, byteLength, byteLength_map_toLower,
      ← byteLength, ih]
  | case4 offset c rest hblank hsemi m hm stop ih =>
    have hlower := munch?_map_toLower (c :: rest)
    rw [hm, List.map_cons] at hlower
    rw [List.map_cons, scanFrom_of_munch? hlower, scanFrom_of_munch? hm, List.map_cons]
    simp only [Munch.lowered, byteLength_map_toLower]
    exact congrArg₂ _ (by simp [Scanned.lowered, Lexeme.lowered, Token.folded]) ih
  | case5 offset c rest hblank hsemi hm ih =>
    have hlower := munch?_map_toLower (c :: rest)
    rw [hm, List.map_cons] at hlower
    rw [scanFrom_stray (Bool.eq_false_iff.2 hblank) hsemi hm, List.map_cons, List.map_cons]
    -- No letter is stray, so the character is its own lower case.
    rw [toLower_eq_of_munch? hm] at hlower ⊢
    rw [scanFrom_stray (Bool.eq_false_iff.2 hblank) hsemi hlower, ih]
    rfl

private theorem startsAfter_map_toLower (offset : Nat) (cs : List Char) :
    LineTable.startsAfter offset (cs.map Char.toLower) = LineTable.startsAfter offset cs := by
  induction cs generalizing offset with
  | nil => rfl
  | cons c cs ih =>
    simp only [List.map_cons, LineTable.startsAfter, toLower_eq_iff (d := '\n') rfl,
      utf8Size_toLower, ih]

private theorem map_eq_map_iff_forall₂ {α β : Type} {f : α → β} {xs ys : List α} :
    xs.map f = ys.map f ↔ List.Forall₂ (fun x y => f x = f y) xs ys := by
  rw [← List.forall₂_map_left_iff (R := fun a y => a = f y), ← List.forall₂_map_right_iff,
    List.forall₂_eq_eq_eq]

section Recased
variable {text other : String}

private theorem Recased.map_toLower_eq (h : Recased text other) :
    text.toList.map Char.toLower = other.toList.map Char.toLower := by
  refine map_eq_map_iff_forall₂.2 (List.Forall₂.imp (fun c d hd => ?_) h)
  rcases hd with rfl | rfl | rfl
  · rfl
  · rw [Char.toLower_toLower_eq_toLower]
  · rw [Char.toLower_toUpper_eq_toLower]

private theorem Recased.table_eq (h : Recased text other) :
    LineTable.ofText text = LineTable.ofText other := by
  have htable (cs : List Char) :
      LineTable.ofChars (cs.map Char.toLower) = LineTable.ofChars cs := by
    rw [LineTable.ofChars, startsAfter_map_toLower, byteLength_map_toLower, ← LineTable.ofChars]
  rw [LineTable.ofText, LineTable.ofText, ← htable, h.map_toLower_eq, htable]

private theorem TokenRule.eq_of_keepsSpelling {slice : List Char} {t : Token}
    (h : TokenRule slice t) :
    (∀ spelling, t = .var spelling → spelling = String.ofList slice) ∧
      ∀ spelling, t = .name spelling → spelling = String.ofList slice := by
  cases h with
  | reserved hmem =>
    have hreserved := Token.isReserved_of_mem hmem
    constructor <;> (rintro spelling rfl; cases hreserved)
  | keyword hword => simp
  | var hword => simp
  | name hword => simp

private theorem Scanned.Alike.of_lowered_eq {x y : Scanned} (hx : x.StandsIn text.toList)
    (hy : y.StandsIn other.toList) (h : x.lowered = y.lowered) : x.Alike y := by
  cases hx with
  | stray htext hblank hsemi hnone =>
    cases hy with
    | stray =>
      rw [stray.inj h]
      exact .stray _
    | lexeme => cases h
  | @lexeme front slice back t htext hmatch =>
    cases hy with
    | stray => cases h
    | @lexeme front' slice' back' t' htext' hmatch' =>
      simp only [lowered, Lexeme.lowered, lexeme.injEq, Lexeme.mk.injEq] at h
      obtain ⟨htoken, -, hrange⟩ := h
      obtain ⟨hvar, hname⟩ := hmatch.rule.eq_of_keepsSpelling
      obtain ⟨hvar', hname'⟩ := hmatch'.rule.eq_of_keepsSpelling
      have hkeeps : t'.keepsSpelling = t.keepsSpelling := by
        rw [← Token.keepsSpelling_lowered t', ← htoken, Token.keepsSpelling_lowered]
      rw [hrange]
      cases hfixed : t.keepsSpelling with
      | false =>
        rw [Token.lowered_eq_self hfixed, Token.lowered_eq_self (hkeeps.trans hfixed)] at htoken
        exact htoken ▸ .fixed hfixed _ _ _
      | true =>
        -- Lower case loses the spelling; it comes back as the slice that each text has here.
        cases t with
        | var spelling =>
          cases t' with
          | var spelling' =>
            rw [hvar _ rfl, hvar' _ rfl]
            exact .var _ _ _
          | _ => cases htoken
        | name spelling =>
          cases t' with
          | name spelling' =>
            rw [hname _ rfl, hname' _ rfl]
            exact .name _ _ _
          | _ => cases htoken
        | _ => cases hfixed

end Recased

/-- The case of ASCII letters decides nothing in a scan. Texts that differ in nothing else have as
many items, at the same bytes and of the same kinds: the same tokens, save that a variable or a name
is the slice of its text, and the same stray characters, which are reported at the same places. -/
theorem scan_ignores_case {text other : String} (h : Recased text other) :
    List.Forall₂ Scanned.Alike (scan text) (scan other) ∧
      (∀ x ∈ scan text, x.StandsIn text.toList) ∧ (∀ x ∈ scan other, x.StandsIn other.toList) ∧
      (strays text).map (Diagnostic.ofStray (.ofText text)) =
        (strays other).map (Diagnostic.ofStray (.ofText other)) := by
  have hstands (text : String) : ∀ x ∈ scan text, x.StandsIn text.toList :=
    fun _ => standsIn_of_mem_scan
  have hlowered : (scan text).map Scanned.lowered = (scan other).map Scanned.lowered := by
    rw [scan, scan, ← scanFrom_map_toLower, h.map_toLower_eq, scanFrom_map_toLower]
  have hstrays (text : String) :
      ((scan text).map Scanned.lowered).filterMap Scanned.stray? = strays text := by
    rw [List.filterMap_map]
    exact congrArg (List.filterMap · _) (funext fun x => by cases x <;> rfl)
  refine ⟨?_, hstands text, hstands other, ?_⟩
  · rw [map_eq_map_iff_forall₂, List.forall₂_iff_zip] at hlowered
    refine List.forall₂_iff_zip.2 ⟨hlowered.1, fun {x y} hxy => ?_⟩
    obtain ⟨hx, hy⟩ := List.of_mem_zip hxy
    exact .of_lowered_eq (hstands text x hx) (hstands other y hy) (hlowered.2 hxy)
  · rw [← hstrays, hlowered, hstrays, h.table_eq]

/-- A reserved word, a keyword, a variable and a name behind a comment and among stray characters.
-/
theorem scan_ignores_case_among_strays :
    let text := "(Define :Typing ?X é; Not\n# Robot-1)"
    let other := "(dEFINE :TYPING ?x é; nOT\n# roBOT-1)"
    Recased text other ∧ List.Forall₂ Scanned.Alike (scan text) (scan other) ∧
      tokens text = [.openParen, .define, .keyword "typing", .var "?X", .name "Robot-1",
        .closeParen] ∧
      tokens other = [.openParen, .define, .keyword "typing", .var "?x", .name "roBOT-1",
        .closeParen] ∧
      (strays text).map (Diagnostic.ofStray (.ofText text)) =
        (strays other).map (Diagnostic.ofStray (.ofText other)) ∧
      strays text ≠ [] := by
  intro text other
  have h : Recased text other := by decide +kernel
  obtain ⟨halike, -, -, hstrays⟩ := scan_ignores_case h
  exact ⟨h, halike, by decide +kernel, by decide +kernel, hstrays, by decide +kernel⟩

end PlanningDomain
