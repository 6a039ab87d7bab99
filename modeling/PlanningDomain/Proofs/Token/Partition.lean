import PlanningDomain.Diagnostic.Log
import PlanningDomain.Proofs.Token.Rules

/-! A text in pieces. Main statement: the tokens and stray characters of a text are disjoint and in
order, each token is the longest match where it starts, nothing starts at a stray character, and the
characters outside of all of them are exactly the blanks and the comments. -/
namespace PlanningDomain

/-- The characters that may follow at one place: none, blanks, a comment up to the end of its line,
a token or a stray character. `front` stands before the place and `cs` behind it. -/
inductive Tiling : List Char → List Char → List Scanned → Prop
  | done {front : List Char} : Tiling front [] []
  | blank {front cs : List Char} {items : List Scanned} {c : Char} (hc : isBlank c = true)
      (hrest : Tiling (front ++ [c]) cs items) : Tiling front (c :: cs) items
  | comment {front body cs : List Char} {items : List Scanned} (hbody : '\n' ∉ body)
      (hends : ∀ c ∈ cs.head?, c = '\n') (hrest : Tiling (front ++ ';' :: body) cs items) :
      Tiling front (';' :: body ++ cs) items
  | lexeme {front slice cs : List Char} {items : List Scanned} {t : Token}
      (h : LongestMatch (slice ++ cs) slice t) (hrest : Tiling (front ++ slice) cs items) :
      Tiling front (slice ++ cs) (.lexeme ⟨t, String.ofList slice,
        ⟨byteLength front, byteLength (front ++ slice)⟩⟩ :: items)
  | stray {front cs : List Char} {items : List Scanned} {c : Char} (hblank : isBlank c = false)
      (hsemi : c ≠ ';') (h : NoMatch (c :: cs)) (hrest : Tiling (front ++ [c]) cs items) :
      Tiling front (c :: cs) (.stray ⟨c, byteLength front⟩ :: items)

private theorem tiling_scanFrom (front cs : List Char) :
    Tiling front cs (scanFrom (byteLength front) cs) := by
  generalize hoffset : byteLength front = offset
  induction offset, cs using scanFrom.induct generalizing front with
  | case1 offset =>
    rw [scanFrom]
    exact .done
  | case2 offset c rest hblank ih =>
    rw [scanFrom_of_isBlank hblank]
    exact .blank hblank (ih _ (by simp [byteLength, hoffset]))
  | case3 offset rest hblank ih =>
    rw [scanFrom_semicolon]
    nth_rewrite 1 [← comment_append_dropWhile rest]
    refine .comment ?_ ?_ (ih _ (by rw [byteLength_append, hoffset]))
    · intro hmem
      simpa [inComment] using List.mem_takeWhile_imp hmem
    · intro c hc
      have := List.head?_dropWhile_not inComment rest
      rw [Option.mem_def.1 hc] at this
      simpa [inComment] using this
  | case4 offset c rest hblank hsemi m hm stop ih =>
    have hsplit := (munch?_eq_some hm).1
    have h := longestMatch_of_munch? hm
    subst hoffset
    have hrest : Tiling (front ++ m.written) m.rest
        (scanFrom (byteLength front + byteLength m.written) m.rest) :=
      ih _ (byteLength_append ..)
    rw [scanFrom_of_munch? hm]
    rw [hsplit] at h ⊢
    rw [← byteLength_append] at hrest ⊢
    exact .lexeme h hrest
  | case5 offset c rest hblank hsemi hm ih =>
    rw [scanFrom_stray (Bool.eq_false_iff.2 hblank) hsemi hm]
    subst hoffset
    exact .stray (Bool.eq_false_iff.2 hblank) hsemi (noMatch_of_munch? hm)
      (ih _ (by simp [byteLength]))

/-- Where an item stands in a text and what it is. -/
inductive Scanned.StandsIn (text : List Char) : Scanned → Prop
  | lexeme {front slice back : List Char} {t : Token} (htext : text = front ++ slice ++ back)
      (h : LongestMatch (slice ++ back) slice t) :
      StandsIn text (.lexeme ⟨t, String.ofList slice,
        ⟨byteLength front, byteLength (front ++ slice)⟩⟩)
  | stray {front back : List Char} {c : Char} (htext : text = front ++ c :: back)
      (hblank : isBlank c = false) (hsemi : c ≠ ';') (h : NoMatch (c :: back)) :
      StandsIn text (.stray ⟨c, byteLength front⟩)

/-- The last character, or one before it on the same line, is a semicolon. -/
def EndsInComment (cs : List Char) : Prop :=
  ∃ before body, cs = before ++ ';' :: body ∧ '\n' ∉ body

/-- A character that stands between the items. -/
def IsTrivia (front : List Char) (c : Char) : Prop :=
  isBlank c = true ∨ EndsInComment (front ++ [c])

/-- The character behind `front` is one of the item's. -/
def Scanned.Covers (x : Scanned) (front : List Char) (c : Char) : Prop :=
  x.range.start ≤ byteLength front ∧ byteLength (front ++ [c]) ≤ x.range.stop

namespace Tiling
variable {front cs : List Char} {items : List Scanned}

private theorem standsIn (h : Tiling front cs items) : ∀ x ∈ items, x.StandsIn (front ++ cs) := by
  induction h with
  | done => simp
  | blank hc _ ih => simpa using ih
  | comment hbody hends _ ih => simpa using ih
  | lexeme h _ ih =>
    rw [List.append_assoc] at ih
    refine List.forall_mem_cons.2 ⟨.lexeme (by simp) h, ih⟩
  | stray hblank hsemi h _ ih =>
    rw [List.append_assoc] at ih
    exact List.forall_mem_cons.2 ⟨.stray rfl hblank hsemi h, ih⟩

private theorem le_start (h : Tiling front cs items) :
    ∀ x ∈ items, byteLength front ≤ x.range.start := by
  have hlater {front piece : List Char} {items : List Scanned}
      (h : ∀ x ∈ items, byteLength (front ++ piece) ≤ x.range.start) :
      ∀ x ∈ items, byteLength front ≤ x.range.start := by
    intro x hx
    have := h x hx
    rw [byteLength_append] at this
    omega
  induction h with
  | done => simp
  | blank _ _ ih | comment _ _ _ ih => exact hlater ih
  | lexeme _ _ ih | stray _ _ _ _ ih => exact List.forall_mem_cons.2 ⟨Nat.le_refl _, hlater ih⟩

private theorem pairwise (h : Tiling front cs items) :
    items.Pairwise fun x y => x.range.stop ≤ y.range.start := by
  induction h with
  | done => exact .nil
  | blank _ _ ih | comment _ _ _ ih => exact ih
  | lexeme _ hrest ih => exact .cons hrest.le_start ih
  | stray _ _ _ hrest ih =>
    refine .cons (fun y hy => ?_) ih
    have := hrest.le_start y hy
    rw [byteLength_append] at this
    simpa [Scanned.range, Stray.range, byteLength] using this

end Tiling

theorem Scanned.StandsIn.range_lt {text : List Char} {x : Scanned} (h : x.StandsIn text) :
    x.range.start < x.range.stop ∧ x.range.stop ≤ byteLength text := by
  cases h with
  | @lexeme front slice back t htext h =>
    have hpos := byteLength_pos h.rule.ne_nil
    simp only [htext, Scanned.range, byteLength_append]
    omega
  | @stray front back c htext =>
    have hpos := c.utf8Size_pos
    simp only [htext, Scanned.range, Stray.range, byteLength_append, byteLength]
    omega

private theorem endsInComment_concat {cs : List Char} {c : Char} :
    EndsInComment (cs ++ [c]) ↔ c = ';' ∨ (c ≠ '\n' ∧ EndsInComment cs) := by
  constructor
  · rintro ⟨before, body, heq, hbody⟩
    rcases List.eq_nil_or_concat' body with rfl | ⟨body, d, rfl⟩
    · exact .inl (List.singleton_inj.1 (List.append_inj' heq rfl).2)
    · rw [← List.cons_append, ← List.append_assoc] at heq
      obtain ⟨hcs, hd⟩ := List.append_inj' heq rfl
      obtain rfl := List.singleton_inj.1 hd
      simp only [List.mem_append, List.mem_singleton, not_or] at hbody
      exact .inr ⟨Ne.symm hbody.2, before, body, hcs, hbody.1⟩
  · rintro (rfl | ⟨hc, before, body, rfl, hbody⟩)
    · exact ⟨cs, [], rfl, by simp⟩
    · refine ⟨before, body ++ [c], by simp, ?_⟩
      simp [hbody, Ne.symm hc]

def IsSolid (c : Char) : Prop := isBlank c = false ∧ c ≠ ';'

theorem isSolid_of_continuesWord {c : Char} (h : continuesWord c = true) : IsSolid c := by
  constructor
  · by_contra hblank
    rw [Bool.not_eq_false] at hblank
    simp only [isBlank, Bool.or_eq_true, beq_iff_eq] at hblank
    rcases hblank with (((rfl | rfl) | rfl) | rfl) | rfl <;> cases h
  · rintro rfl
    cases h

private theorem SpellsWord.isSolid {word : List Char} (h : SpellsWord word) :
    ∀ c ∈ word, IsSolid c := by
  cases word with
  | nil => simp
  | cons c word =>
    obtain ⟨hc, hword⟩ := isWord_cons.1 (spellsWord_iff_isWord.1 h)
    exact List.forall_mem_cons.2 ⟨isSolid_of_continuesWord (continuesWord_of_startsWord hc),
      fun d hd => isSolid_of_continuesWord (hword d hd)⟩

private theorem TokenRule.isSolid {slice : List Char} {t : Token} (h : TokenRule slice t) :
    ∀ c ∈ slice, IsSolid c := by
  have hsign {c : Char} (hc : c ∈ ['(', ')', '-', ':', '?']) : IsSolid c := by
    simp only [List.mem_cons, List.not_mem_nil, or_false] at hc
    rcases hc with rfl | rfl | rfl | rfl | rfl <;> exact ⟨rfl, by decide⟩
  rcases h.cases_chars with rfl | rfl | rfl | ⟨word, rfl, hword⟩ | ⟨word, rfl, hword⟩ | hword
  · exact List.forall_mem_singleton.2 (hsign (by simp))
  · exact List.forall_mem_singleton.2 (hsign (by simp))
  · exact List.forall_mem_singleton.2 (hsign (by simp))
  · exact List.forall_mem_cons.2 ⟨hsign (by simp), hword.isSolid⟩
  · exact List.forall_mem_cons.2 ⟨hsign (by simp), hword.isSolid⟩
  · exact hword.isSolid

theorem LexesAs.isSolid {text : String} {t : Token} (h : LexesAs text t) :
    ∀ c ∈ text.toList, IsSolid c :=
  h.rule.isSolid

private theorem endsInComment_append_of_isSolid {cs ds : List Char} (h : ∀ d ∈ ds, IsSolid d) :
    EndsInComment (cs ++ ds) ↔ EndsInComment cs := by
  induction ds using List.reverseRecOn with
  | nil => rw [List.append_nil]
  | append_singleton ds d ih =>
    obtain ⟨hblank, hsemi⟩ : IsSolid d := h d (by simp)
    have hd : d ≠ '\n' := by
      rintro rfl
      cases hblank
    rw [← List.append_assoc, endsInComment_concat, ih fun e he => h e (by simp [he])]
    simp [hsemi, hd]

/-- Characters in a row, cut into a first piece and the rest: one of them is in the piece or behind
it. -/
private theorem eq_append_or {piece cs pre post : List Char} {c : Char}
    (h : piece ++ cs = pre ++ c :: post) :
    (∃ more, piece = pre ++ c :: more) ∨ ∃ pre', pre = piece ++ pre' ∧ cs = pre' ++ c :: post := by
  rcases List.append_eq_append_iff.1 h with ⟨pre', hpre, hcs⟩ | ⟨more, hpiece, hmore⟩
  · exact .inr ⟨pre', hpre, hcs⟩
  · cases more with
    | nil => exact .inr ⟨[], by simpa using hpiece.symm, by simpa using hmore.symm⟩
    | cons d more =>
      obtain ⟨rfl, -⟩ := List.cons.inj hmore
      exact .inl ⟨more, hpiece⟩

/-- Some item covers the character behind `front`. -/
def Covered (items : List Scanned) (front : List Char) (c : Char) : Prop :=
  ∃ x ∈ items, x.Covers front c

/-- What is known of the characters behind `front`: the items cover all but blanks and comments. -/
def CoversRest (items : List Scanned) (front cs : List Char) : Prop :=
  ∀ pre c post, cs = pre ++ c :: post →
    (Covered items (front ++ pre) c ↔ ¬ IsTrivia (front ++ pre) c)

section CoversRest
variable {items : List Scanned} {front piece cs : List Char}

private theorem CoversRest.gap (hstart : ∀ x ∈ items, byteLength (front ++ piece) ≤ x.range.start)
    (hpiece : ∀ pre c more, piece = pre ++ c :: more → IsTrivia (front ++ pre) c)
    (hrest : CoversRest items (front ++ piece) cs) : CoversRest items front (piece ++ cs) := by
  intro pre c post hcs
  rcases eq_append_or hcs with ⟨more, rfl⟩ | ⟨pre', rfl, rfl⟩
  · refine iff_of_false ?_ (not_not_intro (hpiece pre c more rfl))
    rintro ⟨x, hx, hle, -⟩
    have hge := hstart x hx
    have hpos := c.utf8Size_pos
    simp only [byteLength_append, byteLength] at hge hle
    omega
  · rw [← List.append_assoc]
    exact hrest pre' c post rfl

private theorem CoversRest.item {x : Scanned}
    (hx : x.range = ⟨byteLength front, byteLength (front ++ piece)⟩)
    (hsolid : ∀ c ∈ piece, IsSolid c) (hclear : ¬ EndsInComment front)
    (hrest : CoversRest items (front ++ piece) cs) :
    CoversRest (x :: items) front (piece ++ cs) := by
  intro pre c post hcs
  rcases eq_append_or hcs with ⟨more, rfl⟩ | ⟨pre', rfl, rfl⟩
  · refine iff_of_true ⟨x, List.mem_cons_self, ?_⟩ ?_
    · simp only [Scanned.Covers, hx, byteLength_append, byteLength]
      omega
    · rintro (hblank | hcomment)
      · simp [(hsolid c (by simp)).1] at hblank
      · rw [List.append_assoc, endsInComment_append_of_isSolid] at hcomment
        · exact hclear hcomment
        · intro d hd
          exact hsolid d (by simpa using Or.imp_right .inl (by simpa using hd))
  · have hnot : ¬ x.Covers (front ++ (piece ++ pre')) c := by
      have hpos := c.utf8Size_pos
      simp only [Scanned.Covers, hx, byteLength_append, byteLength]
      omega
    have hiff := hrest pre' c post rfl
    rw [List.append_assoc] at hiff
    rw [← hiff]
    simp [Covered, hnot]

end CoversRest

/-- Where a solid character follows, no comment is left open. -/
private theorem not_endsInComment_of_isSolid {front cs : List Char} {c : Char}
    (hclear : ¬ EndsInComment front ∨ ∀ d ∈ (c :: cs).head?, d = '\n') (hc : IsSolid c) :
    ¬ EndsInComment front := by
  refine hclear.resolve_right fun h => ?_
  obtain rfl := h c rfl
  cases hc.1

private theorem Tiling.coversRest {items : List Scanned} {front cs : List Char}
    (h : Tiling front cs items) (hclear : ¬ EndsInComment front ∨ ∀ c ∈ cs.head?, c = '\n') :
    CoversRest items front cs := by
  induction h with
  | done => simp [CoversRest]
  | @blank front cs items b hb hrest ih =>
    change CoversRest items front ([b] ++ cs)
    refine .gap hrest.le_start ?_ (ih (.inl ?_))
    · intro pre c more hpiece
      have hc : c ∈ [b] := by simp [hpiece]
      exact .inl (List.mem_singleton.1 hc ▸ hb)
    · rw [endsInComment_concat]
      rintro (rfl | ⟨hb, hfront⟩)
      · cases hb
      · exact hclear.elim (· hfront) fun h => hb (h b rfl)
  | @comment front body cs items hbody hends hrest ih =>
    refine .gap hrest.le_start ?_ (ih (.inr hends))
    intro pre c more hpiece
    right
    cases pre with
    | nil =>
      obtain rfl := (List.cons.inj hpiece).1
      exact ⟨front, [], by simp, by simp⟩
    | cons d pre =>
      obtain ⟨rfl, rfl⟩ := List.cons.inj hpiece
      refine ⟨front, pre ++ [c], by simp, fun hmem => hbody ?_⟩
      simpa [or_assoc] using Or.inl (List.mem_append.1 hmem)
  | @lexeme front slice cs items t h hrest ih =>
    have hsolid := h.rule.isSolid
    have hfront : ¬ EndsInComment front := by
      obtain ⟨c, slice, rfl⟩ := List.exists_cons_of_ne_nil h.rule.ne_nil
      exact not_endsInComment_of_isSolid hclear (hsolid c List.mem_cons_self)
    refine .item rfl hsolid hfront (ih (.inl ?_))
    rwa [endsInComment_append_of_isSolid hsolid]
  | @stray front cs items d hblank hsemi h hrest ih =>
    have hsolid : ∀ c ∈ [d], IsSolid c := List.forall_mem_singleton.2 ⟨hblank, hsemi⟩
    have hfront := not_endsInComment_of_isSolid hclear ⟨hblank, hsemi⟩
    change CoversRest _ front ([d] ++ cs)
    refine .item ?_ hsolid hfront (ih (.inl ?_))
    · simp [Scanned.range, Stray.range, byteLength]
    · rwa [endsInComment_append_of_isSolid hsolid]

private theorem tiling_scan (text : String) : Tiling [] text.toList (scan text) :=
  tiling_scanFrom [] text.toList

theorem standsIn_of_mem_scan {text : String} {x : Scanned} (hx : x ∈ scan text) :
    x.StandsIn text.toList :=
  (tiling_scan text).standsIn x hx

theorem range_lt_of_mem_lexemes {text : String} {l : Lexeme} (hl : l ∈ lexemes text) :
    l.range.start < l.range.stop ∧ l.range.stop ≤ byteLength text.toList := by
  obtain ⟨x, hx, hxl⟩ := List.mem_filterMap.1 hl
  cases x <;> cases hxl
  exact (standsIn_of_mem_scan hx).range_lt

theorem start_le_size_of_mem_lexemes {text : String} {l : Lexeme} (hl : l ∈ lexemes text) :
    l.range.start ≤ (LineTable.ofText text).size := by
  have := range_lt_of_mem_lexemes hl
  simp only [LineTable.ofText, LineTable.ofChars]
  omega

theorem pairwise_start_lexemes (text : String) :
    (lexemes text).Pairwise fun l l' => l.range.start < l'.range.start := by
  rw [lexemes, List.pairwise_filterMap]
  refine (tiling_scan text).pairwise.imp_of_mem fun {x y} hx _ h l hl l' hl' => ?_
  obtain ⟨hlt, -⟩ := (standsIn_of_mem_scan hx).range_lt
  cases x <;> cases hl
  cases y <;> cases hl'
  exact Nat.lt_of_lt_of_le hlt h

/-- Lexemes are told apart by where they start. -/
theorem nodup_starts_lexemes (text : String) :
    ((lexemes text).map fun l => l.range.start).Nodup := by
  rw [List.nodup_iff_pairwise_ne, List.pairwise_map]
  exact (pairwise_start_lexemes text).imp Nat.ne_of_lt

/-- Offsets count the bytes of the text in UTF-8. -/
theorem byteLength_eq_utf8ByteSize (cs : List Char) :
    byteLength cs = (String.ofList cs).utf8ByteSize := by
  induction cs with
  | nil => rfl
  | cons c cs ih =>
    rw [byteLength, ih]
    simp [String.ofList_cons]

/-- The scan cuts a text by maximal munch. Its items have some bytes each, in order and without a
byte in common; a token is the longest match where it starts, and reserved exactly if its slice is a
reserved spelling; a stray character is one that nothing starts at, and is reported as such; and a
character is outside of all items exactly if it is a blank or belongs to a comment. The tokens of
the text are those of the scan. -/
theorem scan_partitions_text (text : String) :
    (∀ x ∈ scan text, x.StandsIn text.toList ∧
      x.range.start < x.range.stop ∧ x.range.stop ≤ text.utf8ByteSize) ∧
    ((scan text).Pairwise fun x y => x.range.stop ≤ y.range.start) ∧
    (∀ front c back, text.toList = front ++ c :: back →
      (Covered (scan text) front c ↔ ¬ IsTrivia front c)) ∧
    (∀ l, .lexeme l ∈ scan text → (l.token.isReserved = true ↔
      Token.folded l.written.toList ∈ Token.reservedSpellings.map Prod.fst)) ∧
    (∀ s, .stray s ∈ scan text → Diagnostic.ofStray (.ofText text) s =
      .unrecognized (String.singleton s.char) ((LineTable.ofText text).span s.range)) ∧
    tokens text = (scan text).filterMap Scanned.token? := by
  have htiling := tiling_scan text
  refine ⟨fun x hx => ?_, htiling.pairwise, ?_, fun l hl => ?_, fun s _ => rfl, ?_⟩
  · have hstands := standsIn_of_mem_scan hx
    have hsize : byteLength text.toList = text.utf8ByteSize := by
      rw [byteLength_eq_utf8ByteSize, String.ofList_toList]
    exact ⟨hstands, hsize ▸ hstands.range_lt⟩
  · have hclear : ¬ EndsInComment [] := by
      rintro ⟨before, body, heq, -⟩
      simp at heq
    exact htiling.coversRest (.inl hclear)
  · cases standsIn_of_mem_scan hl with
    | lexeme htext h =>
      rw [String.toList_ofList]
      exact h.isReserved_iff
  · rw [tokens, lexemes, List.map_filterMap]
    rfl

end PlanningDomain
