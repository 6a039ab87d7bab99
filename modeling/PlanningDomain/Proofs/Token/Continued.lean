import PlanningDomain.Proofs.Source.Places
import PlanningDomain.Proofs.Token.Lexical

/-! A text that goes on. Main statements: the places of a text are the same in a longer one; and
behind a closing parenthesis that counts, the scan of the longer text starts afresh. -/
namespace PlanningDomain

namespace LineTable

private theorem startsAfter_append (offset : Nat) (cs ds : List Char) :
    startsAfter offset (cs ++ ds) =
      startsAfter offset cs ++ startsAfter (offset + byteLength cs) ds := by
  induction cs generalizing offset with
  | nil => rfl
  | cons c cs ih =>
    simp only [List.cons_append, startsAfter, ih, byteLength, Nat.add_assoc]
    split <;> rfl

/-- What follows does not move a place. -/
theorem position_append {offset : Nat} {cs : List Char} (h : offset ≤ byteLength cs)
    (ds : List Char) : (ofChars (cs ++ ds)).position offset = (ofChars cs).position offset := by
  have hlater : (startsAfter (byteLength cs) ds).takeWhile (· ≤ offset) = [] := by
    rw [List.takeWhile_eq_nil_iff]
    intro hlt
    have := lt_of_mem_startsAfter (List.getElem_mem hlt)
    simp
    omega
  have hstarts : (ofChars (cs ++ ds)).startsUpTo offset = (ofChars cs).startsUpTo offset := by
    rw [startsUpTo, startsUpTo, ofChars, ofChars, startsAfter_append, Nat.zero_add,
      ← List.cons_append, List.takeWhile_append, hlater, List.append_nil]
    split
    · rename_i hall
      rw [(List.takeWhile_sublist _).eq_of_length hall]
    · rfl
  have hhere : min offset (byteLength (cs ++ ds)) = min offset (byteLength cs) := by
    rw [byteLength_append]
    omega
  have hmin : min offset (byteLength cs) = offset := Nat.min_eq_left h
  simp only [position]
  rw [show (ofChars (cs ++ ds)).size = byteLength (cs ++ ds) from rfl,
    show (ofChars cs).size = byteLength cs from rfl, hhere, hmin, hstarts]

end LineTable

private theorem eq_cons_of_munch?_closeParen {cs : List Char} {m : Munch} (h : munch? cs = some m)
    (hm : m.token = .closeParen) : cs = ')' :: m.rest ∧ m.written = [')'] := by
  have hkeyword (word : List Char) : Token.ofKeyword word ≠ .closeParen := by
    rw [Token.ofKeyword]
    cases hlookup : Token.reservedKeywords.lookup (Token.folded word) with
    | none => simp
    | some t =>
      rintro rfl
      simpa [Token.reservedKeywords] using mem_of_lookup hlookup
  have hword (word : List Char) : Token.ofWord word ≠ .closeParen := by
    rw [Token.ofWord]
    cases hlookup : Token.reservedNames.lookup (Token.folded word) with
    | none => simp
    | some t =>
      rintro rfl
      simpa [Token.reservedNames] using mem_of_lookup hlookup
  cases munch?_eq_some_iff.1 h with
  | openParen rest => cases hm
  | closeParen rest => exact ⟨rfl, rfl⟩
  | dash rest => cases hm
  | keyword hw => exact absurd hm (hkeyword _)
  | var hw => cases hm
  | word hw => exact absurd hm (hword _)

/-- The last character is a closing parenthesis, and no comment hides it. -/
def ClosesLast (offset : Nat) (cs : List Char) : Prop :=
  ∃ l, .lexeme l ∈ scanFrom offset cs ∧ l.token = .closeParen ∧
    l.range.stop = offset + byteLength cs

private theorem ClosesLast.eq_append {offset : Nat} {cs : List Char} (h : ClosesLast offset cs) :
    ∃ front, cs = front ++ [')'] := by
  obtain ⟨l, hmem, hl, hstop⟩ := h
  induction offset, cs using scanFrom.induct with
  | case1 offset => simp [scanFrom] at hmem
  | case2 offset c rest hblank ih =>
    rw [scanFrom_of_isBlank hblank] at hmem
    rw [byteLength, ← Nat.add_assoc] at hstop
    obtain ⟨front, hfront⟩ := ih hmem hstop
    exact ⟨c :: front, by rw [hfront, List.cons_append]⟩
  | case3 offset rest hblank ih =>
    rw [scanFrom_semicolon] at hmem
    rw [← comment_append_dropWhile, byteLength_append, ← Nat.add_assoc] at hstop
    obtain ⟨front, hfront⟩ := ih hmem hstop
    exact ⟨';' :: rest.takeWhile inComment ++ front, by
      rw [List.append_assoc, ← hfront, comment_append_dropWhile]⟩
  | case4 offset c rest hblank hsemi m hm stop ih =>
    rw [scanFrom_of_munch? hm] at hmem
    obtain ⟨hsplit, -⟩ := munch?_eq_some hm
    rw [hsplit, byteLength_append, ← Nat.add_assoc] at hstop
    rw [hsplit]
    rcases List.mem_cons.1 hmem with heq | hmem
    · obtain rfl := Scanned.lexeme.inj heq
      have hrest : m.rest = [] := by
        by_contra hne
        have := byteLength_pos hne
        simp only at hstop
        omega
      exact ⟨[], by rw [hrest, (eq_cons_of_munch?_closeParen hm hl).2, List.append_nil]; rfl⟩
    · obtain ⟨front, hfront⟩ := ih hmem hstop
      exact ⟨m.written ++ front, by rw [hfront, List.append_assoc]⟩
  | case5 offset c rest hblank hsemi hm ih =>
    rw [scanFrom_stray (Bool.eq_false_iff.2 hblank) hsemi hm] at hmem
    rw [byteLength, ← Nat.add_assoc] at hstop
    rcases List.mem_cons.1 hmem with heq | hmem
    · cases heq
    · obtain ⟨front, hfront⟩ := ih hmem hstop
      exact ⟨c :: front, by rw [hfront, List.cons_append]⟩

/-- The same behind characters that the scan passes over. -/
private theorem ClosesLast.of_scanFrom_eq {offset stop : Nat} {cs ds : List Char}
    (h : ClosesLast offset cs) (hscan : scanFrom offset cs = scanFrom stop ds)
    (hstop : stop + byteLength ds = offset + byteLength cs) : ClosesLast stop ds := by
  obtain ⟨l, hmem, hl, hend⟩ := h
  exact ⟨l, hscan ▸ hmem, hl, hend.trans hstop.symm⟩

private theorem ClosesLast.of_cons {offset stop : Nat} {cs ds : List Char} {x : Scanned}
    (h : ClosesLast offset cs) (hscan : scanFrom offset cs = x :: scanFrom stop ds)
    (hstop : stop + byteLength ds = offset + byteLength cs)
    (hx : x.range.stop < offset + byteLength cs) : ClosesLast stop ds := by
  obtain ⟨l, hmem, hl, hend⟩ := h
  rw [hscan] at hmem
  rcases List.mem_cons.1 hmem with rfl | hmem
  · simp only [Scanned.range] at hx
    omega
  · exact ⟨l, hmem, hl, hend.trans hstop.symm⟩

/-- A comment does not hide the last parenthesis, and so it ends before. -/
private theorem ClosesLast.dropWhile_inComment_ne_nil {offset : Nat} {rest : List Char}
    (h : ClosesLast offset (';' :: (rest ++ [')']))) : rest.dropWhile inComment ≠ [] := by
  intro hnil
  obtain ⟨l, hmem, -⟩ := h
  have hparen : [')'].dropWhile inComment = [] := rfl
  rw [scanFrom_semicolon, List.dropWhile_append, hnil, hparen] at hmem
  simp [scanFrom] at hmem

section Comment
variable {rest : List Char} (h : rest.dropWhile inComment ≠ []) (more : List Char)
include h

private theorem takeWhile_inComment_append :
    (rest ++ more).takeWhile inComment = rest.takeWhile inComment := by
  have hlong : (rest.takeWhile inComment).length ≠ rest.length := by
    have hpos := List.length_pos_iff.2 h
    have hsplit : rest.takeWhile inComment ++ rest.dropWhile inComment = rest :=
      List.takeWhile_append_dropWhile
    have hlengths := congrArg List.length hsplit
    rw [List.length_append] at hlengths
    omega
  rw [List.takeWhile_append, if_neg hlong]

private theorem dropWhile_inComment_append :
    (rest ++ more).dropWhile inComment = rest.dropWhile inComment ++ more := by
  rw [List.dropWhile_append, if_neg (by simpa using h)]

private theorem scanFrom_comment_append (offset : Nat) :
    scanFrom offset (';' :: (rest ++ more)) =
      scanFrom (offset + byteLength (';' :: rest.takeWhile inComment))
        (rest.dropWhile inComment ++ more) := by
  rw [scanFrom_semicolon, takeWhile_inComment_append h, dropWhile_inComment_append h]

private theorem byteLength_comment_append :
    byteLength (';' :: rest.takeWhile inComment) +
        byteLength (rest.dropWhile inComment ++ more) = byteLength (';' :: (rest ++ more)) := by
  rw [← byteLength_append, ← dropWhile_inComment_append h, ← takeWhile_inComment_append h more,
    comment_append_dropWhile]

end Comment

private theorem munch?_append_closeParen (c : Char) (rest ds : List Char) :
    munch? (c :: (rest ++ ')' :: ds)) = (munch? (c :: rest)).map (·.before (')' :: ds)) :=
  munch?_append (List.cons_ne_nil c rest) (breaks_cons.2 (by decide))

private theorem scanFrom_append_closeParen {offset : Nat} {front : List Char}
    (h : ClosesLast offset (front ++ [')'])) (ds : List Char) :
    scanFrom offset (front ++ ')' :: ds) =
      scanFrom offset (front ++ [')']) ++
        scanFrom (offset + byteLength (front ++ [')'])) ds := by
  induction offset, front using scanFrom.induct with
  | case1 offset =>
    rw [List.nil_append, List.nil_append, scanFrom_of_munch? (munch?_closeParen ds),
      scanFrom_of_munch? (munch?_closeParen [])]
    simp [scanFrom]
  | case2 offset c rest hblank ih =>
    have hrest : ClosesLast (offset + c.utf8Size) (rest ++ [')']) :=
      h.of_scanFrom_eq (scanFrom_of_isBlank hblank) (Nat.add_assoc ..)
    simp only [List.cons_append, scanFrom_of_isBlank hblank, byteLength]
    rw [ih hrest, Nat.add_assoc]
  | case3 offset rest hblank ih =>
    rw [List.cons_append] at h
    have hends := h.dropWhile_inComment_ne_nil
    have hlength : offset + byteLength (';' :: rest.takeWhile inComment) +
        byteLength (rest.dropWhile inComment ++ [')']) =
          offset + byteLength (';' :: (rest ++ [')'])) := by
      rw [Nat.add_assoc, byteLength_comment_append hends]
    have hrest := h.of_scanFrom_eq (scanFrom_comment_append hends [')'] offset) hlength
    rw [List.cons_append, List.cons_append, scanFrom_comment_append hends,
      scanFrom_comment_append hends, ih hrest, hlength]
  | case4 offset c rest hblank hsemi m hm stop ih =>
    have hmunch (tail : List Char) :
        munch? (c :: (rest ++ ')' :: tail)) = some (m.before (')' :: tail)) := by
      rw [munch?_append_closeParen, hm]
      rfl
    have hsplit := (munch?_eq_some (hmunch [])).1
    have hlength : stop + byteLength (m.rest ++ [')']) =
        offset + byteLength (c :: (rest ++ [')'])) := by
      rw [hsplit, byteLength_append _ (m.before _).rest, ← Nat.add_assoc]
      rfl
    have hpos : 0 < byteLength (m.rest ++ [')']) := byteLength_pos (by simp)
    have hrest : ClosesLast stop (m.rest ++ [')']) :=
      h.of_cons (scanFrom_of_munch? (hmunch [])) hlength (by
        simp only [Scanned.range, Munch.before, List.cons_append]
        omega)
    rw [List.cons_append, List.cons_append, scanFrom_of_munch? (hmunch ds),
      scanFrom_of_munch? (hmunch []), ← hlength, List.cons_append]
    exact congrArg _ (ih hrest)
  | case5 offset c rest hblank hsemi hm ih =>
    have hmunch (tail : List Char) : munch? (c :: (rest ++ ')' :: tail)) = none := by
      rw [munch?_append_closeParen, hm]
      rfl
    have hblank := Bool.eq_false_iff.2 hblank
    have hlength : offset + c.utf8Size + byteLength (rest ++ [')']) =
        offset + byteLength (c :: (rest ++ [')'])) := by
      rw [byteLength, Nat.add_assoc]
    have hpos : 0 < byteLength (rest ++ [')']) := byteLength_pos (by simp)
    have hrest : ClosesLast (offset + c.utf8Size) (rest ++ [')']) :=
      h.of_cons (scanFrom_stray hblank hsemi (hmunch [])) hlength (by
        simp only [Scanned.range, Stray.range, List.cons_append]
        omega)
    rw [List.cons_append, List.cons_append, scanFrom_stray hblank hsemi (hmunch ds),
      scanFrom_stray hblank hsemi (hmunch []), ← hlength, List.cons_append]
    exact congrArg _ (ih hrest)

/-- The last character is a parenthesis that closes something or nothing, but no part of a
comment. -/
def EndsInCloseParen (text : String) : Prop := ClosesLast 0 text.toList

theorem scan_append {text : String} (h : EndsInCloseParen text) (more : String) :
    scan (text ++ more) = scan text ++ scanFrom (byteLength text.toList) more.toList := by
  obtain ⟨front, hfront⟩ := ClosesLast.eq_append h
  have hlast : ClosesLast 0 (front ++ [')']) := hfront ▸ (show ClosesLast 0 text.toList from h)
  have hfresh := scanFrom_append_closeParen hlast more.toList
  rw [← hfront, Nat.zero_add] at hfresh
  rw [scan, scan, String.toList_append, ← hfresh, hfront, List.append_assoc,
    List.singleton_append]

end PlanningDomain
