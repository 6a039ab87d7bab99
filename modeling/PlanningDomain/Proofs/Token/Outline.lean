import PlanningDomain.Proofs.Token.Break
import PlanningDomain.Token.Scan

/-! A text without its places: the tokens in order, and gaps for the characters that start nothing.
Main statement: the outline of two texts in a row is that of the first and then that of the second,
when the second starts where no word can go on and the first has no comment. -/
namespace PlanningDomain

/-- The tokens of a text in order, with `none` for every stray character. -/
def outline (cs : List Char) : List (Option Token) :=
  (scanFrom 0 cs).map Scanned.token?

private theorem munch?_of_isBlank {c : Char} (h : isBlank c = true) (rest : List Char) :
    munch? (c :: rest) = none := by
  simp only [isBlank, Bool.or_eq_true, beq_iff_eq] at h
  rcases h with (((rfl | rfl) | rfl) | rfl) | rfl <;> rfl

private theorem munch?_semicolon (rest : List Char) : munch? (';' :: rest) = none := rfl

private theorem munch?_openParen (rest : List Char) :
    munch? ('(' :: rest) = some ⟨.openParen, ['('], rest⟩ := rfl

theorem munch?_closeParen (rest : List Char) :
    munch? (')' :: rest) = some ⟨.closeParen, [')'], rest⟩ := rfl

private theorem starts_of_munch? {c : Char} {rest : List Char} {m : Munch}
    (h : munch? (c :: rest) = some m) : ¬ isBlank c = true ∧ c ≠ ';' := by
  constructor
  · intro hc
    rw [munch?_of_isBlank hc] at h
    cases h
  · rintro rfl
    rw [munch?_semicolon] at h
    cases h

section Steps
variable {offset : Nat} {c : Char} {rest : List Char}

theorem scanFrom_of_isBlank (h : isBlank c = true) :
    scanFrom offset (c :: rest) = scanFrom (offset + c.utf8Size) rest := by
  rw [scanFrom, if_pos h]

theorem comment_append_dropWhile (rest : List Char) :
    ';' :: rest.takeWhile inComment ++ rest.dropWhile inComment = ';' :: rest := by
  rw [List.cons_append, List.takeWhile_append_dropWhile]

theorem scanFrom_semicolon : scanFrom offset (';' :: rest) =
    scanFrom (offset + byteLength (';' :: rest.takeWhile inComment))
      (rest.dropWhile inComment) := by
  rw [scanFrom, if_neg (by decide), if_pos rfl]

theorem scanFrom_of_munch? {m : Munch} (h : munch? (c :: rest) = some m) :
    scanFrom offset (c :: rest) =
      .lexeme ⟨m.token, String.ofList m.written, ⟨offset, offset + byteLength m.written⟩⟩ ::
        scanFrom (offset + byteLength m.written) m.rest := by
  obtain ⟨hblank, hsemi⟩ := starts_of_munch? h
  rw [scanFrom, if_neg hblank, if_neg hsemi]
  split
  · rename_i m' hm
    cases hm.symm.trans h
    rfl
  · rename_i hm
    cases hm.symm.trans h

theorem scanFrom_stray (hblank : isBlank c = false) (hsemi : c ≠ ';')
    (h : munch? (c :: rest) = none) :
    scanFrom offset (c :: rest) = .stray ⟨c, offset⟩ :: scanFrom (offset + c.utf8Size) rest := by
  rw [scanFrom, if_neg (by simp [hblank]), if_neg hsemi]
  split
  · rename_i m hm
    cases hm.symm.trans h
  · rfl

end Steps

/-- What a text consists of does not depend on the place where it starts. -/
private theorem map_token?_scanFrom (offset : Nat) (cs : List Char) :
    (scanFrom offset cs).map Scanned.token? = outline cs := by
  suffices h : ∀ other, (scanFrom offset cs).map Scanned.token? =
      (scanFrom other cs).map Scanned.token? from h 0
  induction offset, cs using scanFrom.induct with
  | case1 offset => intro other; simp [scanFrom]
  | case2 offset c rest hblank ih =>
    intro other
    simpa only [scanFrom_of_isBlank hblank] using ih _
  | case3 offset rest hblank ih =>
    intro other
    simpa only [scanFrom_semicolon] using ih _
  | case4 offset c rest hblank hsemi m hm stop ih =>
    intro other
    simp only [scanFrom_of_munch? hm, List.map_cons]
    exact congrArg _ (ih _)
  | case5 offset c rest hblank hsemi hm ih =>
    intro other
    simp only [scanFrom_stray (Bool.eq_false_iff.2 hblank) hsemi hm, List.map_cons]
    exact congrArg _ (ih _)

section Outline
variable {c : Char} {rest : List Char}

@[simp] theorem outline_nil : outline [] = [] := by
  simp [outline, scanFrom]

theorem outline_of_isBlank (h : isBlank c = true) : outline (c :: rest) = outline rest := by
  rw [outline, scanFrom_of_isBlank h, map_token?_scanFrom]

private theorem outline_of_munch? {m : Munch} (h : munch? (c :: rest) = some m) :
    outline (c :: rest) = some m.token :: outline m.rest := by
  rw [outline, scanFrom_of_munch? h, List.map_cons, map_token?_scanFrom]
  rfl

private theorem outline_stray (hblank : isBlank c = false) (hsemi : c ≠ ';')
    (h : munch? (c :: rest) = none) : outline (c :: rest) = none :: outline rest := by
  rw [outline, scanFrom_stray hblank hsemi h, List.map_cons, map_token?_scanFrom]
  rfl

end Outline

/-- Scanning distributes over a break, behind a text without comments. -/
theorem outline_append {cs ds : List Char} (hc : ';' ∉ cs) (hd : Breaks ds) :
    outline (cs ++ ds) = outline cs ++ outline ds := by
  induction h : cs.length using Nat.strong_induction_on generalizing cs with
  | _ n ih =>
  subst h
  cases cs with
  | nil => simp
  | cons c cs =>
    have hsemi : c ≠ ';' := fun h => hc (h ▸ List.mem_cons_self)
    have hcs : ';' ∉ cs := fun h => hc (List.mem_cons_of_mem _ h)
    have hmunch : munch? (c :: cs ++ ds) = (munch? (c :: cs)).map (·.before ds) :=
      munch?_append (by simp) hd
    rw [List.cons_append] at hmunch ⊢
    cases hblank : isBlank c with
    | true =>
      rw [outline_of_isBlank hblank, outline_of_isBlank hblank]
      exact ih _ (by simp) hcs rfl
    | false =>
      cases hm : munch? (c :: cs) with
      | none =>
        rw [hm] at hmunch
        rw [outline_stray hblank hsemi hm, outline_stray hblank hsemi hmunch, List.cons_append,
          ih _ (by simp) hcs rfl]
      | some m =>
        rw [hm] at hmunch
        obtain ⟨hsplit, hne⟩ := munch?_eq_some hm
        have hrest : ';' ∉ m.rest := fun h => hc (hsplit ▸ List.mem_append_right _ h)
        have hlt : m.rest.length < (c :: cs).length := by
          have := List.length_pos_iff.2 hne
          rw [hsplit, List.length_append]
          omega
        rw [outline_of_munch? hm, outline_of_munch? hmunch, List.cons_append]
        exact congrArg _ (ih _ hlt hrest rfl)

/-- The characters that never belong to a longer token. -/
def isDelimiter (c : Char) : Bool :=
  isBlank c || c == '(' || c == ')'

private theorem continuesWord_of_isDelimiter {c : Char} (h : isDelimiter c = true) :
    continuesWord c = false := by
  simp only [isDelimiter, isBlank, Bool.or_eq_true, beq_iff_eq] at h
  rcases h with (((((rfl | rfl) | rfl) | rfl) | rfl) | rfl) | rfl <;> rfl

private theorem outline_cons_of_isDelimiter {c : Char} (h : isDelimiter c = true)
    (ds : List Char) : outline (c :: ds) = outline [c] ++ outline ds := by
  simp only [isDelimiter, Bool.or_eq_true, beq_iff_eq] at h
  rcases h with (hblank | rfl) | rfl
  · rw [outline_of_isBlank hblank, outline_of_isBlank hblank, outline_nil, List.nil_append]
  · rw [outline_of_munch? (munch?_openParen _), outline_of_munch? (munch?_openParen _)]
    simp
  · rw [outline_of_munch? (munch?_closeParen _), outline_of_munch? (munch?_closeParen _)]
    simp

/-- Scanning distributes over any cut behind a delimiter, too. -/
theorem outline_append_of_delimiter {cs ds : List Char} {c : Char} (hc : ';' ∉ cs)
    (h : isDelimiter c = true) :
    outline (cs ++ [c] ++ ds) = outline (cs ++ [c]) ++ outline ds := by
  have hbreak (es : List Char) : Breaks (c :: es) :=
    breaks_cons.2 (continuesWord_of_isDelimiter h)
  rw [List.append_assoc, List.singleton_append, outline_append hc (hbreak ds),
    outline_append hc (hbreak []), outline_cons_of_isDelimiter h ds, List.append_assoc]

end PlanningDomain
