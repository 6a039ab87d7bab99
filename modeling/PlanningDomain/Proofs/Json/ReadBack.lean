import Mathlib.Data.List.TakeWhile
import PlanningDomain.Json.Reader
import PlanningDomain.Json.Writer

/-! JSON text read back. Main statement: a value without numbers, laid out over lines, reads as the
same value. Numbers are left out because a real need not be read as the one that was written. -/
namespace PlanningDomain.Json

private theorem hexValue?_hexDigit : ∀ n < 16, hexValue? (hexDigit n) = some n := by
  decide

private theorem readUnicode_hexDigit {c : Char} (hc : c.toNat < 32) (rest : List Char) :
    readUnicode ('0' :: '0' :: hexDigit (c.toNat / 16) :: hexDigit (c.toNat % 16) :: rest) =
      some (c, rest) := by
  have hzero : hexValue? '0' = some 0 := rfl
  have hhigh := hexValue?_hexDigit (c.toNat / 16) (by omega)
  have hlow := hexValue?_hexDigit (c.toNat % 16) (by omega)
  have hvalue : c.toNat / 16 * 16 + c.toNat % 16 = c.toNat := by omega
  have hread : readHex4 ('0' :: '0' :: hexDigit (c.toNat / 16) :: hexDigit (c.toNat % 16) :: rest) =
      some (c.toNat, rest) := by
    simp [readHex4, hzero, hhigh, hlow, hvalue]
  have hlow' : ¬ (0xDC00 ≤ c.toNat ∧ c.toNat < 0xE000) := by omega
  have hhigh' : ¬ (0xD800 ≤ c.toNat ∧ c.toNat < 0xDC00) := by omega
  simp [readUnicode, hread, hlow', hhigh', Char.ofNat_toNat]

private theorem readChar_escape (c : Char) (rest : List Char) :
    readChar (escape c ++ rest) = some (c, rest) := by
  rw [escape]
  split_ifs with hquote hbackslash hn hr ht hb hf hcontrol
  · subst hquote; rfl
  · subst hbackslash; rfl
  · subst hn; rfl
  · subst hr; rfl
  · subst ht; rfl
  · subst hb; rfl
  · subst hf; rfl
  · exact readUnicode_hexDigit hcontrol rest
  · simp [readChar, hbackslash, hcontrol]

private theorem head?_escape_ne (c : Char) (rest : List Char) :
    (escape c ++ rest).head? ≠ some '"' := by
  rw [escape]
  split_ifs with hquote
  iterate 8 simp
  · simpa using hquote

private theorem length_le_length_flatMap_escape (cs : List Char) :
    cs.length ≤ (cs.flatMap escape).length := by
  induction cs with
  | nil => exact Nat.le_refl _
  | cons c cs ih =>
    have hpos : 0 < (escape c).length := by
      rw [escape]
      split_ifs <;> simp
    simp only [List.flatMap_cons, List.length_append, List.length_cons]
    omega

private theorem readTail_quotedTail {cs rest : List Char} {fuel : Nat} (hfuel : cs.length < fuel) :
    readTail fuel (quotedTail cs ++ rest) = some (cs, rest) := by
  induction cs generalizing fuel with
  | nil =>
    obtain ⟨fuel, rfl⟩ := Nat.exists_eq_add_one.2 (Nat.zero_lt_of_lt hfuel)
    simp [quotedTail, readTail]
  | cons c cs ih =>
    obtain ⟨fuel, rfl⟩ := Nat.exists_eq_add_one.2 (Nat.zero_lt_of_lt hfuel)
    have htail : quotedTail (c :: cs) ++ rest = escape c ++ (quotedTail cs ++ rest) := by
      simp [quotedTail]
    rw [htail, readTail, if_neg (head?_escape_ne c _), readChar_escape]
    simp only [List.length_cons] at hfuel
    have hrest : readTail fuel (quotedTail cs ++ rest) = some (cs, rest) := ih (by omega)
    simp [hrest]

private theorem readQuoted_quote (text : String) (rest : List Char) :
    readQuoted (quote text ++ rest) = some (text, rest) := by
  have hfuel : text.toList.length < (quotedTail text.toList ++ rest).length + 1 := by
    have := length_le_length_flatMap_escape text.toList
    simp only [quotedTail, List.length_append]
    omega
  rw [quote, List.cons_append, readQuoted, if_pos rfl, readTail_quotedTail hfuel]
  simp

private theorem skipBlanks_lineBreak (depth : Nat) (cs : List Char) :
    skipBlanks (lineBreak depth ++ cs) = skipBlanks cs := by
  refine List.dropWhile_append_of_pos fun c hc => ?_
  rcases List.mem_cons.1 hc with rfl | hc
  · rfl
  · rw [List.eq_of_mem_replicate hc]
    rfl

/-- A text that starts with neither a blank nor a bracket that closes. -/
def StartsValue (cs : List Char) : Prop :=
  ∃ c rest, cs = c :: rest ∧ c ∉ [' ', '\n', '\r', '\t', ']', '\x7d']

private theorem StartsValue.append {cs : List Char} (h : StartsValue cs) (ds : List Char) :
    StartsValue (cs ++ ds) := by
  obtain ⟨c, rest, rfl, hc⟩ := h
  exact ⟨c, rest ++ ds, rfl, hc⟩

private theorem StartsValue.skipBlanks_eq {cs : List Char} (h : StartsValue cs) :
    skipBlanks cs = cs := by
  obtain ⟨c, rest, rfl, hc⟩ := h
  refine List.dropWhile_cons_of_neg ?_
  simp only [List.mem_cons, List.not_mem_nil, not_or] at hc
  simp [hc]

private theorem StartsValue.head?_ne {cs : List Char} (h : StartsValue cs) :
    cs.head? ≠ some ']' ∧ cs.head? ≠ some '\x7d' := by
  obtain ⟨c, rest, rfl, hc⟩ := h
  simp only [List.mem_cons, List.not_mem_nil, not_or] at hc
  simp [hc]

inductive Numberless : Json → Prop
  | null : Numberless .null
  | boolean (value : Bool) : Numberless (.boolean value)
  | text (value : String) : Numberless (.text value)
  | array {items : List Json} (h : ∀ j ∈ items, Numberless j) : Numberless (.array items)
  | object {members : List (String × Json)} (h : ∀ m ∈ members, Numberless m.2) :
      Numberless (.object members)

private theorem Numberless.startsValue {j : Json} (h : Numberless j) (depth : Nat) :
    StartsValue (layOut depth j) := by
  cases h with
  | null => exact ⟨_, _, rfl, by decide⟩
  | boolean value => cases value <;> exact ⟨_, _, rfl, by decide⟩
  | text value => exact ⟨_, _, rfl, by decide⟩
  | @array items _ => cases items <;> exact ⟨_, _, by rw [layOut], by decide⟩
  | @object members _ => cases members <;> exact ⟨_, _, by rw [layOut], by decide⟩

/-- The value is read from its own text, whatever follows, with more fuel than the text is long. -/
def ReadsBack (j : Json) : Prop :=
  ∀ depth fuel rest, (layOut depth j).length < fuel →
    readValue fuel (layOut depth j ++ rest) = some (j, rest)

theorem skipBlanks_comma (cs : List Char) : skipBlanks (',' :: cs) = ',' :: cs := rfl

section Containers
variable {depth outer fuel : Nat} {rest : List Char}

private theorem skipBlanks_lineBreak_layOut {j : Json} (h : Numberless j) (rest : List Char) :
    skipBlanks (lineBreak depth ++ (layOut depth j ++ rest)) = layOut depth j ++ rest := by
  rw [skipBlanks_lineBreak, ((h.startsValue depth).append rest).skipBlanks_eq]

private theorem skipBlanks_lineBreak_quote (name : String) (rest : List Char) :
    skipBlanks (lineBreak depth ++ (quote name ++ rest)) = quote name ++ rest :=
  skipBlanks_lineBreak depth _

private theorem readItems_layOut {item : Json} {items : List Json}
    (hvalues : ∀ j ∈ item :: items, Numberless j) (hreads : ∀ j ∈ item :: items, ReadsBack j)
    (hfuel : (layOut depth item).length + (layOutItems depth items).length + 1 < fuel) :
    readItems fuel (layOut depth item ++
        (layOutItems depth items ++ (lineBreak outer ++ ']' :: rest))) =
      some (item :: items, rest) := by
  induction items generalizing item fuel with
  | nil =>
    obtain ⟨fuel, rfl⟩ := Nat.exists_eq_add_one.2 (Nat.zero_lt_of_lt hfuel)
    have hitem := hreads item List.mem_cons_self depth fuel
    have hclose : skipBlanks (lineBreak outer ++ ']' :: rest) = ']' :: rest :=
      skipBlanks_lineBreak outer _
    rw [readItems, hitem _ (by omega)]
    simp [layOutItems, hclose]
  | cons next items ih =>
    obtain ⟨fuel, rfl⟩ := Nat.exists_eq_add_one.2 (Nat.zero_lt_of_lt hfuel)
    have hitem := hreads item List.mem_cons_self depth fuel
    simp only [layOutItems, List.length_cons, List.length_append] at hfuel
    have hitems : readItems fuel (layOut depth next ++
        (layOutItems depth items ++ (lineBreak outer ++ ']' :: rest))) =
          some (next :: items, rest) :=
      ih (List.forall_mem_cons.1 hvalues).2 (List.forall_mem_cons.1 hreads).2 (by omega)
    rw [readItems, hitem _ (by omega)]
    simp [layOutItems, skipBlanks_comma, skipBlanks_lineBreak_layOut (hvalues next (by simp)),
      hitems]

private theorem readMembers_layOut {name : String} {value : Json} {members : List (String × Json)}
    (hvalues : ∀ m ∈ (name, value) :: members, Numberless m.2)
    (hreads : ∀ m ∈ (name, value) :: members, ReadsBack m.2)
    (hfuel : (layOut depth value).length + (layOutMembers depth members).length + 1 < fuel) :
    readMembers fuel (quote name ++ (':' :: ' ' :: (layOut depth value ++
        (layOutMembers depth members ++ (lineBreak outer ++ '\x7d' :: rest))))) =
      some ((name, value) :: members, rest) := by
  have hcolon (cs : List Char) : skipBlanks (':' :: cs) = ':' :: cs := rfl
  have hstart {value : Json} (hvalue : Numberless value) (cs : List Char) :
      skipBlanks (' ' :: (layOut depth value ++ cs)) = layOut depth value ++ cs :=
    ((hvalue.startsValue depth).append cs).skipBlanks_eq
  induction members generalizing name value fuel with
  | nil =>
    obtain ⟨fuel, rfl⟩ := Nat.exists_eq_add_one.2 (Nat.zero_lt_of_lt hfuel)
    have hvalue := hreads (name, value) List.mem_cons_self depth fuel
    have hclose : skipBlanks (lineBreak outer ++ '\x7d' :: rest) = '\x7d' :: rest :=
      skipBlanks_lineBreak outer _
    dsimp only at hvalue
    rw [readMembers, readQuoted_quote]
    simp [hcolon, hstart (hvalues _ List.mem_cons_self), hvalue _ (by omega), layOutMembers, hclose]
  | cons next members ih =>
    obtain ⟨fuel, rfl⟩ := Nat.exists_eq_add_one.2 (Nat.zero_lt_of_lt hfuel)
    have hvalue := hreads (name, value) List.mem_cons_self depth fuel
    simp only [layOutMembers, List.length_cons, List.length_append] at hfuel hvalue
    have hmembers : readMembers fuel (quote next.1 ++ (':' :: ' ' :: (layOut depth next.2 ++
        (layOutMembers depth members ++ (lineBreak outer ++ '\x7d' :: rest))))) =
          some (next :: members, rest) :=
      ih (List.forall_mem_cons.1 hvalues).2 (List.forall_mem_cons.1 hreads).2 (by omega)
    rw [readMembers, readQuoted_quote]
    simp [hcolon, hstart (hvalues _ List.mem_cons_self), hvalue _ (by omega), layOutMembers,
      skipBlanks_comma, skipBlanks_lineBreak_quote, hmembers]

end Containers

private theorem readValue_bracket {fuel : Nat} {cs inside : List Char}
    (hinside : skipBlanks cs = inside) (h : inside.head? ≠ some ']') :
    readValue (fuel + 1) ('[' :: cs) =
      (readItems fuel inside).map fun (items, rest) => (array items, rest) := by
  simp [readValue, hinside, h]

private theorem readValue_brace {fuel : Nat} {cs inside : List Char}
    (hinside : skipBlanks cs = inside) (h : inside.head? ≠ some '\x7d') :
    readValue (fuel + 1) ('\x7b' :: cs) =
      (readMembers fuel inside).map fun (members, rest) => (object members, rest) := by
  simp [readValue, hinside, h]

/-- Every value without numbers is read from its own text. -/
theorem Numberless.readsBack {j : Json} (h : Numberless j) : ReadsBack j := by
  induction h with
  | null =>
    intro depth fuel rest hfuel
    obtain ⟨fuel, rfl⟩ := Nat.exists_eq_add_one.2 (Nat.zero_lt_of_lt hfuel)
    simp [layOut, scalar, readValue, readWord]
  | boolean value =>
    intro depth fuel rest hfuel
    obtain ⟨fuel, rfl⟩ := Nat.exists_eq_add_one.2 (Nat.zero_lt_of_lt hfuel)
    cases value <;> simp [layOut, scalar, readValue, readWord]
  | text value =>
    intro depth fuel rest hfuel
    obtain ⟨fuel, rfl⟩ := Nat.exists_eq_add_one.2 (Nat.zero_lt_of_lt hfuel)
    have hquoted := readQuoted_quote value rest
    rw [quote, List.cons_append] at hquoted
    simp [layOut, scalar, quote, readValue, hquoted]
  | @array items hitems ih =>
    intro depth fuel rest hfuel
    obtain ⟨fuel, rfl⟩ := Nat.exists_eq_add_one.2 (Nat.zero_lt_of_lt hfuel)
    cases items with
    | nil => simp [layOut, readValue, skipBlanks]
    | cons item items =>
      -- A value begins behind the line break, so the bracket is not closed at once.
      have hstart := (hitems item List.mem_cons_self).startsValue (depth + 1)
      have htext : layOut depth (.array (item :: items)) ++ rest =
          '[' :: (lineBreak (depth + 1) ++ (layOut (depth + 1) item ++
            (layOutItems (depth + 1) items ++ (lineBreak depth ++ ']' :: rest)))) := by
        simp [layOut]
      simp only [layOut, List.length_cons, List.length_append] at hfuel
      rw [htext, readValue_bracket (skipBlanks_lineBreak_layOut (hitems item List.mem_cons_self) _)
        (hstart.append _).head?_ne.1, readItems_layOut hitems ih (by omega), Option.map_some]
  | @object members hmembers ih =>
    intro depth fuel rest hfuel
    obtain ⟨fuel, rfl⟩ := Nat.exists_eq_add_one.2 (Nat.zero_lt_of_lt hfuel)
    cases members with
    | nil => simp [layOut, readValue, skipBlanks]
    | cons member members =>
      obtain ⟨name, value⟩ := member
      have htext : layOut depth (.object ((name, value) :: members)) ++ rest =
          '\x7b' :: (lineBreak (depth + 1) ++ (quote name ++ (':' :: ' ' ::
            (layOut (depth + 1) value ++ (layOutMembers (depth + 1) members ++
              (lineBreak depth ++ '\x7d' :: rest)))))) := by
        simp [layOut]
      have hquoted (cs : List Char) : (quote name ++ cs).head? ≠ some '\x7d' := by
        rw [quote, List.cons_append, List.head?_cons]
        decide
      simp only [layOut, List.length_cons, List.length_append] at hfuel
      rw [htext, readValue_brace (skipBlanks_lineBreak_quote name _) (hquoted _),
        readMembers_layOut hmembers ih (by omega), Option.map_some]

/-- A value without numbers is what its text reads as, also with blanks behind it. -/
theorem parse?_pretty_append {j : Json} (h : Numberless j) {blanks : String}
    (hblanks : skipBlanks blanks.toList = []) : parse? (j.pretty ++ blanks) = some j := by
  have hstart := ((h.startsValue 0).append blanks.toList).skipBlanks_eq
  have htext : (j.pretty ++ blanks).toList = layOut 0 j ++ blanks.toList := by
    rw [pretty, String.toList_append, String.toList_ofList]
  have hread := h.readsBack 0 ((layOut 0 j ++ blanks.toList).length + 1) blanks.toList
    (by rw [List.length_append]; omega)
  rw [parse?, htext, hstart, hread]
  simp [hblanks]

end PlanningDomain.Json
