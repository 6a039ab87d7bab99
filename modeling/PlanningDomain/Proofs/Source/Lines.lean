import Mathlib.Data.List.DropRight
import Mathlib.Data.List.Induction
import PlanningDomain.Proofs.Source.Places

/-! Lines and columns counted in the bytes of a text. Main statement: the place of an offset counts
the newlines in front of it and the bytes behind the last of them, so that places come in the order
of offsets. -/
namespace PlanningDomain

/-- The byte that ends a line. -/
def newlineByte : UInt8 := 10

private theorem newlineByte_not_mem_utf8EncodeChar {c : Char} (h : c ≠ '\n') :
    newlineByte ∉ String.utf8EncodeChar c := by
  have hne : c.val.toNat ≠ 10 := by
    intro heq
    apply h
    apply Char.ext
    apply UInt32.toNat_inj.1
    exact heq
  have hbyte (n : Nat) : newlineByte = UInt8.ofNat n ↔ 10 = n % 256 := by
    rw [← UInt8.toNat_inj, UInt8.toNat_ofNat']
    rfl
  rw [String.utf8EncodeChar]
  generalize c.val.toNat = v at hne
  intro hmem
  -- One case for each length of an encoding.
  split_ifs at hmem <;>
    · simp only [List.mem_cons, List.not_mem_nil, or_false, hbyte] at hmem
      omega

private theorem toList_data_toUTF8 (text : String) :
    text.toUTF8.data.toList = text.toList.flatMap String.utf8EncodeChar := by
  have hencode : text.toUTF8 = text.toList.utf8Encode := by
    rw [← String.toByteArray_ofList, String.ofList_toList]
    rfl
  rw [hencode, List.utf8Encode, List.toList_data_toByteArray]

private theorem length_flatMap_utf8EncodeChar (cs : List Char) :
    (cs.flatMap String.utf8EncodeChar).length = byteLength cs := by
  induction cs with
  | nil => rfl
  | cons c cs ih => rw [List.flatMap_cons, List.length_append, ih, String.length_utf8EncodeChar,
      byteLength]

namespace Position

private theorem order_eq_iff {p q : Position} : p.order q = .eq ↔ p = q := by
  rw [order, Ordering.then_eq_eq, Nat.compare_eq_eq, Nat.compare_eq_eq, Position.mk.injEq]

private theorem order_swap (p q : Position) : p.order q = (q.order p).swap := by
  rw [order, order, Ordering.swap_then, Nat.compare_swap, Nat.compare_swap]

end Position

namespace LineTable

/-- The offsets just past the newlines among some bytes, of which the first is at `offset`. -/
def startsInBytes (offset : Nat) : List UInt8 → List Nat
  | [] => []
  | b :: bs =>
    if b = newlineByte then (offset + 1) :: startsInBytes (offset + 1) bs
    else startsInBytes (offset + 1) bs

section StartsInBytes
variable {offset : Nat} {bs : List UInt8}

private theorem startsInBytes_append (offset : Nat) (bs cs : List UInt8) :
    startsInBytes offset (bs ++ cs) =
      startsInBytes offset bs ++ startsInBytes (offset + bs.length) cs := by
  induction bs generalizing offset with
  | nil => rfl
  | cons b bs ih =>
    simp only [List.cons_append, startsInBytes, ih, List.length_cons, Nat.add_assoc,
      Nat.add_comm 1]
    split <;> rfl

private theorem startsInBytes_of_not_mem (h : newlineByte ∉ bs) : startsInBytes offset bs = [] := by
  induction bs generalizing offset with
  | nil => rfl
  | cons b bs ih =>
    rw [List.mem_cons, not_or] at h
    rw [startsInBytes, if_neg (Ne.symm h.1), ih h.2]

private theorem mem_startsInBytes {n : Nat} (h : n ∈ startsInBytes offset bs) :
    offset < n ∧ n ≤ offset + bs.length := by
  induction bs generalizing offset with
  | nil => cases h
  | cons b bs ih =>
    rw [List.length_cons]
    rw [startsInBytes] at h
    split at h
    · rcases List.mem_cons.1 h with rfl | h
      · omega
      · have := ih h
        omega
    · have := ih h
      omega

private theorem length_startsInBytes (offset : Nat) (bs : List UInt8) :
    (startsInBytes offset bs).length = bs.count newlineByte := by
  induction bs generalizing offset with
  | nil => rfl
  | cons b bs ih =>
    rw [startsInBytes, List.count_cons]
    split
    · rename_i hb
      simp [ih, hb]
    · rename_i hb
      simp [ih, hb]

/-- The last line starts where the bytes behind the last newline do. -/
private theorem getLast?_startsInBytes (bs : List UInt8) :
    (0 :: startsInBytes 0 bs).getLast?.getD 0 + (bs.rtakeWhile (· ≠ newlineByte)).length =
      bs.length := by
  induction bs using List.reverseRecOn with
  | nil => rfl
  | append_singleton bs b ih =>
    rw [startsInBytes_append, Nat.zero_add, List.length_append, List.length_singleton]
    by_cases hb : b = newlineByte
    · have hlast : startsInBytes bs.length [b] = [bs.length + 1] := by simp [startsInBytes, hb]
      rw [hlast, ← List.cons_append, List.getLast?_concat,
        List.rtakeWhile_concat_neg _ _ _ (by simpa using hb)]
      rfl
    · have hnone : startsInBytes bs.length [b] = [] := by simp [startsInBytes, hb]
      rw [hnone, List.append_nil, List.rtakeWhile_concat_pos _ _ _ (by simpa using hb),
        List.length_append, ← Nat.add_assoc, ih, List.length_singleton]

private theorem takeWhile_startsInBytes {n : Nat} (h : n ≤ bs.length) :
    (startsInBytes 0 bs).takeWhile (· ≤ n) = startsInBytes 0 (bs.take n) := by
  have hlength : (bs.take n).length = n := List.length_take_of_le h
  have hfront : ∀ m ∈ startsInBytes 0 (bs.take n), m ≤ n := by
    intro m hm
    have := (mem_startsInBytes hm).2
    omega
  have hback : (startsInBytes n (bs.drop n)).takeWhile (· ≤ n) = [] := by
    rw [List.takeWhile_eq_nil_iff]
    intro hlt
    have := (mem_startsInBytes (List.get_mem _ ⟨0, hlt⟩)).1
    simp only [decide_eq_true_eq]
    omega
  calc (startsInBytes 0 bs).takeWhile (· ≤ n)
      = (startsInBytes 0 (bs.take n) ++ startsInBytes n (bs.drop n)).takeWhile (· ≤ n) := by
        nth_rewrite 1 [← List.take_append_drop n bs]
        rw [startsInBytes_append, hlength, Nat.zero_add]
    _ = startsInBytes 0 (bs.take n) := by
        rw [List.takeWhile_append_of_pos (by simpa using hfront), hback, List.append_nil]

end StartsInBytes

private theorem startsAfter_eq (offset : Nat) (cs : List Char) :
    startsAfter offset cs = startsInBytes offset (cs.flatMap String.utf8EncodeChar) := by
  induction cs generalizing offset with
  | nil => rfl
  | cons c cs ih =>
    rw [startsAfter, List.flatMap_cons, startsInBytes_append, String.length_utf8EncodeChar, ih]
    split
    · rename_i hc
      subst hc
      rfl
    · rename_i hc
      rw [startsInBytes_of_not_mem (newlineByte_not_mem_utf8EncodeChar hc), List.nil_append]

section OfText
variable (text : String)

private theorem size_ofText : (ofText text).size = text.toUTF8.data.toList.length := by
  rw [toList_data_toUTF8, length_flatMap_utf8EncodeChar]
  rfl

theorem ordered_ofText : (ofText text).Ordered := ordered_ofChars text.toList

private theorem position_ofText (offset : Nat) :
    (ofText text).position offset =
      let front := text.toUTF8.data.toList.take (min offset text.toUTF8.data.toList.length)
      ⟨1 + front.count newlineByte, 1 + (front.rtakeWhile (· ≠ newlineByte)).length⟩ := by
  have hle : min offset (ofText text).size ≤ text.toUTF8.data.toList.length := by
    rw [size_ofText]
    exact Nat.min_le_right ..
  have hstarts : (ofText text).startsUpTo (min offset (ofText text).size) =
      0 :: startsInBytes 0 (text.toUTF8.data.toList.take (min offset (ofText text).size)) := by
    rw [startsUpTo, ofText, ofChars, startsAfter_eq, ← toList_data_toUTF8,
      List.takeWhile_cons_of_pos (by simp)]
    exact congrArg (0 :: ·) (takeWhile_startsInBytes hle)
  have hlast :=
    getLast?_startsInBytes (text.toUTF8.data.toList.take (min offset (ofText text).size))
  rw [List.length_take_of_le hle] at hlast
  simp only [position, hstarts, ← size_ofText, Position.mk.injEq, List.length_cons,
    length_startsInBytes]
  omega

end OfText

section Order
variable {t : LineTable} {a b : Nat}

private theorem lt_iff_order_position (ha : a ≤ t.size) (hb : b ≤ t.size) :
    a < b ↔ (t.position a).order (t.position b) = .lt := by
  constructor
  · intro hlt
    have hle := t.order_position_isLE (Nat.le_of_lt hlt)
    have hne : (t.position a).order (t.position b) ≠ .eq := by
      intro heq
      have := position_injective ha hb (Position.order_eq_iff.1 heq)
      omega
    cases horder : (t.position a).order (t.position b) with
    | lt => rfl
    | eq => exact absurd horder hne
    | gt => rw [horder] at hle; cases hle
  · intro hlt
    by_contra hge
    have hle := t.order_position_isLE (Nat.not_lt.1 hge)
    rw [Position.order_swap, hlt] at hle
    cases hle

private theorem position_of_size_le (h : t.size ≤ a) : t.position a = t.endPosition := by
  rw [endPosition, position, position, Nat.min_eq_right h, Nat.min_self]

end Order

/-- The checked look-up of any offset succeeds and finds its place, and this place counts the
newlines among the bytes in front of the offset and the bytes behind the last of them. So the places
of a text come in the order of the offsets, no two of them are the same, and every offset past the
end has the place of the end. -/
theorem position_counts_newlines (text : String) :
    let t := LineTable.ofText text
    let bytes := text.toUTF8.data.toList
    (∀ offset,
      let front := bytes.take (min offset bytes.length)
      t.position? offset = some (t.position offset) ∧
      t.position offset =
        ⟨1 + front.count newlineByte, 1 + (front.rtakeWhile (· ≠ newlineByte)).length⟩) ∧
    (∀ a b, a ≤ bytes.length → b ≤ bytes.length →
      (a < b ↔ (t.position a).order (t.position b) = .lt) ∧
      (t.position a = t.position b → a = b)) ∧
    ∀ offset, bytes.length ≤ offset → t.position offset = t.endPosition := by
  intro t bytes
  have hsize : bytes.length = t.size := (size_ofText text).symm
  refine ⟨?_, ?_, ?_⟩
  · intro offset
    exact ⟨(ordered_ofText text).position?_eq offset, position_ofText text offset⟩
  · intro a b ha hb
    rw [hsize] at ha hb
    exact ⟨lt_iff_order_position ha hb, position_injective ha hb⟩
  · intro offset h
    rw [hsize] at h
    exact position_of_size_le h

/-- Offsets within a character of two bytes, behind a newline and past the end. -/
theorem position_counts_newlines_within :
    let text := "a\né"
    let t := LineTable.ofText text
    3 ≤ text.toUTF8.data.toList.length ∧ (t.position 2).order (t.position 3) = .lt ∧
      t.position 3 = ⟨2, 2⟩ ∧ t.position 9 = t.endPosition := by
  intro text t
  obtain ⟨hplaces, horder, hend⟩ := position_counts_newlines text
  have hlength : text.toUTF8.data.toList.length = 4 := by decide +kernel
  refine ⟨by omega, ?_, ?_, ?_⟩
  · exact (horder 2 3 (by omega) (by omega)).1.1 (by decide)
  · rw [(hplaces 3).2]
    decide +kernel
  · exact hend 9 (by omega)

end LineTable
end PlanningDomain
