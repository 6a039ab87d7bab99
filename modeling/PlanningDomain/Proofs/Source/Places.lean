import Mathlib.Data.List.TakeWhile
import PlanningDomain.Source.Cursor

/-! Places of offsets. Main statements: different offsets of a text have different places, and a
later offset has no earlier place; and looking a line up by bisection, every index and difference
checked, always succeeds and finds the place that counting line starts finds. -/
namespace PlanningDomain.LineTable
variable {t : LineTable} {a b : Nat}

theorem lt_of_mem_startsAfter {offset n : Nat} {cs : List Char} (h : n ∈ startsAfter offset cs) :
    offset < n := by
  induction cs generalizing offset with
  | nil => cases h
  | cons c cs ih =>
    have hpos := c.utf8Size_pos
    rw [startsAfter] at h
    split at h
    · rcases List.mem_cons.1 h with rfl | h
      · omega
      · have := ih h
        omega
    · have := ih h
      omega

private theorem getLast?_startsUpTo_le (t : LineTable) (offset : Nat) :
    (t.startsUpTo offset).getLast?.getD 0 ≤ offset := by
  cases hlast : (t.startsUpTo offset).getLast? with
  | none => exact Nat.zero_le _
  | some start =>
    have hmem : start ∈ t.starts.takeWhile (· ≤ offset) := List.mem_of_getLast? hlast
    simpa using List.mem_takeWhile_imp hmem

/-- Offsets with as many line starts up to them are on the same line. -/
private theorem startsUpTo_eq (h : (t.startsUpTo a).length = (t.startsUpTo b).length) :
    t.startsUpTo a = t.startsUpTo b := by
  have hprefix : t.startsUpTo a <+: t.startsUpTo b :=
    List.prefix_of_prefix_length_le (List.takeWhile_prefix _) (List.takeWhile_prefix _)
      (Nat.le_of_eq h)
  exact hprefix.eq_of_length h

theorem position_injective (ha : a ≤ t.size) (hb : b ≤ t.size) (h : t.position a = t.position b) :
    a = b := by
  simp only [position, Nat.min_eq_left ha, Nat.min_eq_left hb, Position.mk.injEq] at h
  obtain ⟨hline, hcolumn⟩ := h
  have hle := t.getLast?_startsUpTo_le a
  have hle' := t.getLast?_startsUpTo_le b
  rw [startsUpTo_eq hline] at hle hcolumn
  omega

private theorem startsUpTo_prefix (t : LineTable) (h : a ≤ b) :
    t.startsUpTo a <+: t.startsUpTo b := by
  have heq : (t.startsUpTo b).takeWhile (· ≤ a) = t.startsUpTo a := by
    rw [startsUpTo, startsUpTo, List.takeWhile_takeWhile]
    exact congrArg (t.starts.takeWhile ·) (funext fun n => by simp; omega)
  rw [← heq]
  exact List.takeWhile_prefix _

theorem order_position_isLE (t : LineTable) (h : a ≤ b) :
    ((t.position a).order (t.position b)).isLE = true := by
  have hhere : min a t.size ≤ min b t.size := by omega
  have hprefix := t.startsUpTo_prefix hhere
  rw [Position.order, position, position, Ordering.isLE_then_iff_or]
  rcases Nat.lt_or_eq_of_le hprefix.length_le with hline | hline
  · exact .inl (Nat.compare_eq_lt.2 hline)
  · refine .inr ⟨Nat.compare_eq_eq.2 hline, Nat.isLE_compare.2 ?_⟩
    rw [startsUpTo_eq hline]
    simp only
    omega

/-- No place is behind the end. -/
theorem order_endPosition_isLE (t : LineTable) (offset : Nat) :
    ((t.position offset).order t.endPosition).isLE = true := by
  have hclamp : t.position offset = t.position (min offset t.size) := by simp [position]
  rw [hclamp]
  exact t.order_position_isLE (Nat.min_le_right ..)

end PlanningDomain.LineTable

namespace PlanningDomain

/-- A difference, unless it falls below zero. -/
def sub? (a b : Nat) : Option Nat :=
  if b ≤ a then some (a - b) else none

theorem sub?_of_le {a b : Nat} (h : b ≤ a) : sub? a b = some (a - b) := if_pos h

/-- The outcome of a search: the index of the number, or the one at which it would have to be put.
-/
inductive Search
  | found (index : Nat)
  | missing (index : Nat)
deriving DecidableEq

/-- Halves the part from `lo` up to `hi` until it holds the number or nothing. An index outside of
the list ends the search without an outcome. -/
def bisect (xs : List Nat) (x lo hi : Nat) : Option Search :=
  if lo < hi then
    match xs[lo + (hi - lo) / 2]? with
    | none => none
    | some y =>
      if y = x then some (.found (lo + (hi - lo) / 2))
      else if y < x then bisect xs x (lo + (hi - lo) / 2 + 1) hi
      else bisect xs x lo (lo + (hi - lo) / 2)
  else some (.missing lo)
termination_by hi - lo

inductive Search.Locates (xs : List Nat) (x : Nat) : Search → Prop
  | found {i : Nat} (h : xs[i]? = some x) : Locates xs x (.found i)
  | missing {i : Nat} (hi : i ≤ xs.length) (below : ∀ y ∈ xs.take i, y < x)
      (above : ∀ y ∈ xs.drop i, x < y) : Locates xs x (.missing i)

section Bisect
variable {xs : List Nat} {x : Nat}

/-- In an increasing list, what stands before an index is smaller and what stands behind it greater.
-/
private theorem lt_of_mem_take_drop (h : xs.Pairwise (· < ·)) {mid : Nat} {y : Nat}
    (hy : xs[mid]? = some y) : (∀ z ∈ xs.take mid, z < y) ∧ ∀ z ∈ xs.drop (mid + 1), y < z := by
  have hsplit : xs = xs.take mid ++ y :: xs.drop (mid + 1) := by
    obtain ⟨hmid, rfl⟩ := List.getElem?_eq_some_iff.1 hy
    rw [← List.drop_eq_getElem_cons hmid, List.take_append_drop]
  rw [hsplit, List.pairwise_append] at h
  obtain ⟨-, hback, hcross⟩ := h
  constructor
  · intro z hz
    exact hcross z hz y List.mem_cons_self
  · exact (List.pairwise_cons.1 hback).1

/-- What bisection keeps: the number is not before `lo` and not from `hi` on. -/
structure Within (xs : List Nat) (x lo hi : Nat) : Prop where
  lo_le : lo ≤ hi
  hi_le : hi ≤ xs.length
  below : ∀ y ∈ xs.take lo, y < x
  above : ∀ y ∈ xs.drop hi, x < y

private theorem bisect_locates (h : xs.Pairwise (· < ·)) {lo hi : Nat} (hw : Within xs x lo hi) :
    ∃ r, bisect xs x lo hi = some r ∧ r.Locates xs x := by
  fun_induction bisect xs x lo hi with
  | case1 lo hi hlt hnone =>
    have := List.getElem?_eq_none_iff.1 hnone
    have := hw.hi_le
    omega
  | case2 lo hi hlt hx => exact ⟨_, rfl, .found hx⟩
  | case3 lo hi hlt y hy hne hyx ih =>
    obtain ⟨hbefore, -⟩ := lt_of_mem_take_drop h hy
    have hmid := (List.getElem?_eq_some_iff.1 hy).1
    apply ih
    refine ⟨by omega, hw.hi_le, ?_, hw.above⟩
    intro z hz
    rw [List.take_add_one, hy] at hz
    rcases List.mem_append.1 hz with hz | hz
    · exact Nat.lt_trans (hbefore z hz) hyx
    · rwa [List.mem_singleton.1 hz]
  | case4 lo hi hlt y hy hne hyx ih =>
    obtain ⟨-, hbehind⟩ := lt_of_mem_take_drop h hy
    obtain ⟨hmid, hget⟩ := List.getElem?_eq_some_iff.1 hy
    apply ih
    refine ⟨by omega, by omega, hw.below, ?_⟩
    intro z hz
    rw [List.drop_eq_getElem_cons hmid, hget] at hz
    have hxy : x < y := by omega
    rcases List.mem_cons.1 hz with rfl | hz
    · exact hxy
    · exact Nat.lt_trans hxy (hbehind z hz)
  | case5 lo hi hge =>
    obtain rfl : lo = hi := Nat.le_antisymm hw.lo_le (Nat.not_lt.1 hge)
    exact ⟨_, rfl, .missing hw.hi_le hw.below hw.above⟩

end Bisect

namespace LineTable

def lineIndex? (t : LineTable) (offset : Nat) : Option Nat := do
  match ← bisect t.starts offset 0 t.starts.length with
  | .found i => return i
  | .missing i => sub? i 1

/-- The place of an offset, or `none` if an index or a difference is out of bounds on the way. -/
def position? (t : LineTable) (offset : Nat) : Option Position := do
  let here := min offset t.size
  let line ← t.lineIndex? here
  let start ← t.starts[line]?
  let column ← sub? here start
  return ⟨line + 1, column + 1⟩

/-- The first line starts at the first byte, and each other line behind the one before it. -/
structure Ordered (t : LineTable) : Prop where
  head_eq : t.starts.head? = some 0
  increasing : t.starts.Pairwise (· < ·)

private theorem pairwise_startsAfter (offset : Nat) (cs : List Char) :
    (startsAfter offset cs).Pairwise (· < ·) := by
  induction cs generalizing offset with
  | nil => exact .nil
  | cons c cs ih =>
    rw [startsAfter]
    split
    · exact .cons (fun n hn => lt_of_mem_startsAfter hn) (ih _)
    · exact ih _

theorem ordered_ofChars (cs : List Char) : (ofChars cs).Ordered where
  head_eq := rfl
  increasing := .cons (fun _ hn => lt_of_mem_startsAfter hn) (pairwise_startsAfter 0 cs)

section Ordered
variable {t : LineTable}

private theorem startsUpTo_eq_take {offset n : Nat} (below : ∀ y ∈ t.starts.take n, y ≤ offset)
    (above : ∀ y ∈ t.starts.drop n, offset < y) : t.startsUpTo offset = t.starts.take n := by
  have hnone : (t.starts.drop n).takeWhile (· ≤ offset) = [] := by
    rw [List.takeWhile_eq_nil_iff]
    intro hlt
    have := above _ (List.get_mem _ ⟨0, hlt⟩)
    simp only [decide_eq_true_eq]
    omega
  calc t.startsUpTo offset
      = (t.starts.take n ++ t.starts.drop n).takeWhile (· ≤ offset) := by
        rw [List.take_append_drop, startsUpTo]
    _ = t.starts.take n := by
        rw [List.takeWhile_append_of_pos (by simpa using below), hnone, List.append_nil]

private theorem Ordered.lineIndex?_eq (h : t.Ordered) (offset : Nat) :
    ∃ line, t.lineIndex? offset = some line ∧ line < t.starts.length ∧
      t.startsUpTo offset = t.starts.take (line + 1) := by
  obtain ⟨r, hr, hlocates⟩ := bisect_locates (x := offset) h.increasing
    ⟨Nat.zero_le _, Nat.le_refl _, by simp, by simp⟩
  rw [lineIndex?, hr]
  cases hlocates with
  | @found i hi =>
    obtain ⟨hbefore, hbehind⟩ := lt_of_mem_take_drop h.increasing hi
    refine ⟨i, rfl, (List.getElem?_eq_some_iff.1 hi).1, startsUpTo_eq_take ?_ hbehind⟩
    intro y hy
    rw [List.take_add_one, hi] at hy
    rcases List.mem_append.1 hy with hy | hy
    · exact Nat.le_of_lt (hbefore y hy)
    · exact Nat.le_of_eq (List.mem_singleton.1 hy)
  | @missing i hi below above =>
    -- The first line starts at zero, so that no offset is missing in front of it.
    have hpos : 1 ≤ i := by
      by_contra hzero
      obtain rfl : i = 0 := by omega
      have := above 0 (List.mem_of_head? h.head_eq)
      omega
    refine ⟨i - 1, sub?_of_le hpos, by omega, ?_⟩
    rw [Nat.sub_add_cancel hpos]
    exact startsUpTo_eq_take (fun y hy => Nat.le_of_lt (below y hy)) above

/-- The checked look-up succeeds for every offset, and finds its place. -/
theorem Ordered.position?_eq (h : t.Ordered) (offset : Nat) :
    t.position? offset = some (t.position offset) := by
  obtain ⟨line, hline, hlt, hstarts⟩ := h.lineIndex?_eq (min offset t.size)
  have hlast : (t.starts.take (line + 1)).getLast? = some t.starts[line] := by
    rw [List.take_add_one, List.getElem?_eq_getElem hlt]
    exact List.getLast?_concat ..
  have hle := t.getLast?_startsUpTo_le (min offset t.size)
  have hlength : (t.starts.take (line + 1)).length = line + 1 := by
    rw [List.length_take]
    omega
  rw [hstarts, hlast, Option.getD_some] at hle
  simp only [position?, hline, Option.bind_eq_bind, Option.bind_some,
    List.getElem?_eq_getElem hlt, sub?_of_le hle, position, hstarts, hlast, hlength,
    Option.getD_some]
  rfl

end Ordered
end LineTable
end PlanningDomain
