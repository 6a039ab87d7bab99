import PlanningDomain.Format.Text
import PlanningDomain.Proofs.Token.Partition

/-! Texts made of lines, and what can be told from them again. Main statements: lines without
newlines can be told from their text, words from their list, and items that can be told from their
lines from a list with their number in its heading. -/
namespace PlanningDomain

def OneLine (text : String) : Prop := '\n' ∉ text.toList

instance (text : String) : Decidable (OneLine text) := inferInstanceAs (Decidable (_ ∉ _))

@[simp] theorem oneLine_append {a b : String} : OneLine (a ++ b) ↔ OneLine a ∧ OneLine b := by
  simp [OneLine, not_or]

theorem oneLine_of_isSolid {text : String} (h : ∀ c ∈ text.toList, IsSolid c) : OneLine text :=
  fun hmem => absurd (h '\n' hmem).1 (by decide)

theorem LexesAs.oneLine {text : String} {t : Token} (h : LexesAs text t) : OneLine text :=
  oneLine_of_isSolid h.isSolid

@[simp] private theorem oneLine_repr (n : Nat) : OneLine n.repr := by
  intro hmem
  rw [Nat.toList_repr] at hmem
  exact absurd (Nat.isDigit_of_mem_toDigits (by decide) (by decide) hmem) (by decide)

theorem oneLine_intercalate {sep : String} (hsep : OneLine sep) {texts : List String}
    (h : ∀ text ∈ texts, OneLine text) : OneLine (sep.intercalate texts) := by
  induction texts with
  | nil => exact (by decide : OneLine "")
  | cons text texts ih =>
    obtain ⟨htext, htexts⟩ := List.forall_mem_cons.1 h
    cases texts with
    | nil => simpa using htext
    | cons next texts =>
      rw [String.intercalate_cons_cons]
      simp [htext, hsep, ih htexts]

private theorem cut_unique {c : Char} {front front' back back' : List Char} (h : c ∉ front)
    (h' : c ∉ front') (heq : front ++ c :: back = front' ++ c :: back') :
    front = front' ∧ back = back' := by
  induction front generalizing front' with
  | nil =>
    cases front' with
    | nil => exact ⟨rfl, (List.cons.inj heq).2⟩
    | cons d front' =>
      obtain ⟨rfl, -⟩ := List.cons.inj heq
      exact absurd List.mem_cons_self h'
  | cons d front ih =>
    cases front' with
    | nil =>
      obtain ⟨rfl, -⟩ := List.cons.inj heq
      exact absurd List.mem_cons_self h
    | cons d' front' =>
      obtain ⟨rfl, htail⟩ := List.cons.inj heq
      rw [List.mem_cons, not_or] at h h'
      obtain ⟨rfl, rfl⟩ := ih h.2 h'.2 htail
      exact ⟨rfl, rfl⟩

/-- Two texts with a separator are equal in front of it and behind it, if the first character of the
separator is in neither front. -/
theorem eq_of_separated (sep : String) {c : Char} {tail : List Char} {a b x y : String}
    (hsep : sep.toList = c :: tail) (ha : c ∉ a.toList) (hb : c ∉ b.toList)
    (heq : a ++ (sep ++ x) = b ++ (sep ++ y)) : a = b ∧ x = y := by
  have hchars := congrArg String.toList heq
  simp only [String.toList_append, hsep, List.cons_append] at hchars
  obtain ⟨hfront, hback⟩ := cut_unique ha hb hchars
  exact ⟨String.toList_inj.1 hfront, String.toList_inj.1 (List.append_cancel_left hback)⟩

private theorem join_map_append_inj (sep : String) {c : Char} {tail : List Char}
    (hsep : sep.toList = c :: tail) {pieces pieces' : List String}
    (h : ∀ piece ∈ pieces, c ∉ piece.toList) (h' : ∀ piece ∈ pieces', c ∉ piece.toList)
    (heq : String.join (pieces.map (· ++ sep)) = String.join (pieces'.map (· ++ sep))) :
    pieces = pieces' := by
  have hne : sep ≠ "" := by
    rintro rfl
    cases hsep
  induction pieces generalizing pieces' with
  | nil =>
    cases pieces' with
    | nil => rfl
    | cons piece' pieces' =>
      replace heq := heq.symm
      simp [String.join_cons, hne] at heq
  | cons piece pieces ih =>
    cases pieces' with
    | nil => simp [String.join_cons, hne] at heq
    | cons piece' pieces' =>
      obtain ⟨hpiece, hpieces⟩ := List.forall_mem_cons.1 h
      obtain ⟨hpiece', hpieces'⟩ := List.forall_mem_cons.1 h'
      simp only [List.map_cons, String.join_cons, String.append_assoc] at heq
      obtain ⟨rfl, hrest⟩ := eq_of_separated sep hsep hpiece hpiece' heq
      rw [ih hpieces hpieces' hrest]

theorem unlines_inj {lines lines' : List String} (h : ∀ line ∈ lines, OneLine line)
    (h' : ∀ line ∈ lines', OneLine line) (heq : unlines lines = unlines lines') : lines = lines' :=
  join_map_append_inj "\n" rfl h h' heq

private theorem join_map_append_eq_intercalate (sep : String) {pieces : List String}
    (h : pieces ≠ []) :
    String.join (pieces.map (· ++ sep)) = sep.intercalate pieces ++ sep := by
  induction pieces with
  | nil => exact absurd rfl h
  | cons piece pieces ih =>
    rw [List.map_cons, String.join_cons]
    by_cases hpieces : pieces = []
    · simp [hpieces]
    · rw [ih hpieces, String.intercalate_cons_of_ne_nil hpieces]
      simp only [String.append_assoc]

theorem intercalate_comma_inj {words words' : List String}
    (h : ∀ word ∈ words, word ≠ "" ∧ ',' ∉ word.toList)
    (h' : ∀ word ∈ words', word ≠ "" ∧ ',' ∉ word.toList)
    (heq : ", ".intercalate words = ", ".intercalate words') : words = words' := by
  have hempty {words : List String} (h : ∀ word ∈ words, word ≠ "" ∧ ',' ∉ word.toList)
      (hnil : ", ".intercalate words = "") : words = [] := by
    cases words with
    | nil => rfl
    | cons word words =>
      have hword := (h word List.mem_cons_self).1
      by_cases hwords : words = []
      · simp [hwords, hword] at hnil
      · simp [String.intercalate_cons_of_ne_nil hwords, hword] at hnil
  by_cases hwords : words = []
  · subst hwords
    exact (hempty h' heq.symm).symm
  · have hwords' : words' ≠ [] := by
      rintro rfl
      exact hwords (hempty h heq)
    refine join_map_append_inj ", " rfl (fun word hword => (h word hword).2)
      (fun word hword => (h' word hword).2) ?_
    rw [join_map_append_eq_intercalate ", " hwords, join_map_append_eq_intercalate ", " hwords',
      heq]

/-- Of the items with a property, each can be told from its lines, whatever follows them. -/
def Legible {α : Type} (lines : α → List String) (P : α → Prop) : Prop :=
  ∀ x y rest rest', P x → P y → lines x ++ rest = lines y ++ rest' → x = y ∧ rest = rest'

/-- A heading with the number of the items, and the lines of all of them. -/
def counted {α : Type} (heading : String) (lines : α → List String) (items : List α) :
    List String :=
  countedHeading heading items :: items.flatMap lines

theorem oneLine_countedHeading {α : Type} {heading : String} (h : OneLine heading)
    (items : List α) : OneLine (countedHeading heading items) := by
  have hcolon : OneLine ": " := by decide
  simp [countedHeading, h, hcolon]

theorem oneLine_counted {α : Type} {heading : String} {lines : α → List String} {items : List α}
    (hheading : OneLine heading) (h : ∀ x ∈ items, ∀ line ∈ lines x, OneLine line) :
    ∀ line ∈ counted heading lines items, OneLine line := by
  refine List.forall_mem_cons.2 ⟨oneLine_countedHeading hheading items, fun line hline => ?_⟩
  obtain ⟨x, hx, hmem⟩ := List.mem_flatMap.1 hline
  exact h x hx line hmem

namespace Legible
variable {α : Type} {lines : α → List String} {P : α → Prop} {xs ys : List α}
  {rest rest' : List String}

theorem line {text : α → String} (h : ∀ x y, P x → P y → text x = text y → x = y) :
    Legible (fun x => [text x]) P := by
  intro x y rest rest' hx hy heq
  obtain ⟨htext, hrest⟩ := List.cons.inj heq
  exact ⟨h x y hx hy htext, hrest⟩

private theorem flatMap (h : Legible lines P) (hx : ∀ x ∈ xs, P x) (hy : ∀ y ∈ ys, P y)
    (hlength : xs.length = ys.length) (heq : xs.flatMap lines ++ rest = ys.flatMap lines ++ rest') :
    xs = ys ∧ rest = rest' := by
  induction xs generalizing ys with
  | nil =>
    obtain rfl := List.eq_nil_of_length_eq_zero hlength.symm
    exact ⟨rfl, heq⟩
  | cons x xs ih =>
    cases ys with
    | nil => cases hlength
    | cons y ys =>
      rw [List.flatMap_cons, List.flatMap_cons, List.append_assoc, List.append_assoc] at heq
      obtain ⟨rfl, hmore⟩ := h x y _ _ (hx x List.mem_cons_self) (hy y List.mem_cons_self) heq
      obtain ⟨rfl, hrest⟩ := ih (fun z hz => hx z (List.mem_cons_of_mem _ hz))
        (fun z hz => hy z (List.mem_cons_of_mem _ hz)) (Nat.succ.inj hlength) hmore
      exact ⟨rfl, hrest⟩

theorem counted {heading : String} (h : Legible lines P) (hx : ∀ x ∈ xs, P x)
    (hy : ∀ y ∈ ys, P y)
    (heq : counted heading lines xs ++ rest = PlanningDomain.counted heading lines ys ++ rest') :
    xs = ys ∧ rest = rest' := by
  obtain ⟨hheading, hitems⟩ := List.cons.inj heq
  refine h.flatMap hx hy ?_ hitems
  simpa [countedHeading, Nat.toString_eq_repr, Nat.repr_inj] using hheading

end Legible

end PlanningDomain
