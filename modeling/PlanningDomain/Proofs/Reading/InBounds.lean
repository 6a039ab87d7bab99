import Mathlib.Data.String.Basic
import PlanningDomain.Proofs.Reading.Placement
import PlanningDomain.Proofs.Session.Histories
import PlanningDomain.Proofs.Source.Lines

/-! Operations that are not defined everywhere: differences that must not fall below zero, slices
that must be within their sequence and, in a text, between characters. Each has a form here that has
no result where it is not defined. Main statement: a reading never leaves the domain of any. -/
namespace PlanningDomain

section TakeNested
variable {α : Type}

/-- The cut behind the parenthesis that brings the number of open ones down to zero, or `none` if
one is closed where none is open. -/
def takeNested? (token? : α → Option Token) (depth : Nat) : List α → Option (Cut α)
  | [] => some ⟨[], [], false⟩
  | x :: xs => do
    let next ← (token? x).elim (some depth) (Token.nest depth)
    if next = 0 then return ⟨[x], xs, true⟩
    else return (← takeNested? token? next xs).push x

/-- While a parenthesis is open, the count of open ones has a predecessor. -/
private theorem takeNested?_eq (token? : α → Option Token) (depth : Nat) (xs : List α) :
    takeNested? token? (depth + 1) xs = some (takeBalanced token? (depth + 1) xs) := by
  induction xs generalizing depth with
  | nil => rfl
  | cons x xs ih =>
    rw [takeNested?, takeBalanced]
    split
    · rename_i hx
      simp [hx, Token.nest, ih (depth + 1)]
    · rename_i hx
      cases depth with
      | zero => simp [hx, Token.nest]
      | succ depth => simp [hx, Token.nest, ih depth]
    · rename_i ho hc
      have hnext : (token? x).elim (some (depth + 1)) (Token.nest (depth + 1)) =
          some (depth + 1) := by
        cases hx : token? x with
        | none => rfl
        | some t =>
          rw [Option.elim_some, Token.nest]
          · exact fun ht => ho (ht ▸ hx)
          · exact fun ht => hc (ht ▸ hx)
      simp [hnext, ih depth]

end TakeNested

/-- The elements from one index up to another, if the two are in order and within the list. -/
def slice? (xs : List α) (start stop : Nat) : Option (List α) :=
  if start ≤ stop ∧ stop ≤ xs.length then some ((xs.take stop).drop start) else none

namespace Group
variable {g : Group}

/-- The index behind what stands between the parentheses of a group. -/
def innerEnd? (g : Group) : Option Nat :=
  if g.closed then sub? g.lexemes.length 1 else some g.lexemes.length

/-- A group with a head that is no parenthesis has what stands behind the head. -/
private theorem Proper.slice?_eq_body (h : g.Proper) {head : Lexeme} (hhead : g.head? = some head)
    (hc : head.token ≠ .closeParen) :
    ∃ stop, g.innerEnd? = some stop ∧ 2 ≤ stop ∧ stop ≤ g.lexemes.length ∧
      slice? g.lexemes 2 stop = some g.body := by
  cases h with
  | @closed l r inner hl hr hinner =>
    cases inner with
    | nil =>
      obtain rfl : r = head := Option.some.inj hhead
      exact absurd hr hc
    | cons first inner =>
      refine ⟨inner.length + 2, ?_, by omega, by simp, ?_⟩
      · rw [innerEnd?, if_pos rfl, sub?_of_le (by simp)]
        simp
      · rw [slice?, if_pos (by simp), body, if_pos rfl]
        simp
  | @unclosed l inner hl hinner =>
    cases inner with
    | nil => cases hhead
    | cons first inner =>
      refine ⟨inner.length + 2, by simp [innerEnd?], by omega, by simp, ?_⟩
      rw [slice?, if_pos (by simp), body, if_neg Bool.false_ne_true]
      simp

end Group

/-- The text of a byte range, if it starts and ends between characters. -/
def sliceText? (text : String) (r : ByteRange) : Option String :=
  if r.start ≤ r.stop ∧ (String.Pos.Raw.mk r.start).IsValid text ∧
      (String.Pos.Raw.mk r.stop).IsValid text then
    some (String.Pos.Raw.extract text ⟨r.start⟩ ⟨r.stop⟩)
  else none

private theorem utf8Len_eq_byteLength (cs : List Char) : String.utf8Len cs = byteLength cs := by
  induction cs with
  | nil => rfl
  | cons c cs ih => rw [String.utf8Len_cons, byteLength, ih, Nat.add_comm]

private theorem isValid_byteLength {text : String} {front back : List Char}
    (h : text.toList = front ++ back) : (String.Pos.Raw.mk (byteLength front)).IsValid text := by
  rw [String.Pos.Raw.isValid_iff_exists_append]
  refine ⟨String.ofList front, String.ofList back, ?_, ?_⟩
  · rw [← String.ofList_append, ← h, String.ofList_toList]
  · rw [byteLength_eq_utf8ByteSize]
    rfl

private theorem sliceText?_of_eq_append {text : String} {front slice back : List Char}
    (h : text.toList = front ++ slice ++ back) :
    sliceText? text ⟨byteLength front, byteLength (front ++ slice)⟩ =
      some (String.ofList slice) := by
  have hstart : (String.Pos.Raw.mk (byteLength front)).IsValid text :=
    isValid_byteLength (by rw [h, List.append_assoc])
  have hstop : (String.Pos.Raw.mk (byteLength (front ++ slice))).IsValid text :=
    isValid_byteLength h
  have htext : text = String.ofList (front ++ slice ++ back) := by
    rw [← h, String.ofList_toList]
  have hle : byteLength front ≤ byteLength (front ++ slice) := by
    rw [byteLength_append]
    omega
  rw [sliceText?, if_pos ⟨hle, hstart, hstop⟩, htext, byteLength_append,
    ← utf8Len_eq_byteLength, ← utf8Len_eq_byteLength, String.extract_of_valid]

private theorem sliceText?_of_mem_lexemes {text : String} {l : Lexeme} (hl : l ∈ lexemes text) :
    sliceText? text l.range = some l.written := by
  obtain ⟨x, hx, hxl⟩ := List.mem_filterMap.1 hl
  cases x with
  | stray s => cases hxl
  | lexeme l' =>
    obtain rfl := Option.some.inj hxl
    cases standsIn_of_mem_scan hx with
    | lexeme htext _ => exact sliceText?_of_eq_append htext

/-- A diagnostic that quotes one of some lexemes, or says that an end was met. -/
def Diagnostic.IsAbout (table : LineTable) (ls : List Lexeme) (d : Diagnostic) : Prop :=
  (∃ l ∈ ls, ∃ expected, d = .ofLexeme table l expected) ∨
    ∃ expected place, d = .atEnd expected place

private theorem Diagnostic.IsAbout.mono {table : LineTable} {ls ls' : List Lexeme} {d : Diagnostic}
    (h : d.IsAbout table ls) (hls : ls ⊆ ls') : d.IsAbout table ls' := by
  rcases h with ⟨l, hl, hd⟩ | hend
  · exact .inl ⟨l, hls hl, hd⟩
  · exact .inr hend

private theorem Event.Reports.isAbout {table : LineTable} {last : Option Rank} {e : Event}
    {ds : List Diagnostic} (h : e.Reports table last ds) (he : e.Proper) {d : Diagnostic}
    (hd : d ∈ ds) (hgrammar : d.isScan = false) : d.IsAbout table e.lexemes := by
  have hmem : d ∈ ds.filter (!·.isScan) := List.mem_filter.2 ⟨hd, by simp [hgrammar]⟩
  rcases (h.along he).of_mem hmem with hquote | ⟨-, expected, hend⟩
  · exact .inl hquote
  · exact .inr ⟨expected, _, hend⟩

/-- What some events report of the grammar is about their lexemes and about ends. -/
private theorem Progress.foldl_act_isAbout (f : Frame) {es : List Event} (hes : ∀ e ∈ es, e.Proper)
    (p : Progress) :
    ∃ ds, (es.foldl (act f) p).log = p.log.reportAll ds ∧
      ∀ d ∈ ds, d.isScan = false → d.IsAbout f.table (es.flatMap Event.lexemes) := by
  induction es generalizing p with
  | nil => exact ⟨[], rfl, by simp⟩
  | cons e es ih =>
    obtain ⟨he, hes⟩ := List.forall_mem_cons.1 hes
    obtain ⟨ds, hlog, hreports⟩ := act_reports (f := f) he p
    obtain ⟨ds', hlog', habout⟩ := ih hes (p.act f e)
    refine ⟨ds ++ ds', ?_, ?_⟩
    · rw [List.foldl_cons, hlog', hlog, DiagnosticLog.reportAll_append]
    intro d hd hgrammar
    rw [List.flatMap_cons]
    rcases List.mem_append.1 hd with hd | hd
    · exact (hreports.isAbout he hd hgrammar).mono (List.subset_append_left ..)
    · exact (habout d hd hgrammar).mono (List.subset_append_right ..)

private theorem isAbout_of_mem_diagnostics {s : Settings} {text : String} {d : Diagnostic}
    (hd : d ∈ diagnostics s text) (hgrammar : d.isScan = false) :
    d.IsAbout (.ofText text) (lexemes text) := by
  obtain ⟨es, hcourse⟩ := exists_course (scan text)
  obtain ⟨ds, hlog, habout⟩ := Progress.foldl_act_isAbout ⟨s.withRoom text, .ofText text⟩
    (fun e he => hcourse.proper_event he) (.start (s.withRoom text))
  have hall := (log_upTo s hcourse).symm.trans hlog
  obtain rfl := DiagnosticLog.eq_of_reportAll_eq (Nat.le_of_eq (length_diagnostics s text)) hall
  exact (habout d hd hgrammar).mono hcourse.lexemes_sublist.subset

/-- Under any settings, for any text and file: each section of predicates that is met, closed or
not, has the slice between its head and its end; counting parentheses never goes below zero; every
offset, also past the end, has its line, and a column on it; each token is a slice between
characters of the text, and no diagnostic of the grammar quotes anything else; and no more
diagnostics are recorded than counted. -/
theorem never_out_of_bounds (s : Settings) (text : String) :
    (∃ es, Course (scan text) es ∧
      readDomain s text = (es.foldl (Progress.act ⟨s, .ofText text⟩) (.start s)).reading ∧
      ∀ g head, .item (.group g) ∈ es → g.head? = some head → head.token = .predicates →
        ∃ stop, g.innerEnd? = some stop ∧ 2 ≤ stop ∧ stop ≤ g.lexemes.length ∧
          slice? g.lexemes 2 stop = some g.body) ∧
    ((∀ items, takeNested? Scanned.token? 1 items = some (takeBalanced Scanned.token? 1 items)) ∧
      ∀ ls : List Lexeme, takeNested? (some ∘ Lexeme.token) 1 ls =
        some (takeBalanced (some ∘ Lexeme.token) 1 ls)) ∧
    (∀ offset, (LineTable.ofText text).position? offset =
      some ((LineTable.ofText text).position offset)) ∧
    ((∀ l ∈ lexemes text, sliceText? text l.range = some l.written) ∧
      ∀ d ∈ diagnostics s text, d.isScan = false → d.IsAbout (.ofText text) (lexemes text)) ∧
    ∀ files path, let session := ((Session.start s).readPath files path).1
      sub? session.log.total session.log.recorded.length = some session.log.unrecorded := by
  refine ⟨?_, ⟨?_, ?_⟩, ?_, ⟨?_, ?_⟩, ?_⟩
  · obtain ⟨es, hcourse⟩ := exists_course (scan text)
    refine ⟨es, hcourse, readDomain_eq_foldl hcourse s, ?_⟩
    intro g head hg hhead hpredicates
    apply (hcourse.proper hg).slice?_eq_body hhead
    simp [hpredicates]
  · intro items
    exact takeNested?_eq Scanned.token? 0 items
  · intro ls
    exact takeNested?_eq (some ∘ Lexeme.token) 0 ls
  · exact (LineTable.ordered_ofText text).position?_eq
  · intro l hl
    exact sliceText?_of_mem_lexemes hl
  · intro d hd hgrammar
    exact isAbout_of_mem_diagnostics hd hgrammar
  · intro files path session
    have hlength := (Session.consistent_after s [.readPath files path]).length_recorded
    apply sub?_of_le
    exact hlength.trans_le (Nat.min_le_left ..)

/-- Where the text ends behind the head of an open section, the slice behind the head is empty. -/
theorem never_out_of_bounds_at_end :
    let text := "(define (domain d) (:predicates"
    let head : Lexeme := ⟨.predicates, ":predicates", ⟨20, 31⟩⟩
    let g : Group := ⟨[⟨.openParen, "(", ⟨19, 20⟩⟩, head], false⟩
    ∃ es, Course (scan text) es ∧ .item (.group g) ∈ es ∧ g.innerEnd? = some 2 ∧
      slice? g.lexemes 2 2 = some g.body ∧ g.body = [] := by
  intro text head g
  obtain ⟨⟨es, hcourse, -, hslices⟩, -⟩ := never_out_of_bounds .standard text
  have hmem : Event.item (.group g) ∈ es.filter (!·.isStrays) := by
    rw [hcourse.filter_eq]
    decide +kernel
  have hg := List.mem_of_mem_filter hmem
  obtain ⟨stop, hstop, -, -, hslice⟩ := hslices g head hg rfl rfl
  obtain rfl : 2 = stop := Option.some.inj hstop
  exact ⟨es, hcourse, hg, hstop, hslice, rfl⟩

end PlanningDomain
