import PlanningDomain.Proofs.Reading.Phases
import PlanningDomain.Proofs.Reading.Reports
import PlanningDomain.Proofs.Source.Places
import PlanningDomain.Proofs.Token.Partition

/-! Diagnostics along lexemes: each is about one of them, in their order, and the last may be about
the end of the text. Main statement: whatever an event of a course reports, it says along its
lexemes. -/
namespace PlanningDomain

open Progress (takeHeader)

def Event.MeetsEnd : Event → Prop
  | header ls => ∀ l ∈ ls, l.token ≠ .closeParen
  | item i => i.isOpen = true
  | ended _ => True
  | _ => False

/-- Where a text that ends within the event is said to be over. The header is over where its last
token is, even if blanks follow. -/
def Event.endOffset (size : Nat) : Event → Nat
  | header ls => (ls.getLast?.map fun l => l.range.stop).getD size
  | _ => size

/-- Where a diagnostic of the grammar on the last of some events points: at a token of this event,
quoted as it is written, or at the end, where the text ends within the event and all its tokens were
met. -/
inductive Diagnostic.PointsInto (text : String) (before : List Event) (e : Event) :
    Diagnostic → Prop
  | lexeme {l : Lexeme} {front slice back : List Char} (hl : l ∈ e.lexemes)
      (hmem : l ∈ lexemes text)
      (htext : text.toList = front ++ slice ++ back) (hne : slice ≠ [])
      (hrange : l.range = ⟨byteLength front, byteLength (front ++ slice)⟩) (expected : String) :
      PointsInto text before e
        (.unexpected ("'" ++ String.ofList slice ++ "'") expected
          ((LineTable.ofText text).span l.range))
  | ended (hend : e.MeetsEnd) (hall : (before ++ [e]).flatMap Event.lexemes = lexemes text)
      (expected : String) :
      PointsInto text before e
        (.unexpected "end of input" expected
          (.point ((LineTable.ofText text).position (e.endOffset (LineTable.ofText text).size))))

/-- The first diagnostic does not start behind the second. -/
def Diagnostic.Precedes (d d' : Diagnostic) : Prop :=
  (d.span.start.order d'.span.start).isLE = true

/-- Diagnostics that each quote one of some lexemes, in order and none twice, and behind them, if
`mayEnd`, say that the text ends at an offset. -/
inductive Along (table : LineTable) (mayEnd : Prop) (stop : Nat) :
    List Lexeme → List Diagnostic → Prop
  | done : Along table mayEnd stop [] []
  | ended {ds : List Diagnostic} (hend : mayEnd) (expected : String)
      (h : Along table mayEnd stop [] ds) :
      Along table mayEnd stop [] (.atEnd expected (.point (table.position stop)) :: ds)
  | pass (l : Lexeme) {ls : List Lexeme} {ds : List Diagnostic}
      (h : Along table mayEnd stop ls ds) :
      Along table mayEnd stop (l :: ls) ds
  | quote (l : Lexeme) (expected : String) {ls : List Lexeme} {ds : List Diagnostic}
      (h : Along table mayEnd stop ls ds) :
      Along table mayEnd stop (l :: ls) (.ofLexeme table l expected :: ds)

namespace Along
variable {table : LineTable} {mayEnd mayEnd' : Prop} {stop stop' : Nat} {ls ls' : List Lexeme}
  {ds ds' : List Diagnostic}

theorem mono (h : Along table mayEnd stop ls ds) (hend : mayEnd → mayEnd') :
    Along table mayEnd' stop ls ds := by
  induction h with
  | done => exact .done
  | ended h expected _ ih => exact .ended (hend h) expected ih
  | pass l _ ih => exact .pass l ih
  | quote l expected _ ih => exact .quote l expected ih

private theorem sublist (h : Along table mayEnd stop ls ds) (hls : ls.Sublist ls') :
    Along table mayEnd stop ls' ds := by
  induction hls generalizing ds with
  | slnil => exact h
  | cons l _ ih => exact .pass l (ih h)
  | cons_cons l _ ih =>
    cases h with
    | pass _ h => exact .pass l (ih h)
    | quote _ expected h => exact .quote l expected (ih h)

/-- Where the text does not end yet, more lexemes follow. -/
theorem append (h : Along table mayEnd stop ls ds) (hend : ¬ mayEnd)
    (h' : Along table mayEnd' stop' ls' ds') :
    Along table mayEnd' stop' (ls ++ ls') (ds ++ ds') := by
  induction h with
  | done => exact h'
  | ended h => exact absurd h hend
  | pass l _ ih => exact .pass l ih
  | quote l expected _ ih => exact .quote l expected ih

private theorem one {l : Lexeme} (hl : l ∈ ls) (expected : String) :
    Along table mayEnd stop ls [.ofLexeme table l expected] :=
  (Along.quote l expected .done).sublist (List.singleton_sublist.2 hl)

private theorem silent (ls : List Lexeme) : Along table mayEnd stop ls [] :=
  Along.done.sublist (List.nil_sublist ls)

private theorem concat (h : Along table mayEnd stop ls ds) (hend : mayEnd) (expected : String) :
    Along table mayEnd stop ls (ds ++ [.atEnd expected (.point (table.position stop))]) := by
  induction h with
  | done => exact .ended hend expected .done
  | ended hend expected _ ih => exact .ended hend expected ih
  | pass l _ ih => exact .pass l ih
  | quote l expected _ ih => exact .quote l expected ih

theorem of_mem (h : Along table mayEnd stop ls ds) {d : Diagnostic} (hd : d ∈ ds) :
    (∃ l ∈ ls, ∃ expected, d = .ofLexeme table l expected) ∨
      mayEnd ∧ ∃ expected, d = .atEnd expected (.point (table.position stop)) := by
  induction h with
  | done => cases hd
  | ended hend expected _ ih =>
    rcases List.mem_cons.1 hd with rfl | hd
    · exact .inr ⟨hend, expected, rfl⟩
    · exact ih hd
  | pass l _ ih =>
    exact (ih hd).imp_left fun ⟨l', hl', hd⟩ => ⟨l', List.mem_cons_of_mem _ hl', hd⟩
  | quote l expected _ ih =>
    rcases List.mem_cons.1 hd with rfl | hd
    · exact .inl ⟨l, List.mem_cons_self, expected, rfl⟩
    · exact (ih hd).imp_left fun ⟨l', hl', hd⟩ => ⟨l', List.mem_cons_of_mem _ hl', hd⟩

private theorem filter_eq (h : Along table mayEnd stop ls ds) : ds.filter (!·.isScan) = ds := by
  refine List.filter_eq_self.2 fun d hd => ?_
  rcases h.of_mem hd with ⟨l, -, expected, rfl⟩ | ⟨-, expected, rfl⟩ <;> rfl

theorem pairwise (h : Along table mayEnd stop ls ds)
    (hls : ls.Pairwise fun l l' => l.range.start ≤ l'.range.start)
    (hstop : ∀ l ∈ ls, l.range.start ≤ stop) : ds.Pairwise Diagnostic.Precedes := by
  induction h with
  | done => exact .nil
  | ended hend expected h ih =>
    refine .cons (fun d hd => ?_) (ih hls hstop)
    rcases h.of_mem hd with ⟨l, hl, -⟩ | ⟨-, expected', rfl⟩
    · cases hl
    · exact table.order_position_isLE (Nat.le_refl stop)
  | pass l _ ih =>
    exact ih (List.pairwise_cons.1 hls).2 fun l' hl' => hstop l' (List.mem_cons_of_mem _ hl')
  | quote l expected h ih =>
    obtain ⟨hl, hls⟩ := List.pairwise_cons.1 hls
    obtain ⟨hlstop, hstop⟩ := List.forall_mem_cons.1 hstop
    refine .cons (fun d hd => ?_) (ih hls hstop)
    rcases h.of_mem hd with ⟨l', hl', expected', rfl⟩ | ⟨-, expected', rfl⟩
    · exact table.order_position_isLE (hl l' hl')
    · exact table.order_position_isLE hlstop

end Along

section Remarks
variable {table : LineTable} {mayEnd : Prop} {i : Item} {items : List Item} {ls : List Lexeme}
  {ds : List Diagnostic}

private theorem Concerns.along {d : Diagnostic} (h : Concerns table i d) :
    Along table (i.isOpen = true) table.size i.lexemes [d] := by
  cases h with
  | lexeme hl expected => exact .one hl expected
  | atEnd hopen expected => exact (Along.silent _).concat hopen expected

private theorem Remarks.exists_cons (h : Remarks table (i :: items) ds) :
    ∃ ds₁ ds₂, ds = ds₁ ++ ds₂ ∧ Along table (i.isOpen = true) table.size i.lexemes ds₁ ∧
      Remarks table items ds₂ := by
  cases h with
  | silent _ hitems => exact ⟨[], ds, rfl, .silent _, hitems⟩
  | @remark _ d _ ds h hitems => exact ⟨[d], ds, rfl, h.along, hitems⟩

private theorem Remarks.along (hls : Splits ls items) (h : Remarks table items ds)
    (hend : ∀ i ∈ items, i.isOpen = true → mayEnd) : Along table mayEnd table.size ls ds := by
  induction hls generalizing ds with
  | nil =>
    cases h
    exact .done
  | stray _ _ ih | group _ _ _ _ ih =>
    obtain ⟨ds₁, ds₂, rfl, hfirst, hitems⟩ := h.exists_cons
    have hrest := ih hitems fun i hi => hend i (List.mem_cons_of_mem _ hi)
    simpa [Item.lexemes] using hfirst.append (by simp [Item.isOpen]) hrest
  | cutOff =>
    obtain ⟨ds₁, ds₂, rfl, hfirst, hitems⟩ := h.exists_cons
    cases hitems
    rw [List.append_nil]
    exact hfirst.mono (hend _ List.mem_cons_self)

private theorem Item.Whole.not_isOpen (h : i.Whole) : ¬ i.isOpen = true := by
  cases i with
  | group g => simp [Item.isOpen, show g.closed = true from h]
  | stray l => exact Bool.false_ne_true

/-- What an event reports of the grammar is said along its lexemes. -/
theorem Event.Reports.along {last : Option Rank} {e : Event} (h : e.Reports table last ds)
    (he : e.Proper) :
    Along table e.MeetsEnd (e.endOffset table.size) e.lexemes (ds.filter (!·.isScan)) := by
  cases h with
  | strays ss =>
    have hnone : (ss.map (Diagnostic.ofStray table)).filter (!·.isScan) = [] := by
      rw [List.filter_eq_nil_iff]
      intro d hd
      obtain ⟨s, -, rfl⟩ := List.mem_map.1 hd
      simp [Diagnostic.ofStray, Diagnostic.isScan]
    rw [hnone]
    exact .done
  | named ls => exact .silent ls
  | misnamed hl expected => exact .one hl expected
  | @openHeader ls l hopen hlast expected =>
    have hstop : (Event.header ls).endOffset table.size = l.range.stop := by
      simp [Event.endOffset, hlast]
    rw [hstop]
    exact (Along.silent ls).concat hopen expected
  | item _ h =>
    obtain ⟨ds₁, ds₂, rfl, hfirst, hnone⟩ := h.exists_cons
    cases hnone
    rw [List.append_nil, hfirst.filter_eq]
    exact hfirst
  | @predicates g _ hg hclosed h =>
    have hwhole := (splits_splitItems g.body).balanced_iff_whole.1
      (Group.Proper.balanced_body he hclosed hg.1 (by simp) (by simp))
    have halong : Along table (Event.item (.group g)).MeetsEnd table.size g.body ds :=
      h.along (splits_splitItems g.body) fun i hi hopen => absurd hopen (hwhole i hi).not_isOpen
    rw [halong.filter_eq]
    exact halong.sublist g.body_sublist
  | @openPredicates g _ hg hopen h =>
    have hend : (Event.item (.group g)).MeetsEnd := by simp [Event.MeetsEnd, Item.isOpen, hopen]
    have halong := ((h.along (splits_splitItems g.body) fun _ _ _ => hend).concat hend
      "')' closing ':predicates'").sublist g.body_sublist
    exact halong.filter_eq.symm ▸ halong
  | extra l => exact .one (List.mem_singleton_self l) _
  | ended expected => exact .ended trivial expected .done

end Remarks

end PlanningDomain
