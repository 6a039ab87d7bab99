import PlanningDomain.Proofs.Reading.Runs

/-! The course of a reading: what it meets in a text, in order. Main statements: every text has a
course; the reading is what its events do, one after the other; and they meet every stray character
of the text, and every group and lone token up to the parenthesis that closes the domain. -/
namespace PlanningDomain

open Progress (takeHeader)

namespace Event

@[simp] def strays? : Event → List Stray
  | strays ss => ss
  | _ => []

@[simp] def item? : Event → Option Item
  | item i => some i
  | _ => none

end Event

/-- The lone parenthesis that closes the domain. -/
def Item.closes : Item → Bool
  | stray l => l.token = .closeParen
  | group _ => false

/-- What is met behind the header. Nothing is met behind a group that the text ends in. -/
inductive BodyCourse : List Scanned → List Event → Prop
  | ended : BodyCourse [] [.ended "')' closing the domain"]
  | close {l : Lexeme} {rest : List Scanned} (hl : l.token = .closeParen) :
      BodyCourse (.lexeme l :: rest) (trailerEvents rest)
  | stray (s : Stray) {rest : List Scanned} {es : List Event} (hrest : BodyCourse rest es) :
      BodyCourse (.stray s :: rest) (.strays [s] :: es)
  | token {l : Lexeme} {rest : List Scanned} {es : List Event} (ho : l.token ≠ .openParen)
      (hc : l.token ≠ .closeParen) (hrest : BodyCourse rest es) :
      BodyCourse (.lexeme l :: rest) (.item (.stray l) :: es)
  | group {l r : Lexeme} {inner rest : List Scanned} {es : List Event} (hl : l.token = .openParen)
      (hr : r.token = .closeParen) (hinner : Balanced (inner.filterMap Scanned.token?))
      (hrest : BodyCourse rest es) :
      BodyCourse (.lexeme l :: (inner ++ .lexeme r :: rest))
        (.strays (inner.filterMap Scanned.stray?) ::
          .item (.group ⟨l :: (inner.filterMap Scanned.lexeme? ++ [r]), true⟩) :: es)
  | cutOff {l : Lexeme} {rest : List Scanned} (hl : l.token = .openParen)
      (hopen : (openAfter 0 (rest.filterMap Scanned.token?)).isSome) :
      BodyCourse (.lexeme l :: rest) [.strays (rest.filterMap Scanned.stray?),
        .item (.group ⟨l :: rest.filterMap Scanned.lexeme?, false⟩)]

/-- What is met in a text. -/
inductive Course (items : List Scanned) : List Event → Prop
  | blank (h : (takeHeader items).1.filterMap Scanned.lexeme? = []) :
      Course items [.strays ((takeHeader items).1.filterMap Scanned.stray?), .ended "'(define'"]
  | headed {es : List Event} (h : (takeHeader items).1.filterMap Scanned.lexeme? ≠ [])
      (hbody : BodyCourse (takeHeader items).2 es) :
      Course items (.strays ((takeHeader items).1.filterMap Scanned.stray?) ::
        .header ((takeHeader items).1.filterMap Scanned.lexeme?) :: es)

theorem bodyCourse_eventsOfBody (items : List Scanned) :
    BodyCourse items (eventsOfBody items) := by
  induction items using Progress.body_induction with
  | ended =>
    rw [eventsOfBody]
    exact .ended
  | stray s rest ih =>
    rw [eventsOfBody]
    exact .stray s ih
  | close l rest hl =>
    rw [eventsOfBody, if_pos hl]
    exact .close hl
  | token l rest ho hc ih =>
    rw [eventsOfBody, if_neg hc, if_neg ho]
    exact .token ho hc ih
  | group l inner r rest hl hr hinner ih =>
    have hcut : takeBalanced Scanned.token? 1 (inner ++ .lexeme r :: rest) =
        ⟨inner ++ [.lexeme r], rest, true⟩ :=
      takeBalanced_of_openAfter_eq_zero (balanced_iff.1 hinner) (congrArg some hr)
    rw [eventsOfBody, if_neg (by simp [hl]), if_pos hl]
    simpa [hcut, List.filterMap_cons, Scanned.lexeme?, Scanned.stray?] using
      BodyCourse.group hl hr hinner ih
  | cutOff l rest hl hopen =>
    have hcut : takeBalanced Scanned.token? 1 rest = ⟨rest, [], false⟩ :=
      takeBalanced_of_isSome hopen
    rw [eventsOfBody, if_neg (by simp [hl]), if_pos hl]
    simpa [hcut] using BodyCourse.cutOff hl hopen

theorem course_events (items : List Scanned) : Course items (events items) := by
  rw [events]
  by_cases h : (takeHeader items).1.filterMap Scanned.lexeme? = []
  · simpa [h] using Course.blank h
  · simpa [h] using Course.headed h (bodyCourse_eventsOfBody (takeHeader items).2)

theorem exists_course (items : List Scanned) : ∃ es, Course items es :=
  ⟨_, course_events items⟩

section Course
variable {items : List Scanned} {es : List Event}

private theorem strays_trailerEvents (items : List Scanned) :
    (trailerEvents items).flatMap Event.strays? = items.filterMap Scanned.stray? := by
  induction items with
  | nil => rfl
  | cons item items ih =>
    cases item with
    | stray s => simp [trailerEvents, ih]
    | lexeme l => simp [trailerEvents]

/-- Behind the domain, nothing is met but stray characters and a token. -/
theorem mem_trailerEvents {e : Event} (he : e ∈ trailerEvents items) :
    (∃ ss, e = .strays ss) ∨ ∃ l, e = .extra l := by
  induction items with
  | nil => cases he
  | cons item items ih =>
    cases item with
    | stray s =>
      rcases List.mem_cons.1 he with rfl | he
      · exact .inl ⟨_, rfl⟩
      · exact ih he
    | lexeme l =>
      simp only [trailerEvents, List.mem_cons, List.not_mem_nil, or_false] at he
      rcases he with rfl | rfl
      · exact .inr ⟨l, rfl⟩
      · exact .inl ⟨_, rfl⟩

private theorem not_mem_trailerEvents (i : Item) (items : List Scanned) :
    .item i ∉ trailerEvents items := by
  intro h
  rcases mem_trailerEvents h with ⟨ss, h⟩ | ⟨l, h⟩ <;> cases h

private theorem items_trailerEvents (items : List Scanned) :
    (trailerEvents items).filterMap Event.item? = [] := by
  refine List.filterMap_eq_nil_iff.2 fun e he => ?_
  rcases mem_trailerEvents he with ⟨ss, rfl⟩ | ⟨l, rfl⟩ <;> rfl

private theorem BodyCourse.strays_eq (h : BodyCourse items es) :
    es.flatMap Event.strays? = items.filterMap Scanned.stray? := by
  induction h with
  | ended => rfl
  | close hl => simp [strays_trailerEvents]
  | stray s _ ih => simp [ih]
  | token _ _ _ ih => simp [ih]
  | group _ _ _ _ ih => simp [ih]
  | cutOff => simp

theorem Course.strays_eq (h : Course items es) :
    es.flatMap Event.strays? = items.filterMap Scanned.stray? := by
  have hitems := congrArg (List.filterMap Scanned.stray?) (Progress.takeHeader_append items)
  rw [List.filterMap_append] at hitems
  cases h with
  | blank hblank =>
    rw [← hitems, Progress.takeHeader_rest_eq_nil hblank]
    simp
  | headed _ hbody =>
    rw [List.flatMap_cons, List.flatMap_cons, hbody.strays_eq, ← hitems]
    rfl

private theorem BodyCourse.items_eq (h : BodyCourse items es) :
    es.filterMap Event.item? =
      (splitItems (items.filterMap Scanned.lexeme?)).takeWhile fun i => !i.closes := by
  induction h with
  | ended => simp [splitItems]
  | @close l rest hl =>
    have hcloses : (Item.stray l).closes = true := by simp [Item.closes, hl]
    rw [items_trailerEvents, Scanned.filterMap_lexeme?_lexeme, splitItems,
      if_neg (by simp [hl]), List.takeWhile_cons_of_neg (by simp [hcloses])]
  | stray s _ ih => exact ih
  | @token l rest es ho hc _ ih =>
    have hcloses : (Item.stray l).closes = false := by simp [Item.closes, hc]
    rw [Scanned.filterMap_lexeme?_lexeme, splitItems, if_neg ho,
      List.takeWhile_cons_of_pos (by simp [hcloses]), ← ih]
    rfl
  | @group l r inner rest es hl hr hinner _ ih =>
    have hlexemes : (Scanned.lexeme l :: (inner ++ .lexeme r :: rest)).filterMap Scanned.lexeme? =
        l :: (inner.filterMap Scanned.lexeme? ++ r :: rest.filterMap Scanned.lexeme?) := by
      simp
    rw [hlexemes, splitItems_closed hl hr (Scanned.filterMap_token? inner ▸ hinner),
      List.takeWhile_cons_of_pos (by rfl), ← ih]
    rfl
  | @cutOff l rest hl hopen =>
    rw [Scanned.filterMap_lexeme?_lexeme,
      splitItems_unclosed hl (Scanned.filterMap_token? rest ▸ hopen),
      List.takeWhile_cons_of_pos (by rfl)]
    rfl

theorem Course.items_eq (h : Course items es) :
    es.filterMap Event.item? =
      (splitItems ((takeHeader items).2.filterMap Scanned.lexeme?)).takeWhile
        fun i => !i.closes := by
  cases h with
  | blank hblank =>
    rw [Progress.takeHeader_rest_eq_nil hblank]
    simp [splitItems]
  | headed _ hbody => exact hbody.items_eq

private theorem BodyCourse.proper (h : BodyCourse items es) {g : Group}
    (hg : .item (.group g) ∈ es) :
    g.Proper := by
  induction h with
  | ended => simp at hg
  | close hl => exact absurd hg (not_mem_trailerEvents _ _)
  | stray s _ ih => exact ih (by simpa using hg)
  | token _ _ _ ih => exact ih (by simpa using hg)
  | group hl hr hinner _ ih =>
    simp only [List.mem_cons, reduceCtorEq, Event.item.injEq, Item.group.injEq, false_or] at hg
    rcases hg with rfl | hg
    · exact .closed hl hr (Scanned.filterMap_token? _ ▸ hinner)
    · exact ih hg
  | cutOff hl hopen =>
    obtain rfl : g = _ := by simpa using hg
    exact .unclosed hl (Scanned.filterMap_token? _ ▸ hopen)

theorem Course.proper (h : Course items es) {g : Group} (hg : .item (.group g) ∈ es) :
    g.Proper := by
  cases h with
  | blank => simp at hg
  | headed _ hbody => exact hbody.proper (by simpa using hg)

end Course

namespace Progress

variable {items : List Scanned} {es : List Event}

private theorem trailer_eq_foldl (f : Frame) (items : List Scanned) (p : Progress) :
    trailer f items p = (trailerEvents items).foldl (act f) p := by
  induction items generalizing p with
  | nil => rfl
  | cons item items ih =>
    cases item with
    | stray s =>
      rw [trailer, ih]
      rfl
    | lexeme l => rfl

private theorem body_eq_foldl (h : BodyCourse items es) (f : Frame) (p : Progress) :
    body f items p = es.foldl (act f) p := by
  induction h generalizing p with
  | ended =>
    rw [body]
    rfl
  | close hl => rw [body_closeParen hl, trailer_eq_foldl]
  | stray s _ ih =>
    rw [body, ih]
    rfl
  | token ho hc _ ih =>
    rw [body, if_neg hc, if_neg ho, ih]
    rfl
  | group hl hr hinner _ ih =>
    rw [body_closed hl hr hinner, ih]
    rfl
  | cutOff hl hopen =>
    rw [body_unclosed hl hopen]
    rfl

private theorem all_eq_foldl (h : Course items es) (f : Frame) (p : Progress) :
    all f items p = es.foldl (act f) p := by
  cases h with
  | blank hblank =>
    rw [all]
    simp only [hblank, List.isEmpty_nil, if_true]
    rfl
  | headed hne hbody =>
    rw [all]
    simp only [List.isEmpty_iff, hne, if_false, body_eq_foldl hbody]
    rfl

/-- What can be seen of a reading. -/
def reading (p : Progress) : Reading := ⟨p.domain, p.log⟩

end Progress

/-- A reading is what the events of its text do, one after the other. -/
theorem readDomain_eq_foldl {text : String} {es : List Event} (h : Course (scan text) es)
    (s : Settings) :
    readDomain s text = (es.foldl (Progress.act ⟨s, .ofText text⟩) (.start s)).reading := by
  rw [readDomain, Progress.all_eq_foldl h]
  rfl

end PlanningDomain
