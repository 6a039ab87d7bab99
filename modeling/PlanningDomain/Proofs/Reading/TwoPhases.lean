import PlanningDomain.Proofs.Reading.Phases

/-! A reading that has all lexemes before it starts. Main statement: the domain and, in order, the
diagnostics of the grammar are those of the header production on the lexemes up to the first closing
parenthesis and of the items of the rest, taken one by one. -/
namespace PlanningDomain

namespace Progress

/-- The items behind the header. A lone parenthesis closes the domain, and then one more lexeme, if
there is one, is reported; an unclosed group is the last item. -/
def addItems (f : Frame) (p : Progress) : List Item → Progress
  | [] => p.reportEnd f "')' closing the domain"
  | .group g :: items =>
    if g.closed then (p.addSection f g).addItems f items else p.addSection f g
  | .stray l :: items =>
    if l.token = .closeParen then
      match items.flatMap Item.lexemes with
      | [] => p
      | extra :: _ => p.reportLexeme f extra "end of input"
    else (p.reportLexeme f l "'(' or ')'").addItems f items

/-- All lexemes of a text: the header, cut off behind the first closing parenthesis, and then the
items of the rest. -/
def inTwoPhases (f : Frame) (ls : List Lexeme) : Progress :=
  if ls.isEmpty then (start f.settings).reportEnd f "'(define'"
  else
    let header := (cutHeader ls).1
    let named := (start f.settings).addFrom f Production.header
      (fun d name => { d with name := name }) "domain header" header (endOf f header)
    named.addItems f (splitItems (cutHeader ls).2)

private theorem addItems_eq_foldl (f : Frame) (items : List Item) (p : Progress) :
    p.addItems f items = (bodyEvents items).foldl (act f) p := by
  induction items generalizing p with
  | nil => rfl
  | cons i items ih =>
    rw [bodyEvents]
    cases i with
    | group g =>
      rw [addItems, ih]
      cases hclosed : g.closed <;> simp [Item.closes, Item.isOpen, hclosed, act]
    | stray l =>
      rw [addItems, ih]
      by_cases hl : l.token = .closeParen
      · rw [if_pos hl, if_pos (by simpa [Item.closes] using hl)]
        cases items.flatMap Item.lexemes <;> rfl
      · rw [if_neg hl, if_neg (by simpa [Item.closes] using hl), if_neg (by simp [Item.isOpen])]
        rfl

private theorem cutHeader_eq_nil_iff (ls : List Lexeme) : (cutHeader ls).1 = [] ↔ ls = [] := by
  cases ls with
  | nil => simp [cutHeader]
  | cons l ls =>
    rw [cutHeader]
    split <;> simp

private theorem inTwoPhases_eq (f : Frame) (ls : List Lexeme) :
    inTwoPhases f ls = readLexemes f ls := by
  rw [inTwoPhases, readLexemes, syntaxEvents]
  by_cases hls : ls = []
  · simp [hls, cutHeader, act]
  · have hheader : (cutHeader ls).1 ≠ [] := mt (cutHeader_eq_nil_iff ls).1 hls
    simp only [List.isEmpty_iff, hls, hheader, if_false, List.foldl_cons, ← addItems_eq_foldl]
    rfl

end Progress

/-- A reading, which meets a text piece by piece, has the domain that its lexemes come to in two
phases. The diagnostics of the grammar are the same too, in the same order, and so are those
recorded where there is room for all. Without a lexeme, the domain is empty and the missing header
is all that is reported of the grammar. -/
theorem reads_in_two_phases (s : Settings) (text : String) :
    let p := Progress.inTwoPhases ⟨s, .ofText text⟩ (lexemes text)
    p.domain = (readDomain s text).domain ∧
      p.log = (DiagnosticLog.empty s.maxErrors).reportAll
        ((diagnostics s text).filter (!·.isScan)) ∧
      ((readDomain s text).log.total ≤ s.maxErrors →
        p.log.recorded = (readDomain s text).log.recorded.filter (!·.isScan)) ∧
      (lexemes text = [] → (readDomain s text).domain = .empty ∧
        (diagnostics s text).filter (!·.isScan) =
          [.atEnd "'(define'" (LineTable.ofText text).endPoint]) := by
  intro p
  have hread := readLexemes_eq s text
  rw [← Progress.inTwoPhases_eq] at hread
  have hdomain : p.domain = (readDomain s text).domain := congrArg Reading.domain hread
  have hlog : p.log = (DiagnosticLog.empty s.maxErrors).reportAll
      ((diagnostics s text).filter (!·.isScan)) := congrArg Reading.log hread
  refine ⟨hdomain, hlog, fun hroom => ?_, fun hblank => ⟨?_, ?_⟩⟩
  · rw [recorded_eq_diagnostics hroom, hlog, DiagnosticLog.recorded_empty_reportAll]
    refine List.take_of_length_le (Nat.le_trans (List.length_filter_le ..) ?_)
    rwa [length_diagnostics]
  · rw [← hdomain, show p = Progress.inTwoPhases _ (lexemes text) from rfl, hblank]
    rfl
  · -- Where one diagnostic can be recorded, the missing header is all that is.
    have hone := log_readLexemes s 1 text
    rw [← Progress.inTwoPhases_eq, hblank] at hone
    have hall :
        (DiagnosticLog.empty 1).reportAll [.atEnd "'(define'" (LineTable.ofText text).endPoint] =
          (DiagnosticLog.empty 1).reportAll ((diagnostics s text).filter (!·.isScan)) := hone
    exact (DiagnosticLog.eq_of_reportAll_eq (Nat.le_refl 1) hall).symm

/-- A header that swallows a section, stray characters, an unclosed group, and a text of comments.
-/
theorem reads_in_two_phases_unclosed :
    let text := "(define (domain (:types a) % x ) (:task t"
    let p := Progress.inTwoPhases ⟨.standard, .ofText text⟩ (lexemes text)
    let blank := "; nothing\n"
    (readDomain .standard text).log.total ≤ Settings.standard.maxErrors ∧ p.log.total = 3 ∧
      p.log.recorded = (readDomain .standard text).log.recorded.filter (!·.isScan) ∧
      lexemes blank = [] ∧ (readDomain .standard blank).domain = .empty := by
  intro text p blank
  have hroom : (readDomain .standard text).log.total ≤ Settings.standard.maxErrors := by
    decide +kernel
  have hblank : lexemes blank = [] := by decide +kernel
  obtain ⟨-, -, hrecorded, -⟩ := reads_in_two_phases .standard text
  obtain ⟨-, -, -, hdomain⟩ := reads_in_two_phases .standard blank
  exact ⟨hroom, by decide +kernel, hrecorded hroom, hblank, (hdomain hblank).1⟩

end PlanningDomain
