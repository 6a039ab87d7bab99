import PlanningDomain.Proofs.Grammar.Productions
import PlanningDomain.Proofs.Grammar.Words
import PlanningDomain.Syntax.Progress

/-! What a refused part of a text is told. Main statement: the report is about the first token with
which no sentence of the part begins any more, or about the end of tokens that begin one; and if it
expects a token of one label, exactly the tokens of that label go on with a sentence there. -/
namespace PlanningDomain

open Grammar Reader

/-- The parts of a text that are read, or refused, as a whole. -/
inductive Part
  | header
  | requirements
  | types
  | predicate
  | task
  | method

namespace Part

def Form : Part → Type
  | header => String
  | requirements => List String
  | types => List TypedRun
  | predicate => PredicateForm
  | task => TaskForm
  | method => MethodForm

def production : (x : Part) → Reader x.Form
  | header => Production.header
  | requirements => Production.requirements
  | types => Production.types
  | predicate => Production.predicate
  | task => Production.task
  | method => Production.method

/-- What a report expects when no single token is wanted. -/
def context : Part → String
  | header => "domain header"
  | requirements => "requirements"
  | types => "type declarations"
  | predicate => "predicate"
  | task => "task"
  | method => "method"

/-- The token sequences that the trees of the part yield. -/
def sentences : Part → Language Token
  | header => {ts | ∃ name, ts = headerTokens name}
  | requirements => {ts | ∃ flags, ts = (Section.requirements flags).tokens}
  | types => {ts | ∃ list, ts = (Section.types list).tokens}
  | predicate => {ts | ∃ l : Literal, ts = l.tokens}
  | task => {ts | ∃ s, ts = (Section.task s).tokens}
  | method => {ts | ∃ m, ts = (Section.method m).tokens}

end Part

private theorem Reader.Explains.of_trees {α τ : Type} {r : Reader α} {l : Language Token}
    {tokens : τ → List Token} {form : τ → α} (hr : r.Explains l)
    (h : ∀ {ts v rest}, r.Reads ts v rest ↔ ∃ x, ts = tokens x ++ rest ∧ form x = v) :
    r.Explains {ts | ∃ x, ts = tokens x} := by
  have heq : l = {ts | ∃ x, ts = tokens x} := by
    ext ts
    rw [← hr.whole_eq_ok_iff]
    simp only [Reader.whole_eq_ok_iff, h, List.append_nil]
    constructor
    · rintro ⟨v, x, hx, -⟩
      exact ⟨x, hx⟩
    · rintro ⟨x, hx⟩
      exact ⟨form x, x, hx, rfl⟩
  exact heq ▸ hr

namespace Part

theorem explains_production (x : Part) : x.production.Explains x.sentences := by
  cases x with
  | header =>
    have h {ts v rest} : Production.header.Reads ts v rest ↔
        ∃ name, ts = headerTokens name ++ rest ∧ name = v := by simp [header_reads_iff]
    exact delimits_header.explains.of_trees h
  | requirements =>
    have h {ts v rest} : Production.requirements.Reads ts v rest ↔
        ∃ flags, ts = (Section.requirements flags).tokens ++ rest ∧ flags = v := by
      simp [requirements_reads_iff]
    exact delimits_requirements.explains.of_trees h
  | types => exact delimits_types.explains.of_trees types_reads_iff
  | predicate => exact delimits_predicate.explains.of_trees predicate_reads_iff
  | task => exact delimits_task.explains.of_trees task_reads_iff
  | method => exact delimits_method.explains.of_trees method_reads_iff

theorem production_eq_ok_iff (x : Part) {ts : List Token} :
    (∃ v, x.production.whole ts = .ok v) ↔ ts ∈ x.sentences :=
  x.explains_production.whole_eq_ok_iff

private theorem not_isTokenLabel_context (x : Part) : ¬ IsTokenLabel x.context := by
  cases x <;> decide

end Part

/-- The report on lexemes that are in order up to `back`: about the first lexeme there, or else
about the end at `place`. -/
def Diagnostic.ofRest (table : LineTable) (back : List Lexeme) (expected : String) (place : Span) :
    Diagnostic :=
  match back with
  | l :: _ => .ofLexeme table l expected
  | [] => .atEnd expected place

/-- A report on the lexemes behind `front`, which expects the given text there, is right. -/
structure RightlyRefused (l : Language Token) (front back : List Lexeme) (expected : String) :
    Prop where
  viable : Viable l (front.map Lexeme.token)
  hopeless : ∀ x ∈ back.head?, ¬ Viable l (front.map Lexeme.token ++ [x.token])
  end_iff : back = [] ↔ ∃ more ≠ [], (front ++ back).map Lexeme.token ++ more ∈ l
  label_iff : IsTokenLabel expected →
    ∀ t, Viable l (front.map Lexeme.token ++ [t]) ↔ t.CalledBy expected

namespace Progress

private theorem reportFailure_append (f : Frame) (p : Progress) (front back : List Lexeme)
    {why : Failure} (hleft : why.left = back.length) (context : String) (place : Span) :
    p.reportFailure f (front ++ back) why context place =
      p.report (.ofRest f.table back (why.expectation.textOr context) place) := by
  have hdrop : (front ++ back).drop ((front ++ back).length - why.left) = back := by
    rw [hleft, List.length_append, Nat.add_sub_cancel, List.drop_left]
  rw [reportFailure, hdrop]
  cases back with
  | nil => rfl
  | cons l back => rfl

/-- What a reader refuses is reported at the place that it blames. -/
theorem addFrom_of_error {α : Type} {r : Reader α} {l : Language Token} (hr : r.Explains l)
    {ls : List Lexeme} {why : Failure} (hwhy : r.whole (ls.map Lexeme.token) = .error why)
    (f : Frame) (add : Domain → α → Domain) (context : String) (place : Span) (p : Progress) :
    ∃ front back, ls = front ++ back ∧
      BlamesAt l (front.map Lexeme.token) (back.map Lexeme.token) why ∧
      p.addFrom f r add context ls place =
        p.report (.ofRest f.table back (why.expectation.textOr context) place) := by
  obtain ⟨tfront, tback, heq, hblames⟩ := hr.blames_of_whole hwhy
  obtain ⟨front, back, rfl, rfl, rfl⟩ := List.map_eq_append_iff.1 heq
  have hleft : why.left = back.length := by rw [hblames.left_eq, List.length_map]
  refine ⟨front, back, rfl, hblames, ?_⟩
  rw [addFrom, hwhy]
  exact reportFailure_append f p front back hleft context place

/-- A part that its production refuses is refused rightly. -/
theorem addFrom_refuses_rightly (x : Part) {ls : List Lexeme} {why : Failure}
    (hwhy : x.production.whole (ls.map Lexeme.token) = .error why) (f : Frame)
    (add : Domain → x.Form → Domain) (place : Span) (p : Progress) :
    ∃ front back expected, ls = front ++ back ∧
      p.addFrom f x.production add x.context ls place =
        p.report (.ofRest f.table back expected place) ∧
      RightlyRefused x.sentences front back expected := by
  have hnot : ls.map Lexeme.token ∉ x.sentences := by
    rw [← x.production_eq_ok_iff, hwhy]
    simp
  obtain ⟨front, back, rfl, hblames, hreport⟩ :=
    addFrom_of_error x.explains_production hwhy f add x.context place p
  refine ⟨front, back, why.expectation.textOr x.context, rfl, hreport, hblames.viable, ?_, ?_, ?_⟩
  · intro l hl
    exact hblames.hopeless l.token (by rw [List.head?_map, hl]; rfl)
  · constructor
    · rintro rfl
      obtain ⟨more, hmore⟩ := hblames.viable
      rw [List.append_nil] at hnot ⊢
      exact ⟨more, fun hnil => hnot (by simpa [hnil] using hmore), hmore⟩
    · rintro ⟨more, -, hmore⟩
      cases back with
      | nil => rfl
      | cons l back =>
        have hviable : Viable x.sentences (front.map Lexeme.token ++ [l.token]) :=
          ⟨back.map Lexeme.token ++ more, by simpa using hmore⟩
        exact absurd hviable (hblames.hopeless l.token rfl)
  · intro hlabel
    have hnames := hblames.names
    -- Without a single label, the context is expected, which is the label of no token.
    cases hexp : why.expectation with
    | label a =>
      rw [hexp] at hnames hlabel
      exact hnames hlabel
    | unnamed =>
      rw [hexp] at hlabel
      exact absurd hlabel x.not_isTokenLabel_context
    | several =>
      rw [hexp] at hlabel
      exact absurd hlabel x.not_isTokenLabel_context

/-- Behind the dash, a name is missing. -/
theorem addFrom_refuses_untyped_rightly :
    let text := "(not (p ?x -))"
    let ls := (scan text).filterMap Scanned.lexeme?
    let f : Frame := ⟨.standard, .ofText text⟩
    Production.predicate.whole (ls.map Lexeme.token) = .error ⟨2, .label "name"⟩ ∧
      ∃ front back expected, ls = front ++ back ∧
        (start .standard).addFrom f Production.predicate (Domain.addPredicate "object") "predicate"
            ls f.table.endPoint =
          (start .standard).report (.ofRest f.table back expected f.table.endPoint) ∧
        RightlyRefused Part.predicate.sentences front back expected := by
  intro text ls f
  have hwhy : Production.predicate.whole (ls.map Lexeme.token) = .error ⟨2, .label "name"⟩ := by
    decide +kernel
  exact ⟨hwhy, addFrom_refuses_rightly .predicate hwhy f _ _ _⟩

end Progress
end PlanningDomain
