import PlanningDomain.Notice
import PlanningDomain.Proofs.Reading.Bound
import PlanningDomain.Proofs.Reading.Order
import PlanningDomain.Proofs.Reading.Skipping

/-! Steps of a reading and what each tells the log. Main statement: an event tells of the
diagnostics that it reports, in order, and before these of the domain's name, of the section that it
admits, or of the one that it passes over. -/
namespace PlanningDomain

open DiagnosticLog (reportAll_append total_empty_reportAll recorded_empty_reportAll_of_le)

namespace Notice

def word? : Notice → Option String
  | passedOver word => some word
  | _ => none

def rank? : Notice → Option Rank
  | admitted head => Rank.ofToken? head
  | _ => none

def headed? : Notice → Option String
  | headed name => some name
  | _ => none

def predicate? : Notice → Option (String × Bool)
  | predicate name negated => some (name, negated)
  | _ => none

def task? : Notice → Option String
  | task name => some name
  | _ => none

def method? : Notice → Option (String × String)
  | method name decomposed => some (name, decomposed)
  | _ => none

/-- Whether it is a diagnostic or something that a section adds. -/
def isInner : Notice → Bool
  | retyped .. | predicate .. | task _ | method .. | reported _ => true
  | _ => false

end Notice

/-- The word of a keyword without a meaning of its own. -/
def Token.word? : Token → Option String
  | keyword word => some word
  | _ => none

/-- The word that a section is known by that is not known otherwise. -/
def Event.unknownWord? : Event → Option String
  | item (.group g) => g.head?.bind fun l => l.token.word?
  | _ => none

/-- The name of a whole header. -/
def Event.headed? : Event → Option String
  | header ls => (Production.header.whole (ls.map Lexeme.token)).toOption
  | _ => none

namespace Progress
variable {f : Frame} {p : Progress} {step next : Progress → Progress}

private theorem severity_of_mem_additions {d d' : Domain} {n : Notice}
    (h : n ∈ additions d d') : n.severity = .trace := by
  simp only [additions, List.mem_append, List.mem_map] at h
  rcases h with (⟨p, -, rfl⟩ | ⟨t, -, rfl⟩) | ⟨m, -, rfl⟩ <;> rfl

private theorem mem_toldAlong {α σ : Type} {told : σ → α → List Notice} {step : σ → α → σ}
    {n : Notice} {s : σ} {xs : List α} (h : n ∈ toldAlong told step s xs) :
    ∃ s x, n ∈ told s x := by
  induction xs generalizing s with
  | nil => cases h
  | cons x xs ih =>
    rw [toldAlong, List.mem_append] at h
    exact h.elim (fun h => ⟨s, x, h⟩) ih

private theorem eq_retyped_of_mem_toldOfTypes {root : String} {d : Domain} {runs : List TypedRun}
    {n : Notice} (h : n ∈ toldOfTypes root d runs) :
    ∃ name previous parent, n = .retyped name previous parent := by
  obtain ⟨d, pair, h⟩ := mem_toldAlong h
  rw [toldOfType] at h
  split at h
  · cases h
  · split at h
    · exact ⟨_, _, _, List.mem_singleton.1 h⟩
    · cases h

theorem filterMap_toldOfTypes {β : Type} {key : Notice → Option β}
    (h : ∀ name previous parent, key (.retyped name previous parent) = none) (root : String)
    (d : Domain) (runs : List TypedRun) : (toldOfTypes root d runs).filterMap key = [] := by
  refine List.filterMap_eq_nil_iff.2 fun n hn => ?_
  obtain ⟨name, previous, parent, rfl⟩ := eq_retyped_of_mem_toldOfTypes hn
  exact h name previous parent

private theorem isInner_of_mem_toldBy {n : Notice} (h : n ∈ toldBy step p) : n.isInner = true := by
  rcases List.mem_append.1 h with h | h
  · obtain ⟨d, -, rfl⟩ := List.mem_map.1 h
    rfl
  · have hsev := severity_of_mem_additions h
    cases n <;> first | rfl | cases hsev

private theorem isInner_of_mem_toldOfPredicates {g : Group} {n : Notice}
    (h : n ∈ toldOfPredicates f g p) : n.isInner = true := by
  rcases List.mem_append.1 h with h | h
  · obtain ⟨p, i, h⟩ := mem_toldAlong h
    exact isInner_of_mem_toldBy h
  · split at h
    · cases h
    · rw [List.mem_singleton.1 h]
      rfl

private theorem isInner_of_mem_toldOfBody {head : Token} {g : Group} {n : Notice}
    (h : n ∈ toldOfBody f head g p) : n.isInner = true := by
  cases head with
  | predicates => exact isInner_of_mem_toldOfPredicates h
  | types =>
    rw [toldOfBody] at h
    split at h
    · obtain ⟨name, previous, parent, rfl⟩ := eq_retyped_of_mem_toldOfTypes h
      rfl
    · exact isInner_of_mem_toldBy h
  | _ => exact isInner_of_mem_toldBy h

/-- What an event tells apart from diagnostics and from what its section adds. -/
structure Leads (f : Frame) (p : Progress) (e : Event) (lead : Option Notice) : Prop where
  word_eq : lead.bind Notice.word? = if f.settings.skipUnknownSections then e.unknownWord? else none
  rank_eq : lead.bind Notice.rank? = p.admits? e
  name_eq : lead.bind Notice.headed? = e.headed?

/-- An event tells one thing first, or nothing, and then diagnostics or what its section adds. -/
theorem exists_leads (f : Frame) (p : Progress) (e : Event) :
    ∃ lead inner, toldOfEvent f p e = lead.toList ++ inner ∧
      (∀ n ∈ inner, n.isInner = true) ∧ Leads f p e lead := by
  have hby (step : Progress → Progress) (h : Leads f p e none) :
      ∃ lead inner, toldBy step p = lead.toList ++ inner ∧ (∀ n ∈ inner, n.isInner = true) ∧
        Leads f p e lead :=
    ⟨none, _, rfl, fun n => isInner_of_mem_toldBy, h⟩
  cases e with
  | header ls =>
    rw [toldOfEvent]
    split
    · rename_i name hname
      exact ⟨some (.headed name), [], rfl, by simp,
        ⟨by simp [Notice.word?, Event.unknownWord?], rfl,
          by simp [Notice.headed?, Event.headed?, hname, Except.toOption]⟩⟩
    · rename_i why hwhy
      exact hby _
        ⟨by simp [Event.unknownWord?], rfl, by simp [Event.headed?, hwhy, Except.toOption]⟩
  | item i =>
    cases i with
    | stray l => exact hby _ ⟨by simp [Event.unknownWord?], rfl, rfl⟩
    | group g =>
      rw [toldOfEvent, toldOfSection]
      -- No head; a head with a rank, in order or not; an unknown word, passed over or not; the rest.
      split
      · rename_i hhead
        exact hby _ ⟨by simp [Event.unknownWord?, hhead],
          by simp [admits?, Event.rank?, Group.rank?, hhead], rfl⟩
      rename_i head hhead
      have hword : Event.unknownWord? (.item (.group g)) = head.token.word? := by
        rw [Event.unknownWord?, hhead]
        rfl
      have hrank : p.admits? (.item (.group g)) =
          (Rank.ofToken? head.token).filter (·.mayFollow p.lastRank) := by
        rw [admits?, Event.rank?, Group.rank?, hhead]
        rfl
      split
      · rename_i rank hranked
        have hnone : head.token.word? = none := by
          cases htoken : head.token <;> simp [htoken, Rank.ofToken?, Token.word?] at hranked ⊢
        rw [hnone] at hword
        split
        · rename_i hfollow
          exact ⟨some (.admitted head.token), _, rfl, fun n => isInner_of_mem_toldOfBody,
            ⟨by simp [Notice.word?, hword],
              by simp [Notice.rank?, hrank, hranked, Option.filter, hfollow], rfl⟩⟩
        · rename_i hfollow
          exact hby _ ⟨by simp [hword], by simp [hrank, hranked, Option.filter, hfollow], rfl⟩
      · rename_i word hranked htoken
        rw [htoken, Token.word?] at hword
        rw [hranked] at hrank
        split
        · rename_i hskip
          exact ⟨some (.passedOver word), [], rfl, by simp,
            ⟨by simp [Notice.word?, hskip, hword], by simp [Notice.rank?, hrank], rfl⟩⟩
        · rename_i hskip
          exact hby _ ⟨by simp [hskip], by simp [hrank], rfl⟩
      · rename_i hranked htoken
        have hnone : head.token.word? = none := by
          cases h : head.token <;> first | rfl | exact absurd h (htoken _)
        rw [hnone] at hword
        rw [hranked] at hrank
        exact hby _ ⟨by simp [hword], by simp [hrank], rfl⟩
  | strays ss => exact hby _ ⟨by simp [Event.unknownWord?], rfl, rfl⟩
  | extra l => exact hby _ ⟨by simp [Event.unknownWord?], rfl, rfl⟩
  | ended expected => exact hby _ ⟨by simp [Event.unknownWord?], rfl, rfl⟩

private theorem filterMap_lead {β : Type} {key : Notice → Option β}
    (hkey : ∀ n : Notice, n.isInner = true → key n = none) {lead : Option Notice}
    {inner : List Notice} (hinner : ∀ n ∈ inner, n.isInner = true) :
    (lead.toList ++ inner).filterMap key = (lead.bind key).toList := by
  rw [List.filterMap_append, List.filterMap_eq_nil_iff.2 fun n hn => hkey n (hinner n hn),
    List.append_nil]
  cases lead with
  | none => rfl
  | some n => cases h : key n <;> simp [h]

theorem ranks_toldOfEvent (f : Frame) (p : Progress) (e : Event) :
    (toldOfEvent f p e).filterMap Notice.rank? = (p.admits? e).toList := by
  obtain ⟨lead, inner, htold, hinner, hlead⟩ := exists_leads f p e
  rw [htold, filterMap_lead (fun n hn => by cases n <;> first | rfl | cases hn) hinner,
    hlead.rank_eq]

theorem names_toldOfEvent (f : Frame) (p : Progress) (e : Event) :
    (toldOfEvent f p e).filterMap Notice.headed? = e.headed?.toList := by
  obtain ⟨lead, inner, htold, hinner, hlead⟩ := exists_leads f p e
  rw [htold, filterMap_lead (fun n hn => by cases n <;> first | rfl | cases hn) hinner,
    hlead.name_eq]

end Progress
end PlanningDomain
