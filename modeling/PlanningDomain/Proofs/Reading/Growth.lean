import PlanningDomain.Proofs.Reading.Course

/-! The domain of a reading grows. Main statement: nothing that is met behind the header takes back
what was recognised before; in particular no later section gives a type another parent. -/
namespace PlanningDomain

open Grammar

/-- Everything in one domain is in the other, at the same place. -/
structure Domain.PartOf (d d' : Domain) : Prop where
  name : d'.name = d.name
  requirements : d.requirements <+: d'.requirements
  types : ∀ type parent, d.types.get? type = some parent → d'.types.get? type = some parent
  predicates : d.predicates <+: d'.predicates
  tasks : d.tasks <+: d'.tasks
  methods : d.methods <+: d'.methods

namespace Domain.PartOf

private theorem refl (d : Domain) : d.PartOf d where
  name := rfl
  requirements := List.prefix_rfl
  types _ _ h := h
  predicates := List.prefix_rfl
  tasks := List.prefix_rfl
  methods := List.prefix_rfl

private theorem trans {d d' d'' : Domain} (h : d.PartOf d') (h' : d'.PartOf d'') :
    d.PartOf d'' where
  name := h'.name.trans h.name
  requirements := h.requirements.trans h'.requirements
  types type parent ht := h'.types type parent (h.types type parent ht)
  predicates := h.predicates.trans h'.predicates
  tasks := h.tasks.trans h'.tasks
  methods := h.methods.trans h'.methods

/-- A section adds to a domain, as long as a section of types comes first of its kind. -/
private theorem addTo {root : String} {d : Domain} {x : Section}
    (h : x.marker = .types → d.types = .empty) : d.PartOf (x.addTo root d) := by
  cases x with
  | requirements flags => exact { refl d with requirements := List.prefix_append .. }
  | types list =>
    refine { refl d with types := fun type parent ht => ?_ }
    rw [h rfl, NameMap.get?_empty] at ht
    cases ht
  | predicates literals => exact { refl d with predicates := List.prefix_append .. }
  | task signature => exact { refl d with tasks := List.prefix_append .. }
  | method rule => exact { refl d with methods := List.prefix_append .. }

end Domain.PartOf

private theorem Grammar.Section.types_addTo {root : String} {d : Domain} {x : Section}
    (h : x.marker ≠ .types) : (x.addTo root d).types = d.types := by
  cases x with
  | types list => exact absurd rfl h
  | _ => rfl

/-- What cannot come after some sections cannot come after one more. -/
private theorem Rank.not_types_mayFollow {r : Rank} {last : Option Rank}
    (hlast : Rank.types.mayFollow last = false) (h : r.mayFollow last = true) :
    Rank.types.mayFollow (some r) = false := by
  cases r with
  | requirements =>
    cases last with
    | none => cases hlast
    | some last => cases last <;> cases h
  | types => rfl
  | predicates => rfl
  | body => rfl

namespace Progress
variable {f : Frame} {p : Progress}

def TypesSettled (p : Progress) : Prop :=
  p.domain.types = .empty ∨ Rank.types.mayFollow p.lastRank = false

/-- What a group of the body adds is at most one section with the head of the group. -/
structure AddsAtMost (root : String) (head : Token) (p q : Progress) : Prop where
  lastRank_eq : q.lastRank = p.lastRank
  domain_eq : q.domain = p.domain ∨
    ∃ x : Section, x.marker = head ∧ q.domain = x.addTo root p.domain

private theorem AddsAtMost.addFrom {α τ : Type} {root : String} {r : Reader α}
    {add : Domain → α → Domain} {tokens : τ → List Token} {asSection : τ → Section} {head : Token}
    (h : Recognizes root r add tokens asSection) (hhead : ∀ x, (asSection x).marker = head)
    (context : String) (ls : List Lexeme) (place : Span) (p : Progress) :
    AddsAtMost root head p (p.addFrom f r add context ls place) := by
  rcases addFrom_eq h f context ls place p with ⟨x, -, heq⟩ | ⟨d, heq⟩
  · rw [heq]
    exact ⟨rfl, .inr ⟨asSection x, hhead x, rfl⟩⟩
  · rw [heq]
    exact ⟨rfl, .inl rfl⟩

theorem sectionBody_addsAtMost (f : Frame) (head : Token) (g : Group) (p : Progress) :
    AddsAtMost f.settings.rootType head p (p.sectionBody f head g) := by
  cases head with
  | requirements => exact .addFrom (recognizes_requirements _) (fun _ => rfl) ..
  | types => exact .addFrom (recognizes_types _) (fun _ => rfl) ..
  | task => exact .addFrom (recognizes_task _) (fun _ => rfl) ..
  | method => exact .addFrom (recognizes_method _) (fun _ => rfl) ..
  | predicates =>
    obtain ⟨literals, ds, hadds, hlast, -⟩ := predicatesSection_adds f g p
    exact ⟨hlast, .inr ⟨.predicates literals, rfl, hadds.domain_eq⟩⟩
  | _ => exact ⟨rfl, .inl rfl⟩

private theorem addSection_grows (h : p.TypesSettled) (g : Group) :
    p.domain.PartOf (p.addSection f g).domain ∧ (p.addSection f g).TypesSettled := by
  have hsame {q : Progress} (hd : q.domain = p.domain) (hr : q.lastRank = p.lastRank) :
      p.domain.PartOf q.domain ∧ q.TypesSettled := by
    rw [TypesSettled, hd, hr]
    exact ⟨.refl _, h⟩
  rw [addSection]
  split
  · exact hsame rfl rfl
  rename_i head hhead
  split
  · rename_i rank hrank
    rw [rankedSection]
    split
    · rename_i hfollow
      obtain ⟨hlast, hdomain⟩ :=
        sectionBody_addsAtMost f head.token g { p with lastRank := some rank }
      generalize sectionBody f head.token g _ = q at hlast hdomain ⊢
      -- Types come only where there are none yet.
      have hempty : rank = .types → p.domain.types = .empty := by
        rintro rfl
        exact h.resolve_right (by simp [hfollow])
      have hsettled : q.domain.types = p.domain.types ∨ rank = .types →
          q.TypesSettled := by
        rw [TypesSettled, hlast]
        rintro (htypes | rfl)
        · rw [htypes]
          exact h.imp_right fun hlast => Rank.not_types_mayFollow hlast hfollow
        · exact .inr rfl
      rcases hdomain with hq | ⟨x, hx, hq⟩
      · rw [hq]
        exact ⟨.refl _, hsettled (.inl (by rw [hq]))⟩
      · have htypes : x.marker = .types ↔ rank = .types := by
          rw [← hx, x.ofToken?_marker] at hrank
          obtain rfl := Option.some.inj hrank
          cases x <;> simp [Section.marker, Section.rank]
        rw [hq]
        refine ⟨.addTo fun hmarker => hempty (htypes.1 hmarker), hsettled ?_⟩
        by_cases hmarker : x.marker = .types
        · exact .inr (htypes.1 hmarker)
        · exact .inl (by rw [hq, Section.types_addTo hmarker])
    · exact hsame rfl rfl
  · split
    · exact hsame rfl rfl
    · exact hsame rfl rfl

end Progress

def Event.isHeader : Event → Bool
  | header _ => true
  | _ => false

private theorem isHeader_of_mem_trailerEvents {items : List Scanned} {e : Event}
    (he : e ∈ trailerEvents items) : e.isHeader = false := by
  rcases mem_trailerEvents he with ⟨ss, rfl⟩ | ⟨l, rfl⟩ <;> rfl

theorem BodyCourse.isHeader_eq_false {items : List Scanned} {es : List Event}
    (h : BodyCourse items es) {e : Event} (he : e ∈ es) : e.isHeader = false := by
  induction h with
  | ended =>
    obtain rfl := List.mem_singleton.1 he
    rfl
  | close => exact isHeader_of_mem_trailerEvents he
  | stray s _ ih | token _ _ _ ih =>
    rcases List.mem_cons.1 he with rfl | he
    · rfl
    · exact ih he
  | group _ _ _ _ ih =>
    simp only [List.mem_cons] at he
    rcases he with rfl | rfl | he
    · rfl
    · rfl
    · exact ih he
  | cutOff =>
    simp only [List.mem_cons, List.not_mem_nil, or_false] at he
    rcases he with rfl | rfl <;> rfl

namespace Progress
variable {f : Frame}

private theorem act_typesSettled {p : Progress} (h : p.TypesSettled) (e : Event) :
    (p.act f e).TypesSettled := by
  cases e with
  | header ls =>
    rw [act, addFrom]
    split
    · exact h
    · obtain ⟨d, heq⟩ := reportFailure_eq f p ls _ "domain header" (endOf f ls)
      rw [heq]
      exact h
  | item i =>
    cases i with
    | stray l => exact h
    | group g => exact (addSection_grows h g).2
  | strays ss | extra l | ended expected => exact h

private theorem act_grows {p : Progress} (h : p.TypesSettled) {e : Event}
    (he : e.isHeader = false) :
    p.domain.PartOf (p.act f e).domain := by
  cases e with
  | header ls => cases he
  | item i =>
    cases i with
    | stray l => exact .refl _
    | group g => exact (addSection_grows h g).1
  | strays ss | extra l | ended expected => exact .refl _

theorem foldl_act_typesSettled {p : Progress} (h : p.TypesSettled) (es : List Event) :
    (es.foldl (act f) p).TypesSettled := by
  induction es generalizing p with
  | nil => exact h
  | cons e es ih => exact ih (act_typesSettled h e)

/-- Behind the header, nothing is taken back. -/
theorem foldl_act_grows {p : Progress} (h : p.TypesSettled) {es : List Event}
    (hes : ∀ e ∈ es, e.isHeader = false) : p.domain.PartOf (es.foldl (act f) p).domain := by
  induction es generalizing p with
  | nil => exact .refl _
  | cons e es ih =>
    exact (act_grows h (hes e List.mem_cons_self)).trans
      (ih (act_typesSettled h e) fun e' he' => hes e' (List.mem_cons_of_mem _ he'))

end Progress
end PlanningDomain
