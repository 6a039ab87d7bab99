import PlanningDomain.Proofs.Reading.Told

/-! What a reading tells its log. Main statement: the log is told of every diagnostic, recorded or
not, of every section that is passed over, of every section that is admitted and of every
declaration, each in order; and those of a severity that a log shows by default are the diagnostics
and the sections that are passed over. -/
namespace PlanningDomain

open DiagnosticLog (total_empty_reportAll recorded_empty_reportAll_of_le)

namespace Progress

/-- One kind of declaration: what the log is told of it, and where a domain keeps it. -/
private structure Keeps {β : Type} (key : Notice → Option β) (list : Domain → List β) : Prop where
  key_eq_none : ∀ {n : Notice}, n.severity ≠ .trace → key n = none
  additions_eq : ∀ d d', (additions d d').filterMap key = (list d').drop (list d).length
  named : ∀ d name, list { d with name := name } = list d
  typed : ∀ d types, list { d with types := types } = list d
  grows : ∀ root d (x : Grammar.Section), list d <+: list (x.addTo root d)

section Keeps
variable {β : Type} {key : Notice → Option β} {list : Domain → List β}

private theorem addTypes_eq (root : String) (d : Domain) (runs : List TypedRun) :
    ∃ types, d.addTypes root runs = { d with types := types } := by
  rw [Domain.addTypes]
  induction Typing.resolve root runs generalizing d with
  | nil => exact ⟨d.types, rfl⟩
  | cons pair pairs ih =>
    rw [List.foldl_cons]
    split
    · exact ih d
    · obtain ⟨types, heq⟩ := ih (d.addTypeEdge pair.1 pair.2)
      exact ⟨types, heq⟩

private theorem Keeps.append_toldBy (h : Keeps key list) (step : Progress → Progress)
    (hgrows : list p.domain <+: list (step p).domain) :
    list p.domain ++ (toldBy step p).filterMap key = list (step p).domain := by
  have hreported : ((diagnosticsOf step p).map Notice.reported).filterMap key = [] := by
    refine List.filterMap_eq_nil_iff.2 fun n hn => h.key_eq_none ?_
    obtain ⟨d, -, rfl⟩ := List.mem_map.1 hn
    simp [Notice.severity]
  rw [toldBy, List.filterMap_append, hreported, List.nil_append, h.additions_eq]
  exact List.prefix_iff_eq_append.1 hgrows

private theorem Keeps.append_toldAlong {α : Type} {step : Progress → α → Progress}
    {told : Progress → α → List Notice}
    (h : ∀ p x, list p.domain ++ (told p x).filterMap key = list (step p x).domain)
    (p : Progress) (xs : List α) :
    list p.domain ++ (toldAlong told step p xs).filterMap key =
      list (xs.foldl step p).domain := by
  induction xs generalizing p with
  | nil => exact List.append_nil _
  | cons x xs ih =>
    rw [toldAlong, List.filterMap_append, ← List.append_assoc, h, ih]
    rfl

private theorem Keeps.prefix_sectionBody (h : Keeps key list) (f : Frame) (head : Token) (g : Group)
    (p : Progress) : list p.domain <+: list (p.sectionBody f head g).domain := by
  rcases (sectionBody_addsAtMost f head g p).domain_eq with heq | ⟨x, -, heq⟩
  · exact heq ▸ List.prefix_rfl
  · rw [heq]
    exact h.grows ..

private theorem Keeps.append_toldOfPredicates (h : Keeps key list) (f : Frame) (g : Group)
    (p : Progress) : list p.domain ++ (toldOfPredicates f g p).filterMap key =
      list (p.predicatesSection f g).domain := by
  have hitem (p : Progress) (i : Item) : list p.domain ++
      (toldBy (fun p => predicateItem f p i) p).filterMap key =
        list (predicateItem f p i).domain := by
    refine h.append_toldBy (fun p => predicateItem f p i) ?_
    rcases predicateItem_eq f p i with ⟨l, -, heq⟩ | ⟨d, heq⟩
    · simp only [heq]
      exact h.grows ..
    · simp only [heq]
      exact List.prefix_rfl
  rw [toldOfPredicates, List.filterMap_append, ← List.append_assoc,
    Keeps.append_toldAlong hitem, predicatesSection]
  cases g.closed with
  | true => exact List.append_nil _
  | false =>
    have hend : key (.reported (.atEnd "')' closing ':predicates'" f.table.endPoint)) = none :=
      h.key_eq_none (by simp [Notice.severity])
    simp only [Bool.false_eq_true, if_false, List.filterMap_cons_none hend]
    exact List.append_nil _

private theorem Keeps.append_toldOfBody (h : Keeps key list) (f : Frame) (head : Token) (g : Group)
    (p : Progress) : list p.domain ++ (toldOfBody f head g p).filterMap key =
      list (p.sectionBody f head g).domain := by
  cases head with
  | predicates => exact h.append_toldOfPredicates f g p
  | types =>
    rw [toldOfBody]
    split
    · rename_i runs hruns
      rw [filterMap_toldOfTypes (fun _ _ _ => h.key_eq_none (by simp [Notice.severity])),
        List.append_nil]
      obtain ⟨types, htypes⟩ := addTypes_eq f.settings.rootType p.domain runs
      rw [Group.tokens] at hruns
      simp only [sectionBody, addGroup, addFrom, hruns, htypes, h.typed]
    · exact h.append_toldBy _ (h.prefix_sectionBody ..)
  | _ => exact h.append_toldBy _ (h.prefix_sectionBody ..)

private theorem Keeps.append_toldOfSection (h : Keeps key list) (f : Frame) (g : Group)
    (p : Progress) :
    list p.domain ++ (toldOfSection f g p).filterMap key = list (p.addSection f g).domain := by
  have htold (hsame : (p.addSection f g).domain = p.domain) :
      list p.domain ++ (toldBy (fun p => addSection f g p) p).filterMap key =
        list (p.addSection f g).domain :=
    h.append_toldBy (fun p => addSection f g p) (by simp only [hsame]; exact List.prefix_rfl)
  rw [toldOfSection]
  split
  · rename_i hhead
    exact htold (by simp only [addSection, hhead]; rfl)
  rename_i head hhead
  split
  · rename_i rank hrank
    split
    · rename_i hfollow
      rw [List.filterMap_cons_none (h.key_eq_none (by simp [Notice.severity]))]
      simp only [addSection, hhead, hrank, rankedSection, hfollow, if_true]
      exact h.append_toldOfBody f head.token g { p with lastRank := some rank }
    · rename_i hfollow
      exact htold (by simp only [addSection, hhead, hrank, rankedSection, hfollow]; rfl)
  · rename_i word hrank hword
    split
    · rename_i hskip
      rw [List.filterMap_cons_none (h.key_eq_none (by simp [Notice.severity]))]
      simp only [addSection, hhead, hword, Rank.ofToken?, skips, hskip, if_true]
      exact List.append_nil _
    · rename_i hskip
      exact htold (by simp only [addSection, hhead, hword, Rank.ofToken?, skips, hskip]; rfl)
  · rename_i hrank hword
    refine htold ?_
    simp only [addSection, hhead, hrank]
    split <;> rfl

private theorem Keeps.append_toldOfEvent (h : Keeps key list) (f : Frame) (p : Progress)
    (e : Event) :
    list p.domain ++ (toldOfEvent f p e).filterMap key = list (p.act f e).domain := by
  cases e with
  | header ls =>
    rw [toldOfEvent]
    split
    · rename_i name hname
      rw [List.filterMap_cons_none (h.key_eq_none (by simp [Notice.severity]))]
      simp only [act, addFrom, hname, h.named]
      exact List.append_nil _
    · rename_i why hwhy
      refine h.append_toldBy (fun p => act f p (.header ls)) ?_
      obtain ⟨d, heq⟩ := reportFailure_eq f p ls why "domain header" (endOf f ls)
      simp only [act, addFrom, hwhy, heq]
      exact List.prefix_rfl
  | item i =>
    cases i with
    | stray l => exact h.append_toldBy (fun p => act f p (.item (.stray l))) List.prefix_rfl
    | group g => exact h.append_toldOfSection f g p
  | strays ss => exact h.append_toldBy (fun p => act f p (.strays ss)) List.prefix_rfl
  | extra l => exact h.append_toldBy (fun p => act f p (.extra l)) List.prefix_rfl
  | ended expected => exact h.append_toldBy (fun p => act f p (.ended expected)) List.prefix_rfl

private theorem keeps_predicates :
    Keeps Notice.predicate? fun d => d.predicates.map fun p => (p.name, p.negated) where
  key_eq_none {n} hn := by cases n <;> first | rfl | exact absurd rfl hn
  additions_eq d d' := by
    simp [-List.map_drop, ← List.map_drop, additions, List.filterMap_map, Function.comp_def,
      Notice.predicate?]
  named _ _ := rfl
  typed _ _ := rfl
  grows root d x := by
    cases x with
    | predicates literals =>
      simp only [Grammar.Section.addTo, List.map_append]
      exact List.prefix_append ..
    | _ => exact List.prefix_rfl

private theorem keeps_tasks : Keeps Notice.task? fun d => d.tasks.map Task.name where
  key_eq_none {n} hn := by cases n <;> first | rfl | exact absurd rfl hn
  additions_eq d d' := by
    simp [-List.map_drop, ← List.map_drop, additions, List.filterMap_map, Function.comp_def,
      Notice.task?]
  named _ _ := rfl
  typed _ _ := rfl
  grows root d x := by
    cases x with
    | task signature =>
      simp only [Grammar.Section.addTo, List.map_append]
      exact List.prefix_append ..
    | _ => exact List.prefix_rfl

private theorem keeps_methods :
    Keeps Notice.method? fun d => d.methods.map fun m => (m.name, m.task.name) where
  key_eq_none {n} hn := by cases n <;> first | rfl | exact absurd rfl hn
  additions_eq d d' := by
    simp [-List.map_drop, ← List.map_drop, additions, List.filterMap_map, Function.comp_def,
      Notice.method?]
  named _ _ := rfl
  typed _ _ := rfl
  grows root d x := by
    cases x with
    | method rule =>
      simp only [Grammar.Section.addTo, List.map_append]
      exact List.prefix_append ..
    | _ => exact List.prefix_rfl

end Keeps

private theorem name_addSection (f : Frame) (g : Group) (p : Progress) :
    (p.addSection f g).domain.name = p.domain.name := by
  have hbody (head : Token) (q : Progress) :
      (q.sectionBody f head g).domain.name = q.domain.name := by
    rcases (sectionBody_addsAtMost f head g q).domain_eq with heq | ⟨x, -, heq⟩
    · rw [heq]
    · rw [heq]
      cases x <;> rfl
  rw [addSection]
  split
  · rfl
  split
  · rw [rankedSection]
    split
    · exact hbody _ _
    · rfl
  · split <;> rfl

private theorem name_act (f : Frame) (e : Event) (p : Progress) :
    (p.act f e).domain.name = e.headed?.getD p.domain.name := by
  cases e with
  | header ls =>
    rw [Event.headed?]
    cases hwhole : Production.header.whole (ls.map Lexeme.token) with
    | ok name =>
      simp only [act, addFrom, hwhole]
      rfl
    | error why =>
      obtain ⟨d, heq⟩ := reportFailure_eq f p ls why "domain header" (endOf f ls)
      simp only [act, addFrom, hwhole, heq]
      rfl
  | item i =>
    cases i with
    | stray l => rfl
    | group g => exact name_addSection f g p
  | strays ss | extra l | ended expected => rfl

private theorem ranks_toldAlong (f : Frame) (p : Progress) (es : List Event) :
    (toldAlong (toldOfEvent f) (act f) p es).filterMap Notice.rank? = admittedFrom f p es := by
  induction es generalizing p with
  | nil => rfl
  | cons e es ih => rw [toldAlong, List.filterMap_append, ranks_toldOfEvent, ih, admittedFrom]

private theorem name_toldAlong (f : Frame) (p : Progress) (es : List Event) :
    ((toldAlong (toldOfEvent f) (act f) p es).filterMap Notice.headed?).getLast?.getD
      p.domain.name = (es.foldl (act f) p).domain.name := by
  induction es generalizing p with
  | nil => rfl
  | cons e es ih =>
    rw [toldAlong, List.filterMap_append, names_toldOfEvent, List.foldl_cons, ← ih, name_act,
      List.getLast?_append]
    cases e.headed? with
    | none => rw [Option.toList_none, List.getLast?_nil, Option.or_none, Option.getD_none]
    | some name =>
      rw [Option.toList_some, List.getLast?_singleton, Option.getD_some, Option.getD_or]
      rfl

end Progress

section Readings
variable (s : Settings) (text : String)

/-- The log is told of the admitted sections. -/
theorem ranks_notices :
    (notices s text).filterMap Notice.rank? =
      Progress.admitted ⟨s, .ofText text⟩ (events (scan text)) :=
  Progress.ranks_toldAlong _ _ _

/-- The log is told of the name, predicates, tasks and methods of the domain. -/
theorem declarations_notices :
    ((notices s text).filterMap Notice.headed?).getLast?.getD "" =
      (readDomain s text).domain.name ∧
    (notices s text).filterMap Notice.predicate? =
      (readDomain s text).domain.predicates.map (fun p => (p.name, p.negated)) ∧
    (notices s text).filterMap Notice.task? = (readDomain s text).domain.tasks.map Task.name ∧
    (notices s text).filterMap Notice.method? =
      (readDomain s text).domain.methods.map fun m => (m.name, m.task.name) := by
  have hall {β : Type} {key : Notice → Option β} {list : Domain → List β}
      (h : Progress.Keeps key list) (hempty : list .empty = []) :
      (notices s text).filterMap key = list (readDomain s text).domain := by
    have hrun := Progress.Keeps.append_toldAlong (h.append_toldOfEvent ⟨s, .ofText text⟩) (.start s)
      (events (scan text))
    rw [Progress.start, hempty, List.nil_append] at hrun
    rw [readDomain_eq_foldl (course_events _)]
    exact hrun
  have hname := Progress.name_toldAlong ⟨s, .ofText text⟩ (.start s) (events (scan text))
  refine ⟨?_, hall Progress.keeps_predicates rfl, hall Progress.keeps_tasks rfl,
    hall Progress.keeps_methods rfl⟩
  rw [readDomain_eq_foldl (course_events _)]
  exact hname

end Readings
end PlanningDomain
