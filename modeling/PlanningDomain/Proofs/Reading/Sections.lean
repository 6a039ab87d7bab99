import PlanningDomain.Proofs.Grammar.Meaning
import PlanningDomain.Proofs.Syntax.Groups
import PlanningDomain.Syntax.Progress

/-! What one group of the body does. Main statements: whatever the group is, it adds sections whose
tokens it has, and reports diagnostics; and it reports none only for a section in its place or for a
group that the settings let pass. -/
namespace PlanningDomain

namespace DiagnosticLog

theorem reportAll_append (log : DiagnosticLog) (ds es : List Diagnostic) :
    log.reportAll (ds ++ es) = (log.reportAll ds).reportAll es :=
  List.foldl_append

theorem total_reportAll (log : DiagnosticLog) (ds : List Diagnostic) :
    (log.reportAll ds).total = log.total + ds.length := by
  induction ds generalizing log with
  | nil => rfl
  | cons d ds ih =>
    rw [reportAll, List.foldl_cons, ← reportAll, ih, List.length_cons]
    simp only [report]
    omega

end DiagnosticLog

namespace Grammar.Section

def marker : Section → Token
  | requirements _ => .requirements
  | types _ => .types
  | predicates _ => .predicates
  | task _ => .task
  | method _ => .method

def content (x : Section) : List Token := x.inner.tail

def rank : Section → Rank
  | requirements _ => .requirements
  | types _ => .types
  | predicates _ => .predicates
  | task _ => .body
  | method _ => .body

theorem inner_eq (x : Section) : x.inner = x.marker :: x.content := by
  cases x <;> rfl

theorem ofToken?_marker (x : Section) : Rank.ofToken? x.marker = some x.rank := by
  cases x <;> rfl

end Grammar.Section

namespace Progress

open Grammar Reader

/-- One part of a reading: from one state to the next, with the sections that it added and the
diagnostics that it reported. -/
structure Adds (root : String) (p q : Progress) (xs : List Section) (ds : List Diagnostic) :
    Prop where
  domain_eq : q.domain = xs.foldl (Section.addTo root) p.domain
  log_eq : q.log = p.log.reportAll ds

namespace Adds
variable {root : String} {p q r : Progress} {xs ys : List Section} {ds es : List Diagnostic}

theorem refl (root : String) (p : Progress) : Adds root p p [] [] := ⟨rfl, rfl⟩

theorem report (root : String) (p : Progress) (d : Diagnostic) :
    Adds root p (p.report d) [] [d] := ⟨rfl, rfl⟩

theorem trans (h : Adds root p q xs ds) (h' : Adds root q r ys es) :
    Adds root p r (xs ++ ys) (ds ++ es) where
  domain_eq := by rw [h'.domain_eq, h.domain_eq, List.foldl_append]
  log_eq := by rw [h'.log_eq, h.log_eq, DiagnosticLog.reportAll_append]

end Adds

/-- A production for trees of one kind. A tree yields tokens, and what the production makes of it
does to a domain what a section does. -/
structure Recognizes {α τ : Type} (root : String) (production : Reader α)
    (add : Domain → α → Domain) (tokens : τ → List Token) (asSection : τ → Section) : Prop where
  sound : ∀ {ts v}, production.Reads ts v [] →
    ∃ x, ts = tokens x ∧ ∀ d, add d v = (asSection x).addTo root d
  complete : ∀ x, ∃ v, production.Reads (tokens x) v [] ∧
    ∀ d, add d v = (asSection x).addTo root d

section Recognizes
variable {α τ : Type} {root : String} {production : Reader α} {add : Domain → α → Domain}
  {tokens : τ → List Token} {asSection : τ → Section}

private theorem recognizes (form : τ → α)
    (h : ∀ {ts v rest}, production.Reads ts v rest ↔ ∃ x, ts = tokens x ++ rest ∧ form x = v)
    (hadd : ∀ x d, add d (form x) = (asSection x).addTo root d) :
    Recognizes root production add tokens asSection where
  sound hr := by
    obtain ⟨x, rfl, rfl⟩ := h.1 hr
    exact ⟨x, List.append_nil _, hadd x⟩
  complete x := ⟨form x, h.2 ⟨x, (List.append_nil _).symm, rfl⟩, hadd x⟩

variable {f : Frame} {context : String} {ls : List Lexeme} {place : Span} {p : Progress}

theorem addFrom_of_tokens (h : Recognizes root production add tokens asSection) {x : τ}
    (hx : ls.map Lexeme.token = tokens x) :
    p.addFrom f production add context ls place =
      { p with domain := (asSection x).addTo root p.domain } := by
  obtain ⟨v, hv, hadd⟩ := h.complete x
  rw [addFrom, hx, whole_eq_ok_iff.2 hv, ← hadd]

theorem reportFailure_eq (f : Frame) (p : Progress) (ls : List Lexeme) (why : Failure)
    (context : String) (place : Span) :
    ∃ d, p.reportFailure f ls why context place = p.report d := by
  rw [reportFailure]
  split
  · exact ⟨_, rfl⟩
  · exact ⟨_, rfl⟩

/-- Lexemes are added as what a tree yields, or else reported. -/
theorem addFrom_eq (h : Recognizes root production add tokens asSection) (f : Frame)
    (context : String) (ls : List Lexeme) (place : Span) (p : Progress) :
    (∃ x, ls.map Lexeme.token = tokens x ∧ p.addFrom f production add context ls place =
      { p with domain := (asSection x).addTo root p.domain }) ∨
    ∃ d, p.addFrom f production add context ls place = p.report d := by
  rw [addFrom]
  split
  · rename_i v hv
    obtain ⟨x, hx, hadd⟩ := h.sound (whole_eq_ok_iff.1 hv)
    exact .inl ⟨x, hx, by rw [hadd]⟩
  · exact .inr (reportFailure_eq ..)

end Recognizes

section Productions
variable (root : String)

theorem recognizes_requirements : Recognizes root Production.requirements
    (fun d flags => flags.foldl Domain.addRequirement d)
    (fun flags => (Section.requirements flags).tokens) .requirements :=
  recognizes id (by simp [requirements_reads_iff]) foldl_addRequirement

theorem recognizes_types : Recognizes root Production.types (Domain.addTypes root)
    (fun list => (Section.types list).tokens) .types :=
  recognizes (fun list => coarsen list.runs) types_reads_iff addTypes_coarsen

theorem recognizes_predicate : Recognizes root Production.predicate (Domain.addPredicate root)
    Literal.tokens (fun l => .predicates [l]) :=
  recognizes Literal.form predicate_reads_iff fun l => foldl_addPredicate [l]

theorem recognizes_task : Recognizes root Production.task (Domain.addTask root)
    (fun s => (Section.task s).tokens) .task :=
  recognizes Signature.form task_reads_iff addTask_form

theorem recognizes_method : Recognizes root Production.method (Domain.addMethod root)
    (fun m => (Section.method m).tokens) .method :=
  recognizes MethodRule.form method_reads_iff addMethod_form

end Productions

section Predicates
variable {f : Frame}

theorem opensSection_literal {l : Literal} {t : Token} (h : l.tokens[1]? = some t) :
    t.opensSection = false := by
  obtain ⟨_ | _, s⟩ := l
  · obtain rfl : Token.name s.name = t := Option.some.inj h
    rfl
  · obtain rfl : Token.not = t := Option.some.inj h
    rfl

private theorem predicateItem_of_tokens {g : Group} {l : Literal} (hg : g.tokens = l.tokens)
    (p : Progress) :
    p.predicateItem f (.group g) =
      { p with domain := (Section.predicates [l]).addTo f.settings.rootType p.domain } := by
  have hadd : p.addGroup f Production.predicate (Domain.addPredicate f.settings.rootType)
      "predicate" g =
      { p with domain := (Section.predicates [l]).addTo f.settings.rootType p.domain } :=
    addFrom_of_tokens (recognizes_predicate _) hg
  rw [predicateItem]
  split
  · rename_i head hh
    have hsecond : l.tokens[1]? = some head.token := by
      rw [← hg, ← g.head?_map_token, hh]
      rfl
    rw [if_neg (by simp [opensSection_literal hsecond]), hadd]
  · exact hadd

/-- An item is added as a literal, or else reported. -/
theorem predicateItem_eq (f : Frame) (p : Progress) (i : Item) :
    (∃ l : Literal, i.tokens = l.tokens ∧ p.predicateItem f i =
      { p with domain := (Section.predicates [l]).addTo f.settings.rootType p.domain }) ∨
    ∃ d, p.predicateItem f i = p.report d := by
  cases i with
  | stray l => exact .inr ⟨_, rfl⟩
  | group g =>
    have hadd := addFrom_eq (recognizes_predicate f.settings.rootType) f "predicate" g.lexemes
      (if g.closed then endOf f g.lexemes else f.table.endPoint) p
    rw [predicateItem]
    split
    · split
      · exact .inr ⟨_, rfl⟩
      · exact hadd
    · exact hadd

private theorem foldl_predicateItem_of_tokens {gs : List Group} {literals : List Literal}
    (h : gs.map Group.tokens = literals.map Literal.tokens) (p : Progress) :
    (gs.map Item.group).foldl (predicateItem f) p =
      { p with domain := (Section.predicates literals).addTo f.settings.rootType p.domain } := by
  induction gs generalizing literals p with
  | nil =>
    obtain rfl : literals = [] := by simpa using h.symm
    simp [Section.addTo]
  | cons g gs ih =>
    obtain ⟨l, literals, rfl, hl, hliterals⟩ := List.map_eq_cons_iff.1 h.symm
    rw [List.map_cons, List.foldl_cons, predicateItem_of_tokens hl.symm, ih hliterals.symm]
    simp [Section.addTo]

/-- The items add literals whose tokens they have. In silence, nothing is left out. -/
private theorem foldl_predicateItem_adds (f : Frame) (items : List Item) (p : Progress) :
    ∃ literals ds,
      Adds f.settings.rootType p (items.foldl (predicateItem f) p) [.predicates literals] ds ∧
      (items.foldl (predicateItem f) p).lastRank = p.lastRank ∧
      (∀ t ∈ literals.flatMap Literal.tokens, t ∈ items.flatMap Item.tokens) ∧
      (ds = [] → literals.flatMap Literal.tokens = items.flatMap Item.tokens) := by
  induction items generalizing p with
  | nil =>
    refine ⟨[], [], ⟨?_, rfl⟩, rfl, by simp, by simp⟩
    simp [Section.addTo]
  | cons i items ih =>
    rw [List.foldl_cons]
    rcases predicateItem_eq f p i with ⟨l, hl, heq⟩ | ⟨d, heq⟩
    · rw [heq]
      obtain ⟨literals, ds, hadds, hrank, hmem, hquiet⟩ := ih _
      refine ⟨l :: literals, ds, ⟨?_, hadds.log_eq⟩, hrank, ?_, fun hds => ?_⟩
      · rw [hadds.domain_eq]
        simp [Section.addTo]
      · rw [List.flatMap_cons, List.flatMap_cons, hl]
        exact fun t ht => List.mem_append.2 ((List.mem_append.1 ht).imp_right (hmem t))
      · rw [List.flatMap_cons, List.flatMap_cons, hl, hquiet hds]
    · rw [heq]
      obtain ⟨literals, ds, hadds, hrank, hmem, -⟩ := ih (p.report d)
      refine ⟨literals, [d] ++ ds, (Adds.report _ p d).trans hadds, hrank, ?_, by simp⟩
      rw [List.flatMap_cons]
      exact fun t ht => List.mem_append_right _ (hmem t ht)

/-- The same for the whole section. In silence, it is closed. -/
theorem predicatesSection_adds (f : Frame) (g : Group) (p : Progress) :
    ∃ literals ds,
      Adds f.settings.rootType p (p.predicatesSection f g) [.predicates literals] ds ∧
      (p.predicatesSection f g).lastRank = p.lastRank ∧
      (∀ t ∈ literals.flatMap Literal.tokens, t ∈ g.body.map Lexeme.token) ∧
      (ds = [] → g.closed = true ∧
        literals.flatMap Literal.tokens = g.body.map Lexeme.token) := by
  obtain ⟨literals, ds, hadds, hrank, hmem, hquiet⟩ :=
    foldl_predicateItem_adds f (splitItems g.body) p
  rw [flatMap_tokens_splitItems] at hmem hquiet
  rw [predicatesSection]
  cases hclosed : g.closed with
  | true => exact ⟨literals, ds, hadds, hrank, hmem, fun hds => ⟨rfl, hquiet hds⟩⟩
  | false =>
    exact ⟨literals, ds ++ [.atEnd "')' closing ':predicates'" f.table.endPoint],
      hadds.trans (Adds.report _ _ _), hrank, hmem, by simp⟩

end Predicates

section Sections
variable {f : Frame} {g : Group}

private theorem body_map_token_of_tokens {head : Token} {content : List Token}
    (h : g.tokens = enclosed (head :: content)) (hclosed : g.closed = true) :
    g.body.map Lexeme.token = content := by
  rw [g.body_map_token, if_pos hclosed, h]
  simp [enclosed]

private theorem sectionBody_of_tokens {x : Section} (hg : g.Proper) (hx : g.tokens = x.tokens)
    (p : Progress) :
    p.sectionBody f x.marker g =
      { p with domain := x.addTo f.settings.rootType p.domain } := by
  have hclosed := hg.closed_iff_balanced.2 (hx ▸ x.balanced_tokens)
  cases x with
  | requirements flags => exact addFrom_of_tokens (recognizes_requirements _) hx
  | types list => exact addFrom_of_tokens (recognizes_types _) hx
  | predicates literals =>
    have hbody : g.body.map Lexeme.token = literals.flatMap Literal.tokens :=
      body_map_token_of_tokens hx hclosed
    obtain ⟨gs, hsplit, hgs⟩ :=
      splitItems_eq_of_flatMap (fun l _ => l.tokens_eq_enclosed) hbody
    change p.predicatesSection f g = _
    rw [predicatesSection, hsplit, if_pos hclosed]
    exact foldl_predicateItem_of_tokens hgs p
  | task signature => exact addFrom_of_tokens (recognizes_task _) hx
  | method rule => exact addFrom_of_tokens (recognizes_method _) hx

private theorem addGroup_adds {α τ : Type} {production : Reader α} {add : Domain → α → Domain}
    {asSection : τ → Section}
    (h : Recognizes f.settings.rootType production add (fun x => (asSection x).tokens) asSection)
    (g : Group) (context : String) (p : Progress) :
    ∃ xs ds, Adds f.settings.rootType p (p.addGroup f production add context g) xs ds ∧
      (p.addGroup f production add context g).lastRank = p.lastRank ∧
      (∀ x ∈ xs, ∀ t ∈ x.tokens, t ∈ Token.closeParen :: g.tokens) ∧
      (ds = [] → ∃ x, xs = [x] ∧ g.tokens = x.tokens) := by
  rw [addGroup]
  rcases addFrom_eq h f context g.lexemes _ p with ⟨x, hx, heq⟩ | ⟨d, heq⟩
  · rw [heq]
    refine ⟨[asSection x], [], ⟨rfl, rfl⟩, rfl, ?_, fun _ => ⟨asSection x, rfl, hx⟩⟩
    rintro y hy t ht
    rw [List.mem_singleton.1 hy, ← hx] at ht
    exact List.mem_cons_of_mem _ ht
  · rw [heq]
    exact ⟨[], [d], Adds.report _ p d, rfl, by simp, by simp⟩

/-- A group with the head of a section adds sections whose tokens it has. In silence, it is that
section itself. -/
private theorem sectionBody_adds (hg : g.Proper) {head : Token} {rank : Rank}
    (hrank : Rank.ofToken? head = some rank) (hhead : g.tokens[1]? = some head) (p : Progress) :
    ∃ xs ds, Adds f.settings.rootType p (p.sectionBody f head g) xs ds ∧
      (p.sectionBody f head g).lastRank = p.lastRank ∧
      (∀ x ∈ xs, ∀ t ∈ x.tokens, t ∈ Token.closeParen :: g.tokens) ∧
      (ds = [] → ∃ x, xs = [x] ∧ g.tokens = x.tokens) := by
  cases head with
  | requirements => exact addGroup_adds (recognizes_requirements _) g _ p
  | types => exact addGroup_adds (recognizes_types _) g _ p
  | task => exact addGroup_adds (recognizes_task _) g _ p
  | method => exact addGroup_adds (recognizes_method _) g _ p
  | predicates =>
    change ∃ xs ds, Adds _ p (p.predicatesSection f g) xs ds ∧ _
    obtain ⟨literals, ds, hadds, hlast, hmem, hquiet⟩ := predicatesSection_adds f g p
    refine ⟨[.predicates literals], ds, hadds, hlast, ?_, fun hds => ?_⟩
    · have hopen : Token.openParen ∈ g.tokens := List.mem_of_mem_head? hg.head?_tokens
      have hmarker : Token.predicates ∈ g.tokens := List.mem_of_getElem? hhead
      rintro x hx t ht
      rw [List.mem_singleton.1 hx] at ht
      simp only [Section.tokens, Section.inner, enclosed, List.cons_append, List.mem_cons,
        List.mem_append, List.not_mem_nil, or_false] at ht
      rcases ht with rfl | rfl | ht | rfl
      · exact List.mem_cons_of_mem _ hopen
      · exact List.mem_cons_of_mem _ hmarker
      · exact List.mem_cons_of_mem _ (Group.mem_tokens_of_mem_body (hmem t ht))
      · exact List.mem_cons_self
    · obtain ⟨hclosed, hbody⟩ := hquiet hds
      refine ⟨.predicates literals, rfl, ?_⟩
      obtain ⟨_ | ⟨first, content⟩, heq, -⟩ := hg.tokens_eq_enclosed hclosed
      · simp [heq, enclosed] at hhead
      · obtain rfl : first = .predicates := by simpa [heq, enclosed] using hhead
        rw [body_map_token_of_tokens heq hclosed] at hbody
        rw [heq, Section.tokens, Section.inner, hbody]
  | _ => cases hrank

end Sections

/-- What a group of the body may be without a diagnostic. -/
inductive Admits (s : Settings) (last : Option Rank) (ts : List Token) :
    List Section → Option Rank → Prop
  | placed (x : Section) (hx : ts = x.tokens) (hrank : x.rank.mayFollow last = true) :
      Admits s last ts [x] (some x.rank)
  | skipped {word : String} (hskip : s.skipUnknownSections = true)
      (hhead : ts[1]? = some (.keyword word)) : Admits s last ts [] last

/-- A section closes its own parenthesis, so a group without an end can only be passed over. -/
theorem Admits.eq_keyword_of_isSome {s : Settings} {last next : Option Rank} {inner : List Token}
    {xs : List Section} (h : Admits s last (.openParen :: inner) xs next)
    (hopen : (openAfter 0 inner).isSome) :
    s.skipUnknownSections = true ∧ ∃ word rest, inner = .keyword word :: rest := by
  cases h with
  | placed x hx =>
    obtain rfl := (List.cons.inj hx).2
    rw [openAfter_append, x.balanced_inner.openAfter_eq] at hopen
    simp at hopen
  | @skipped word hskip hhead =>
    cases inner with
    | nil => simp at hhead
    | cons t rest =>
      obtain rfl : t = .keyword word := by simpa using hhead
      exact ⟨hskip, word, rest, rfl⟩

section Groups
variable {f : Frame} {g : Group}

private theorem addSection_of_tokens {x : Section} (hg : g.Proper) (hx : g.tokens = x.tokens)
    {p : Progress} (hrank : x.rank.mayFollow p.lastRank = true) :
    p.addSection f g =
      { p with
        domain := x.addTo f.settings.rootType p.domain
        lastRank := some x.rank } := by
  have hhead : g.head?.map Lexeme.token = some x.marker := by
    rw [g.head?_map_token, hx, Section.tokens, x.inner_eq]
    rfl
  obtain ⟨head, hh, hmarker⟩ := Option.map_eq_some_iff.1 hhead
  simp only [addSection, hh, hmarker, x.ofToken?_marker, rankedSection]
  rw [if_pos hrank, sectionBody_of_tokens hg hx]

/-- A group that the settings let pass changes nothing. -/
theorem addSection_of_keyword {word : String} (hskip : f.settings.skipUnknownSections = true)
    (hhead : g.tokens[1]? = some (.keyword word)) (p : Progress) : p.addSection f g = p := by
  rw [← g.head?_map_token] at hhead
  obtain ⟨head, hh, hword⟩ := Option.map_eq_some_iff.1 hhead
  simp [addSection, hh, hword, Rank.ofToken?, skips, hskip]

theorem addSection_of_admits (hg : g.Proper) {p : Progress} {xs : List Section}
    {next : Option Rank} (h : Admits f.settings p.lastRank g.tokens xs next) :
    p.addSection f g =
      { p with
        domain := xs.foldl (Section.addTo f.settings.rootType) p.domain
        lastRank := next } := by
  cases h with
  | placed x hx hrank => exact addSection_of_tokens hg hx hrank
  | skipped hskip hhead => exact addSection_of_keyword hskip hhead p

/-- A group adds sections whose tokens it has. In silence, it is admitted. -/
theorem addSection_adds (hg : g.Proper) (p : Progress) :
    ∃ xs ds, Adds f.settings.rootType p (p.addSection f g) xs ds ∧
      (∀ x ∈ xs, ∀ t ∈ x.tokens, t ∈ Token.closeParen :: g.tokens) ∧
      (ds = [] → Admits f.settings p.lastRank g.tokens xs (p.addSection f g).lastRank) := by
  have hreport (d : Diagnostic) : ∃ xs ds, Adds f.settings.rootType p (p.report d) xs ds ∧
      (∀ x ∈ xs, ∀ t ∈ x.tokens, t ∈ Token.closeParen :: g.tokens) ∧
      (ds = [] → Admits f.settings p.lastRank g.tokens xs (p.report d).lastRank) :=
    ⟨[], [d], Adds.report _ p d, by simp, by simp⟩
  have hsecond := g.head?_map_token
  rw [addSection]
  split
  · exact hreport _
  rename_i head hh
  rw [hh, Option.map_some] at hsecond
  split
  · rename_i rank hrank
    rw [rankedSection]
    split
    · rename_i hfollow
      obtain ⟨xs, ds, hadds, hlast, hmem, hquiet⟩ := sectionBody_adds (f := f) hg hrank hsecond.symm
        { p with lastRank := some rank }
      refine ⟨xs, ds, ⟨hadds.domain_eq, hadds.log_eq⟩, hmem, fun hds => ?_⟩
      obtain ⟨x, rfl, hx⟩ := hquiet hds
      obtain rfl : x.rank = rank := by
        rw [hx, Section.tokens, x.inner_eq] at hsecond
        obtain hmarker : head.token = x.marker := Option.some.inj hsecond
        rw [hmarker, x.ofToken?_marker] at hrank
        exact Option.some.inj hrank
      rw [hlast]
      exact .placed x hx hfollow
    · exact hreport _
  · split
    · rename_i hskips
      refine ⟨[], [], Adds.refl _ p, by simp, fun _ => ?_⟩
      cases hword : head.token with
      | keyword word =>
        rw [hword] at hskips hsecond
        exact .skipped hskips hsecond.symm
      | _ =>
        rw [hword] at hskips
        cases hskips
    · exact hreport _

end Groups

end Progress
end PlanningDomain
