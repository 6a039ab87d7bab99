import PlanningDomain.Proofs.Grammar.Refusals
import PlanningDomain.Proofs.Reading.Course

/-! Recovery. Main statement: each group or lone token of the body is settled on its own. Either it
is a declaration and is added to the domain in silence, or it is none, and one diagnostic about it
is all that is left of it. -/
namespace PlanningDomain

open Grammar Reader

def Item.isOpen : Item → Bool
  | group g => !g.closed
  | stray _ => false

/-- A diagnostic about a token of the item, or about the end of a text that ends within it. -/
inductive Concerns (table : LineTable) (i : Item) : Diagnostic → Prop
  | lexeme {l : Lexeme} (h : l ∈ i.lexemes) (expected : String) :
      Concerns table i (.ofLexeme table l expected)
  | atEnd (h : i.isOpen = true) (expected : String) :
      Concerns table i (.atEnd expected table.endPoint)

/-- What an item with the given meanings does: the domain takes on its meaning and nothing is
reported, or the item has none and the domain stays, with one diagnostic about the item. -/
inductive Settles (table : LineTable) (i : Item) (meanings : (Domain → Domain) → Prop)
    (r : Reading) : Reading → Prop
  | accepted {add : Domain → Domain} (h : meanings add) :
      Settles table i meanings r ⟨add r.domain, r.log⟩
  | refused {d : Diagnostic} (h : ∀ add, ¬ meanings add) (hd : Concerns table i d) :
      Settles table i meanings r ⟨r.domain, r.log.report d⟩

/-- An item with the tokens of a section, behind sections that it may follow. -/
def MeansSection (root : String) (last : Option Rank) (i : Item) (add : Domain → Domain) : Prop :=
  ∃ x : Section, i.tokens = x.tokens ∧ x.rank.mayFollow last = true ∧
    add = fun d => x.addTo root d

def MeansLiteral (root : String) (i : Item) (add : Domain → Domain) : Prop :=
  ∃ l : Literal, i.tokens = l.tokens ∧
    add = fun d => { d with predicates := d.predicates ++ [l.meaning root] }

inductive SettlesEach (f : Frame) : List Item → Reading → Reading → Prop
  | nil {r : Reading} : SettlesEach f [] r r
  | cons {i : Item} {items : List Item} {r r' r'' : Reading}
      (h : Settles f.table i (MeansLiteral f.settings.rootType i) r r')
      (hitems : SettlesEach f items r' r'') : SettlesEach f (i :: items) r r''

def Group.AdmittedPredicates (g : Group) (last : Option Rank) : Prop :=
  g.tokens[1]? = some .predicates ∧ Rank.predicates.mayFollow last = true

/-- What an item of the body does. -/
inductive SettlesItem (f : Frame) (p : Progress) : Item → Reading → Prop
  | stray (l : Lexeme) (expected : String) :
      SettlesItem f p (.stray l) ⟨p.domain, p.log.report (.ofLexeme f.table l expected)⟩
  | group {g : Group} {r : Reading} (hg : ¬ g.AdmittedPredicates p.lastRank)
      (h : Settles f.table (.group g) (MeansSection f.settings.rootType p.lastRank (.group g))
        p.reading r) : SettlesItem f p (.group g) r
  | predicates {g : Group} {r : Reading} (hg : g.AdmittedPredicates p.lastRank)
      (hclosed : g.closed = true) (h : SettlesEach f (splitItems g.body) p.reading r) :
      SettlesItem f p (.group g) r
  | openPredicates {g : Group} {r : Reading} (hg : g.AdmittedPredicates p.lastRank)
      (hopen : g.closed = false) (h : SettlesEach f (splitItems g.body) p.reading r) :
      SettlesItem f p (.group g)
        ⟨r.domain, r.log.report (.atEnd "')' closing ':predicates'" f.table.endPoint)⟩

section Settles
variable {table : LineTable} {i : Item} {meanings others : (Domain → Domain) → Prop}

private theorem Settles.of_domain {p : Progress} (add : Domain → Domain) (h : meanings add) :
    Settles table i meanings p.reading { p with domain := add p.domain }.reading :=
  .accepted h

private theorem Settles.congr {r r' : Reading} (h : Settles table i meanings r r')
    (hiff : ∀ add, meanings add ↔ others add) : Settles table i others r r' := by
  obtain rfl : meanings = others := funext fun add => propext (hiff add)
  exact h

end Settles

private theorem Group.Proper.mem_of_viable {g : Group} {l : Language Token} (hg : g.Proper)
    (hclosed : g.closed = true)
    (hl : ∀ ts ∈ l, ∃ inner, ts = enclosed inner ∧ Balanced inner) (h : Viable l g.tokens) :
    g.tokens ∈ l := by
  obtain ⟨inner, hinner, hbalanced⟩ := hg.tokens_eq_enclosed hclosed
  obtain ⟨more, hmore⟩ := h
  obtain ⟨inner', hinner', hbalanced'⟩ := hl _ hmore
  obtain rfl : more = [] :=
    hbalanced.eq_nil_of_enclosed_append hbalanced' (hinner ▸ hinner')
  rwa [List.append_nil] at hmore

namespace Progress
variable {f : Frame} {g : Group} {p : Progress}

section AddGroup
variable {α τ : Type} {r : Reader α} {add : Domain → α → Domain} {tokens : τ → List Token}
  {asSection : τ → Section}

private theorem addGroup_settles (h : Recognizes f.settings.rootType r add tokens asSection)
    (hexplains : r.Explains {ts | ∃ x, ts = tokens x})
    (henclosed : ∀ x, ∃ inner, tokens x = enclosed inner ∧ Balanced inner) (hg : g.Proper)
    (context : String) (p : Progress) :
    Settles f.table (.group g)
      (fun add => ∃ x, g.tokens = tokens x ∧
        add = fun d => (asSection x).addTo f.settings.rootType d)
      p.reading (p.addGroup f r add context g).reading := by
  rw [addGroup]
  cases hout : r.whole g.tokens with
  | ok v =>
    obtain ⟨x, hx, -⟩ := h.sound (whole_eq_ok_iff.1 hout)
    rw [addFrom_of_tokens h hx]
    exact .of_domain (fun d => (asSection x).addTo f.settings.rootType d) ⟨x, hx, rfl⟩
  | error why =>
    have hnone (x : τ) : g.tokens ≠ tokens x := by
      intro hx
      obtain ⟨v, hv, -⟩ := h.complete x
      rw [hx, whole_eq_ok_iff.2 hv] at hout
      cases hout
    obtain ⟨front, back, heq, hblames, hreport⟩ := addFrom_of_error hexplains hout f add context
      (if g.closed then endOf f g.lexemes else f.table.endPoint) p
    rw [hreport]
    have hmeaningless : ∀ add, ¬ ∃ x, g.tokens = tokens x ∧
        add = fun d => (asSection x).addTo f.settings.rootType d := by
      rintro _ ⟨x, hx, -⟩
      exact hnone x hx
    refine .refused hmeaningless ?_
    cases back with
    | cons l back => exact .lexeme (by simp [Item.lexemes, heq]) _
    | nil =>
      rw [List.append_nil] at heq
      have hviable : Viable {ts | ∃ x, ts = tokens x} g.tokens := by
        rw [Group.tokens, heq]
        exact hblames.viable
      have hopen : ¬ g.closed = true := by
        intro hclosed
        obtain ⟨x, hx⟩ := hg.mem_of_viable hclosed
          (by rintro _ ⟨x, rfl⟩; exact henclosed x) hviable
        exact hnone x hx
      rw [if_neg hopen]
      exact .atEnd (by simpa [Item.isOpen] using hopen) _

end AddGroup

private theorem literal_tokens_ne (l : Literal) (t : Token) : [t] ≠ l.tokens := by
  obtain ⟨inner, hinner, -⟩ := l.tokens_eq_enclosed
  simp [hinner, enclosed]

private theorem predicateItem_settles (p : Progress) {i : Item}
    (hi : ∀ g, i = .group g → g.Proper) :
    Settles f.table i (MeansLiteral f.settings.rootType i) p.reading
      (p.predicateItem f i).reading := by
  cases i with
  | stray l =>
    refine .refused ?_ (.lexeme (by simp [Item.lexemes]) _)
    rintro _ ⟨x, hx, -⟩
    exact literal_tokens_ne x _ hx
  | group g =>
    have hadd : Settles f.table (.group g) (MeansLiteral f.settings.rootType (.group g)) p.reading
        (p.addGroup f Production.predicate (Domain.addPredicate f.settings.rootType) "predicate"
          g).reading :=
      addGroup_settles (recognizes_predicate _) Part.predicate.explains_production
        Literal.tokens_eq_enclosed (hi g rfl) _ p
    rw [predicateItem]
    split
    · rename_i head hhead
      split
      · rename_i hopens
        refine .refused ?_ (.lexeme (List.mem_of_getElem? hhead) _)
        rintro _ ⟨x, hx, -⟩
        have hsecond : x.tokens[1]? = some head.token := by
          rw [← hx]
          exact g.head?_map_token.symm.trans (by rw [hhead]; rfl)
        simp [opensSection_literal hsecond] at hopens
      · exact hadd
    · exact hadd

theorem foldl_predicateItem_settles {items : List Item} (hitems : ∀ g, .group g ∈ items → g.Proper)
    (p : Progress) :
    SettlesEach f items p.reading (items.foldl (predicateItem f) p).reading := by
  induction items generalizing p with
  | nil => exact .nil
  | cons i items ih =>
    refine .cons (predicateItem_settles p ?_)
      (ih (fun g hg => hitems g (List.mem_cons_of_mem _ hg)) _)
    rintro g rfl
    exact hitems g List.mem_cons_self

private theorem marker_of_tokens {x : Section} {head : Lexeme} (hhead : g.head? = some head)
    (hx : g.tokens = x.tokens) : x.marker = head.token := by
  have hsecond := g.head?_map_token
  rw [hhead, hx, Section.tokens, x.inner_eq] at hsecond
  exact (Option.some.inj hsecond).symm

private theorem addGroup_settles_section {α τ : Type} {r : Reader α} {add : Domain → α → Domain}
    {asSection : τ → Section} {head : Lexeme} {last : Option Rank}
    (h : Recognizes f.settings.rootType r add (fun x => (asSection x).tokens) asSection)
    (hexplains : r.Explains {ts | ∃ x, ts = (asSection x).tokens}) (hg : g.Proper)
    (hhead : g.head? = some head)
    (hall : ∀ y : Section, y.marker = head.token → ∃ x, y = asSection x)
    (hfollow : ∀ x, (asSection x).rank.mayFollow last = true) (context : String) (p : Progress) :
    Settles f.table (.group g) (MeansSection f.settings.rootType last (.group g)) p.reading
      (p.addGroup f r add context g).reading := by
  refine (addGroup_settles h hexplains (fun x => ⟨_, rfl, (asSection x).balanced_inner⟩) hg context
    p).congr fun add => ⟨?_, ?_⟩
  · rintro ⟨x, hx, rfl⟩
    exact ⟨asSection x, hx, hfollow x, rfl⟩
  · rintro ⟨y, hy, -, rfl⟩
    obtain ⟨x, rfl⟩ := hall y (marker_of_tokens hhead hy)
    exact ⟨x, hy, rfl⟩

private theorem sectionBody_settles (hg : g.Proper) {head : Lexeme} (hhead : g.head? = some head)
    {rank : Rank} (hrank : Rank.ofToken? head.token = some rank) {last : Option Rank}
    (hfollow : rank.mayFollow last = true) (hpredicates : ¬ g.AdmittedPredicates last)
    (p : Progress) :
    Settles f.table (.group g) (MeansSection f.settings.rootType last (.group g)) p.reading
      (p.sectionBody f head.token g).reading := by
  have hrankOf (x : Section) (hx : x.marker = head.token) : x.rank.mayFollow last = true := by
    rw [← hx, x.ofToken?_marker] at hrank
    rwa [Option.some.inj hrank]
  cases htoken : head.token with
  | requirements =>
    rw [htoken] at hrankOf
    exact addGroup_settles_section (recognizes_requirements _) Part.requirements.explains_production
      hg hhead (fun y hy => by cases y <;> simp_all [Section.marker])
      (fun _ => hrankOf _ rfl) _ p
  | types =>
    rw [htoken] at hrankOf
    exact addGroup_settles_section (recognizes_types _) Part.types.explains_production
      hg hhead (fun y hy => by cases y <;> simp_all [Section.marker])
      (fun _ => hrankOf _ rfl) _ p
  | predicates =>
    refine absurd ⟨?_, ?_⟩ hpredicates
    · rw [← g.head?_map_token, hhead, Option.map_some, htoken]
    · rw [htoken] at hrank
      rwa [Option.some.inj hrank]
  | task =>
    rw [htoken] at hrankOf
    exact addGroup_settles_section (recognizes_task _) Part.task.explains_production
      hg hhead (fun y hy => by cases y <;> simp_all [Section.marker])
      (fun _ => hrankOf _ rfl) _ p
  | method =>
    rw [htoken] at hrankOf
    exact addGroup_settles_section (recognizes_method _) Part.method.explains_production
      hg hhead (fun y hy => by cases y <;> simp_all [Section.marker])
      (fun _ => hrankOf _ rfl) _ p
  | _ =>
    rw [htoken] at hrank
    cases hrank

/-- A group that is not passed over is settled. -/
theorem addSection_settles (hg : g.Proper)
    (hskip : ∀ head ∈ g.head?, skips f.settings head.token = false)
    (hpredicates : ¬ g.AdmittedPredicates p.lastRank) :
    Settles f.table (.group g) (MeansSection f.settings.rootType p.lastRank (.group g)) p.reading
      (p.addSection f g).reading := by
  rw [addSection]
  split
  · rename_i hhead
    refine .refused ?_ (.atEnd ?_ _)
    · rintro _ ⟨x, hx, -⟩
      have hsecond := g.head?_map_token
      rw [hhead, show g.tokens = x.tokens from hx, Section.tokens, x.inner_eq] at hsecond
      cases hsecond
    · cases hg with
      | closed => simp [Group.head?] at hhead
      | unclosed => rfl
  rename_i head hhead
  have hmem : head ∈ (Item.group g).lexemes := List.mem_of_getElem? hhead
  split
  · rename_i rank hrank
    rw [rankedSection]
    split
    · rename_i hfollow
      exact sectionBody_settles hg hhead hrank hfollow hpredicates { p with lastRank := some rank }
    · rename_i hfollow
      refine .refused ?_ (.lexeme hmem _)
      rintro _ ⟨x, hx, hx', -⟩
      rw [← marker_of_tokens hhead hx, x.ofToken?_marker] at hrank
      exact hfollow (Option.some.inj hrank ▸ hx')
  · rename_i hrank
    rw [if_neg (by simp [hskip head hhead])]
    refine .refused ?_ (.lexeme hmem _)
    rintro _ ⟨x, hx, -⟩
    rw [← marker_of_tokens hhead hx, x.ofToken?_marker] at hrank
    cases hrank

theorem addSection_of_admittedPredicates (h : g.AdmittedPredicates p.lastRank) :
    p.addSection f g = { p with lastRank := some .predicates }.predicatesSection f g := by
  obtain ⟨hsecond, hfollow⟩ := h
  rw [← g.head?_map_token] at hsecond
  obtain ⟨head, hhead, htoken⟩ := Option.map_eq_some_iff.1 hsecond
  simp [addSection, hhead, htoken, Rank.ofToken?, rankedSection, hfollow, sectionBody]

private theorem act_item_settles (hskip : f.settings.skipUnknownSections = false) {i : Item}
    (hi : ∀ g, i = .group g → g.Proper) (p : Progress) :
    SettlesItem f p i (p.act f (.item i)).reading := by
  cases i with
  | stray l => exact .stray l _
  | group g =>
    have hg := hi g rfl
    rw [act]
    by_cases hpredicates : g.AdmittedPredicates p.lastRank
    · have heach := foldl_predicateItem_settles (f := f)
        (fun _ => (splits_splitItems g.body).proper) { p with lastRank := some .predicates }
      rw [addSection_of_admittedPredicates hpredicates, predicatesSection]
      split
      · rename_i hclosed
        exact .predicates hpredicates hclosed heach
      · rename_i hopen
        exact .openPredicates hpredicates (Bool.eq_false_iff.2 hopen) heach
    · refine .group hpredicates (addSection_settles hg (fun head _ => ?_) hpredicates)
      cases head.token <;> simp [skips, hskip]

end Progress

open Progress (takeHeader)

/-- Each item between the header and the parenthesis that closes the domain is settled where its
turn comes, by itself. -/
theorem settles_every_item (root : String) (maxErrors : Nat) (text : String) :
    let f : Frame := ⟨⟨root, false, maxErrors⟩, .ofText text⟩
    ∃ es, Course (scan text) es ∧
      es.filterMap Event.item? =
        (splitItems ((takeHeader (scan text)).2.filterMap Scanned.lexeme?)).takeWhile
          (fun i => !i.closes) ∧
      readDomain f.settings text = (es.foldl (Progress.act f) (.start f.settings)).reading ∧
      ∀ before i after, es = before ++ .item i :: after →
        SettlesItem f (before.foldl (Progress.act f) (.start f.settings)) i
          ((before ++ [.item i]).foldl (Progress.act f) (.start f.settings)).reading := by
  intro f
  obtain ⟨es, hcourse⟩ := exists_course (scan text)
  refine ⟨es, hcourse, hcourse.items_eq, readDomain_eq_foldl hcourse _, ?_⟩
  rintro before i after rfl
  rw [List.foldl_append]
  refine Progress.act_item_settles rfl ?_ _
  rintro g rfl
  exact hcourse.proper (by simp)

/-- A section that is added, a lone name, predicates of which one is none, and a task without
parameters. -/
theorem settles_every_item_mixed :
    let text := "(define (domain d) (:types a) x (:predicates (p) y) (:task t))"
    let f : Frame := ⟨.standard, .ofText text⟩
    ∃ es, Course (scan text) es ∧
      (es.filterMap Event.item?).map Item.tokens =
        [[.openParen, .types, .name "a", .closeParen], [.name "x"],
          [.openParen, .predicates, .openParen, .name "p", .closeParen, .name "y", .closeParen],
          [.openParen, .task, .name "t", .closeParen]] ∧
      readDomain .standard text =
        ⟨{ Domain.empty with
            name := "d", types := NameMap.empty.insert "a" "object"
            predicates := [⟨"p", false, .empty⟩] },
          (DiagnosticLog.empty 100).reportAll
            [.unexpected "'x'" "'(' or ')'" ⟨⟨1, 31⟩, ⟨1, 32⟩⟩,
              .unexpected "'y'" "predicate" ⟨⟨1, 50⟩, ⟨1, 51⟩⟩,
              .unexpected "')'" "':parameters'" ⟨⟨1, 61⟩, ⟨1, 62⟩⟩]⟩ ∧
      ∀ before i after, es = before ++ .item i :: after →
        SettlesItem f (before.foldl (Progress.act f) (.start .standard)) i
          ((before ++ [.item i]).foldl (Progress.act f) (.start .standard)).reading := by
  intro text f
  obtain ⟨es, hcourse, hitems, -, hsettles⟩ := settles_every_item "object" 100 text
  refine ⟨es, hcourse, ?_, ?_, hsettles⟩
  · rw [hitems]
    decide +kernel
  · decide +kernel

end PlanningDomain
