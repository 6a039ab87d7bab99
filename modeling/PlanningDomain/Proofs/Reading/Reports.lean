import PlanningDomain.Proofs.Reading.Growth
import PlanningDomain.Proofs.Reading.Recovery

/-! What each event reports. Main statement: a header or an item is told about its own lexemes, and
about the end of the text only where the text ends within it; the items of a predicates section are
told about in their order, each at most once. -/
namespace PlanningDomain

open Grammar Reader

/-- Diagnostics about some items, in order and at most one about each. -/
inductive Remarks (table : LineTable) : List Item → List Diagnostic → Prop
  | nil : Remarks table [] []
  | silent (i : Item) {items : List Item} {ds : List Diagnostic} (hitems : Remarks table items ds) :
      Remarks table (i :: items) ds
  | remark {i : Item} {d : Diagnostic} {items : List Item} {ds : List Diagnostic}
      (h : Concerns table i d) (hitems : Remarks table items ds) :
      Remarks table (i :: items) (d :: ds)

/-- What an event reports when `last` is the rank of the last admitted section. -/
inductive Event.Reports (table : LineTable) (last : Option Rank) : Event → List Diagnostic → Prop
  | strays (ss : List Stray) : Reports table last (.strays ss) (ss.map (.ofStray table))
  | named (ls : List Lexeme) : Reports table last (.header ls) []
  | misnamed {ls : List Lexeme} {l : Lexeme} (hl : l ∈ ls) (expected : String) :
      Reports table last (.header ls) [.ofLexeme table l expected]
  | openHeader {ls : List Lexeme} {l : Lexeme} (hopen : ∀ l ∈ ls, l.token ≠ .closeParen)
      (hlast : ls.getLast? = some l) (expected : String) :
      Reports table last (.header ls) [.atEnd expected (.point (table.position l.range.stop))]
  | item {i : Item} {ds : List Diagnostic} (hi : ∀ g, i = .group g → ¬ g.AdmittedPredicates last)
      (h : Remarks table [i] ds) : Reports table last (.item i) ds
  | predicates {g : Group} {ds : List Diagnostic} (hg : g.AdmittedPredicates last)
      (hclosed : g.closed = true) (h : Remarks table (splitItems g.body) ds) :
      Reports table last (.item (.group g)) ds
  | openPredicates {g : Group} {ds : List Diagnostic} (hg : g.AdmittedPredicates last)
      (hopen : g.closed = false) (h : Remarks table (splitItems g.body) ds) :
      Reports table last (.item (.group g))
        (ds ++ [.atEnd "')' closing ':predicates'" table.endPoint])
  | extra (l : Lexeme) : Reports table last (.extra l) [.ofLexeme table l "end of input"]
  | ended (expected : String) :
    Reports table last (.ended expected) [.atEnd expected table.endPoint]

/-- Events as they come about: no header is empty, and groups are as they stand in a text. -/
def Event.Proper : Event → Prop
  | header ls => ls ≠ []
  | item (.group g) => g.Proper
  | _ => True

theorem Course.proper_event {items : List Scanned} {es : List Event} (h : Course items es)
    {e : Event} (he : e ∈ es) : e.Proper := by
  cases e with
  | header ls =>
    cases h with
    | blank => simp at he
    | headed hne hbody =>
      simp only [List.mem_cons, reduceCtorEq, Event.header.injEq, false_or] at he
      rcases he with rfl | he
      · exact hne
      · exact absurd (hbody.isHeader_eq_false he) (by simp [Event.isHeader])
  | item i =>
    cases i with
    | group g => exact h.proper he
    | stray l => trivial
  | _ => trivial

section Settles
variable {table : LineTable} {i : Item} {meanings : (Domain → Domain) → Prop} {r r' : Reading}

/-- An item that is settled is told about at most once. -/
private theorem Settles.exists_remarks (h : Settles table i meanings r r') :
    ∃ ds, r'.log = r.log.reportAll ds ∧ Remarks table [i] ds := by
  cases h with
  | accepted => exact ⟨[], rfl, .silent i .nil⟩
  | refused _ hd => exact ⟨[_], rfl, .remark hd .nil⟩

private theorem SettlesEach.exists_remarks {f : Frame} {items : List Item}
    (h : SettlesEach f items r r') :
    ∃ ds, r'.log = r.log.reportAll ds ∧ Remarks f.table items ds := by
  induction h with
  | nil => exact ⟨[], rfl, .nil⟩
  | cons h _ ih =>
    obtain ⟨ds, hlog, hremarks⟩ := ih
    cases h with
    | accepted => exact ⟨ds, hlog, .silent _ hremarks⟩
    | @refused d _ hd => exact ⟨d :: ds, hlog, .remark hd hremarks⟩

end Settles

namespace Progress
variable {f : Frame} {p : Progress}

private theorem closeParen_not_mem_of_viable_header {ts : List Token}
    (h : Viable Part.header.sentences ts) (hnot : ts ∉ Part.header.sentences) :
    .closeParen ∉ ts := by
  obtain ⟨more, name, hmore⟩ := h
  rcases List.eq_nil_or_concat' more with rfl | ⟨more, t, rfl⟩
  · exact absurd ⟨name, by simpa using hmore⟩ hnot
  · have hfront : ts ++ more = [.openParen, .define, .openParen, .domain, .name name] := by
      rw [← List.append_assoc] at hmore
      exact (List.append_inj' (hmore.trans (show headerTokens name =
        [.openParen, .define, .openParen, .domain, .name name] ++ [.closeParen] from rfl)) rfl).1
    intro hclose
    have hmem := List.mem_append_left more hclose
    rw [hfront] at hmem
    simp at hmem

private theorem header_reports {ls : List Lexeme} (hls : ls ≠ []) (p : Progress) :
    ∃ ds, (p.act f (.header ls)).log = p.log.reportAll ds ∧
      Event.Reports f.table p.lastRank (.header ls) ds := by
  rw [act]
  cases hout : Part.header.production.whole (ls.map Lexeme.token) with
  | ok name =>
    refine ⟨[], ?_, .named ls⟩
    rw [addFrom, show Production.header.whole (ls.map Lexeme.token) = .ok name from hout]
    rfl
  | error why =>
    obtain ⟨front, back, rfl, hblames, hreport⟩ := addFrom_of_error
      Part.header.explains_production hout f (fun d name => { d with name := name })
      "domain header" (endOf f ls) p
    refine ⟨[_], congrArg Progress.log hreport, ?_⟩
    cases back with
    | cons l back => exact .misnamed (by simp) _
    | nil =>
      have hnot : (front ++ []).map Lexeme.token ∉ Part.header.sentences := by
        rw [← Part.production_eq_ok_iff, hout]
        simp
      rw [List.append_nil] at hls hnot ⊢
      have hclose := closeParen_not_mem_of_viable_header hblames.viable hnot
      have hopen : ∀ l ∈ front, l.token ≠ .closeParen :=
        fun l hl heq => hclose (heq ▸ List.mem_map_of_mem hl)
      have hlast := List.getLast?_eq_some_getLast hls
      rw [Diagnostic.ofRest, endOf, hlast]
      exact .openHeader hopen hlast _

private theorem addSection_of_skips {g : Group} {head : Lexeme} (hhead : g.head? = some head)
    (h : skips f.settings head.token = true) (p : Progress) : p.addSection f g = p := by
  have hsecond := g.head?_map_token
  rw [hhead, Option.map_some] at hsecond
  cases htoken : head.token with
  | keyword word =>
    rw [htoken] at h hsecond
    exact addSection_of_keyword h hsecond.symm p
  | _ =>
    rw [htoken] at h
    cases h

private theorem predicatesSection_reports {g : Group} (hg : g.AdmittedPredicates p.lastRank) :
    ∃ ds, (p.addSection f g).log = p.log.reportAll ds ∧
      Event.Reports f.table p.lastRank (.item (.group g)) ds := by
  obtain ⟨ds, hlog, hremarks⟩ := (foldl_predicateItem_settles (f := f)
    (fun _ => (splits_splitItems g.body).proper)
    { p with lastRank := some .predicates }).exists_remarks
  rw [addSection_of_admittedPredicates hg, predicatesSection]
  split
  · rename_i hclosed
    exact ⟨ds, hlog, .predicates hg hclosed hremarks⟩
  · rename_i hopen
    refine ⟨_, ?_, .openPredicates hg (Bool.eq_false_iff.2 hopen) hremarks⟩
    rw [DiagnosticLog.reportAll_append]
    exact congrArg (DiagnosticLog.report · _) hlog

private theorem group_reports {g : Group} (hg : g.Proper) (p : Progress) :
    ∃ ds, (p.addSection f g).log = p.log.reportAll ds ∧
      Event.Reports f.table p.lastRank (.item (.group g)) ds := by
  by_cases hpredicates : g.AdmittedPredicates p.lastRank
  · exact predicatesSection_reports hpredicates
  have hitem : ∀ g', Item.group g = .group g' → ¬ g'.AdmittedPredicates p.lastRank := by
    rintro g' heq
    obtain rfl := Item.group.inj heq
    exact hpredicates
  by_cases hskip : ∃ head ∈ g.head?, skips f.settings head.token = true
  · obtain ⟨head, hhead, hskips⟩ := hskip
    rw [addSection_of_skips hhead hskips]
    exact ⟨[], rfl, .item hitem (.silent _ .nil)⟩
  · have hskip' : ∀ head ∈ g.head?, skips f.settings head.token = false :=
      fun head hhead => Bool.eq_false_iff.2 fun hskips => hskip ⟨head, hhead, hskips⟩
    obtain ⟨ds, hlog, hremarks⟩ :=
      (addSection_settles (f := f) hg hskip' hpredicates).exists_remarks
    exact ⟨ds, hlog, .item hitem hremarks⟩

theorem act_reports {e : Event} (he : e.Proper) (p : Progress) :
    ∃ ds, (p.act f e).log = p.log.reportAll ds ∧ e.Reports f.table p.lastRank ds := by
  cases e with
  | strays ss => exact ⟨_, rfl, .strays ss⟩
  | header ls => exact header_reports he p
  | item i =>
    cases i with
    | stray l =>
      have hl : l ∈ (Item.stray l).lexemes := List.mem_singleton_self l
      exact ⟨[_], rfl, .item (by simp) (.remark (.lexeme hl _) .nil)⟩
    | group g => exact group_reports he p
  | extra l => exact ⟨[_], rfl, .extra l⟩
  | ended expected => exact ⟨[_], rfl, .ended expected⟩

end Progress
end PlanningDomain
