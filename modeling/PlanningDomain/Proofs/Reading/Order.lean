import Mathlib.Data.List.Basic
import Mathlib.Data.List.Induction
import PlanningDomain.Proofs.Reading.Growth

/-! The order of sections. Main statement: the last rank decides for all sections admitted before,
so that their ranks never decrease and no header section is admitted twice; what it would have to
come before, a section cannot change any more. -/
namespace PlanningDomain

open Grammar

namespace Rank
variable {r earlier last : Rank}

/-- A section of the first rank may not come behind one of the second, wherever that was. -/
def BarredBy (r earlier : Rank) : Prop :=
  r.toNat < earlier.toNat ∨ r = earlier ∧ r ≠ .body

instance (r earlier : Rank) : Decidable (r.BarredBy earlier) :=
  inferInstanceAs (Decidable (_ ∨ _))

private theorem toNat_injective (h : r.toNat = earlier.toNat) : r = earlier := by
  cases r <;> cases earlier <;> first | rfl | cases h

private theorem barredBy_self (h : r ≠ .body) : r.BarredBy r := .inr ⟨rfl, h⟩

private theorem barredBy_body (h : r ≠ .body) : r.BarredBy .body := by
  cases r with
  | body => exact absurd rfl h
  | _ => exact .inl (by decide)

private theorem BarredBy.mono (h : r.BarredBy earlier) (hle : earlier.toNat ≤ last.toNat) :
    r.BarredBy last := by
  rcases h with hlt | ⟨rfl, hr⟩
  · exact .inl (Nat.lt_of_lt_of_le hlt hle)
  · rcases Nat.lt_or_eq_of_le hle with hlt | heq
    · exact .inl hlt
    · exact .inr ⟨toNat_injective heq, hr⟩

private theorem le_of_not_barredBy (h : ¬ r.BarredBy earlier) : earlier.toNat ≤ r.toNat :=
  Nat.le_of_not_lt fun hlt => h (.inl hlt)

private theorem mayFollow_some : r.mayFollow (some last) = true ↔ ¬ r.BarredBy last := by
  cases r <;> cases last <;> decide

def InOrder (ranks : List Rank) : Prop :=
  ranks.Pairwise fun earlier r => ¬ r.BarredBy earlier

namespace InOrder
variable {ranks : List Rank}

private theorem pairwise_le (h : InOrder ranks) :
    ranks.Pairwise fun earlier r => earlier.toNat ≤ r.toNat :=
  h.imp le_of_not_barredBy

private theorem count_le_one (h : InOrder ranks) (hr : r ≠ .body) : ranks.count r ≤ 1 := by
  by_contra hmore
  have hsublist : [r, r].Sublist ranks := by
    rw [show [r, r] = List.replicate 2 r from rfl, List.replicate_sublist_iff]
    omega
  exact List.pairwise_iff_forall_sublist.1 h hsublist (barredBy_self hr)

private theorem concat (h : InOrder ranks) (hr : ∀ earlier ∈ ranks, ¬ r.BarredBy earlier) :
    InOrder (ranks ++ [r]) := by
  apply List.pairwise_append.2
  refine ⟨h, List.pairwise_singleton .., ?_⟩
  intro earlier hearlier r' hr'
  obtain rfl := List.mem_singleton.1 hr'
  exact hr earlier hearlier

private theorem mayFollow_getLast? (h : InOrder ranks) :
    r.mayFollow ranks.getLast? = true ↔ ∀ earlier ∈ ranks, ¬ r.BarredBy earlier := by
  rcases List.eq_nil_or_concat' ranks with rfl | ⟨front, last, rfl⟩
  · simp [mayFollow]
  rw [List.getLast?_concat, mayFollow_some]
  constructor
  · intro hlast earlier hearlier hbarred
    apply hlast
    rcases List.mem_append.1 hearlier with hfront | heq
    · obtain ⟨-, -, hle⟩ := List.pairwise_append.1 h.pairwise_le
      exact hbarred.mono (hle earlier hfront last (List.mem_singleton_self last))
    · rwa [List.mem_singleton.1 heq] at hbarred
  · intro hall
    exact hall last (by simp)

end InOrder

def SamePart (r : Rank) (d d' : Domain) : Prop :=
  match r with
  | requirements => d'.requirements = d.requirements
  | types => d'.types = d.types
  | predicates => d'.predicates = d.predicates
  | body => d'.tasks = d.tasks ∧ d'.methods = d.methods

namespace SamePart
variable {d d' d'' : Domain}

private theorem refl (r : Rank) (d : Domain) : r.SamePart d d := by
  cases r <;> simp [SamePart]

private theorem trans (h : r.SamePart d d') (h' : r.SamePart d' d'') : r.SamePart d d'' := by
  cases r with
  | body => exact ⟨h'.1.trans h.1, h'.2.trans h.2⟩
  | _ => exact Eq.trans h' h

private theorem name (r : Rank) (d : Domain) (name : String) :
    r.SamePart d { d with name := name } := by
  cases r <;> simp [SamePart]

/-- A section adds to the part of its own rank only. -/
theorem addTo {x : Section} (root : String) (d : Domain) (h : x.rank ≠ r) :
    r.SamePart d (x.addTo root d) := by
  cases x <;> cases r <;>
    first | exact absurd rfl h | exact refl _ d | simp [SamePart, Section.addTo]

end SamePart
end Rank

open Rank (BarredBy SamePart InOrder)

def Group.rank? (g : Group) : Option Rank :=
  g.head?.bind fun head => Rank.ofToken? head.token

def Event.rank? : Event → Option Rank
  | item (.group g) => g.rank?
  | _ => none

namespace Progress
variable {f : Frame} {p q : Progress} {e : Event} {es : List Event} {r : Rank}

private theorem addSection_of_rank {g : Group} {head : Lexeme} (hhead : g.head? = some head)
    (hr : Rank.ofToken? head.token = some r) (p : Progress) :
    p.addSection f g = p.rankedSection f head r g := by
  rw [addSection]
  simp only [hhead, hr]

inductive Passes (f : Frame) (p : Progress) : Event → Progress → Prop
  | refused {g : Group} {head : Lexeme} {r : Rank} (hhead : g.head? = some head)
      (hr : Rank.ofToken? head.token = some r) (h : r.mayFollow p.lastRank = false) :
      Passes f p (.item (.group g)) (p.reportLexeme f head Rank.orderText)
  | admitted {g : Group} {head : Lexeme} {r : Rank} (hhead : g.head? = some head)
      (hr : Rank.ofToken? head.token = some r) (h : r.mayFollow p.lastRank = true) :
      Passes f p (.item (.group g)) ({ p with lastRank := some r }.sectionBody f head.token g)
  | other {e : Event} {q : Progress} (hrank : e.rank? = none) (hlast : q.lastRank = p.lastRank)
      (hdomain : q.domain = { p.domain with name := q.domain.name }) : Passes f p e q

private theorem addSection_passes (f : Frame) (g : Group) (p : Progress) :
    Passes f p (.item (.group g)) (p.addSection f g) := by
  rw [addSection]
  split
  · rename_i hnone
    exact .other (by simp [Event.rank?, Group.rank?, hnone]) rfl rfl
  rename_i head hhead
  split
  · rename_i r hr
    rw [rankedSection]
    split
    · rename_i hfollow
      exact .admitted hhead hr hfollow
    · rename_i hbarred
      exact .refused hhead hr (Bool.eq_false_iff.2 hbarred)
  · rename_i hnone
    have hrank : (Event.item (.group g)).rank? = none := by
      simp [Event.rank?, Group.rank?, hhead, hnone]
    split
    · exact .other hrank rfl rfl
    · exact .other hrank rfl rfl

private theorem act_passes (f : Frame) (e : Event) (p : Progress) : Passes f p e (p.act f e) := by
  cases e with
  | header ls =>
    rw [act, addFrom]
    split
    · exact .other rfl rfl rfl
    · obtain ⟨d, heq⟩ := reportFailure_eq f p ls _ "domain header" (endOf f ls)
      rw [heq]
      exact .other rfl rfl rfl
  | item i =>
    cases i with
    | stray l => exact .other rfl rfl rfl
    | group g => exact addSection_passes f g p
  | strays ss | extra l | ended expected => exact .other rfl rfl rfl

def admits? (p : Progress) (e : Event) : Option Rank :=
  e.rank?.filter (·.mayFollow p.lastRank)

private theorem admits?_group {g : Group} {head : Lexeme} (hhead : g.head? = some head)
    (hr : Rank.ofToken? head.token = some r) (p : Progress) :
    p.admits? (.item (.group g)) = if r.mayFollow p.lastRank then some r else none := by
  simp [admits?, Event.rank?, Group.rank?, hhead, hr, Option.filter]

/-- The last rank is that of the last admitted section, and an event changes the part of the rank
that it admits, if any. -/
private theorem Passes.gate (h : Passes f p e q) :
    q.lastRank = (p.admits? e).or p.lastRank ∧
      ∀ r, p.admits? e ≠ some r → r.SamePart p.domain q.domain := by
  cases h with
  | refused hhead hr h =>
    rw [admits?_group hhead hr, if_neg (by simp [h])]
    exact ⟨rfl, fun r _ => .refl r _⟩
  | @admitted g head r hhead hr h =>
    rw [admits?_group hhead hr, if_pos h]
    obtain ⟨hlast, hdomain⟩ := sectionBody_addsAtMost f head.token g { p with lastRank := some r }
    refine ⟨hlast, ?_⟩
    intro r' hr'
    rcases hdomain with hq | ⟨x, hx, hq⟩
    · rw [hq]
      exact .refl r' _
    · rw [hq]
      apply SamePart.addTo
      rintro rfl
      rw [← hx, x.ofToken?_marker] at hr
      exact hr' hr.symm
  | other hrank hlast hdomain =>
    rw [admits?, hrank, hdomain]
    exact ⟨hlast, fun r _ => .name r _ _⟩

/-- The state behind some events. -/
def reached (f : Frame) (es : List Event) : Progress :=
  es.foldl (act f) (.start f.settings)

private theorem reached_concat (f : Frame) (es : List Event) (e : Event) :
    reached f (es ++ [e]) = (reached f es).act f e := by
  rw [reached, List.foldl_concat, ← reached]

def admittedFrom (f : Frame) (p : Progress) : List Event → List Rank
  | [] => []
  | e :: es => (p.admits? e).toList ++ admittedFrom f (p.act f e) es

def admitted (f : Frame) (es : List Event) : List Rank :=
  admittedFrom f (.start f.settings) es

private theorem admittedFrom_append (f : Frame) (es es' : List Event) (p : Progress) :
    admittedFrom f p (es ++ es') =
      admittedFrom f p es ++ admittedFrom f (es.foldl (act f) p) es' := by
  induction es generalizing p with
  | nil => rfl
  | cons e es ih =>
    rw [List.cons_append, admittedFrom, admittedFrom, ih, List.append_assoc, List.foldl_cons]

private theorem admitted_concat (f : Frame) (es : List Event) (e : Event) :
    admitted f (es ++ [e]) = admitted f es ++ ((reached f es).admits? e).toList := by
  rw [admitted, admittedFrom_append, admittedFrom, admittedFrom, List.append_nil]
  rfl

private theorem admitted_subset_append (f : Frame) (es es' : List Event) :
    admitted f es ⊆ admitted f (es ++ es') := by
  rw [admitted, admitted, admittedFrom_append]
  exact List.subset_append_left ..

/-- The history of a reading is in order, ends with the last rank, and a part to which no section
was admitted is empty. -/
structure HasAdmitted (history : List Rank) (p : Progress) : Prop where
  inOrder : InOrder history
  lastRank_eq : p.lastRank = history.getLast?
  untouched : ∀ r, r ∉ history → r.SamePart .empty p.domain

private theorem HasAdmitted.mayFollow_iff {history : List Rank} (h : HasAdmitted history p) :
    r.mayFollow p.lastRank = true ↔ ∀ earlier ∈ history, ¬ r.BarredBy earlier := by
  rw [h.lastRank_eq]
  exact h.inOrder.mayFollow_getLast?

private theorem HasAdmitted.act {history : List Rank} (h : HasAdmitted history p) (f : Frame)
    (e : Event) :
    HasAdmitted (history ++ (p.admits? e).toList) (p.act f e) := by
  obtain ⟨hlast, hsame⟩ := (act_passes f e p).gate
  cases hadmits : p.admits? e with
  | none =>
    rw [hadmits, Option.none_or] at hlast
    rw [Option.toList_none, List.append_nil]
    refine ⟨h.inOrder, hlast.trans h.lastRank_eq, fun r hr => ?_⟩
    exact (h.untouched r hr).trans (hsame r (by simp [hadmits]))
  | some rank =>
    have hfollow := (Option.filter_eq_some_iff.1 hadmits).2
    rw [hadmits, Option.some_or] at hlast
    rw [Option.toList_some]
    refine ⟨h.inOrder.concat (h.mayFollow_iff.1 hfollow), ?_, fun r hr => ?_⟩
    · rw [hlast, List.getLast?_concat]
    · rw [List.mem_append, List.mem_singleton, not_or] at hr
      refine (h.untouched r hr.1).trans (hsame r ?_)
      rw [hadmits]
      exact fun heq => hr.2 (Option.some.inj heq).symm

private theorem hasAdmitted_reached (f : Frame) (es : List Event) :
    HasAdmitted (admitted f es) (reached f es) := by
  induction es using List.reverseRecOn with
  | nil => exact ⟨.nil, rfl, fun r _ => .refl r _⟩
  | append_singleton es e ih =>
    rw [admitted_concat, reached_concat]
    exact ih.act f e

private theorem HasAdmitted.admits?_ne {history : List Rank} (h : HasAdmitted history p)
    {earlier : Rank} (hearlier : earlier ∈ history) (hbarred : r.BarredBy earlier) :
    p.admits? e ≠ some r := by
  intro hadmits
  have hfollow := (Option.filter_eq_some_iff.1 hadmits).2
  exact h.mayFollow_iff.1 hfollow earlier hearlier hbarred

private theorem samePart_of_barred {before : List Event} {earlier : Rank}
    (hearlier : earlier ∈ admitted f before) (hbarred : r.BarredBy earlier) (after : List Event) :
    r.SamePart (reached f before).domain (reached f (before ++ after)).domain := by
  induction after using List.reverseRecOn with
  | nil =>
    rw [List.append_nil]
    exact .refl r _
  | append_singleton after e ih =>
    have hmem := admitted_subset_append f before after hearlier
    rw [← List.append_assoc, reached_concat]
    apply ih.trans
    apply (act_passes f e _).gate.2
    exact (hasAdmitted_reached f (before ++ after)).admits?_ne hmem hbarred

/-- A section that an earlier one bars is reported at its head, and that is all. -/
private theorem act_of_barred {before : List Event} {g : Group} {head : Lexeme}
    (hhead : g.head? = some head) (hr : Rank.ofToken? head.token = some r)
    (hbarred : ∃ earlier ∈ admitted f before, r.BarredBy earlier) :
    reached f (before ++ [.item (.group g)]) =
        (reached f before).report (.ofLexeme f.table head Rank.orderText) ∧
      admitted f (before ++ [.item (.group g)]) = admitted f before := by
  have hfollow : r.mayFollow (reached f before).lastRank = false := by
    rw [Bool.eq_false_iff, ne_eq, (hasAdmitted_reached f before).mayFollow_iff]
    obtain ⟨earlier, hearlier, hbarred⟩ := hbarred
    exact fun hall => hall earlier hearlier hbarred
  constructor
  · rw [reached_concat, act, addSection_of_rank hhead hr, rankedSection, if_neg (by simp [hfollow])]
    rfl
  · rw [admitted_concat, admits?_group hhead hr, if_neg (by simp [hfollow])]
    exact List.append_nil _

/-- A section that no earlier one bars is admitted, whatever its production makes of it. -/
private theorem act_of_not_barred {before : List Event} {g : Group} {head : Lexeme}
    (hhead : g.head? = some head) (hr : Rank.ofToken? head.token = some r)
    (hfree : ∀ earlier ∈ admitted f before, ¬ r.BarredBy earlier) :
    reached f (before ++ [.item (.group g)]) =
        { reached f before with lastRank := some r }.sectionBody f head.token g ∧
      (reached f (before ++ [.item (.group g)])).lastRank = some r ∧
      admitted f (before ++ [.item (.group g)]) = admitted f before ++ [r] := by
  have hfollow := (hasAdmitted_reached f before).mayFollow_iff.2 hfree
  have hadmits : (reached f before).admits? (.item (.group g)) = some r := by
    rw [admits?_group hhead hr, if_pos hfollow]
  refine ⟨?_, ?_, ?_⟩
  · rw [reached_concat, act, addSection_of_rank hhead hr, rankedSection, if_pos hfollow]
  · rw [reached_concat, (act_passes f _ _).gate.1, hadmits, Option.some_or]
  · rw [admitted_concat, hadmits, Option.toList_some]

/-- An event that changes a part is a section of its rank, the first that is admitted. -/
private theorem admits?_of_changes {before : List Event}
    (h : ¬ r.SamePart (reached f before).domain (reached f (before ++ [e])).domain) :
    (reached f before).admits? e = some r := by
  by_contra hadmits
  apply h
  rw [reached_concat]
  exact (act_passes f e _).gate.2 r hadmits

private theorem not_mem_of_admits? {before : List Event} (hr : r ≠ .body)
    (h : (reached f before).admits? e = some r) : r ∉ admitted f before := by
  intro hmem
  exact (hasAdmitted_reached f before).admits?_ne hmem (Rank.barredBy_self hr) h

/-- How a reading of some events admits sections. -/
structure GatesSections (f : Frame) (es : List Event) : Prop where
  increasing : (admitted f es).Pairwise fun earlier r => earlier.toNat ≤ r.toNat
  once : ∀ r, r ≠ .body → (admitted f es).count r ≤ 1
  refuses : ∀ before g after head r, es = before ++ .item (.group g) :: after →
    g.head? = some head → Rank.ofToken? head.token = some r →
    (∃ earlier ∈ admitted f before, r.BarredBy earlier) →
    reached f (before ++ [.item (.group g)]) =
        (reached f before).report (.ofLexeme f.table head Rank.orderText) ∧
      admitted f (before ++ [.item (.group g)]) = admitted f before
  admits : ∀ before g after head r, es = before ++ .item (.group g) :: after →
    g.head? = some head → Rank.ofToken? head.token = some r →
    (∀ earlier ∈ admitted f before, ¬ r.BarredBy earlier) →
    reached f (before ++ [.item (.group g)]) =
        { reached f before with lastRank := some r }.sectionBody f head.token g ∧
      (reached f (before ++ [.item (.group g)])).lastRank = some r ∧
      admitted f (before ++ [.item (.group g)]) = admitted f before ++ [r]
  /-- What changes the part of a header section finds it empty, and nothing behind changes it. -/
  single : ∀ before e after r, es = before ++ e :: after → r ≠ .body →
    ¬ r.SamePart (reached f before).domain (reached f (before ++ [e])).domain →
    e.rank? = some r ∧ r.SamePart .empty (reached f before).domain ∧
      ∀ middle rest, after = middle ++ rest →
        r.SamePart (reached f (before ++ [e])).domain (reached f (before ++ e :: middle)).domain
  /-- Behind an admitted task or method, no part of a header section changes. -/
  closed : ∀ before middle after (r : Rank), es = before ++ (middle ++ after) → r ≠ .body →
    .body ∈ admitted f before →
    r.SamePart (reached f before).domain (reached f (before ++ middle)).domain

private theorem gatesSections (f : Frame) (es : List Event) : GatesSections f es where
  increasing := (hasAdmitted_reached f es).inOrder.pairwise_le
  once _ hr := (hasAdmitted_reached f es).inOrder.count_le_one hr
  refuses _ _ _ _ _ _ hhead hr hbarred := act_of_barred hhead hr hbarred
  admits _ _ _ _ _ _ hhead hr hfree := act_of_not_barred hhead hr hfree
  single before e after r _ hr hchanges := by
    have hadmits := admits?_of_changes hchanges
    refine ⟨(Option.filter_eq_some_iff.1 hadmits).1, ?_, ?_⟩
    · exact (hasAdmitted_reached f before).untouched r (not_mem_of_admits? hr hadmits)
    · intro middle rest _
      have hmem : r ∈ admitted f (before ++ [e]) := by
        rw [admitted_concat, hadmits]
        simp
      rw [List.append_cons before e middle]
      exact samePart_of_barred hmem (Rank.barredBy_self hr) middle
  closed before middle _ _ _ hr hbody := samePart_of_barred hbody (Rank.barredBy_body hr) middle

end Progress

/-- A text has a course, and a reading does what the events of the course do. Among its sections, it
refuses those that an earlier admitted one bars, at the cost of one diagnostic, and admits all
others, even if their productions fail. So the ranks of the admitted sections never decrease, and
requirements, types and predicates come from at most one section each, in front of all tasks and
methods. -/
theorem sections_come_in_order (s : Settings) (text : String) :
    (∃ es, Course (scan text) es) ∧
    ∀ es, Course (scan text) es →
      readDomain s text = (Progress.reached ⟨s, .ofText text⟩ es).reading ∧
      Progress.GatesSections ⟨s, .ofText text⟩ es := by
  refine ⟨exists_course (scan text), ?_⟩
  intro es hcourse
  exact ⟨readDomain_eq_foldl hcourse s, Progress.gatesSections ⟨s, .ofText text⟩ es⟩

/-- A task without a name bars the types behind it. -/
theorem sections_come_in_order_behind_task :
    let text := "(define (domain d)(:task)(:types"
    let f : Frame := ⟨.standard, .ofText text⟩
    let head : Lexeme := ⟨.types, ":types", ⟨26, 32⟩⟩
    let types : Event := .item (.group ⟨[⟨.openParen, "(", ⟨25, 26⟩⟩, head], false⟩)
    ∃ before, Course (scan text) (before ++ [types]) ∧ Progress.admitted f before = [.body] ∧
      Progress.reached f (before ++ [types]) =
        (Progress.reached f before).report (.ofLexeme f.table head Rank.orderText) ∧
      (Progress.reached f (before ++ [types])).domain.types = .empty := by
  intro text f head types
  let opening : Lexeme := ⟨.openParen, "(", ⟨18, 19⟩⟩
  let task : Lexeme := ⟨.task, ":task", ⟨19, 24⟩⟩
  let closing : Lexeme := ⟨.closeParen, ")", ⟨24, 25⟩⟩
  let header := (Progress.takeHeader (scan text)).1
  have hrest : (Progress.takeHeader (scan text)).2 = .lexeme opening ::
      ([.lexeme task] ++
        .lexeme closing :: [.lexeme ⟨.openParen, "(", ⟨25, 26⟩⟩, .lexeme head]) := by
    decide +kernel
  have hcut : BodyCourse (Progress.takeHeader (scan text)).2
      [.strays [], .item (.group ⟨[opening, task, closing], true⟩), .strays [], types] := by
    rw [hrest]
    exact .group rfl rfl (by decide) (.cutOff rfl rfl)
  let before : List Event := [.strays (header.filterMap Scanned.stray?),
    .header (header.filterMap Scanned.lexeme?), .strays [],
    .item (.group ⟨[opening, task, closing], true⟩), .strays []]
  have hcourse : Course (scan text) (before ++ [types]) := .headed (by decide +kernel) hcut
  have hadmitted : Progress.admitted f before = [.body] := by decide +kernel
  obtain ⟨-, hgates⟩ := (sections_come_in_order .standard text).2 _ hcourse
  have hbody : .body ∈ Progress.admitted f before := by simp [hadmitted]
  have hclosed : Rank.types.SamePart (Progress.reached f before).domain
      (Progress.reached f (before ++ [types])).domain :=
    hgates.closed before [types] [] .types rfl (by decide) hbody
  refine ⟨before, hcourse, hadmitted, ?_, ?_⟩
  · exact (hgates.refuses before _ [] head .types rfl rfl rfl ⟨.body, hbody, by decide⟩).1
  · exact Eq.trans hclosed (by decide +kernel)

end PlanningDomain
