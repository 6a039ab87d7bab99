import PlanningDomain.Proofs.Reading.Sections
import PlanningDomain.Reading

/-! Whole readings. Main statements: every reading adds sections whose tokens stand in the text; and
one without diagnostics is a header with admitted groups behind it, up to the closing parenthesis or
up to the end within a group that the settings let pass. -/
namespace PlanningDomain

namespace Progress

open Grammar Reader

/-- What may stand behind the header without a diagnostic, and the sections that it adds. The last
group may lack its end if the settings let it pass. -/
inductive BodyReads (s : Settings) : Option Rank → List Token → List Section → Prop
  | close {last : Option Rank} : BodyReads s last [.closeParen] []
  | group {last next : Option Rank} {inner ts : List Token} {xs ys : List Section}
      (hinner : Balanced inner) (h : Admits s last (enclosed inner) xs next)
      (hrest : BodyReads s next ts ys) : BodyReads s last (enclosed inner ++ ts) (xs ++ ys)
  | cutOff {last next : Option Rank} {inner : List Token} {xs : List Section}
      (hopen : (openAfter 0 inner).isSome)
      (h : Admits s last (.openParen :: inner) xs next) :
      BodyReads s last (.openParen :: inner) xs

/-- Induction along what the body takes at a time: a stray character, a lone token, or a group to
its end. It stops at the parenthesis that closes the domain, and at a group that has no end. -/
theorem body_induction {motive : List Scanned → Prop} (ended : motive [])
    (stray : ∀ s rest, motive rest → motive (.stray s :: rest))
    (close : ∀ l rest, l.token = .closeParen → motive (.lexeme l :: rest))
    (token : ∀ l rest, l.token ≠ .openParen → l.token ≠ .closeParen → motive rest →
      motive (.lexeme l :: rest))
    (group : ∀ l inner r rest, l.token = .openParen → r.token = .closeParen →
      Balanced (inner.filterMap Scanned.token?) → motive rest →
      motive (.lexeme l :: (inner ++ .lexeme r :: rest)))
    (cutOff : ∀ l rest, l.token = .openParen →
      (openAfter 0 (rest.filterMap Scanned.token?)).isSome → motive (.lexeme l :: rest))
    (items : List Scanned) : motive items := by
  induction hn : items.length using Nat.strongRecOn generalizing items with
  | ind n ih =>
  subst hn
  cases items with
  | nil => exact ended
  | cons item rest =>
    cases item with
    | stray s => exact stray s rest (ih rest.length (by simp) rest rfl)
    | lexeme l =>
      by_cases hclose : l.token = .closeParen
      · exact close l rest hclose
      by_cases hopen : l.token = .openParen
      · rcases closes_or_stays_open Scanned.token? 0 rest with
          ⟨inner, x, rest, rfl, hx, hinner⟩ | hopens
        · obtain ⟨r, rfl, hr⟩ := Scanned.eq_lexeme_of_token? hx
          exact group l inner r rest hopen hr (balanced_iff.2 hinner)
            (ih rest.length (by simp; omega) rest rfl)
        · exact cutOff l rest hopen hopens
      · exact token l rest hopen hclose (ih rest.length (by simp) rest rfl)

section Body
variable {f : Frame} {l r : Lexeme} {inner rest : List Scanned} {p : Progress}

theorem body_closeParen (hl : l.token = .closeParen) :
    body f (.lexeme l :: rest) p = trailer f rest p := by
  rw [body, if_pos hl]

theorem body_closed (hl : l.token = .openParen) (hr : r.token = .closeParen)
    (h : Balanced (inner.filterMap Scanned.token?)) :
    body f (.lexeme l :: (inner ++ .lexeme r :: rest)) p =
      body f rest ((p.reportStrays f (inner.filterMap Scanned.stray?)).addSection f
        ⟨l :: (inner.filterMap Scanned.lexeme? ++ [r]), true⟩) := by
  have hcut : takeBalanced Scanned.token? 1 (inner ++ .lexeme r :: rest) =
      ⟨inner ++ [.lexeme r], rest, true⟩ :=
    takeBalanced_of_openAfter_eq_zero (balanced_iff.1 h) (congrArg some hr)
  rw [body, if_neg (by simp [hl]), if_pos hl]
  simp [hcut, List.filterMap_cons, Scanned.lexeme?, Scanned.stray?]

theorem body_unclosed (hl : l.token = .openParen)
    (h : (openAfter 0 (rest.filterMap Scanned.token?)).isSome) :
    body f (.lexeme l :: rest) p =
      (p.reportStrays f (rest.filterMap Scanned.stray?)).addSection f
        ⟨l :: rest.filterMap Scanned.lexeme?, false⟩ := by
  have hcut : takeBalanced Scanned.token? 1 rest = ⟨rest, [], false⟩ := takeBalanced_of_isSome h
  rw [body, if_neg (by simp [hl]), if_pos hl]
  simp [hcut]

private theorem reportStrays_adds (root : String) (f : Frame) (p : Progress) (strays : List Stray) :
    Adds root p (p.reportStrays f strays) [] (strays.map (.ofStray f.table)) :=
  ⟨rfl, rfl⟩

theorem reportStrays_nil (f : Frame) (p : Progress) : p.reportStrays f [] = p := rfl

private theorem trailer_adds (f : Frame) (items : List Scanned) (p : Progress) :
    ∃ ds, Adds f.settings.rootType p (trailer f items p) [] ds ∧ (ds = [] → items = []) := by
  induction items generalizing p with
  | nil => exact ⟨[], Adds.refl _ p, fun _ => rfl⟩
  | cons item rest ih =>
    cases item with
    | stray s =>
      obtain ⟨ds, hadds, -⟩ := ih (p.reportStrays f [s])
      rw [trailer]
      exact ⟨_, (reportStrays_adds _ f p [s]).trans hadds, by simp⟩
    | lexeme l =>
      rw [trailer]
      exact ⟨_, (Adds.report _ p _).trans (reportStrays_adds _ f _ _), by simp⟩

private theorem proper_closed (hl : l.token = .openParen) (hr : r.token = .closeParen)
    (h : Balanced (inner.filterMap Scanned.token?)) :
    Group.Proper ⟨l :: (inner.filterMap Scanned.lexeme? ++ [r]), true⟩ :=
  .closed hl hr (Scanned.filterMap_token? inner ▸ h)

private theorem proper_unclosed (hl : l.token = .openParen)
    (h : (openAfter 0 (rest.filterMap Scanned.token?)).isSome) :
    Group.Proper ⟨l :: rest.filterMap Scanned.lexeme?, false⟩ :=
  .unclosed hl (Scanned.filterMap_token? rest ▸ h)

private theorem tokens_closed (hl : l.token = .openParen) (hr : r.token = .closeParen) :
    Group.tokens ⟨l :: (inner.filterMap Scanned.lexeme? ++ [r]), true⟩ =
      enclosed (inner.filterMap Scanned.token?) := by
  simp [Group.tokens, enclosed, hl, hr, Scanned.filterMap_token?]

private theorem tokens_unclosed (hl : l.token = .openParen) :
    Group.tokens ⟨l :: rest.filterMap Scanned.lexeme?, false⟩ =
      .openParen :: rest.filterMap Scanned.token? := by
  simp [Group.tokens, hl, Scanned.filterMap_token?]

/-- What a run through some items of the body is known to do: it adds sections whose tokens the
items have, and it is silent only if the items are admitted. -/
def RunsBody (f : Frame) (items : List Scanned) (p q : Progress) : Prop :=
  ∃ xs ds, Adds f.settings.rootType p q xs ds ∧
    (∀ x ∈ xs, ∀ t ∈ x.tokens, t ∈ Token.closeParen :: items.filterMap Scanned.token?) ∧
    (ds = [] → items.filterMap Scanned.stray? = [] ∧
      BodyReads f.settings p.lastRank (items.filterMap Scanned.token?) xs)

private theorem RunsBody.report {q : Progress} {item : Scanned} {d : Diagnostic}
    (h : RunsBody f rest (p.report d) q) : RunsBody f (item :: rest) p q := by
  obtain ⟨xs, ds, hadds, hmem, -⟩ := h
  refine ⟨xs, _, (Adds.report _ p d).trans hadds, fun x hx t ht => ?_, by simp⟩
  rcases List.mem_cons.1 (hmem x hx t ht) with rfl | ht
  · exact List.mem_cons_self
  · exact List.mem_cons_of_mem _ (((List.sublist_cons_self item rest).filterMap _).subset ht)

private theorem RunsBody.group {q : Progress} (hl : l.token = .openParen)
    (hr : r.token = .closeParen) (h : Balanced (inner.filterMap Scanned.token?))
    (hrest : RunsBody f rest ((p.reportStrays f (inner.filterMap Scanned.stray?)).addSection f
      ⟨l :: (inner.filterMap Scanned.lexeme? ++ [r]), true⟩) q) :
    RunsBody f (.lexeme l :: (inner ++ .lexeme r :: rest)) p q := by
  obtain ⟨xs, ds, hadds, hmem, hquiet⟩ := addSection_adds (proper_closed hl hr h)
    (p.reportStrays f (inner.filterMap Scanned.stray?))
  obtain ⟨ys, es, hadds', hmem', hquiet'⟩ := hrest
  rw [tokens_closed hl hr] at hmem hquiet
  have htokens : (Scanned.lexeme l :: (inner ++ .lexeme r :: rest)).filterMap Scanned.token? =
      enclosed (inner.filterMap Scanned.token?) ++ rest.filterMap Scanned.token? := by
    simp [enclosed, Scanned.token?, Scanned.lexeme?, hl, hr]
  have hstrays : (Scanned.lexeme l :: (inner ++ .lexeme r :: rest)).filterMap Scanned.stray? =
      inner.filterMap Scanned.stray? ++ rest.filterMap Scanned.stray? := by
    simp [Scanned.stray?, List.filterMap_cons]
  refine ⟨xs ++ ys, _, ((reportStrays_adds _ f p _).trans hadds).trans hadds', ?_, ?_⟩
  · rw [htokens]
    intro x hx t ht
    rcases List.mem_append.1 hx with hx | hx
    · exact (List.mem_cons.1 (hmem x hx t ht)).elim (· ▸ List.mem_cons_self)
        fun ht => List.mem_cons_of_mem _ (List.mem_append_left _ ht)
    · exact (List.mem_cons.1 (hmem' x hx t ht)).elim (· ▸ List.mem_cons_self)
        fun ht => List.mem_cons_of_mem _ (List.mem_append_right _ ht)
  · intro hds
    rw [List.append_eq_nil_iff, List.append_eq_nil_iff, List.map_eq_nil_iff] at hds
    obtain ⟨⟨hinner, hds⟩, hes⟩ := hds
    obtain ⟨hrest, hreads⟩ := hquiet' hes
    rw [hstrays, htokens, hinner, hrest]
    exact ⟨rfl, .group h (hquiet hds) hreads⟩

private theorem runsBody_cutOff (hl : l.token = .openParen)
    (h : (openAfter 0 (rest.filterMap Scanned.token?)).isSome) :
    RunsBody f (.lexeme l :: rest) p
      ((p.reportStrays f (rest.filterMap Scanned.stray?)).addSection f
        ⟨l :: rest.filterMap Scanned.lexeme?, false⟩) := by
  obtain ⟨xs, ds, hadds, hmem, hquiet⟩ := addSection_adds (proper_unclosed hl h)
    (p.reportStrays f (rest.filterMap Scanned.stray?))
  rw [tokens_unclosed hl] at hmem hquiet
  have htokens : (Scanned.lexeme l :: rest).filterMap Scanned.token? =
      .openParen :: rest.filterMap Scanned.token? := by
    simp [Scanned.token?, Scanned.lexeme?, hl]
  have hstrays : (Scanned.lexeme l :: rest).filterMap Scanned.stray? =
      rest.filterMap Scanned.stray? := by
    simp [Scanned.stray?, List.filterMap_cons]
  rw [RunsBody, htokens, hstrays]
  refine ⟨xs, _, (reportStrays_adds _ f p _).trans hadds, hmem, fun hds => ?_⟩
  rw [List.append_eq_nil_iff, List.map_eq_nil_iff] at hds
  exact ⟨hds.1, .cutOff h (hquiet hds.2)⟩

/-- The body adds sections whose tokens it has. In silence, it is admitted as a whole. -/
private theorem runsBody_body (f : Frame) (items : List Scanned) (p : Progress) :
    RunsBody f items p (body f items p) := by
  induction items using body_induction generalizing p with
  | ended =>
    rw [body]
    exact ⟨[], [_], Adds.report _ p _, by simp, by simp⟩
  | stray s rest ih =>
    rw [body]
    exact .report (ih _)
  | close l rest hl =>
    obtain ⟨ds, hadds, hrest⟩ := trailer_adds f rest p
    rw [body_closeParen hl]
    refine ⟨[], ds, hadds, by simp, fun hds => ?_⟩
    obtain rfl := hrest hds
    have htokens : [Scanned.lexeme l].filterMap Scanned.token? = [.closeParen] :=
      congrArg (fun t => [t]) hl
    exact ⟨rfl, htokens ▸ .close⟩
  | token l rest ho hc ih =>
    rw [body, if_neg hc, if_neg ho]
    exact .report (ih _)
  | group l inner r rest hl hr hinner ih =>
    rw [body_closed hl hr hinner]
    exact .group hl hr hinner (ih _)
  | cutOff l rest hl hopen =>
    rw [body_unclosed hl hopen]
    exact runsBody_cutOff hl hopen

private theorem body_of_reads {ls : List Lexeme} {xs : List Section}
    (h : BodyReads f.settings p.lastRank (ls.map Lexeme.token) xs) :
    (body f (ls.map .lexeme) p).domain = xs.foldl (Section.addTo f.settings.rootType) p.domain ∧
      (body f (ls.map .lexeme) p).log = p.log := by
  generalize hlast : p.lastRank = last at h
  generalize hts : ls.map Lexeme.token = ts at h
  induction h generalizing ls p with
  | close =>
    obtain ⟨l, _, rfl, hl, hnil⟩ := List.map_eq_cons_iff.1 hts
    obtain rfl := List.map_eq_nil_iff.1 hnil
    rw [List.map_singleton, body_closeParen hl]
    exact ⟨rfl, rfl⟩
  | @group last next inner ts xs ys hinner hadmits _ ih =>
    rw [enclosed, List.cons_append, List.append_assoc, List.singleton_append] at hts
    obtain ⟨l, tail, rfl, hl, htail⟩ := List.map_eq_cons_iff.1 hts
    obtain ⟨mid, back, rfl, rfl, hback⟩ := List.map_eq_append_iff.1 htail
    obtain ⟨r, rest, rfl, hr, hrest⟩ := List.map_eq_cons_iff.1 hback
    have hgroup : Group.tokens ⟨l :: (mid ++ [r]), true⟩ = enclosed (mid.map Lexeme.token) := by
      simp [Group.tokens, enclosed, hl, hr]
    rw [List.map_cons, List.map_append, List.map_cons, body_closed hl hr
      (by rwa [Scanned.filterMap_token?_map_lexeme])]
    simp only [Scanned.filterMap_lexeme?_map_lexeme, Scanned.filterMap_stray?_map_lexeme,
      reportStrays_nil]
    rw [addSection_of_admits (.closed hl hr hinner) (hgroup ▸ hlast ▸ hadmits), List.foldl_append]
    exact ih rfl hrest
  | cutOff hopen hadmits =>
    obtain ⟨l, rest, rfl, hl, rfl⟩ := List.map_eq_cons_iff.1 hts
    have hgroup : Group.tokens ⟨l :: rest, false⟩ = .openParen :: rest.map Lexeme.token := by
      simp [Group.tokens, hl]
    rw [List.map_cons, body_unclosed hl (by rwa [Scanned.filterMap_token?_map_lexeme])]
    simp only [Scanned.filterMap_lexeme?_map_lexeme, Scanned.filterMap_stray?_map_lexeme,
      reportStrays_nil]
    rw [addSection_of_admits (.unclosed hl hopen) (hgroup ▸ hlast ▸ hadmits)]
    exact ⟨rfl, rfl⟩

end Body

theorem takeHeader_append (items : List Scanned) :
    (takeHeader items).1 ++ (takeHeader items).2 = items := by
  induction items with
  | nil => rfl
  | cons item items ih =>
    rw [takeHeader]
    split
    · rfl
    · simp [ih]

private theorem takeHeader_of_token? {inner rest : List Scanned} {x : Scanned}
    (hinner : ∀ s ∈ inner, s.token? ≠ some .closeParen) (hx : x.token? = some .closeParen) :
    takeHeader (inner ++ x :: rest) = (inner ++ [x], rest) := by
  induction inner with
  | nil => rw [List.nil_append, takeHeader, if_pos hx, List.nil_append]
  | cons s inner ih =>
    rw [List.cons_append, takeHeader, if_neg (hinner s List.mem_cons_self),
      ih fun s' hs' => hinner s' (List.mem_cons_of_mem _ hs')]
    rfl

/-- A header without a closing parenthesis leaves nothing behind it. -/
theorem takeHeader_rest_eq_nil_of_forall {items : List Scanned}
    (h : ∀ l ∈ (takeHeader items).1.filterMap Scanned.lexeme?, l.token ≠ .closeParen) :
    (takeHeader items).2 = [] := by
  induction items with
  | nil => rfl
  | cons item items ih =>
    rw [takeHeader] at h ⊢
    split at h
    · rename_i hclose
      obtain ⟨l, rfl, hl⟩ := Scanned.eq_lexeme_of_token? hclose
      exact absurd hl (h l (by simp))
    · rename_i hclose
      rw [if_neg hclose]
      exact ih fun l hl => h l (((List.sublist_cons_self item _).filterMap _).subset hl)

/-- A text without a token is all header. -/
theorem takeHeader_rest_eq_nil {items : List Scanned}
    (h : (takeHeader items).1.filterMap Scanned.lexeme? = []) : (takeHeader items).2 = [] :=
  takeHeader_rest_eq_nil_of_forall (by simp [h])

/-- The state behind the header. -/
def afterHeader (f : Frame) (front : List Scanned) : Progress :=
  ((start f.settings).reportStrays f (front.filterMap Scanned.stray?)).addFrom f Production.header
    (fun d name => { d with name := name }) "domain header" (front.filterMap Scanned.lexeme?)
    (endOf f (front.filterMap Scanned.lexeme?))

/-- The header finds a name or none. It is silent only if it is well-formed. -/
private theorem afterHeader_adds (f : Frame) (front : List Scanned) :
    ∃ name ds, (afterHeader f front).domain = headed name ∧
      (afterHeader f front).log = (start f.settings).log.reportAll ds ∧
      (afterHeader f front).lastRank = none ∧
      (name = "" ∨ .name name ∈ front.filterMap Scanned.token?) ∧
      (ds = [] → front.filterMap Scanned.stray? = [] ∧
        front.filterMap Scanned.token? = headerTokens name) := by
  rw [Scanned.filterMap_token?, afterHeader, addFrom]
  split
  · rename_i name hname
    have hread := header_reads_iff.1 (whole_eq_ok_iff.1 hname)
    rw [List.append_nil] at hread
    refine ⟨name, _, rfl, rfl, rfl, .inr ?_, fun hds => ⟨List.map_eq_nil_iff.1 hds, hread⟩⟩
    rw [hread]
    simp [headerTokens, enclosed]
  · rename_i why _
    obtain ⟨d, heq⟩ := reportFailure_eq f
      ((start f.settings).reportStrays f (front.filterMap Scanned.stray?))
      (front.filterMap Scanned.lexeme?) why "domain header"
      (endOf f (front.filterMap Scanned.lexeme?))
    have hadds := (reportStrays_adds "" f (start f.settings)
      (front.filterMap Scanned.stray?)).trans (Adds.report "" _ d)
    rw [heq]
    exact ⟨"", _, rfl, hadds.log_eq, rfl, .inl rfl, by simp⟩

private theorem afterHeader_of_tokens {f : Frame} {ls : List Lexeme} {name : String}
    (h : ls.map Lexeme.token = headerTokens name) :
    afterHeader f (ls.map .lexeme) = { start f.settings with domain := headed name } := by
  have hread : Production.header.whole (ls.map Lexeme.token) = .ok name :=
    whole_eq_ok_iff.2 (header_reads_iff.2 (by rw [h, List.append_nil]))
  rw [afterHeader, Scanned.filterMap_lexeme?_map_lexeme, Scanned.filterMap_stray?_map_lexeme,
    addFrom, hread]
  rfl

private theorem all_eq_body {f : Frame} {items : List Scanned}
    (h : (takeHeader items).1.filterMap Scanned.lexeme? ≠ []) :
    all f items (start f.settings) =
      body f (takeHeader items).2 (afterHeader f (takeHeader items).1) := by
  rw [all]
  simp [List.isEmpty_iff, h, afterHeader]

end Progress

open Progress Grammar

/-- Every reading finds a name, or none, and adds sections whose tokens stand in the text. It is
silent only on a header with an admitted body behind it. -/
theorem readDomain_adds (s : Settings) (text : String) :
    ∃ name xs ds,
      (readDomain s text).domain = xs.foldl (Section.addTo s.rootType) (headed name) ∧
      (readDomain s text).log = (DiagnosticLog.empty s.maxErrors).reportAll ds ∧
      (name = "" ∨ .name name ∈ tokens text) ∧
      (∀ x ∈ xs, ∀ t ∈ x.tokens, t ∈ Token.closeParen :: tokens text) ∧
      (ds = [] → strays text = [] ∧
        ∃ ts, tokens text = headerTokens name ++ ts ∧ BodyReads s none ts xs) := by
  let f : Frame := ⟨s, .ofText text⟩
  have hitems := takeHeader_append (scan text)
  rw [tokens_eq_filterMap, strays, ← hitems, List.filterMap_append, List.filterMap_append]
  simp only [readDomain]
  by_cases hempty : (takeHeader (scan text)).1.filterMap Scanned.lexeme? = []
  · have hadds := (reportStrays_adds s.rootType f (start s)
      ((takeHeader (scan text)).1.filterMap Scanned.stray?)).trans
      (Adds.report _ _ (.atEnd "'(define'" f.table.endPoint))
    have hall : all f (scan text) (start s) =
        ((start s).reportStrays f ((takeHeader (scan text)).1.filterMap Scanned.stray?)).reportEnd f
          "'(define'" := by
      rw [all]
      simp only [hempty, List.isEmpty_nil, if_true]
    rw [hall]
    exact ⟨"", [], _, hadds.domain_eq, hadds.log_eq, .inl rfl, by simp, by simp⟩
  · rw [all_eq_body (f := f) hempty]
    obtain ⟨name, ds, hdomain, hlog, hrank, hname, hquiet⟩ :=
      afterHeader_adds f (takeHeader (scan text)).1
    obtain ⟨xs, es, hadds, hmem, hquiet'⟩ :=
      runsBody_body f (takeHeader (scan text)).2 (afterHeader f (takeHeader (scan text)).1)
    refine ⟨name, xs, ds ++ es, ?_, ?_, ?_, ?_, fun hds => ?_⟩
    · rw [hadds.domain_eq, hdomain]
    · rw [hadds.log_eq, hlog, DiagnosticLog.reportAll_append]
      rfl
    · exact hname.imp_right fun h => List.mem_append_left _ h
    · intro x hx t ht
      exact (List.mem_cons.1 (hmem x hx t ht)).elim (· ▸ List.mem_cons_self)
        fun ht => List.mem_cons_of_mem _ (List.mem_append_right _ ht)
    · obtain ⟨rfl, rfl⟩ := List.append_eq_nil_iff.1 hds
      obtain ⟨hstrays, hheader⟩ := hquiet rfl
      obtain ⟨hstrays', hreads⟩ := hquiet' rfl
      rw [hstrays, hstrays', hheader]
      exact ⟨rfl, _, rfl, hrank ▸ hreads⟩

/-- A text that is a header with an admitted body is read in silence. -/
theorem readDomain_of_reads {s : Settings} {text name : String} {ts : List Token}
    {xs : List Section} (hstrays : strays text = [])
    (htokens : tokens text = headerTokens name ++ ts) (h : BodyReads s none ts xs) :
    readDomain s text =
      ⟨xs.foldl (Section.addTo s.rootType) (headed name), .empty s.maxErrors⟩ := by
  let f : Frame := ⟨s, .ofText text⟩
  obtain ⟨front, rest, hls, hfront, rfl⟩ := List.map_eq_append_iff.1 htokens
  have hscan : scan text = front.map .lexeme ++ rest.map .lexeme := by
    rw [Scanned.eq_map_lexeme hstrays, ← List.map_append, ← hls]
    rfl
  have htake : takeHeader (scan text) = (front.map .lexeme, rest.map .lexeme) := by
    obtain ⟨inner, last, rfl, hinner, hlast⟩ := List.map_eq_append_iff.1
      (show front.map Lexeme.token =
        [.openParen, .define, .openParen, .domain, .name name] ++ [.closeParen] from hfront)
    obtain ⟨r, _, rfl, hr, hnil⟩ := List.map_eq_cons_iff.1 hlast
    obtain rfl := List.map_eq_nil_iff.1 hnil
    rw [hscan, List.map_append, List.map_singleton, List.append_assoc, List.singleton_append]
    refine takeHeader_of_token? (fun s hs => ?_) (congrArg some hr)
    obtain ⟨l, hl, rfl⟩ := List.mem_map.1 hs
    have hmem : l.token ∈ inner.map Lexeme.token := List.mem_map_of_mem hl
    rw [hinner] at hmem
    intro hclose
    rw [Option.some.inj hclose] at hmem
    simp at hmem
  have hne : (takeHeader (scan text)).1.filterMap Scanned.lexeme? ≠ [] := by
    rw [htake, Scanned.filterMap_lexeme?_map_lexeme]
    rintro rfl
    cases hfront
  have hbody := body_of_reads (f := f) (p := { start s with domain := headed name }) h
  simp only [readDomain]
  rw [all_eq_body (f := f) hne, htake, afterHeader_of_tokens hfront]
  exact congrArg₂ Reading.mk hbody.1 hbody.2

/-- A reading that succeeds was one of a header with an admitted body. -/
theorem reads_of_succeeded {s : Settings} {text : String}
    (h : (readDomain s text).succeeded = true) :
    strays text = [] ∧ ∃ name ts xs, tokens text = headerTokens name ++ ts ∧
      BodyReads s none ts xs ∧
      readDomain s text =
        ⟨xs.foldl (Section.addTo s.rootType) (headed name), .empty s.maxErrors⟩ := by
  obtain ⟨name, xs, ds, hdomain, hlog, -, -, hquiet⟩ := readDomain_adds s text
  have htotal : ds.length = 0 := by
    rw [Reading.succeeded, hlog, DiagnosticLog.total_reportAll, beq_iff_eq] at h
    exact Nat.eq_zero_of_add_eq_zero_left h
  obtain ⟨hstrays, ts, htokens, hreads⟩ := hquiet (List.length_eq_zero_iff.1 htotal)
  exact ⟨hstrays, name, ts, xs, htokens, hreads, readDomain_of_reads hstrays htokens hreads⟩

end PlanningDomain
