import PlanningDomain.Proofs.Format.CanonicalText
import PlanningDomain.Proofs.Format.Lines

/-! What a summary shows. Main statement: all of a domain but its file, if every name is a name of
the language. Each line is told from the next by its newline, each list from what follows by the
number in its heading, and each item from the words of its line. -/
namespace PlanningDomain

open Grammar

private theorem flatMap_pairTokens_inj {pairs pairs' : List (String × String)}
    (h : pairs.flatMap (pairTokens .var) = pairs'.flatMap (pairTokens .var)) : pairs = pairs' := by
  induction pairs generalizing pairs' with
  | nil =>
    cases pairs' with
    | nil => rfl
    | cons pair' pairs' => cases h
  | cons pair pairs ih =>
    cases pairs' with
    | nil => cases h
    | cons pair' pairs' =>
      obtain ⟨name, type⟩ := pair
      obtain ⟨name', type'⟩ := pair'
      simp only [List.flatMap_cons, pairTokens, List.cons_append, List.nil_append, List.cons.injEq,
        Token.var.injEq, Token.name.injEq, true_and] at h
      obtain ⟨rfl, rfl, hrest⟩ := h
      rw [ih hrest]

private theorem Params.Printable.text_inj {p q : Params} (hp : p.Printable) (hq : q.Printable)
    (h : p.text = q.text) : p = q := by
  have htokens := hp.spells_text.tokens_eq
  rw [h, hq.spells_text.tokens_eq, runTokens_singleRuns, runTokens_singleRuns] at htokens
  exact hp.eq_of_pairs_eq hq (flatMap_pairTokens_inj htokens.symm)

private theorem signature_tokens_inj {name name' : String} {p q : Params} (hp : p.Printable)
    (hq : q.Printable)
    (h : Signature.tokens ⟨name, singleRuns p.pairs⟩ =
      Signature.tokens ⟨name', singleRuns q.pairs⟩) :
    name = name' ∧ p = q := by
  simp only [Signature.tokens, enclosed, runTokens_singleRuns, List.cons_append, List.cons.injEq,
    Token.name.injEq, true_and] at h
  have hpairs := flatMap_pairTokens_inj (List.append_cancel_right h.2)
  exact ⟨h.1, hp.eq_of_pairs_eq hq hpairs⟩

private theorem Task.Printable.text_inj {t u : Task} (ht : t.Printable) (hu : u.Printable)
    (h : t.text = u.text) : t = u := by
  have htokens := ht.spells_text.tokens_eq
  rw [h, hu.spells_text.tokens_eq] at htokens
  obtain ⟨hname, hparams⟩ := signature_tokens_inj ht.params hu.params htokens.symm
  cases t
  cases u
  simp_all

private theorem Predicate.Printable.text_inj {p q : Predicate} (hp : p.Printable) (hq : q.Printable)
    (h : p.text = q.text) : p = q := by
  have htokens := hp.spells_text.tokens_eq
  rw [h, hq.spells_text.tokens_eq] at htokens
  obtain ⟨name, negated, params⟩ := p
  obtain ⟨name', negated', params'⟩ := q
  simp only [Literal.tokens, Predicate.literal] at htokens
  -- The second token is the name or the reserved word in front of it.
  cases negated <;> cases negated'
  · obtain ⟨rfl, rfl⟩ := signature_tokens_inj hq.params hp.params htokens
    rfl
  · simp [Signature.tokens, enclosed] at htokens
  · simp [Signature.tokens, enclosed] at htokens
  · have hatoms := List.append_cancel_right (List.cons.inj (List.cons.inj htokens).2).2
    obtain ⟨rfl, rfl⟩ := signature_tokens_inj hq.params hp.params hatoms
    rfl

private theorem numberedTasks_inj {next : Nat} {ts us : List Task} {rest rest' : List String}
    (ht : ∀ t ∈ ts, t.Printable) (hu : ∀ u ∈ us, u.Printable) (hlength : ts.length = us.length)
    (heq : numberedTasks next ts ++ rest = numberedTasks next us ++ rest') :
    ts = us ∧ rest = rest' := by
  induction ts generalizing next us with
  | nil =>
    obtain rfl := List.eq_nil_of_length_eq_zero hlength.symm
    exact ⟨rfl, heq⟩
  | cons t ts ih =>
    cases us with
    | nil => cases hlength
    | cons u us =>
      obtain ⟨hfirst, hts⟩ := List.forall_mem_cons.1 ht
      obtain ⟨hfirst', hus⟩ := List.forall_mem_cons.1 hu
      simp only [numberedTasks, List.cons_append, List.cons.injEq, String.append_right_inj] at heq
      obtain rfl := hfirst.text_inj hfirst' heq.1
      obtain ⟨rfl, hrest⟩ := ih hts hus (Nat.succ.inj hlength) heq.2
      exact ⟨rfl, hrest⟩

private theorem legible_method : Legible Method.summaryLines Method.Printable := by
  intro m n rest rest' hm hn heq
  obtain ⟨name, params, task, ordered, subtasks⟩ := m
  obtain ⟨name', params', task', ordered', subtasks'⟩ := n
  simp only [Method.summaryLines, countedHeading, List.cons_append, List.nil_append,
    List.cons.injEq, String.append_assoc, String.append_right_inj] at heq
  obtain ⟨hhead, htask, hheading, hsubtasks⟩ := heq
  have hsolid {name : String} (h : IsName name) : ' ' ∉ name.toList :=
    fun hmem => absurd (h.isSolid ' ' hmem).1 (by decide)
  obtain ⟨rfl, hparams⟩ := eq_of_separated " (" rfl (hsolid hm.isName) (hsolid hn.isName) hhead
  obtain rfl := hm.params.text_inj hn.params ((String.append_left_inj ")").1 hparams)
  obtain rfl := hm.task.text_inj hn.task htask
  have hordered : ordered = ordered' := by
    have hfirst := congrArg (fun text => text.toList.head?) hheading
    simp only [String.toList_append, List.head?_append] at hfirst
    rcases ordered <;> rcases ordered'
    · rfl
    · simp at hfirst
    · simp at hfirst
    · rfl
  subst hordered
  have hlength : subtasks.length = subtasks'.length := by
    simpa [Nat.toString_eq_repr, Nat.repr_inj] using hheading
  obtain ⟨rfl, hrest⟩ := numberedTasks_inj hm.subtasks hn.subtasks hlength hsubtasks
  exact ⟨rfl, hrest⟩

namespace Domain

def summaryLines (d : Domain) : List String :=
  ("domain: " ++ d.name) :: ("requirements: [" ++ ", ".intercalate d.requirements ++ "]") ::
    (counted "types" (fun e => ["  " ++ e.1 ++ " -> " ++ e.2]) d.types.entries ++
      (counted "predicates" (fun p => ["  " ++ p.text]) d.predicates ++
        (counted "tasks" (fun t => ["  " ++ t.text]) d.tasks ++
          counted "methods" Method.summaryLines d.methods)))

private theorem summary_eq_unlines (d : Domain) : d.summary = unlines d.summaryLines := by
  simp only [summary, summaryLines, counted, ← List.map_eq_flatMap, List.append_assoc,
    List.cons_append, List.nil_append]

end Domain

private theorem Params.Printable.oneLine_text {p : Params} (h : p.Printable) : OneLine p.text := by
  refine oneLine_intercalate (by decide) fun text htext => ?_
  obtain ⟨pair, hpair, rfl⟩ := List.mem_map.1 htext
  obtain ⟨hname, htype⟩ := h.of_mem_pairs hpair
  have hdash : OneLine " - " := by decide
  simp [hname.oneLine, htype.oneLine, hdash]

private theorem oneLine_signatureText {name : String} {p : Params} (hname : IsName name)
    (hp : p.Printable) : OneLine (signatureText name p) := by
  have hopen : OneLine "(" := by decide
  have hclose : OneLine ")" := by decide
  have hblank : OneLine " " := by decide
  rw [signatureText]
  split
  · simp [hopen, hclose, hname.oneLine]
  · simp [hopen, hclose, hblank, hname.oneLine, hp.oneLine_text]

private theorem Predicate.Printable.oneLine_text {p : Predicate} (h : p.Printable) :
    OneLine p.text := by
  have hatom := oneLine_signatureText h.isName h.params
  have hopen : OneLine "(not " := by decide
  have hclose : OneLine ")" := by decide
  rw [Predicate.text]
  split
  · simp [hopen, hclose, hatom]
  · exact hatom

private theorem Task.Printable.oneLine_text {t : Task} (h : t.Printable) : OneLine t.text :=
  oneLine_signatureText h.isName h.params

private theorem oneLine_numberedTasks {next : Nat} {ts : List Task} (h : ∀ t ∈ ts, t.Printable) :
    ∀ line ∈ numberedTasks next ts, OneLine line := by
  induction ts generalizing next with
  | nil => simp [numberedTasks]
  | cons t ts ih =>
    obtain ⟨ht, hts⟩ := List.forall_mem_cons.1 h
    have hindent : OneLine "      " := by decide
    have hdot : OneLine ". " := by decide
    refine List.forall_mem_cons.2 ⟨?_, ih hts⟩
    simp [hindent, hdot, ht.oneLine_text]

private theorem Method.Printable.oneLine_summaryLines {m : Method} (h : m.Printable) :
    ∀ line ∈ m.summaryLines, OneLine line := by
  have hindent : OneLine "  " := by decide
  have hopen : OneLine " (" := by decide
  have hclose : OneLine ")" := by decide
  have htask : OneLine "    decomposes " := by decide
  have hdeep : OneLine "    " := by decide
  have hheading : OneLine (if m.ordered then "ordered subtasks" else "unordered subtasks") := by
    cases m.ordered <;> decide
  refine List.forall_mem_append.2 ⟨?_, oneLine_numberedTasks h.subtasks⟩
  simp [hindent, hopen, hclose, htask, hdeep, h.isName.oneLine, h.params.oneLine_text,
    h.task.oneLine_text, oneLine_countedHeading hheading]

namespace Domain.Printable
variable {d e : Domain}

private theorem oneLine_summaryLines (h : d.Printable) : ∀ line ∈ d.summaryLines, OneLine line := by
  have hindent : OneLine "  " := by decide
  have harrow : OneLine " -> " := by decide
  have hname : OneLine ("domain: " ++ d.name) :=
    oneLine_append.2 ⟨by decide, h.isName.oneLine⟩
  have hrequirements : OneLine ("requirements: [" ++ ", ".intercalate d.requirements ++ "]") := by
    have hwords : OneLine (", ".intercalate d.requirements) :=
      oneLine_intercalate (by decide) fun flag hflag => oneLine_of_isSolid fun c hc =>
        isSolid_of_continuesWord ((h.requirements flag hflag).2 c hc)
    exact oneLine_append.2 ⟨oneLine_append.2 ⟨by decide, hwords⟩, by decide⟩
  refine List.forall_mem_cons.2 ⟨hname, List.forall_mem_cons.2 ⟨hrequirements, ?_⟩⟩
  simp only [List.forall_mem_append]
  refine ⟨oneLine_counted (by decide) fun x hx => ?_, oneLine_counted (by decide) fun x hx => ?_,
    oneLine_counted (by decide) fun x hx => ?_, oneLine_counted (by decide) fun x hx => ?_⟩
  · obtain ⟨hname, hparent⟩ := h.types x hx
    simp [hindent, harrow, hname.oneLine, hparent.oneLine]
  · simp [hindent, (h.predicates x hx).oneLine_text]
  · simp [hindent, (h.tasks x hx).oneLine_text]
  · exact (h.methods x hx).oneLine_summaryLines

private theorem legible_typeLine :
    Legible (fun e : String × String => ["  " ++ e.1 ++ " -> " ++ e.2])
      fun e => IsName e.1 ∧ IsName e.2 := by
  refine .line fun x y hx hy heq => ?_
  simp only [String.append_assoc, String.append_right_inj] at heq
  have hsolid {name : String} (h : IsName name) : ' ' ∉ name.toList :=
    fun hmem => absurd (h.isSolid ' ' hmem).1 (by decide)
  obtain ⟨hname, hparent⟩ := eq_of_separated " -> " rfl (hsolid hx.1) (hsolid hy.1) heq
  exact Prod.ext hname hparent

private theorem requirements_eq (hd : d.Printable) (he : e.Printable)
    (h : "requirements: [" ++ ", ".intercalate d.requirements ++ "]" =
      "requirements: [" ++ ", ".intercalate e.requirements ++ "]") :
    d.requirements = e.requirements := by
  have hwords {d : Domain} (hd : d.Printable) :
      ∀ flag ∈ d.requirements, flag ≠ "" ∧ ',' ∉ flag.toList := fun flag hflag =>
    ⟨(hd.requirements flag hflag).1, fun hcomma =>
      absurd ((hd.requirements flag hflag).2 ',' hcomma) (by decide)⟩
  refine intercalate_comma_inj (hwords hd) (hwords he) ?_
  exact (String.append_right_inj _).1 ((String.append_left_inj _).1 h)

private theorem eq_of_summaryLines_eq (hd : d.Printable) (he : e.Printable)
    (h : d.summaryLines = e.summaryLines) : { d with filePath := e.filePath } = e := by
  obtain ⟨hname, htail⟩ := List.cons.inj h
  obtain ⟨hflags, hlists⟩ := List.cons.inj htail
  obtain ⟨htypes, hlists⟩ := legible_typeLine.counted hd.types he.types hlists
  obtain ⟨hpredicates, hlists⟩ := (Legible.line (P := Predicate.Printable) fun p q hp hq heq =>
    hp.text_inj hq ((String.append_right_inj _).1 heq)).counted hd.predicates he.predicates hlists
  obtain ⟨htasks, hlists⟩ := (Legible.line (P := Task.Printable) fun t u ht hu heq =>
    ht.text_inj hu ((String.append_right_inj _).1 heq)).counted hd.tasks he.tasks hlists
  have hmethods :=
    (legible_method.counted hd.methods he.methods (congrArg (· ++ ([] : List String)) hlists)).1
  have hrequirements := requirements_eq hd he hflags
  have hentries : d.types = e.types := by
    refine NameMap.ext_get? fun name => ?_
    rw [NameMap.get?, NameMap.get?, htypes]
  obtain ⟨path, name, requirements, types, predicates, tasks, methods⟩ := d
  obtain ⟨path', name', requirements', types', predicates', tasks', methods'⟩ := e
  obtain rfl := (String.append_right_inj _).1 hname
  cases hrequirements
  cases hentries
  cases hpredicates
  cases htasks
  cases hmethods
  rfl

end Domain.Printable

/-- Two domains of the language's own names have one summary exactly if they are the same in all but
the files they were read from. -/
theorem summary_shows_everything {d e : Domain} (hd : d.Printable) (he : e.Printable) :
    d.summary = e.summary ↔ { d with filePath := e.filePath } = e := by
  constructor
  · intro h
    rw [d.summary_eq_unlines, e.summary_eq_unlines] at h
    exact hd.eq_of_summaryLines_eq he
      (unlines_inj hd.oneLine_summaryLines he.oneLine_summaryLines h)
  · intro h
    rw [← h]
    rfl

/-- Two orders of the same unordered subtasks make two summaries, and two files make one. A
parameter is repeated. -/
theorem summary_shows_everything_of_subtasks :
    let go : Task := ⟨"go", ⟨["?x", "?y-", "?x"], .ofList [("?x", "a-"), ("?y-", "b")]⟩⟩
    let idle : Task := ⟨"idle", .empty⟩
    let domain (path : String) (subtasks : List Task) : Domain :=
      { filePath := path
        name := "d"
        requirements := ["Hierarchy", "typing"]
        types := .ofList [("a-", "b"), ("b", "object")]
        predicates := [⟨"at", true, go.params⟩]
        tasks := [go, go]
        methods := [⟨"m", .empty, idle, false, subtasks⟩] }
    let d := domain "d.hddl" [go, idle]
    let e := domain "e.hddl" [idle, go]
    d.Printable ∧ e.Printable ∧ d.summary ≠ e.summary ∧
      d.summary = (domain "e.hddl" [go, idle]).summary := by
  intro go idle domain d e
  have hmem (name : String) : name ∈ go.params.names ↔ name ∈ go.params.types.keys := by
    change name ∈ ["?x", "?y-", "?x"] ↔ name ∈ ["?x", "?y-"]
    simp only [List.mem_cons, List.not_mem_nil, or_false]
    tauto
  have hgo : go.Printable := ⟨by decide +kernel, hmem, by decide +kernel, by decide +kernel⟩
  have hidle : idle.Printable :=
    ⟨by decide +kernel, Params.settled_empty.mem_iff, by decide +kernel, by decide +kernel⟩
  have hname : IsName "d" := by decide +kernel
  have hflags : ∀ flag ∈ ["Hierarchy", "typing"],
      flag ≠ "" ∧ ∀ c ∈ flag.toList, continuesWord c = true := by simp [continuesWord]
  have htypes : ∀ e ∈ (NameMap.ofList [("a-", "b"), ("b", "object")]).entries,
      IsName e.1 ∧ IsName e.2 := by decide +kernel
  have hat : (⟨"at", true, go.params⟩ : Predicate).Printable := ⟨by decide +kernel, hgo.params⟩
  have hm : IsName "m" := by decide +kernel
  have hprintable (path : String) {subtasks : List Task} (h : ∀ t ∈ subtasks, t.Printable) :
      (domain path subtasks).Printable :=
    ⟨hname, hflags, htypes, List.forall_mem_singleton.2 hat, by simp [domain, hgo],
      List.forall_mem_singleton.2 ⟨hm, hidle.params, hidle, h⟩⟩
  have hd : d.Printable := hprintable "d.hddl" (by simp [hgo, hidle])
  have he : e.Printable := hprintable "e.hddl" (by simp [hgo, hidle])
  have hmoved : (domain "e.hddl" [go, idle]).Printable := hprintable _ (by simp [hgo, hidle])
  refine ⟨hd, he, fun h => ?_, (summary_shows_everything hd hmoved).2 rfl⟩
  exact absurd ((summary_shows_everything hd he).1 h) (by decide +kernel)

end PlanningDomain
