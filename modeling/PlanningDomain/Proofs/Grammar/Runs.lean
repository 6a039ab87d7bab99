import PlanningDomain.Proofs.Grammar.Sentence
import PlanningDomain.Proofs.Syntax.Reads
import PlanningDomain.Syntax.Production

/-! Typed lists. The grammar allows a run without a type to be cut at any place; the reader takes
it whole. Main statement: in front of a closing parenthesis the reader takes exactly the typed
lists, and yields the coarsest cut. -/
namespace PlanningDomain.Grammar

open Reader Production

/-- The runs with each one that lacks a type joined to the next. -/
def coarsen : List TypedRun → List TypedRun
  | [] => []
  | ⟨names, some type⟩ :: runs => ⟨names, some type⟩ :: coarsen runs
  | ⟨names, none⟩ :: runs =>
    match coarsen runs with
    | [] => [⟨names, none⟩]
    | run :: rest => ⟨names ++ run.names, run.type⟩ :: rest

/-- Runs of which only the last may lack a type. -/
inductive Coarse : List TypedRun → Prop
  | nil : Coarse []
  | last {names : List String} (h : names ≠ []) : Coarse [⟨names, none⟩]
  | typed {names : List String} {type : String} {runs : List TypedRun} (h : names ≠ [])
      (hs : Coarse runs) : Coarse (⟨names, some type⟩ :: runs)

theorem Coarse.names_ne_nil {runs : List TypedRun} (h : Coarse runs) :
    ∀ run ∈ runs, run.names ≠ [] := by
  induction h with
  | nil => simp
  | last h => simpa using h
  | typed h _ ih => simpa [h] using ih

theorem Coarse.coarsen_eq {runs : List TypedRun} (h : Coarse runs) : coarsen runs = runs := by
  induction h with
  | nil => rfl
  | last h => rfl
  | typed h _ ih => rw [coarsen, ih]

theorem coarse_coarsen {runs : List TypedRun} (h : ∀ run ∈ runs, run.names ≠ []) :
    Coarse (coarsen runs) := by
  induction runs with
  | nil => exact .nil
  | cons run runs ih =>
    have hnames := h run List.mem_cons_self
    have hcoarse := ih fun r hr => h r (List.mem_cons_of_mem _ hr)
    obtain ⟨names, _ | type⟩ := run
    · rw [coarsen]
      generalize coarsen runs = joined at hcoarse
      cases hcoarse with
      | nil => exact .last hnames
      | last hs => exact .last (by simp [hs])
      | typed hs hrest => exact .typed (by simp [hs]) hrest
    · exact .typed hnames hcoarse

theorem runTokens_coarsen (item : String → Token) (runs : List TypedRun) :
    runTokens item (coarsen runs) = runTokens item runs := by
  induction runs with
  | nil => rfl
  | cons run runs ih =>
    obtain ⟨names, _ | type⟩ := run
    · rw [coarsen]
      cases hruns : coarsen runs with
      | nil =>
        rw [hruns] at ih
        simp [runTokens, suffixTokens] at ih ⊢
        exact ih
      | cons r rest =>
        rw [hruns] at ih
        simp only [runTokens, List.flatMap_cons, suffixTokens] at ih ⊢
        simp [← ih]
    · simp only [coarsen, runTokens, List.flatMap_cons] at ih ⊢
      rw [ih]

/-- A reader that takes one token of a kind, which no mark of a typed list is. -/
structure ReadsItem (item : Reader String) (token : String → Token) : Prop where
  reads_iff : ∀ {ts v rest}, item.Reads ts v rest ↔ ts = token v :: rest
  ne_dash : ∀ v, token v ≠ .dash
  ne_closeParen : ∀ v, token v ≠ .closeParen

private theorem one_reads_iff {label : String} {accept : Token → Option String}
    {token : String → Token} (h : ∀ {t v}, accept t = some v ↔ t = token v) {ts rest : List Token}
    {v : String} : (one label accept).Reads ts v rest ↔ ts = token v :: rest := by
  simp [reads_one_iff, h]

@[simp] theorem name_reads_iff {ts rest : List Token} {v : String} :
    Production.name.Reads ts v rest ↔ ts = .name v :: rest :=
  one_reads_iff fun {t _} => by cases t <;> simp

@[simp] private theorem variableName_reads_iff {ts rest : List Token} {v : String} :
    variableName.Reads ts v rest ↔ ts = .var v :: rest :=
  one_reads_iff fun {t _} => by cases t <;> simp

@[simp] theorem flag_reads_iff {ts rest : List Token} {v : String} :
    flag.Reads ts v rest ↔ ts = .keyword v :: rest :=
  one_reads_iff fun {t _} => by cases t <;> simp

theorem readsItem_name : ReadsItem Production.name .name :=
  ⟨name_reads_iff, by simp, by simp⟩

theorem readsItem_variableName : ReadsItem variableName .var :=
  ⟨variableName_reads_iff, by simp, by simp⟩

theorem many_reads_iff {item : Reader α} {token : α → Token}
    (hitem : ∀ {ts v rest}, item.Reads ts v rest ↔ ts = token v :: rest)
    {ts rest : List Token} {vs : List α} :
    (many item).Reads ts vs rest ↔ ts = vs.map token ++ rest ∧ item.Fails rest := by
  have hprogress : item.Progresses := fun _ _ _ h => by
    rw [hitem.1 h]
    simp
  induction vs generalizing ts with
  | nil =>
    rw [reads_many_nil_iff]
    constructor
    · intro hread
      obtain ⟨h, rfl⟩ := hread
      exact ⟨rfl, h⟩
    · intro hruns
      obtain ⟨rfl, h⟩ := hruns
      exact ⟨h, rfl⟩
  | cons v vs ih =>
    rw [reads_many_cons_iff hprogress]
    constructor
    · intro hread
      obtain ⟨mid, hv, hvs⟩ := hread
      obtain ⟨rfl, hrest⟩ := ih.1 hvs
      exact ⟨hitem.1 hv, hrest⟩
    · intro hruns
      obtain ⟨rfl, hrest⟩ := hruns
      exact ⟨vs.map token ++ rest, hitem.2 rfl, ih.2 ⟨rfl, hrest⟩⟩

private theorem ReadsItem.fails {item : Reader String} {token : String → Token}
    (h : ReadsItem item token) {ts : List Token} (hts : ∀ v rest, ts ≠ token v :: rest) :
    item.Fails ts :=
  not_reads_iff.1 fun ⟨v, rest, hr⟩ => hts v rest (h.reads_iff.1 hr)

def typedRun (item : Reader String) : Reader TypedRun := do
  let names ← many1 item
  let type ← optional do
    token .dash
    Production.name
  return ⟨names, type⟩

private theorem typedList_eq (item : Reader String) : typedList item = many (typedRun item) := rfl

section Runs
variable {item : Reader String} {token : String → Token} {ts rest : List Token}

private theorem typedRun_reads_typed_iff (h : ReadsItem item token) {names : List String}
    {type : String} :
    (typedRun item).Reads ts ⟨names, some type⟩ rest ↔
      names ≠ [] ∧ ts = names.map token ++ .dash :: .name type :: rest := by
  have hdash : item.Fails (.dash :: .name type :: rest) :=
    h.fails fun v _ heq => h.ne_dash v (List.cons.inj heq).1.symm
  simp only [typedRun, reads_bind_iff, reads_many1_iff, many_reads_iff h.reads_iff, reads_pure_iff,
    TypedRun.mk.injEq]
  constructor
  · intro hread
    obtain ⟨_, _, ⟨hne, rfl, -⟩, _, _, hsuffix, ⟨rfl, rfl⟩, rfl⟩ := hread
    simp only [reads_optional_some_iff, reads_bind_iff, reads_token_iff, name_reads_iff] at hsuffix
    obtain ⟨_, _, rfl, rfl⟩ := hsuffix
    exact ⟨hne, rfl⟩
  · intro hruns
    obtain ⟨hne, rfl⟩ := hruns
    refine ⟨names, _, ⟨hne, rfl, hdash⟩, some type, rest, ?_, ⟨rfl, rfl⟩, rfl⟩
    simp

private theorem typedRun_reads_untyped_iff (h : ReadsItem item token) {names : List String} :
    (typedRun item).Reads ts ⟨names, none⟩ rest ↔
      names ≠ [] ∧ ts = names.map token ++ rest ∧ item.Fails rest ∧
        ∀ type tail, rest ≠ .dash :: .name type :: tail := by
  simp only [typedRun, reads_bind_iff, reads_many1_iff, many_reads_iff h.reads_iff, reads_pure_iff,
    TypedRun.mk.injEq]
  constructor
  · intro hread
    obtain ⟨_, _, ⟨hne, rfl, hfails⟩, _, _, hsuffix, ⟨rfl, rfl⟩, rfl⟩ := hread
    obtain ⟨hnone, rfl⟩ := reads_optional_none_iff.1 hsuffix
    refine ⟨hne, rfl, hfails, ?_⟩
    rintro type tail rfl
    have hread : (Reader.token .dash >>= fun _ => Production.name).Reads
        (.dash :: .name type :: tail) type tail := by simp
    exact hnone.not_reads hread
  · intro hruns
    obtain ⟨hne, rfl, hfails, hrest⟩ := hruns
    refine ⟨names, rest, ⟨hne, rfl, hfails⟩, none, rest, ?_, ⟨rfl, rfl⟩, rfl⟩
    refine reads_optional_none_iff.2 ⟨not_reads_iff.1 ?_, rfl⟩
    rintro ⟨type, tail, hr⟩
    simp only [reads_bind_iff, reads_token_iff, name_reads_iff] at hr
    obtain ⟨_, _, rfl, rfl⟩ := hr
    exact hrest type tail rfl

private theorem typedRun_progresses (h : ReadsItem item token) : (typedRun item).Progresses := by
  rintro ts ⟨names, _ | type⟩ rest hr
  · obtain ⟨hne, rfl, -⟩ := (typedRun_reads_untyped_iff h).1 hr
    have := List.length_pos_iff.2 hne
    simp
    omega
  · obtain ⟨hne, rfl⟩ := (typedRun_reads_typed_iff h).1 hr
    simp
    omega

private theorem typedRun_fails (h : ReadsItem item token) (hts : item.Fails ts) :
    (typedRun item).Fails ts := by
  refine not_reads_iff.1 ?_
  rintro ⟨⟨names, type⟩, rest, hr⟩
  have hnames : ∃ tail, names ≠ [] ∧ ts = names.map token ++ tail := by
    cases type with
    | none =>
      obtain ⟨hne, hts, -⟩ := (typedRun_reads_untyped_iff h).1 hr
      exact ⟨_, hne, hts⟩
    | some type =>
      obtain ⟨hne, hts⟩ := (typedRun_reads_typed_iff h).1 hr
      exact ⟨_, hne, hts⟩
  obtain ⟨tail, hne, rfl⟩ := hnames
  cases names with
  | nil => exact hne rfl
  | cons name names => exact hts.not_reads (h.reads_iff.2 rfl)

/-- In front of a closing parenthesis, the reader takes exactly the coarse lists of runs. -/
theorem typedList_reads_coarse_iff (h : ReadsItem item token) {runs : List TypedRun} :
    (typedList item).Reads ts runs (.closeParen :: rest) ↔
      Coarse runs ∧ ts = runTokens token runs ++ .closeParen :: rest := by
  have hclose : item.Fails (.closeParen :: rest) :=
    h.fails fun v _ heq => h.ne_closeParen v (List.cons.inj heq).1.symm
  rw [typedList_eq]
  induction runs generalizing ts with
  | nil =>
    rw [reads_many_nil_iff]
    constructor
    · intro hread
      obtain ⟨-, rfl⟩ := hread
      exact ⟨.nil, rfl⟩
    · intro hruns
      obtain ⟨-, rfl⟩ := hruns
      exact ⟨typedRun_fails h hclose, rfl⟩
  | cons run runs ih =>
    rw [reads_many_cons_iff (typedRun_progresses h)]
    obtain ⟨names, _ | type⟩ := run
    · constructor
      · intro hruns
        obtain ⟨mid, hrun, hruns⟩ := hruns
        obtain ⟨hne, rfl, hfails, -⟩ := (typedRun_reads_untyped_iff h).1 hrun
        -- The run ended where no item stands, so that no further run can follow.
        cases runs with
        | nil =>
          obtain ⟨-, rfl⟩ := reads_many_nil_iff.1 hruns
          exact ⟨.last hne, by simp [runTokens, suffixTokens]⟩
        | cons run runs =>
          obtain ⟨_, hrun', -⟩ := (reads_many_cons_iff (typedRun_progresses h)).1 hruns
          exact absurd hrun' (typedRun_fails h hfails).not_reads
      · intro hruns
        obtain ⟨hcoarse, rfl⟩ := hruns
        cases hcoarse with
        | last hne =>
          refine ⟨.closeParen :: rest, (typedRun_reads_untyped_iff h).2 ⟨hne, ?_, hclose, ?_⟩,
            reads_many_nil_iff.2 ⟨typedRun_fails h hclose, rfl⟩⟩
          · simp [runTokens, suffixTokens]
          · simp
    · constructor
      · intro hruns
        obtain ⟨mid, hrun, hruns⟩ := hruns
        obtain ⟨hne, rfl⟩ := (typedRun_reads_typed_iff h).1 hrun
        obtain ⟨hcoarse, rfl⟩ := ih.1 hruns
        exact ⟨.typed hne hcoarse, by simp [runTokens, suffixTokens]⟩
      · intro hruns
        obtain ⟨hcoarse, rfl⟩ := hruns
        cases hcoarse with
        | typed hne hcoarse =>
          refine ⟨runTokens token runs ++ .closeParen :: rest,
            (typedRun_reads_typed_iff h).2 ⟨hne, ?_⟩, ih.2 ⟨hcoarse, rfl⟩⟩
          simp [runTokens, suffixTokens]

/-- In front of a closing parenthesis, the reader takes exactly the typed lists of the grammar, and
yields each in its coarsest cut. -/
theorem typedList_reads_iff (h : ReadsItem item token) {runs : List TypedRun} :
    (typedList item).Reads ts runs (.closeParen :: rest) ↔
      ∃ list : TypedList, ts = runTokens token list.runs ++ .closeParen :: rest ∧
        coarsen list.runs = runs := by
  rw [typedList_reads_coarse_iff h]
  constructor
  · intro hread
    obtain ⟨hcoarse, rfl⟩ := hread
    exact ⟨⟨runs, hcoarse.names_ne_nil⟩, rfl, hcoarse.coarsen_eq⟩
  · intro hruns
    obtain ⟨list, rfl, rfl⟩ := hruns
    exact ⟨coarse_coarsen list.names_ne_nil, by rw [runTokens_coarsen]⟩

end Runs
end PlanningDomain.Grammar
