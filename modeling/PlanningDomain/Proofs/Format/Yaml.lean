import Mathlib.Data.List.Forall2
import PlanningDomain.Domain.Import
import PlanningDomain.Proofs.Format.YamlScalar

/-! Domains in YAML, line by line. Main statement: the document of a domain whose texts have no line
breaks is its lines, one after the other. -/
namespace PlanningDomain.Yaml

abbrev Line := List Char

def within (lines : List Line) : List Line :=
  lines.map ("  ".toList ++ ·)

/-- The lines of an item, behind its dash. -/
def itemLines : List Line → List Line
  | [] => []
  | first :: rest => ("- ".toList ++ first) :: within rest

def listLines (name : String) (items : List (List Line)) : List Line :=
  if items = [] then [name.toList ++ ": []".toList]
  else (name.toList ++ [':']) :: items.flatMap itemLines

/-- The lines of a name and a text. A long name has a line of its own. -/
def entryLines (entry : String × String) : List Line :=
  if byteLength entry.1.toList ≤ 128 then [scalar entry.1 ++ ": ".toList ++ scalar entry.2]
  else ["? ".toList ++ scalar entry.1, ": ".toList ++ scalar entry.2]

def mapLines (name : String) (m : NameMap) : List Line :=
  if m.entries = [] then [name.toList ++ ": \x7b\x7d".toList]
  else (name.toList ++ [':']) :: within (m.entries.flatMap entryLines)

def booleanLine (name : String) (value : Bool) : Line :=
  name.toList ++ ": ".toList ++ (if value then "true" else "false").toList

def textLine (name text : String) : Line :=
  name.toList ++ ": ".toList ++ scalar text

def paramsLines (p : Params) : List Line :=
  "params:".toList ::
    within (listLines "params" (p.names.map fun name => [scalar name]) ++ mapLines "types" p.types)

def predicateLines (p : Predicate) : List Line :=
  textLine "name" p.name :: booleanLine "negated" p.negated :: paramsLines p.params

def taskLines (t : Task) : List Line :=
  textLine "name" t.name :: paramsLines t.params

def methodLines (m : Method) : List Line :=
  textLine "name" m.name :: paramsLines m.params ++ "task:".toList :: within (taskLines m.task) ++
    booleanLine "ordered_subtasks" m.ordered :: listLines "subtasks" (m.subtasks.map taskLines)

def domainLines (d : Domain) : List Line :=
  textLine "file_path" d.filePath :: textLine "name" d.name ::
    (listLines "requirements" (d.requirements.map fun flag => [scalar flag]) ++
      mapLines "types" d.types ++ listLines "predicates" (d.predicates.map predicateLines) ++
      listLines "tasks" (d.tasks.map taskLines) ++ listLines "methods" (d.methods.map methodLines))

def unlined (lines : List Line) : List Char :=
  lines.flatMap (· ++ ['\n'])

/-- The text is these lines, none of which is empty or has a break in it. -/
structure IsBlock (cs : List Char) (lines : List Line) : Prop where
  eq_unlined : cs = unlined lines
  isLine : ∀ l ∈ lines, l ≠ [] ∧ Unbroken l

private theorem IsBlock.append {cs ds : List Char} {lines more : List Line} (h : IsBlock cs lines)
    (h' : IsBlock ds more) : IsBlock (cs ++ ds) (lines ++ more) where
  eq_unlined := by rw [h.eq_unlined, h'.eq_unlined, unlined, unlined, unlined, List.flatMap_append]
  isLine l hl := (List.mem_append.1 hl).elim (h.isLine l) (h'.isLine l)

private theorem isBlock_singleton {l : Line} (hne : l ≠ []) (h : Unbroken l) :
    IsBlock (l ++ ['\n']) [l] where
  eq_unlined := by simp [unlined]
  isLine m hm := List.mem_singleton.1 hm ▸ ⟨hne, h⟩

private theorem indentRest_line {l : Line} (h : Unbroken l) (width : Nat) (rest : List Char) :
    indentRest width (l ++ '\n' :: rest) =
      l ++
          (if rest.head?.any (fun c => !isBreak c) then '\n' :: List.replicate width ' '
            else ['\n']) ++
        indentRest width rest := by
  induction l with
  | nil =>
    have hbreak : isBreak '\n' = true := rfl
    rw [List.nil_append, indentRest, hbreak, Bool.true_and]
    split <;> rfl
  | cons c l ih =>
    obtain ⟨hc, hl⟩ := List.forall_mem_cons.1 h
    rw [List.cons_append, indentRest, hc, Bool.false_and, if_neg Bool.false_ne_true, ih hl]
    rfl

private theorem indentRest_unlined {lines : List Line} (h : ∀ l ∈ lines, l ≠ [] ∧ Unbroken l)
    {first : Line} (hfirst : Unbroken first) (width : Nat) :
    indentRest width (unlined (first :: lines)) =
      unlined (first :: lines.map (List.replicate width ' ' ++ ·)) := by
  -- Along the lines behind the first: a break is followed by blanks if a line stands behind it.
  induction lines generalizing first with
  | nil =>
    have hline := indentRest_line hfirst width []
    simpa [unlined, indentRest] using hline
  | cons l lines ih =>
    obtain ⟨⟨hne, hl⟩, hlines⟩ := List.forall_mem_cons.1 h
    obtain ⟨c, l, rfl⟩ := List.exists_cons_of_ne_nil hne
    have hline := indentRest_line hfirst width (unlined ((c :: l) :: lines))
    have hhead : (unlined ((c :: l) :: lines)).head?.any (fun c => !isBreak c) = true := by
      simp [unlined, hl c List.mem_cons_self]
    rw [hhead, if_pos rfl, ih hlines hl] at hline
    simpa [unlined] using hline

private theorem IsBlock.hang {cs : List Char} {first : Line} {lines : List Line}
    (h : IsBlock cs (first :: lines)) (mark : String) (hmark : Unbroken mark.toList)
    (hwidth : List.replicate mark.length ' ' = "  ".toList) :
    IsBlock (hang mark cs) ((mark.toList ++ first) :: within lines) where
  eq_unlined := by
    obtain ⟨⟨-, hfirst⟩, hlines⟩ := List.forall_mem_cons.1 h.isLine
    rw [Yaml.hang, h.eq_unlined, indentRest_unlined hlines hfirst, hwidth]
    simp [unlined, within]
  isLine := by
    obtain ⟨⟨hne, hfirst⟩, hlines⟩ := List.forall_mem_cons.1 h.isLine
    refine List.forall_mem_cons.2 ⟨⟨by simp [hne], hmark.append hfirst⟩, fun l hl => ?_⟩
    obtain ⟨m, hm, rfl⟩ := List.mem_map.1 hl
    exact ⟨by simp, Unbroken.append (by decide) (hlines m hm).2⟩

private theorem isBlock_single {j : Json} (hne : single j ≠ []) (h : Unbroken (single j)) :
    IsBlock (endLine (single j)) [single j] := by
  have hend : (single j).getLast?.any isBreak = false := by
    rw [List.getLast?_eq_some_getLast hne]
    exact h _ (List.getLast_mem hne)
  rw [endLine, hend]
  exact isBlock_singleton hne h

private theorem isBlock_text {text : String} (h : Unbroken text.toList) :
    IsBlock (block (.text text)) [scalar text] := by
  obtain ⟨hne, hunbroken⟩ := scalar_ne_nil_and_unbroken h
  exact isBlock_single (j := .text text) hne hunbroken

private theorem isBlock_array {items : List Json} {lines : List (List Line)}
    (h : List.Forall₂ (fun j ls => IsBlock (block j) ls ∧ ls ≠ []) items lines) :
    IsBlock (itemBlocks items) (lines.flatMap itemLines) := by
  induction h with
  | nil => exact ⟨rfl, fun l hl => absurd hl List.not_mem_nil⟩
  | @cons j ls items lines hitem _ ih =>
    obtain ⟨first, rest, rfl⟩ := List.exists_cons_of_ne_nil hitem.2
    rw [itemBlocks, List.flatMap_cons]
    exact (hitem.1.hang "- " (by decide) rfl).append ih

def HasLines (m : String × Json) (lines : List Line) : Prop :=
  IsBlock (memberBlock m.1 m.2 (block m.2)) lines

private theorem isBlock_members {members : List (String × Json)} {lines : List (List Line)}
    (h : List.Forall₂ HasLines members lines) :
    IsBlock (memberBlocks members) lines.flatten := by
  induction h with
  | nil => exact ⟨rfl, fun l hl => absurd hl List.not_mem_nil⟩
  | @cons m ls members lines hmember _ ih =>
    rw [memberBlocks, List.flatten_cons]
    exact hmember.append ih

def memberNames : List String :=
  ["file_path", "name", "requirements", "types", "predicates", "tasks", "methods", "negated",
    "params", "task", "ordered_subtasks", "subtasks"]

private theorem memberName_facts : ∀ name ∈ memberNames,
    isShortName name = true ∧ scalar name = name.toList ∧ Unbroken name.toList := by
  decide +kernel

section Members
variable {name : String}

private theorem hasLines_of_mem (hname : name ∈ memberNames) {value : Json} {lines : List Line}
    (h : IsBlock (match value with
      | .array (_ :: _) => scalar name ++ ':' :: '\n' :: block value
      | .object (_ :: _) => scalar name ++ ':' :: '\n' :: hang "  " (block value)
      | _ => scalar name ++ ':' :: ' ' :: indentRest 2 (block value)) lines) :
    HasLines (name, value) lines := by
  unfold HasLines memberBlock
  rw [if_pos (memberName_facts name hname).1]
  exact h

private theorem isBlock_besideName (hname : name ∈ memberNames) {cs : List Char} {l : Line}
    (h : IsBlock cs [l]) :
    IsBlock (scalar name ++ ':' :: ' ' :: indentRest 2 cs) [name.toList ++ ": ".toList ++ l] := by
  obtain ⟨-, hscalar, hunbroken⟩ := memberName_facts name hname
  obtain ⟨hne, hl⟩ := h.isLine l (List.mem_singleton_self l)
  rw [h.eq_unlined, indentRest_unlined (fun _ hm => absurd hm List.not_mem_nil) hl, hscalar]
  have hline := isBlock_singleton (l := name.toList ++ ": ".toList ++ l) (by simp)
    ((hunbroken.append (by decide)).append hl)
  simpa [unlined] using hline

private theorem hasLines_text (hname : name ∈ memberNames) {text : String}
    (h : Unbroken text.toList) : HasLines (name, .text text) [textLine name text] :=
  hasLines_of_mem hname (isBlock_besideName hname (isBlock_text h))

private theorem hasLines_boolean (hname : name ∈ memberNames) (value : Bool) :
    HasLines (name, .boolean value) [booleanLine name value] := by
  have hvalue : IsBlock (block (.boolean value)) [single (.boolean value)] := by
    cases value <;> exact isBlock_single (by decide) (by decide)
  exact hasLines_of_mem hname (isBlock_besideName hname hvalue)

private theorem isBlock_belowName (hname : name ∈ memberNames) {cs : List Char} {lines : List Line}
    (h : IsBlock cs lines) :
    IsBlock (scalar name ++ ':' :: '\n' :: cs) ((name.toList ++ [':']) :: lines) := by
  obtain ⟨-, hscalar, hunbroken⟩ := memberName_facts name hname
  have hline := (isBlock_singleton (l := name.toList ++ [':']) (by simp)
    (hunbroken.append (by decide))).append h
  simpa [hscalar] using hline

private theorem hasLines_array (hname : name ∈ memberNames) {items : List Json}
    {lines : List (List Line)}
    (h : List.Forall₂ (fun j ls => IsBlock (block j) ls ∧ ls ≠ []) items lines) :
    HasLines (name, .array items) (listLines name lines) := by
  refine hasLines_of_mem hname ?_
  cases h with
  | nil =>
    have hvalue : IsBlock (block (.array [])) ["[]".toList] :=
      isBlock_single (j := .array []) (by decide) (by decide)
    simpa [listLines] using isBlock_besideName hname hvalue
  | cons hitem hitems =>
    exact isBlock_belowName hname (isBlock_array (.cons hitem hitems))

private theorem hasLines_object (hname : name ∈ memberNames) {m : String × Json}
    {ms : List (String × Json)} {lines : List Line} (hne : lines ≠ [])
    (h : IsBlock (memberBlocks (m :: ms)) lines) :
    HasLines (name, .object (m :: ms)) ((name.toList ++ [':']) :: within lines) := by
  obtain ⟨first, rest, rfl⟩ := List.exists_cons_of_ne_nil hne
  exact hasLines_of_mem hname (isBlock_belowName hname (h.hang "  " (by decide) rfl))

private theorem hasLines_entry {e : String × String} (hkey : Unbroken e.1.toList)
    (hvalue : Unbroken e.2.toList) : HasLines (e.1, .text e.2) (entryLines e) := by
  obtain ⟨hne, hscalar⟩ := scalar_ne_nil_and_unbroken hkey
  have hshort : isShortName e.1 = decide (byteLength e.1.toList ≤ 128) := by
    have hbreak : e.1.toList.any isBreak = false :=
      List.any_eq_false.2 fun c hc => by simp [hkey c hc]
    rw [isShortName, hbreak]
    exact Bool.and_true _
  change IsBlock (memberBlock e.1 _ _) _
  unfold memberBlock entryLines
  simp only [hshort, decide_eq_true_eq]
  split
  · have hline := isBlock_singleton (l := scalar e.1 ++ ": ".toList ++ scalar e.2) (by simp)
      ((hscalar.append (by decide)).append (scalar_ne_nil_and_unbroken hvalue).2)
    rw [(isBlock_text hvalue).eq_unlined, indentRest_unlined
      (fun _ hm => absurd hm List.not_mem_nil) (scalar_ne_nil_and_unbroken hvalue).2]
    simpa [unlined] using hline
  · exact ((isBlock_text hkey).hang "? " (by decide) rfl).append
      ((isBlock_text hvalue).hang ": " (by decide) rfl)

private theorem forall₂_map {α β γ : Type} {R : β → γ → Prop} {f : α → β} {g : α → γ} {xs : List α}
    (h : ∀ x ∈ xs, R (f x) (g x)) : List.Forall₂ R (xs.map f) (xs.map g) := by
  rw [List.forall₂_map_left_iff, List.forall₂_map_right_iff, List.forall₂_same]
  exact h

private theorem hasLines_map (hname : name ∈ memberNames) {m : NameMap}
    (h : ∀ e ∈ m.entries, Unbroken e.1.toList ∧ Unbroken e.2.toList) :
    HasLines (name, m.toJson) (mapLines name m) := by
  rw [NameMap.toJson, mapLines]
  cases hentries : m.entries with
  | nil =>
    have hvalue : IsBlock (block (.object [])) ["\x7b\x7d".toList] :=
      isBlock_single (j := .object []) (by decide) (by decide)
    exact hasLines_of_mem hname (by simpa using isBlock_besideName hname hvalue)
  | cons e es =>
    rw [hentries] at h
    have hmembers : IsBlock (memberBlocks ((e :: es).map fun e => (e.1, .text e.2)))
        ((e :: es).map entryLines).flatten :=
      isBlock_members (forall₂_map fun e he => hasLines_entry (h e he).1 (h e he).2)
    have hne : (e :: es).flatMap entryLines ≠ [] := by
      simp only [List.flatMap_cons, entryLines]
      split <;> simp
    rw [if_neg (List.cons_ne_nil e es)]
    rw [← List.flatMap_def, List.map_cons] at hmembers
    rw [List.map_cons]
    exact hasLines_object hname hne hmembers

def mapTexts (m : NameMap) : List String := m.entries.flatMap fun e => [e.1, e.2]

def paramsTexts (p : Params) : List String := p.names ++ mapTexts p.types

def taskTexts (t : Task) : List String := t.name :: paramsTexts t.params

def methodTexts (m : Method) : List String :=
  m.name :: paramsTexts m.params ++ taskTexts m.task ++ m.subtasks.flatMap taskTexts

def domainTexts (d : Domain) : List String :=
  d.filePath :: d.name :: d.requirements ++ mapTexts d.types ++
    (d.predicates.flatMap fun p => p.name :: paramsTexts p.params) ++ d.tasks.flatMap taskTexts ++
    d.methods.flatMap methodTexts

private theorem unbroken_mapTexts {m : NameMap} (h : ∀ text ∈ mapTexts m, Unbroken text.toList) :
    ∀ e ∈ m.entries, Unbroken e.1.toList ∧ Unbroken e.2.toList := by
  intro e he
  exact ⟨h _ (List.mem_flatMap.2 ⟨e, he, by simp⟩), h _ (List.mem_flatMap.2 ⟨e, he, by simp⟩)⟩

private theorem hasLines_texts (hname : name ∈ memberNames) {texts : List String}
    (h : ∀ text ∈ texts, Unbroken text.toList) :
    HasLines (name, .array (texts.map .text))
      (listLines name (texts.map fun text => [scalar text])) :=
  hasLines_array hname (forall₂_map fun text htext => ⟨isBlock_text (h text htext), by simp⟩)

private theorem hasLines_params {p : Params} (h : ∀ text ∈ paramsTexts p, Unbroken text.toList) :
    HasLines ("params", p.toJson) (paramsLines p) := by
  obtain ⟨hnames, htypes⟩ := List.forall_mem_append.1 h
  have hmembers := isBlock_members
    (.cons (hasLines_texts (by decide : "params" ∈ memberNames) hnames)
    (.cons (hasLines_map (by decide : "types" ∈ memberNames) (unbroken_mapTexts htypes)) .nil))
  have hne :
      listLines "params" (p.names.map fun name => [scalar name]) ++ mapLines "types" p.types ≠ [] := by
    rw [listLines]
    split <;> simp
  exact hasLines_object (by decide) hne (by simpa using hmembers)

private theorem isBlock_task {t : Task} (h : ∀ text ∈ taskTexts t, Unbroken text.toList) :
    IsBlock (block t.toJson) (taskLines t) := by
  obtain ⟨hname, hparams⟩ := List.forall_mem_cons.1 h
  have hmembers : IsBlock (block t.toJson) _ := isBlock_members
    (.cons (hasLines_text (by decide : "name" ∈ memberNames) hname)
    (.cons (hasLines_params hparams) .nil))
  simpa [taskLines] using hmembers

private theorem isBlock_predicate {p : Predicate} (hname : Unbroken p.name.toList)
    (hparams : ∀ text ∈ paramsTexts p.params, Unbroken text.toList) :
    IsBlock (block p.toJson) (predicateLines p) := by
  have hmembers : IsBlock (block p.toJson) _ := isBlock_members
    (.cons (hasLines_text (by decide : "name" ∈ memberNames) hname)
    (.cons (hasLines_boolean (by decide : "negated" ∈ memberNames) p.negated)
      (.cons (hasLines_params hparams) .nil)))
  simpa [predicateLines] using hmembers

private theorem hasLines_tasks {name : String} (hname : name ∈ memberNames) {ts : List Task}
    (h : ∀ text ∈ ts.flatMap taskTexts, Unbroken text.toList) :
    HasLines (name, .array (ts.map Task.toJson)) (listLines name (ts.map taskLines)) := by
  refine hasLines_array hname (forall₂_map fun t ht => ⟨isBlock_task fun text htext => ?_, by
    simp [taskLines]⟩)
  exact h text (List.mem_flatMap.2 ⟨t, ht, htext⟩)

private theorem isBlock_method {m : Method} (h : ∀ text ∈ methodTexts m, Unbroken text.toList) :
    IsBlock (block m.toJson) (methodLines m) := by
  simp only [methodTexts, List.forall_mem_append, List.cons_append, List.forall_mem_cons] at h
  obtain ⟨hname, ⟨hparams, htask⟩, hsubtasks⟩ := h
  have htaskMember :
      HasLines ("task", m.task.toJson) ("task:".toList :: within (taskLines m.task)) :=
    hasLines_object (by decide) (by simp [taskLines]) (isBlock_task htask)
  have hmembers : IsBlock (block m.toJson) _ := isBlock_members
    (.cons (hasLines_text (by decide : "name" ∈ memberNames) hname)
    (.cons (hasLines_params hparams) (.cons htaskMember
      (.cons (hasLines_boolean (by decide : "ordered_subtasks" ∈ memberNames) m.ordered)
        (.cons (hasLines_tasks (by decide : "subtasks" ∈ memberNames) hsubtasks) .nil)))))
  simpa [methodLines] using hmembers

/-- The document of a domain whose texts have no line breaks in them. -/
theorem document_toJson {d : Domain} (h : ∀ text ∈ domainTexts d, Unbroken text.toList) :
    document d.toJson = String.ofList (unlined (domainLines d)) := by
  simp only [domainTexts, List.forall_mem_append, List.cons_append, List.forall_mem_cons] at h
  obtain ⟨hpath, hname, ⟨⟨⟨hflags, htypes⟩, hpredicates⟩, htasks⟩, hmethods⟩ := h
  have hpredicate (p : Predicate) (hp : p ∈ d.predicates) :
      IsBlock (block p.toJson) (predicateLines p) := by
    have hall := List.forall_mem_cons.1 fun text htext =>
      hpredicates text (List.mem_flatMap.2 ⟨p, hp, htext⟩)
    exact isBlock_predicate hall.1 hall.2
  have hmethod (m : Method) (hm : m ∈ d.methods) : IsBlock (block m.toJson) (methodLines m) :=
    isBlock_method fun text htext => hmethods text (List.mem_flatMap.2 ⟨m, hm, htext⟩)
  have hmembers : IsBlock (block d.toJson) _ := isBlock_members
    (.cons (hasLines_text (by decide : "file_path" ∈ memberNames) hpath)
    (.cons (hasLines_text (by decide : "name" ∈ memberNames) hname)
    (.cons (hasLines_texts (by decide : "requirements" ∈ memberNames) hflags)
    (.cons (hasLines_map (by decide : "types" ∈ memberNames) (unbroken_mapTexts htypes))
    (.cons (hasLines_array (by decide : "predicates" ∈ memberNames)
      (forall₂_map fun p hp => ⟨hpredicate p hp, by simp [predicateLines]⟩))
    (.cons (hasLines_tasks (by decide : "tasks" ∈ memberNames) htasks)
    (.cons (hasLines_array (by decide : "methods" ∈ memberNames)
      (forall₂_map fun m hm => ⟨hmethod m hm, by simp [methodLines]⟩)) .nil)))))))
  have hlines : IsBlock (block d.toJson) (domainLines d) := by
    simpa [domainLines] using hmembers
  rw [document, hlines.eq_unlined]

example : document ({ Domain.empty with
      name := "true", requirements := [":htn"], tasks := [⟨"go: to", .empty⟩] } : Domain).toJson =
    "file_path: ''\nname: 'true'\nrequirements:\n- :htn\ntypes: \x7b\x7d\npredicates: []\n" ++
      "tasks:\n- name: 'go: to'\n  params:\n    params: []\n    types: \x7b\x7d\n" ++
      "methods: []\n" := by
  decide +kernel

end Members
end PlanningDomain.Yaml
