import Mathlib.Data.List.Forall2
import PlanningDomain.Proofs.Reading.Course

/-! Two readings side by side. Main statement: readings that meet corresponding lexemes stay in
step. They decide the same everywhere, and differ only in how the diagnostics of corresponding
lexemes look. -/
namespace PlanningDomain

namespace Event

def isStrays : Event → Bool
  | strays _ => true
  | _ => false

theorem strays?_eq_nil {e : Event} (h : e.isStrays = false) : e.strays? = [] := by
  cases e with
  | strays ss => cases h
  | _ => rfl

def lexemes : Event → List Lexeme
  | header ls => ls
  | item i => i.lexemes
  | extra l => [l]
  | _ => []

end Event

section Lists
variable {α β : Type} {R : α → β → Prop} {xs : List α} {ys : List β}

private theorem rel_getElem? (h : List.Forall₂ R xs ys) (i : Nat) : Option.Rel R xs[i]? ys[i]? := by
  induction h generalizing i with
  | nil => exact .none
  | cons hx _ ih =>
    cases i with
    | zero => exact .some hx
    | succ i => simpa using ih i

private theorem forall₂_takeBalanced {token? : α → Option Token} {token?' : β → Option Token}
    (hR : ∀ x y, R x y → token?' y = token? x) (h : List.Forall₂ R xs ys) (depth : Nat) :
    let cut := takeBalanced token? depth xs
    let cut' := takeBalanced token?' depth ys
    List.Forall₂ R cut.front cut'.front ∧ List.Forall₂ R cut.rest cut'.rest ∧
      cut'.closed = cut.closed := by
  induction h generalizing depth with
  | nil => exact ⟨.nil, .nil, rfl⟩
  | @cons x y xs ys hx hxs ih =>
    simp only [takeBalanced, hR _ _ hx]
    split
    · exact ⟨.cons hx (ih _).1, (ih _).2⟩
    · split
      · exact ⟨.cons hx .nil, hxs, rfl⟩
      · exact ⟨.cons hx (ih _).1, (ih _).2⟩
    · exact ⟨.cons hx (ih _).1, (ih _).2⟩

end Lists

section Matches
variable (same : Lexeme → Lexeme → Prop)

/-- The same sort of item, of corresponding lexemes. -/
inductive Item.Matches : Item → Item → Prop
  | stray {l l' : Lexeme} (h : same l l') : Matches (.stray l) (.stray l')
  | group {ls ls' : List Lexeme} {closed : Bool} (h : List.Forall₂ same ls ls') :
      Matches (.group ⟨ls, closed⟩) (.group ⟨ls', closed⟩)

/-- The same sort of event, of corresponding lexemes. -/
inductive Event.Matches : Event → Event → Prop
  | header {ls ls' : List Lexeme} (h : List.Forall₂ same ls ls') :
    Matches (.header ls) (.header ls')
  | item {i i' : Item} (h : i.Matches same i') : Matches (.item i) (.item i')
  | extra {l l' : Lexeme} (h : same l l') : Matches (.extra l) (.extra l')
  | ended (expected : String) : Matches (.ended expected) (.ended expected)

end Matches

private theorem Item.matches_self {same : Lexeme → Lexeme → Prop} {i : Item}
    (h : ∀ l ∈ i.lexemes, same l l) : i.Matches same i := by
  cases i with
  | group g => exact .group (List.forall₂_same.2 h)
  | stray l => exact .stray (h l (List.mem_singleton_self l))

theorem Event.matches_self {same : Lexeme → Lexeme → Prop} {e : Event} (he : e.isStrays = false)
    (h : ∀ l ∈ e.lexemes, same l l) : e.Matches same e := by
  cases e with
  | strays ss => cases he
  | header ls => exact .header (List.forall₂_same.2 h)
  | item i => exact .item (Item.matches_self h)
  | extra l => exact .extra (h l (List.mem_singleton_self l))
  | ended expected => exact .ended expected

section InStep
variable {same : Lexeme → Lexeme → Prop} {ls ls' : List Lexeme}

private theorem map_token_eq (htoken : ∀ {l l'}, same l l' → l'.token = l.token)
    (h : List.Forall₂ same ls ls') : ls'.map Lexeme.token = ls.map Lexeme.token := by
  induction h with
  | nil => rfl
  | cons hl _ ih => rw [List.map_cons, List.map_cons, htoken hl, ih]

theorem forall₂_splitItems (htoken : ∀ {l l'}, same l l' → l'.token = l.token)
    (h : List.Forall₂ same ls ls') :
    List.Forall₂ (Item.Matches same) (splitItems ls) (splitItems ls') := by
  induction ls using splitItems.induct generalizing ls' with
  | case1 =>
    cases h
    simp [splitItems]
  | case2 l rest hl cut =>
    rename_i ih
    cases h with
    | @cons _ l' _ rest' hfirst hrest =>
      have hsame (l l' : Lexeme) (h : same l l') :
          (some ∘ Lexeme.token) l' = (some ∘ Lexeme.token) l := congrArg some (htoken h)
      obtain ⟨hfront, hback, hclosed⟩ := forall₂_takeBalanced hsame hrest 1
      rw [splitItems, if_pos hl, splitItems, if_pos ((htoken hfirst).trans hl)]
      refine .cons ?_ (ih hback)
      rw [hclosed]
      exact .group (.cons hfirst hfront)
  | case3 l rest hl ih =>
    cases h with
    | cons hfirst hrest =>
      rw [splitItems, if_neg hl, splitItems, if_neg (htoken hfirst ▸ hl)]
      exact .cons (.stray hfirst) (ih hrest)

def Diagnostic.GoesWith (told : DiagnosticLog → DiagnosticLog → Prop) (d d' : Diagnostic) : Prop :=
  ∀ log log' : DiagnosticLog, told log log' → told (log.report d) (log'.report d')

/-- In these two frames, the diagnostics of corresponding lexemes go with each other. -/
structure Frame.Matches (f f' : Frame) (same : Lexeme → Lexeme → Prop)
    (told : DiagnosticLog → DiagnosticLog → Prop) : Prop where
  rootType_eq : f'.settings.rootType = f.settings.rootType
  token_eq : ∀ {l l'}, same l l' → l'.token = l.token
  lexeme : ∀ {l l'}, same l l' → ∀ expected,
    (Diagnostic.ofLexeme f.table l expected).GoesWith told (.ofLexeme f'.table l' expected)
  stop : ∀ {l l'}, same l l' → ∀ expected,
    (Diagnostic.atEnd expected (.point (f.table.position l.range.stop))).GoesWith told
      (.atEnd expected (.point (f'.table.position l'.range.stop)))
  ended : ∀ expected, (Diagnostic.atEnd expected f.table.endPoint).GoesWith told
    (.atEnd expected f'.table.endPoint)

/-- Two frames with the same table. What both report of a lexeme or of an end is the same, so it
need only be kept by the relation. -/
theorem Frame.matches_of_keeps {f f' : Frame} {same : Lexeme → Lexeme → Prop}
    {told : DiagnosticLog → DiagnosticLog → Prop}
    (hroot : f'.settings.rootType = f.settings.rootType)
    (htable : f'.table = f.table) (hsame : ∀ {l l'}, same l l' → l' = l)
    (hlexeme : ∀ {l l'}, same l l' → ∀ expected,
      (Diagnostic.ofLexeme f.table l expected).GoesWith told (.ofLexeme f.table l expected))
    (hend : ∀ expected place,
      (Diagnostic.atEnd expected place).GoesWith told (.atEnd expected place)) :
    f.Matches f' same told where
  rootType_eq := hroot
  token_eq h := by rw [hsame h]
  lexeme h expected := by
    rw [htable, hsame h]
    exact hlexeme h expected
  stop h expected := by
    rw [htable, hsame h]
    exact hend expected _
  ended expected := by
    rw [htable]
    exact hend expected _

namespace Progress

/-- Two states of the same domain and the same last section, with reports that go with each
other. -/
structure InStep (told : DiagnosticLog → DiagnosticLog → Prop) (p p' : Progress) : Prop where
  domain_eq : p'.domain = p.domain
  lastRank_eq : p'.lastRank = p.lastRank
  told : told p.log p'.log

theorem skips_congr {s s' : Settings} (h : s'.skipUnknownSections = s.skipUnknownSections)
    (t : Token) : skips s' t = skips s t := by
  cases t <;> simp [skips, h]

namespace InStep
variable {told : DiagnosticLog → DiagnosticLog → Prop} {f f' : Frame} {p p' : Progress}
  {g g' : Group}

private theorem report {d d' : Diagnostic} (h : InStep told p p') (hd : d.GoesWith told d') :
    InStep told (p.report d) (p'.report d') :=
  ⟨h.domain_eq, h.lastRank_eq, hd _ _ h.told⟩

/-- The same stray characters, looked up in two tables. -/
private theorem reportStrays
    (hstray : ∀ s, (Diagnostic.ofStray f.table s).GoesWith told (.ofStray f'.table s))
    (ss : List Stray) (h : InStep told p p') :
    InStep told (p.reportStrays f ss) (p'.reportStrays f' ss) := by
  induction ss generalizing p p' with
  | nil => exact h
  | cons s ss ih => exact ih (h.report (hstray s))

section Frames
variable (hf : f.Matches f' same told)
include hf

/-- A production reads the tokens only, and fails at corresponding lexemes. -/
private theorem addFrom {α : Type} {r : Reader α} {add : Domain → α → Domain} {context : String}
    {place place' : Span} (hls : List.Forall₂ same ls ls')
    (hplace : ∀ expected, (Diagnostic.atEnd expected place).GoesWith told (.atEnd expected place'))
    (h : InStep told p p') :
    InStep told (p.addFrom f r add context ls place) (p'.addFrom f' r add context ls' place') := by
  rw [Progress.addFrom, Progress.addFrom, map_token_eq hf.token_eq hls]
  split
  · exact ⟨congrArg (add · _) h.domain_eq, h.lastRank_eq, h.told⟩
  · rename_i why _
    -- As many lexemes are left on both sides, so the failures are at corresponding ones.
    have hat : Option.Rel same (ls.drop (ls.length - why.left)).head?
        (ls'.drop (ls'.length - why.left)).head? := by
      rw [List.head?_drop, List.head?_drop, ← hls.length_eq]
      exact rel_getElem? hls _
    simp only [reportFailure]
    generalize (ls.drop (ls.length - why.left)).head? = at?,
      (ls'.drop (ls'.length - why.left)).head? = at?' at hat
    cases hat with
    | none => exact h.report (hplace _)
    | some hl => exact h.report (hf.lexeme hl _)

private theorem endOf (hls : List.Forall₂ same ls ls') (expected : String) :
    (Diagnostic.atEnd expected (endOf f ls)).GoesWith told (.atEnd expected (endOf f' ls')) := by
  have hlast : Option.Rel same ls.getLast? ls'.getLast? := by
    rw [List.getLast?_eq_getElem?, List.getLast?_eq_getElem?, ← hls.length_eq]
    exact rel_getElem? hls _
  rw [Progress.endOf, Progress.endOf]
  generalize ls.getLast? = last?, ls'.getLast? = last?' at hlast
  cases hlast with
  | none => exact hf.ended expected
  | some hl => exact hf.stop hl expected

private theorem addGroup {α : Type} {r : Reader α} {add : Domain → α → Domain} {context : String}
    (hg : (Item.group g).Matches same (.group g')) (h : InStep told p p') :
    InStep told (p.addGroup f r add context g) (p'.addGroup f' r add context g') := by
  cases hg with
  | @group _ _ closed hls =>
    refine addFrom hf hls (fun expected => ?_) h
    cases closed with
    | true => exact endOf hf hls expected
    | false => exact hf.ended expected

private theorem predicateItem {i i' : Item} (hi : i.Matches same i') (h : InStep told p p') :
    InStep told (p.predicateItem f i) (p'.predicateItem f' i') := by
  cases hi with
  | stray hl => exact h.report (hf.lexeme hl _)
  | @group ls ls' closed hls =>
    have hadd {add : Domain → PredicateForm → Domain} :
        InStep told (p.addGroup f Production.predicate add "predicate" ⟨ls, closed⟩)
          (p'.addGroup f' Production.predicate add "predicate" ⟨ls', closed⟩) :=
      addGroup hf (.group hls) h
    have hhead := rel_getElem? hls 1
    simp only [Progress.predicateItem, Group.head?, hf.rootType_eq]
    generalize ls[1]? = head?, ls'[1]? = head?' at hhead
    cases hhead with
    | none => exact hadd
    | some hl =>
      simp only [hf.token_eq hl]
      split
      · exact h.report (hf.lexeme hl _)
      · exact hadd

private theorem predicateItems {is is' : List Item} (his : List.Forall₂ (Item.Matches same) is is')
    (h : InStep told p p') :
    InStep told (is.foldl (Progress.predicateItem f) p)
      (is'.foldl (Progress.predicateItem f') p') := by
  induction his generalizing p p' with
  | nil => exact h
  | cons hi _ ih => exact ih (predicateItem hf hi h)

private theorem predicatesSection (hg : (Item.group g).Matches same (.group g'))
    (h : InStep told p p') :
    InStep told (p.predicatesSection f g) (p'.predicatesSection f' g') := by
  cases hg with
  | @group ls ls' closed hls =>
    have hbody : List.Forall₂ same (Group.body ⟨ls, closed⟩) (Group.body ⟨ls', closed⟩) := by
      have hdrop := List.forall₂_drop 2 hls
      simp only [Group.body]
      split
      · rw [List.dropLast_eq_take, List.dropLast_eq_take, ← hdrop.length_eq]
        exact List.forall₂_take _ hdrop
      · exact hdrop
    have hitems := predicateItems hf (forall₂_splitItems hf.token_eq hbody) h
    simp only [Progress.predicatesSection]
    split
    · exact hitems
    · exact hitems.report (hf.ended _)

private theorem sectionBody (hg : (Item.group g).Matches same (.group g')) (head : Token)
    (h : InStep told p p') : InStep told (p.sectionBody f head g) (p'.sectionBody f' head g') := by
  cases head with
  | requirements | types | task | method =>
    simp only [Progress.sectionBody, hf.rootType_eq]
    exact addGroup hf hg h
  | predicates => exact predicatesSection hf hg h
  | _ => exact h

private theorem addSection (hg : (Item.group g).Matches same (.group g'))
    (hskips : ∀ head ∈ g.head?, skips f'.settings head.token = skips f.settings head.token)
    (h : InStep told p p') : InStep told (p.addSection f g) (p'.addSection f' g') := by
  have hhead : Option.Rel same g.head? g'.head? := by
    cases hg with
    | group hls => exact rel_getElem? hls 1
  rw [Progress.addSection, Progress.addSection]
  generalize g.head? = head?, g'.head? = head?' at hhead hskips
  cases hhead with
  | none => exact h.report (hf.ended _)
  | @some l l' hl =>
    simp only [hf.token_eq hl, hskips l rfl]
    split
    · simp only [rankedSection, h.lastRank_eq, hf.token_eq hl]
      split
      · exact sectionBody hf hg _ ⟨h.domain_eq, rfl, h.told⟩
      · exact h.report (hf.lexeme hl _)
    · split
      · exact h
      · exact h.report (hf.lexeme hl _)

theorem act {e e' : Event} (he : e.Matches same e')
    (hskips : ∀ g, e = .item (.group g) →
      ∀ head ∈ g.head?, skips f'.settings head.token = skips f.settings head.token)
    (h : InStep told p p') : InStep told (p.act f e) (p'.act f' e') := by
  cases he with
  | header hls =>
    rw [Progress.act, Progress.act]
    exact addFrom hf hls (endOf hf hls) h
  | item hi =>
    cases hi with
    | stray hl => exact h.report (hf.lexeme hl _)
    | group hls => exact addSection hf (.group hls) (hskips _ rfl) h
  | extra hl => exact h.report (hf.lexeme hl _)
  | ended expected => exact h.report (hf.ended expected)

/-- The same event keeps readings in step, if its lexemes correspond to themselves. -/
theorem act_self (hstray : ∀ s, (Diagnostic.ofStray f.table s).GoesWith told (.ofStray f'.table s))
    {e : Event} (he : ∀ l ∈ e.lexemes, same l l)
    (hskips : ∀ g, e = .item (.group g) →
      ∀ head ∈ g.head?, skips f'.settings head.token = skips f.settings head.token)
    (h : InStep told p p') : InStep told (p.act f e) (p'.act f' e) := by
  cases hstrays : e.isStrays with
  | true =>
    cases e with
    | strays ss => exact reportStrays hstray ss h
    | _ => cases hstrays
  | false => exact act hf (Event.matches_self hstrays he) hskips h

variable (hskip : f'.settings.skipUnknownSections = f.settings.skipUnknownSections)
include hskip

/-- Corresponding courses keep readings in step that skip the same. -/
theorem foldl_act {es es' : List Event} (hes : List.Forall₂ (Event.Matches same) es es')
    (h : InStep told p p') :
    InStep told (es.foldl (Progress.act f) p) (es'.foldl (Progress.act f') p') := by
  induction hes generalizing p p' with
  | nil => exact h
  | cons he _ ih => exact ih (act hf he (fun _ _ l _ => skips_congr hskip l.token) h)

theorem foldl_act_self
    (hstray : ∀ s, (Diagnostic.ofStray f.table s).GoesWith told (.ofStray f'.table s))
    {es : List Event} (hes : ∀ e ∈ es, ∀ l ∈ e.lexemes, same l l) (h : InStep told p p') :
    InStep told (es.foldl (Progress.act f) p) (es.foldl (Progress.act f') p') := by
  induction es generalizing p p' with
  | nil => exact h
  | cons e es ih =>
    obtain ⟨he, hes⟩ := List.forall_mem_cons.1 hes
    exact ih hes (act_self hf hstray he (fun _ _ l _ => skips_congr hskip l.token) h)

end Frames
end InStep
end Progress
end InStep
end PlanningDomain
