import PlanningDomain.Format.Text
import PlanningDomain.Proofs.Domain.Writable
import PlanningDomain.Proofs.Format.CanonicalTree
import PlanningDomain.Proofs.Token.Spells

/-! The canonical text, line by line. Main statement: the text of a writable domain is made up of
the tokens of its derivation. -/
namespace PlanningDomain

open Grammar

private theorem breaks_closeParen : Breaks ")".toList := by
  simp [Breaks, continuesWord]

private theorem spells_closeParen : Spells ")" [.closeParen] :=
  LexesAs.spells (lexesAs_iff.2 rfl)

private theorem breaks_blank (text : String) : Breaks (" " ++ text).toList := by
  simp [Breaks, continuesWord]

private theorem Spells.behind {a b : String} {ts us : List Token} (hb : Spells b us)
    (ha : Spells a ts ∧ EndsDelimited a) : Spells (a ++ b) (ts ++ us) :=
  ha.1.append_of_endsDelimited hb ha.2

section Phrases
variable {p : Params} {name : String}

private theorem spells_pair {item : String → Token} {pair : String × String}
    (h : LexesAs pair.1 (item pair.1)) (h' : IsName pair.2) :
    Spells (pair.1 ++ " - " ++ pair.2) (pairTokens item pair) := by
  have hdash : Spells " - " [.dash] := ⟨by cbv, by decide⟩
  have hfront : Spells (pair.1 ++ " - ") [item pair.1, .dash] :=
    h.spells.append_of_breaks hdash (breaks_blank "- ")
  exact hfront.append_of_endsDelimited h'.spells (.append (by decide))

theorem Params.Printable.spells_text (h : p.Printable) :
    Spells p.text (runTokens .var (singleRuns p.pairs).runs) := by
  rw [runTokens_singleRuns, Params.text]
  refine Spells.intercalate fun pair hpair => ?_
  exact spells_pair (h.of_mem_pairs hpair).1 (h.of_mem_pairs hpair).2

private theorem spells_signatureText (hname : IsName name) (h : p.Printable) :
    Spells (signatureText name p) (Signature.tokens ⟨name, singleRuns p.pairs⟩) := by
  have hopen : Spells "(" [.openParen] := ⟨by cbv, by decide⟩
  have hfront : Spells ("(" ++ name) [.openParen, .name name] :=
    hname.spells.behind ⟨hopen, by decide⟩
  rw [signatureText]
  split
  · rename_i hempty
    have hpairs : p.pairs = [] := by
      rw [Params.pairs, List.isEmpty_iff.1 hempty, List.map_nil]
    rw [hpairs]
    exact hfront.append_of_breaks spells_closeParen breaks_closeParen
  · have hblank : Spells ("(" ++ name ++ " ") [.openParen, .name name] :=
      hfront.append_nil (.of_isBlank (by simp [isBlank])) (breaks_blank "")
    have hparams := hblank.append_of_endsDelimited h.spells_text (.append (by decide))
    exact hparams.append_of_breaks spells_closeParen breaks_closeParen

theorem Task.Printable.spells_text {t : Task} (h : t.Printable) :
    Spells t.text t.signature.tokens :=
  spells_signatureText h.isName h.params

theorem Predicate.Printable.spells_text {p : Predicate} (h : p.Printable) :
    Spells p.text p.literal.tokens := by
  have hatom := spells_signatureText h.isName h.params
  rw [Predicate.text, Literal.tokens, Predicate.literal]
  split
  · have hopen : Spells "(not " [.openParen, .not] := ⟨by cbv, by decide⟩
    have hnot := hatom.behind ⟨hopen, by decide⟩
    exact hnot.append_of_breaks spells_closeParen breaks_closeParen
  · exact hatom

end Phrases

inductive SpellsLines : List String → List Token → Prop
  | nil : SpellsLines [] []
  | cons {line : String} {lines : List String} {ts us : List Token} (h : Spells line ts)
      (hs : SpellsLines lines us) : SpellsLines (line :: lines) (ts ++ us)

namespace SpellsLines
variable {lines more : List String} {ts us : List Token}

private theorem append (h : SpellsLines lines ts) (h' : SpellsLines more us) :
    SpellsLines (lines ++ more) (ts ++ us) := by
  induction h with
  | nil => exact h'
  | cons hline _ ih =>
    rw [List.append_assoc]
    exact .cons hline ih

private theorem flatMap {α : Type} {xs : List α} {text : α → List String} {tokens : α → List Token}
    (h : ∀ x ∈ xs, SpellsLines (text x) (tokens x)) :
    SpellsLines (xs.flatMap text) (xs.flatMap tokens) := by
  induction xs with
  | nil => exact .nil
  | cons x xs ih =>
    rw [List.flatMap_cons, List.flatMap_cons]
    exact (h x List.mem_cons_self).append (ih fun y hy => h y (List.mem_cons_of_mem _ hy))

private theorem map {α : Type} {xs : List α} {text : α → String} {tokens : α → List Token}
    {indent : String} (hblank : ∀ c ∈ indent.toList, isBlank c = true)
    (hindent : EndsDelimited indent)
    (h : ∀ x ∈ xs, Spells (text x) (tokens x)) :
    SpellsLines (xs.map fun x => indent ++ text x) (xs.flatMap tokens) := by
  induction xs with
  | nil => exact .nil
  | cons x xs ih =>
    rw [List.map_cons, List.flatMap_cons]
    exact .cons ((h x List.mem_cons_self).behind ⟨.of_isBlank hblank, hindent⟩)
      (ih fun y hy => h y (List.mem_cons_of_mem _ hy))

private theorem spells_unlines (h : SpellsLines lines ts) : Spells (unlines lines) ts := by
  induction h with
  | nil => exact (.of_isBlank (by simp) : Spells "" [])
  | cons hline _ ih =>
    rw [unlines, List.map_cons, String.join_cons]
    have hblank : Spells "\n" [] := .of_isBlank (by simp [isBlank])
    have hnewline := hline.append_nil hblank (by simp [Breaks, continuesWord])
    exact hnewline.append_of_endsDelimited ih (.append (by decide))

end SpellsLines

private theorem Params.Printable.spells_line {p : Params} (h : p.Printable) :
    Spells ("    :parameters (" ++ p.text ++ ")") (parameterTokens (singleRuns p.pairs)) := by
  have hopen : Spells "    :parameters (" [.parameters, .openParen] := ⟨by cbv, by decide⟩
  have hfront := h.spells_text.behind ⟨hopen, by decide⟩
  exact hfront.append_of_breaks spells_closeParen breaks_closeParen

private theorem spells_end : Spells "  )" [.closeParen] :=
  ⟨by cbv, by decide⟩

private theorem Task.Writable.spellsLines {t : Task} (h : t.Writable) :
    SpellsLines t.canonicalLines (Section.task t.signature).tokens := by
  have hopen : Spells "  (:task " [.openParen, .task] := ⟨by cbv, by decide⟩
  have hname := h.isName.spells.behind ⟨hopen, by decide⟩
  have hlines :=
    SpellsLines.cons hname (.cons h.params.printable.spells_line (.cons spells_end .nil))
  simpa [Task.canonicalLines, Section.tokens, Section.inner, enclosed, Task.signature] using hlines

private theorem Method.Writable.spellsLines_subtasks {m : Method} (h : m.Writable) :
    SpellsLines m.subtaskLines (orderingToken m.ordered :: m.rule.block.tokens) := by
  have hblock : m.rule.block.tokens =
      enclosed (m.subtasks.flatMap fun t => t.signature.tokens) := by
    simp only [Method.rule, Block.tokens, List.flatMap_map]
    rfl
  rw [hblock, Method.subtaskLines]
  split
  · rename_i hempty
    have hline : Spells ("    " ++ m.marker ++ " ()")
        [orderingToken m.ordered, .openParen, .closeParen] := by
      rw [Method.marker]
      cases m.ordered <;> exact ⟨by cbv, by decide⟩
    rw [List.isEmpty_iff.1 hempty]
    exact .cons hline .nil
  · have hopen : Spells ("    " ++ m.marker ++ " (") [orderingToken m.ordered, .openParen] := by
      rw [Method.marker]
      cases m.ordered <;> exact ⟨by cbv, by decide⟩
    have hsubtasks : SpellsLines (m.subtasks.map fun t => "      " ++ t.text)
        (m.subtasks.flatMap fun t => t.signature.tokens) :=
      .map (by simp [isBlank]) (by decide) fun t ht => (h.subtasks t ht).printable.spells_text
    have hclose : Spells "    )" [.closeParen] := ⟨by cbv, by decide⟩
    exact .cons hopen (hsubtasks.append (.cons hclose .nil))

private theorem Method.Writable.spellsLines {m : Method} (h : m.Writable) :
    SpellsLines m.canonicalLines (Section.method m.rule).tokens := by
  have hopen : Spells "  (:method " [.openParen, .method] := ⟨by cbv, by decide⟩
  have hname := h.isName.spells.behind ⟨hopen, by decide⟩
  have hmarker : Spells "    :task " [.task] := ⟨by cbv, by decide⟩
  have htask := h.task.printable.spells_text.behind ⟨hmarker, by decide⟩
  have hlines := SpellsLines.cons hname (.cons h.params.printable.spells_line
    (.cons htask (h.spellsLines_subtasks.append (.cons spells_end .nil))))
  simpa [Method.canonicalLines, Section.tokens, Section.inner, enclosed, Method.rule] using hlines

namespace Domain.Writable
variable {root : String} {d : Domain} (h : d.Writable root)
include h

private theorem spellsLines_requirements :
    SpellsLines d.requirementLines
      ((d.sentence.requirements.map Section.requirements).toList.flatMap Section.tokens) := by
  rw [requirementLines, sentence]
  split
  · exact .nil
  · have hopen : Spells "  (:requirements" [.openParen, .requirements] := ⟨by cbv, by decide⟩
    obtain ⟨hflags, hbreaks⟩ : Spells (String.join (d.requirements.map (" :" ++ ·)))
        (d.requirements.flatMap fun flag => [.keyword flag]) ∧ _ := by
      refine Spells.join fun flag hflag => ?_
      have hpiece : " :" ++ flag = " " ++ (":" ++ flag) := by rw [← String.append_assoc]; rfl
      rw [hpiece]
      have hblank : Spells " " [] := .of_isBlank (by simp [isBlank])
      exact ⟨(h.requirements flag hflag).spells.behind ⟨hblank, by decide⟩, breaks_blank _⟩
    have hline := (hopen.append_of_breaks hflags hbreaks).append_of_breaks spells_closeParen
      breaks_closeParen
    have hlines := SpellsLines.cons hline .nil
    simpa [Section.tokens, Section.inner, enclosed, ← List.map_eq_flatMap] using hlines

private theorem spellsLines_types :
    SpellsLines d.typeLines
      ((d.sentence.types.map Section.types).toList.flatMap Section.tokens) := by
  rw [typeLines, sentence]
  split
  · exact .nil
  · have hopen : Spells "  (:types" [.openParen, .types] := ⟨by cbv, by decide⟩
    have hpairs : SpellsLines (d.types.entries.map fun e => "    " ++ (e.1 ++ " - " ++ e.2))
        (d.types.entries.flatMap (pairTokens .name)) :=
      .map (by simp [isBlank]) (by decide) fun e he => spells_pair (h.types e he).1 (h.types e he).2
    have hlines := SpellsLines.cons hopen (hpairs.append (.cons spells_end .nil))
    simpa [Section.tokens, Section.inner, enclosed, runTokens_singleRuns, String.append_assoc]
      using hlines

private theorem spellsLines_predicates :
    SpellsLines d.predicateLines
      ((d.sentence.predicates.map Section.predicates).toList.flatMap Section.tokens) := by
  rw [predicateLines, sentence]
  split
  · exact .nil
  · have hopen : Spells "  (:predicates" [.openParen, .predicates] := ⟨by cbv, by decide⟩
    have hpredicates : SpellsLines (d.predicates.map fun p => "    " ++ p.text)
        (d.predicates.flatMap fun p => p.literal.tokens) :=
      .map (by simp [isBlank]) (by decide) fun p hp => (h.predicates p hp).printable.spells_text
    have hlines := SpellsLines.cons hopen (hpredicates.append (.cons spells_end .nil))
    simpa [Section.tokens, Section.inner, enclosed, List.flatMap_map] using hlines

private theorem spellsLines_body :
    SpellsLines (d.tasks.flatMap Task.canonicalLines ++ d.methods.flatMap Method.canonicalLines)
      ((d.sentence.body.map (Sum.elim .task .method)).flatMap Section.tokens) := by
  have htasks : SpellsLines (d.tasks.flatMap Task.canonicalLines)
      (d.tasks.flatMap fun t => (Section.task t.signature).tokens) :=
    .flatMap fun t ht => (h.tasks t ht).spellsLines
  have hmethods : SpellsLines (d.methods.flatMap Method.canonicalLines)
      (d.methods.flatMap fun m => (Section.method m.rule).tokens) :=
    .flatMap fun m hm => (h.methods m hm).spellsLines
  simpa [sentence, List.flatMap_map, Function.comp_def] using htasks.append hmethods

/-- The canonical text of a writable domain is made up of the tokens of its derivation. -/
theorem spells_canonicalText : Spells d.canonicalText d.sentence.tokens := by
  have hheader : Spells ("(define (domain " ++ d.name ++ ")") (headerTokens d.name) := by
    have hopen : Spells "(define (domain " [.openParen, .define, .openParen, .domain] :=
      ⟨by cbv, by decide⟩
    have hname := h.isName.spells.behind ⟨hopen, by decide⟩
    exact hname.append_of_breaks spells_closeParen breaks_closeParen
  have hlines := SpellsLines.cons hheader (h.spellsLines_requirements.append
    (h.spellsLines_types.append (h.spellsLines_predicates.append
      (h.spellsLines_body.append (.cons spells_closeParen .nil)))))
  rw [canonicalText, Sentence.tokens, Sentence.sections, show d.sentence.name = d.name from rfl]
  apply SpellsLines.spells_unlines
  simpa using hlines

end Domain.Writable
end PlanningDomain
