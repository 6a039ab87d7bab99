import PlanningDomain.Proofs.Reading.Phases

/-! Blanks, comments, the case of keywords and stray characters. Main statement: texts of the same
tokens are read as the same domain, and the diagnostics of the grammar want the same of both. -/
namespace PlanningDomain

namespace Diagnostic

/-- What a diagnostic of the grammar wants, and whether it misses it at an end. -/
def wanted? : Diagnostic → Option (String × Bool)
  | unrecognized .. => none
  | unexpected found expected _ => some (expected, found == "end of input")

private theorem wanted?_ofLexeme (table : LineTable) (l : Lexeme) (expected : String) :
    (ofLexeme table l expected).wanted? = some (expected, false) := by
  have hquote : "'" ++ l.written ++ "'" ≠ "end of input" := by
    intro h
    have hchars := congrArg String.toList h
    simp at hchars
  simp [ofLexeme, wanted?, hquote]

private theorem isSome_wanted? (d : Diagnostic) : d.wanted?.isSome = !d.isScan := by
  cases d <;> rfl

private theorem filterMap_wanted?_filter (ds : List Diagnostic) :
    (ds.filter (!·.isScan)).filterMap wanted? = ds.filterMap wanted? := by
  rw [List.filterMap_filter]
  refine List.filterMap_congr fun d _ => ?_
  cases d <;> rfl

private theorem length_filterMap_wanted? (ds : List Diagnostic) :
    (ds.filterMap wanted?).length = (ds.filter (!·.isScan)).length := by
  rw [List.length_filterMap_eq_countP, List.countP_eq_length_filter]
  simp only [isSome_wanted?]

end Diagnostic

/-- The same is wanted in the same order. -/
def WantsAlike (ds ds' : List Diagnostic) : Prop :=
  ds'.filterMap Diagnostic.wanted? = ds.filterMap Diagnostic.wanted?

private theorem WantsAlike.goesWith {limit limit' : Nat} {d d' : Diagnostic}
    (h : d'.wanted? = d.wanted?) :
    d.GoesWith (Told limit limit' WantsAlike) d' := by
  refine Told.goesWith fun {ds ds'} hds => ?_
  rw [WantsAlike] at hds ⊢
  rw [List.filterMap_append, List.filterMap_append, hds]
  simp [List.filterMap_cons, h]

private theorem WantsAlike.matches (f f' : Frame)
    (hroot : f'.settings.rootType = f.settings.rootType) (limit limit' : Nat) :
    f.Matches f' (fun l l' => l'.token = l.token) (Told limit limit' WantsAlike) where
  rootType_eq := hroot
  token_eq h := h
  lexeme _ expected := goesWith (by rw [Diagnostic.wanted?_ofLexeme, Diagnostic.wanted?_ofLexeme])
  stop _ expected := goesWith rfl
  ended expected := goesWith rfl

/-- Readings of the same tokens are in step, wherever the tokens stand and however they are
written. -/
theorem readLexemes_inStep (s : Settings) (table table' : LineTable) {ls ls' : List Lexeme}
    (h : ls'.map Lexeme.token = ls.map Lexeme.token) :
    Progress.InStep (Told s.maxErrors s.maxErrors WantsAlike)
      (Progress.readLexemes ⟨s, table⟩ ls) (Progress.readLexemes ⟨s, table'⟩ ls') := by
  have hf := WantsAlike.matches ⟨s, table⟩ ⟨s, table'⟩ rfl s.maxErrors s.maxErrors
  have hls : List.Forall₂ (fun l l' : Lexeme => l'.token = l.token) ls ls' := by
    rw [← List.forall₂_eq_eq_eq, List.forall₂_map_left_iff, List.forall₂_map_right_iff] at h
    exact h.flip
  exact .foldl_act hf rfl (forall₂_syntaxEvents hf.token_eq hls) (Told.start s s rfl)

private theorem wanted?_diagnostics (s : Settings) {text text' : String}
    (h : tokens text' = tokens text) :
    (diagnostics s text').filterMap Diagnostic.wanted? =
      (diagnostics s text).filterMap Diagnostic.wanted? := by
  have halike : WantsAlike ((diagnostics s text).filter (!·.isScan))
      ((diagnostics s text').filter (!·.isScan)) := by
    refine Told.related_of_forall fun limit => ?_
    rw [← log_readLexemes, ← log_readLexemes]
    exact (readLexemes_inStep { s with maxErrors := limit } _ _ h).told
  rwa [WantsAlike, Diagnostic.filterMap_wanted?_filter,
    Diagnostic.filterMap_wanted?_filter] at halike

/-- Texts of the same tokens, whatever else is in them and whatever stands where, have the same
domain and as many diagnostics of the grammar; these want the same, one by one, and are for want of
more text at the same turns. -/
theorem only_tokens_matter (s : Settings) {text text' : String} (h : tokens text' = tokens text) :
    (readDomain s text').domain = (readDomain s text).domain ∧
      ((diagnostics s text').filter (!·.isScan)).length =
        ((diagnostics s text).filter (!·.isScan)).length ∧
      (diagnostics s text').filterMap Diagnostic.wanted? =
        (diagnostics s text).filterMap Diagnostic.wanted? ∧
      ((readDomain s text).log.total ≤ s.maxErrors → (readDomain s text').log.total ≤ s.maxErrors →
        (readDomain s text').log.recorded.filterMap Diagnostic.wanted? =
          (readDomain s text).log.recorded.filterMap Diagnostic.wanted?) := by
  have hwants := wanted?_diagnostics s h
  refine ⟨?_, ?_, hwants, fun hroom hroom' => ?_⟩
  · have hstep := (readLexemes_inStep s (.ofText text) (.ofText text') h).domain_eq
    have hread := congrArg Reading.domain (readLexemes_eq s text)
    have hread' := congrArg Reading.domain (readLexemes_eq s text')
    exact hread'.symm.trans (hstep.trans hread)
  · rw [← Diagnostic.length_filterMap_wanted?, hwants, Diagnostic.length_filterMap_wanted?]
  · rw [recorded_eq_diagnostics hroom, recorded_eq_diagnostics hroom', hwants]

/-- Comments, stray characters and other capitals, in a domain that is never closed. -/
theorem only_tokens_matter_respaced :
    let text := "(define (domain d) (:types a) x"
    let text' := "(Define ; a\n (domain\td) % (:TYPES a) & x\n"
    tokens text' = tokens text ∧ (strays text').length ≠ (strays text).length ∧
      (readDomain .standard text').domain = (readDomain .standard text).domain ∧
      (readDomain .standard text').log.recorded.filterMap Diagnostic.wanted? =
        (readDomain .standard text).log.recorded.filterMap Diagnostic.wanted? := by
  intro text text'
  have htokens : tokens text' = tokens text := by decide +kernel
  have hroom : (readDomain .standard text).log.total ≤ 100 := by decide +kernel
  have hroom' : (readDomain .standard text').log.total ≤ 100 := by decide +kernel
  obtain ⟨hdomain, -, -, hrecorded⟩ := only_tokens_matter .standard htokens
  exact ⟨htokens, by decide +kernel, hdomain, hrecorded hroom hroom'⟩

end PlanningDomain
