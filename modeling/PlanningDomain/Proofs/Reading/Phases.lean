import PlanningDomain.Proofs.Reading.Bound
import PlanningDomain.Proofs.Reading.Recovery

/-! A reading in phases: first the lexemes of the whole text, then the header, then the items behind
it. Main statement: but for the stray characters, a reading does what its lexemes alone come to. -/
namespace PlanningDomain

open Progress (takeHeader)

/-- A cut behind the first closing parenthesis. -/
def cutHeader : List Lexeme → List Lexeme × List Lexeme
  | [] => ([], [])
  | l :: rest =>
    if l.token = .closeParen then ([l], rest) else (l :: (cutHeader rest).1, (cutHeader rest).2)

/-- What the items behind the header come to. The item that closes the domain ends them, with at
most one more lexeme looked at, and so does one that the text ends in. -/
def bodyEvents : List Item → List Event
  | [] => [.ended "')' closing the domain"]
  | i :: items =>
    if i.closes then ((items.flatMap Item.lexemes).head?.map .extra).toList
    else if i.isOpen then [.item i]
    else .item i :: bodyEvents items

def syntaxEvents (ls : List Lexeme) : List Event :=
  let (header, rest) := cutHeader ls
  if header.isEmpty then [.ended "'(define'"]
  else .header header :: bodyEvents (splitItems rest)

section Course
variable {items : List Scanned} {es : List Event}

private theorem takeHeader_lexemes (items : List Scanned) :
    ((takeHeader items).1.filterMap Scanned.lexeme?,
      (takeHeader items).2.filterMap Scanned.lexeme?) = cutHeader (items.filterMap Scanned.lexeme?) := by
  induction items with
  | nil => rfl
  | cons item items ih =>
    cases item with
    | stray s => simpa [takeHeader, Scanned.token?, Scanned.lexeme?] using ih
    | lexeme l =>
      rw [Scanned.filterMap_lexeme?_lexeme, cutHeader, ← ih]
      by_cases hl : l.token = .closeParen
      · simp [takeHeader, Scanned.token?, Scanned.lexeme?, hl]
      · simp [takeHeader, Scanned.token?, Scanned.lexeme?, hl]

private theorem filter_trailerEvents (items : List Scanned) :
    (trailerEvents items).filter (!·.isStrays) =
      ((items.filterMap Scanned.lexeme?).head?.map Event.extra).toList := by
  induction items with
  | nil => rfl
  | cons item items ih =>
    cases item with
    | stray s => simpa [trailerEvents, Event.isStrays] using ih
    | lexeme l => simp [trailerEvents, Event.isStrays]

private theorem BodyCourse.filter_eq (h : BodyCourse items es) :
    es.filter (!·.isStrays) = bodyEvents (splitItems (items.filterMap Scanned.lexeme?)) := by
  induction h with
  | ended => simp [splitItems, bodyEvents, Event.isStrays]
  | @close l rest hl =>
    rw [filter_trailerEvents, Scanned.filterMap_lexeme?_lexeme, splitItems, if_neg (by simp [hl]),
      bodyEvents, if_pos (by simp [Item.closes, hl]), flatMap_lexemes_splitItems]
  | stray s _ ih => exact ih
  | @token l rest es ho hc _ ih =>
    rw [Scanned.filterMap_lexeme?_lexeme, splitItems, if_neg ho, bodyEvents,
      if_neg (by simp [Item.closes, hc]), if_neg (by simp [Item.isOpen]), ← ih]
    rfl
  | @group l r inner rest es hl hr hinner _ ih =>
    have hlexemes : (Scanned.lexeme l :: (inner ++ .lexeme r :: rest)).filterMap Scanned.lexeme? =
        l :: (inner.filterMap Scanned.lexeme? ++ r :: rest.filterMap Scanned.lexeme?) := by
      simp
    rw [hlexemes, splitItems_closed hl hr (Scanned.filterMap_token? inner ▸ hinner), bodyEvents,
      if_neg (by simp [Item.closes]), if_neg (by simp [Item.isOpen]), ← ih]
    rfl
  | @cutOff l rest hl hopen =>
    rw [Scanned.filterMap_lexeme?_lexeme,
      splitItems_unclosed hl (Scanned.filterMap_token? rest ▸ hopen), bodyEvents,
      if_neg (by simp [Item.closes]), if_pos (by simp [Item.isOpen])]
    rfl

/-- The events of a text without the stray characters are those of its lexemes. -/
theorem Course.filter_eq (h : Course items es) :
    es.filter (!·.isStrays) = syntaxEvents (items.filterMap Scanned.lexeme?) := by
  rw [syntaxEvents, ← takeHeader_lexemes]
  cases h with
  | blank hblank => simp [hblank, Event.isStrays]
  | headed hne hbody => simp [hne, Event.isStrays, ← hbody.filter_eq]

end Course

private theorem cutHeader_append (ls : List Lexeme) :
    (cutHeader ls).1 ++ (cutHeader ls).2 = ls := by
  induction ls with
  | nil => rfl
  | cons l ls ih =>
    rw [cutHeader]
    split
    · rfl
    · simpa using ih

private theorem bodyEvents_sublist (is : List Item) :
    ((bodyEvents is).flatMap Event.lexemes).Sublist (is.flatMap Item.lexemes) := by
  induction is with
  | nil => simp [bodyEvents, Event.lexemes]
  | cons i is ih =>
    rw [bodyEvents, List.flatMap_cons]
    split
    · refine List.Sublist.trans ?_ (List.sublist_append_right ..)
      cases is.flatMap Item.lexemes with
      | nil => exact List.Sublist.refl _
      | cons l ls => simp [Event.lexemes]
    · split
      · simp [Event.lexemes]
      · exact (List.Sublist.refl _).append ih

private theorem syntaxEvents_sublist (ls : List Lexeme) :
    ((syntaxEvents ls).flatMap Event.lexemes).Sublist ls := by
  simp only [syntaxEvents]
  split
  · simp [Event.lexemes]
  · have hbody := bodyEvents_sublist (splitItems (cutHeader ls).2)
    rw [flatMap_lexemes_splitItems] at hbody
    conv => rhs; rw [← cutHeader_append ls]
    exact (List.Sublist.refl _).append hbody

private theorem flatMap_lexemes_filter (es : List Event) :
    (es.filter (!·.isStrays)).flatMap Event.lexemes = es.flatMap Event.lexemes := by
  induction es with
  | nil => rfl
  | cons e es ih =>
    cases hstrays : e.isStrays with
    | true =>
      have hnone : e.lexemes = [] := by
        cases e with
        | strays ss => rfl
        | _ => cases hstrays
      rw [List.filter_cons_of_neg (by simp [hstrays]), ih, List.flatMap_cons, hnone,
        List.nil_append]
    | false =>
      rw [List.filter_cons_of_pos (by simp [hstrays]), List.flatMap_cons, List.flatMap_cons, ih]

theorem Course.lexemes_sublist {items : List Scanned} {es : List Event} (h : Course items es) :
    (es.flatMap Event.lexemes).Sublist (items.filterMap Scanned.lexeme?) := by
  rw [← flatMap_lexemes_filter, h.filter_eq]
  exact syntaxEvents_sublist _

section Matches
variable {same : Lexeme → Lexeme → Prop} (htoken : ∀ {l l'}, same l l' → l'.token = l.token)

include htoken in
private theorem forall₂_cutHeader {ls ls' : List Lexeme} (h : List.Forall₂ same ls ls') :
    List.Forall₂ same (cutHeader ls).1 (cutHeader ls').1 ∧
      List.Forall₂ same (cutHeader ls).2 (cutHeader ls').2 := by
  induction h with
  | nil => exact ⟨.nil, .nil⟩
  | cons hl hls ih =>
    rw [cutHeader, cutHeader, htoken hl]
    split
    · exact ⟨.cons hl .nil, hls⟩
    · exact ⟨.cons hl ih.1, ih.2⟩

private theorem forall₂_lexemes {i i' : Item} (h : i.Matches same i') :
    List.Forall₂ same i.lexemes i'.lexemes := by
  cases h with
  | stray hl => exact .cons hl .nil
  | group hls => exact hls

include htoken in
private theorem forall₂_bodyEvents {is is' : List Item}
    (h : List.Forall₂ (Item.Matches same) is is') :
    List.Forall₂ (Event.Matches same) (bodyEvents is) (bodyEvents is') := by
  induction h with
  | nil => exact .cons (.ended _) .nil
  | @cons i i' is is' hi his ih =>
    have hcloses : i'.closes = i.closes := by
      cases hi with
      | stray hl => rw [Item.closes, Item.closes, htoken hl]
      | group hls => rfl
    have hopen : i'.isOpen = i.isOpen := by
      cases hi <;> rfl
    rw [bodyEvents, bodyEvents, hcloses, hopen]
    split
    · have hlexemes : List.Forall₂ same (is.flatMap Item.lexemes) (is'.flatMap Item.lexemes) :=
        List.rel_flatMap his fun _ _ => forall₂_lexemes
      generalize is.flatMap Item.lexemes = ls, is'.flatMap Item.lexemes = ls' at hlexemes
      cases hlexemes with
      | nil => exact .nil
      | cons hl _ => exact .cons (.extra hl) .nil
    · split
      · exact .cons (.item hi) .nil
      · exact .cons (.item hi) ih

include htoken in
theorem forall₂_syntaxEvents {ls ls' : List Lexeme} (h : List.Forall₂ same ls ls') :
    List.Forall₂ (Event.Matches same) (syntaxEvents ls) (syntaxEvents ls') := by
  obtain ⟨hheader, hrest⟩ := forall₂_cutHeader htoken h
  have hbody := forall₂_bodyEvents htoken (forall₂_splitItems htoken hrest)
  simp only [syntaxEvents]
  generalize (cutHeader ls).1 = header, (cutHeader ls').1 = header' at hheader
  cases hheader with
  | nil => exact .cons (.ended _) .nil
  | cons hl hls => exact .cons (.header (.cons hl hls)) hbody

end Matches

namespace Progress

def readLexemes (f : Frame) (ls : List Lexeme) : Progress :=
  (syntaxEvents ls).foldl (act f) (.start f.settings)

section Strays
variable {limit limit' : Nat} {f f' : Frame} {p p' : Progress} {dropped : List Diagnostic}

/-- Stray characters are reported, and change nothing else. -/
private theorem InStep.dropStrays (ss : List Stray)
    (h : InStep (Told limit limit' (Sifted Diagnostic.isScan dropped)) p p') :
    InStep (Told limit limit' (Sifted Diagnostic.isScan (dropped ++ ss.map (.ofStray f.table))))
      (p.reportStrays f ss) p' := by
  induction ss generalizing p dropped with
  | nil => rwa [List.map_nil, List.append_nil]
  | cons s ss ih =>
    have hs : InStep
        (Told limit limit' (Sifted Diagnostic.isScan (dropped ++ [.ofStray f.table s]))) (p.report (.ofStray f.table s)) p' := ⟨h.domain_eq, h.lastRank_eq, h.told.drop rfl⟩
    rw [List.map_cons, List.append_cons]
    exact ih hs

/-- A reading of a course is in step with one that leaves out the stray characters. -/
private theorem InStep.foldl_filter (f f' : Frame)
    (hroot : f'.settings.rootType = f.settings.rootType)
    (hskip : f'.settings.skipUnknownSections = f.settings.skipUnknownSections)
    (htable : f'.table = f.table) (es : List Event)
    (h : InStep (Told limit limit' (Sifted Diagnostic.isScan dropped)) p p') :
    InStep (Told limit limit' (Sifted Diagnostic.isScan
        (dropped ++ (es.flatMap Event.strays?).map (.ofStray f.table))))
      (es.foldl (Progress.act f) p) ((es.filter (!·.isStrays)).foldl (Progress.act f') p') := by
  induction es generalizing p p' dropped with
  | nil => simpa using h
  | cons e es ih =>
    rw [List.flatMap_cons, List.map_append, ← List.append_assoc]
    cases hstrays : e.isStrays with
    | true =>
      rw [List.filter_cons_of_neg (by simp [hstrays])]
      cases e with
      | strays ss => exact ih (h.dropStrays ss)
      | _ => cases hstrays
    | false =>
      have hf : f.Matches f' Eq (Told limit limit' (Sifted Diagnostic.isScan dropped)) :=
        Frame.matches_of_keeps hroot htable Eq.symm (fun _ _ => Sifted.goesWith rfl)
          fun _ _ => Sifted.goesWith rfl
      rw [List.filter_cons_of_pos (by simp [hstrays]), Event.strays?_eq_nil hstrays, List.map_nil,
        List.append_nil]
      exact ih (.act hf (Event.matches_self hstrays fun _ _ => rfl)
        (fun _ _ l _ => skips_congr hskip l.token) h)

end Strays
end Progress

/-- A reading of a text has the domain and, in order, the diagnostics of the grammar that a reading
of its lexemes alone has. Its other diagnostics are the stray characters. -/
theorem readLexemes_eq (s : Settings) (text : String) :
    (Progress.readLexemes ⟨s, .ofText text⟩ (lexemes text)).reading =
      ⟨(readDomain s text).domain,
        (DiagnosticLog.empty s.maxErrors).reportAll ((diagnostics s text).filter (!·.isScan))⟩ := by
  obtain ⟨es, hcourse⟩ := exists_course (scan text)
  generalize hlimit : (readDomain s text).log.total = limit
  have hstart : Progress.InStep (Told limit s.maxErrors (Sifted Diagnostic.isScan []))
      (.start { s with maxErrors := limit }) (.start s) :=
    Told.start { s with maxErrors := limit } s ⟨rfl, rfl⟩
  have hend := Progress.InStep.foldl_filter ⟨{ s with maxErrors := limit }, .ofText text⟩
    ⟨s, .ofText text⟩ rfl rfl rfl es hstart
  rw [hcourse.filter_eq, ← lexemes] at hend
  have hread := readDomain_eq_foldl hcourse { s with maxErrors := limit }
  generalize es.foldl (Progress.act ⟨{ s with maxErrors := limit }, .ofText text⟩)
    (.start { s with maxErrors := limit }) = last at hend hread
  have hdomain : (readDomain s text).domain = last.domain :=
    (readDomain_limit s limit text).1.symm.trans (congrArg Reading.domain hread)
  have hlog : (readDomain { s with maxErrors := limit } text).log = last.log :=
    congrArg Reading.log hread
  have hroom : last.log.total ≤ limit := by
    rw [← hlog, total_limit, hlimit]
  obtain ⟨ds, ⟨hkept, -⟩, hds⟩ := hend.told.of_room hroom
  rw [diagnostics, hlimit, hlog, hdomain, ← hkept, ← hds, ← hend.domain_eq]
  rfl

/-- The diagnostics of the grammar, under any bound. -/
theorem log_readLexemes (s : Settings) (limit : Nat) (text : String) :
    (Progress.readLexemes ⟨{ s with maxErrors := limit }, .ofText text⟩ (lexemes text)).log =
      (DiagnosticLog.empty limit).reportAll ((diagnostics s text).filter (!·.isScan)) := by
  rw [← diagnostics_limit s limit]
  exact congrArg Reading.log (readLexemes_eq { s with maxErrors := limit } text)

end PlanningDomain
