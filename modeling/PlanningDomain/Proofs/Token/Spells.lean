import PlanningDomain.Proofs.Token.Lexical

/-! Texts put together from tokens and blanks. Main statement: the tokens of any text, each in its
usual spelling and one blank apart, scan as the same tokens again; so a text written this way stays
as it is. -/
namespace PlanningDomain

/-- The text is made up of the given tokens, with at most blanks between them. -/
structure Spells (text : String) (ts : List Token) : Prop where
  outline_eq : outline text.toList = ts.map some
  noComment : ';' ∉ text.toList

instance (text : String) (ts : List Token) : Decidable (Spells text ts) :=
  decidable_of_iff (outline text.toList = ts.map some ∧ ';' ∉ text.toList)
    ⟨fun h => ⟨h.1, h.2⟩, fun h => ⟨h.1, h.2⟩⟩

def EndsDelimited (text : String) : Prop :=
  text.toList.getLast?.any isDelimiter = true

instance (text : String) : Decidable (EndsDelimited text) :=
  inferInstanceAs (Decidable (_ = _))

theorem EndsDelimited.append {a b : String} (h : EndsDelimited b) : EndsDelimited (a ++ b) := by
  rw [EndsDelimited, Option.any_eq_true] at h ⊢
  obtain ⟨c, hc, hdelimiter⟩ := h
  refine ⟨c, ?_, hdelimiter⟩
  rw [String.toList_append, List.getLast?_append, hc]
  rfl

namespace Spells
variable {a b : String} {ts us : List Token}

theorem append_of_breaks (ha : Spells a ts) (hb : Spells b us) (h : Breaks b.toList) :
    Spells (a ++ b) (ts ++ us) := by
  constructor
  · rw [String.toList_append, outline_append ha.noComment h, ha.outline_eq, hb.outline_eq,
      List.map_append]
  · simp [ha.noComment, hb.noComment]

theorem append_of_endsDelimited (ha : Spells a ts) (hb : Spells b us) (h : EndsDelimited a) :
    Spells (a ++ b) (ts ++ us) := by
  obtain ⟨c, hlast, hc⟩ := (Option.any_eq_true _ _).1 h
  obtain ⟨cs, hcs⟩ := List.getLast?_eq_some_iff.1 hlast
  have hsemi : ';' ∉ cs := fun hs => ha.noComment (by simp [hcs, hs])
  constructor
  · rw [String.toList_append, hcs, outline_append_of_delimiter hsemi hc, ← hcs, ha.outline_eq,
      hb.outline_eq, List.map_append]
  · simp [ha.noComment, hb.noComment]

/-- Blanks change nothing. -/
theorem append_nil (ha : Spells a ts) (hb : Spells b []) (h : Breaks b.toList) :
    Spells (a ++ b) ts := by
  simpa using ha.append_of_breaks hb h

theorem of_isBlank {text : String} (h : ∀ c ∈ text.toList, isBlank c = true) : Spells text [] := by
  constructor
  · generalize text.toList = cs at h
    induction cs with
    | nil => exact outline_nil
    | cons c cs ih =>
      rw [outline_of_isBlank (h c List.mem_cons_self)]
      exact ih fun d hd => h d (List.mem_cons_of_mem _ hd)
  · intro hsemi
    cases h ';' hsemi

theorem join {α : Type} {xs : List α} {text : α → String} {tokens : α → List Token}
    (h : ∀ x ∈ xs, Spells (text x) (tokens x) ∧ Breaks (text x).toList) :
    Spells (String.join (xs.map text)) (xs.flatMap tokens) ∧
      Breaks (String.join (xs.map text)).toList := by
  induction xs with
  | nil => exact ⟨.of_isBlank (by simp), breaks_nil⟩
  | cons x xs ih =>
    obtain ⟨hx, hbreaks⟩ := h x List.mem_cons_self
    obtain ⟨hxs, hrest⟩ := ih fun y hy => h y (List.mem_cons_of_mem _ hy)
    rw [List.map_cons, String.join_cons, List.flatMap_cons, String.toList_append]
    exact ⟨hx.append_of_breaks hxs hrest, hbreaks.append hrest⟩

theorem intercalate {α : Type} {xs : List α} {text : α → String} {tokens : α → List Token}
    (h : ∀ x ∈ xs, Spells (text x) (tokens x)) :
    Spells (" ".intercalate (xs.map text)) (xs.flatMap tokens) := by
  induction xs with
  | nil => exact .of_isBlank (by simp)
  | cons x xs ih =>
    have hx := h x List.mem_cons_self
    have hxs := ih fun y hy => h y (List.mem_cons_of_mem _ hy)
    cases xs with
    | nil => simpa using hx
    | cons y ys =>
      rw [List.map_cons, List.map_cons, String.intercalate_cons_cons, List.flatMap_cons]
      have hblank : Spells (text x ++ " ") (tokens x) :=
        hx.append_nil (.of_isBlank (by simp [isBlank])) (by simp [Breaks, continuesWord])
      exact hblank.append_of_endsDelimited hxs (.append (by decide))

end Spells

private theorem not_mem_of_splitWord {cs word rest : List Char}
    (h : splitWord cs = some (word, rest)) : ';' ∉ word := by
  cases cs with
  | nil => simp [splitWord] at h
  | cons c cs =>
    simp only [splitWord] at h
    split at h
    · rename_i hc
      simp only [Option.some.injEq, Prod.mk.injEq] at h
      obtain ⟨rfl, -⟩ := h
      intro hmem
      rcases List.mem_cons.1 hmem with rfl | hmem
      · cases hc
      · cases List.mem_takeWhile_imp hmem
    · cases h

private theorem not_mem_written {cs : List Char} {m : Munch} (h : munch? cs = some m) :
    ';' ∉ m.written := by
  cases munch?_eq_some_iff.1 h with
  | openParen rest | closeParen rest | dash rest => simp
  | keyword hw => simp [not_mem_of_splitWord hw]
  | var hw => simp [not_mem_of_splitWord hw]
  | word hw => exact not_mem_of_splitWord hw

theorem LexesAs.spells {text : String} {t : Token} (h : LexesAs text t) : Spells text [t] := by
  refine ⟨?_, not_mem_written (lexesAs_iff.1 h)⟩
  rw [outline, show scanFrom 0 text.toList = _ from h]
  rfl

namespace Spells
variable {text : String} {ts : List Token}

private theorem scan_eq (h : Spells text ts) : (scan text).map Scanned.token? = ts.map some :=
  h.outline_eq

/-- Such a text has these tokens and nothing else. -/
theorem tokens_eq (h : Spells text ts) : tokens text = ts := by
  have hmap : tokens text = ((scan text).map Scanned.token?).filterMap id := by
    rw [List.filterMap_map, tokens, lexemes, List.map_filterMap]
    rfl
  rw [hmap, h.scan_eq, List.filterMap_map]
  exact List.filterMap_some

theorem strays_eq (h : Spells text ts) : strays text = [] := by
  rw [strays, List.filterMap_eq_nil_iff]
  intro item hitem
  cases item with
  | lexeme l => rfl
  | stray s =>
    have hnone : none ∈ ts.map some := h.scan_eq ▸ List.mem_map_of_mem hitem
    simp at hnone

end Spells
end PlanningDomain

namespace PlanningDomain

/-- Tokens in their usual spellings, with one blank between them. -/
def printed (ts : List Token) : String :=
  " ".intercalate (ts.map Token.spelling)

/-- A text without comments, layout and other spellings of its tokens. -/
def normalized (text : String) : String :=
  printed (tokens text)

/-- Tokens in their usual spellings where they stand when the first is at `offset` and each other is
one byte behind the one in front of it. -/
def lexemesFrom (offset : Nat) : List Token → List Lexeme
  | [] => []
  | t :: ts =>
    let stop := offset + byteLength t.spelling.toList
    ⟨t, t.spelling, ⟨offset, stop⟩⟩ :: lexemesFrom (stop + 1) ts

private theorem map_token_lexemesFrom (offset : Nat) (ts : List Token) :
    (lexemesFrom offset ts).map Lexeme.token = ts := by
  induction ts generalizing offset with
  | nil => rfl
  | cons t ts ih => rw [lexemesFrom, List.map_cons, ih]

private theorem Token.Lexes.scanFrom_append {t : Token} (h : t.Lexes) (offset : Nat)
    {rest : List Char} (hrest : Breaks rest) :
    scanFrom offset (t.spelling.toList ++ rest) =
      .lexeme ⟨t, t.spelling, ⟨offset, offset + byteLength t.spelling.toList⟩⟩ ::
        scanFrom (offset + byteLength t.spelling.toList) rest := by
  have hmunch := lexesAs_iff.1 h
  obtain ⟨c, cs, hcs⟩ : ∃ c cs, t.spelling.toList = c :: cs := by
    refine List.exists_cons_of_ne_nil fun hnil => ?_
    rw [hnil] at hmunch
    cases hmunch
  have happend : munch? (t.spelling.toList ++ rest) = some ⟨t, t.spelling.toList, rest⟩ := by
    rw [munch?_append (hcs ▸ List.cons_ne_nil c cs) hrest, hmunch]
    rfl
  rw [hcs, List.cons_append] at happend ⊢
  rw [scanFrom_of_munch? happend, ← hcs, String.ofList_toList]

/-- Each printed token stands where its predecessors end, and nothing else is found. -/
theorem scanFrom_printed {ts : List Token} (h : ∀ t ∈ ts, t.Lexes) (offset : Nat) :
    scanFrom offset (printed ts).toList = (lexemesFrom offset ts).map .lexeme := by
  induction ts generalizing offset with
  | nil => simp [printed, lexemesFrom, scanFrom]
  | cons t ts ih =>
    obtain ⟨ht, hts⟩ := List.forall_mem_cons.1 h
    cases ts with
    | nil =>
      have hone := ht.scanFrom_append offset breaks_nil
      rw [List.append_nil] at hone
      rw [printed, List.map_singleton, String.intercalate_singleton, hone]
      simp [lexemesFrom, scanFrom]
    | cons u us =>
      have hblank (rest : List Char) : Breaks (' ' :: rest) := breaks_cons.2 (by decide)
      have hprinted : (printed (t :: u :: us)).toList =
          t.spelling.toList ++ ' ' :: (printed (u :: us)).toList := by
        simp [printed, String.intercalate_cons_cons]
      rw [hprinted, ht.scanFrom_append offset (hblank _), scanFrom_of_isBlank rfl, ih hts,
        lexemesFrom, List.map_cons]
      rfl

private theorem scan_normalized (text : String) :
    scan (normalized text) = (lexemesFrom 0 (tokens text)).map .lexeme :=
  scanFrom_printed (fun _ => lexes_of_mem_tokens) 0

private theorem tokens_normalized (text : String) : tokens (normalized text) = tokens text := by
  rw [tokens_eq_filterMap, scan_normalized, Scanned.filterMap_token?_map_lexeme,
    map_token_lexemesFrom]

/-- The normal form of a text scans as the text's tokens, each in its usual spelling, and as nothing
else. So it is its own normal form, and two texts have one normal form exactly if they have the same
tokens. -/
theorem normalized_scans_back (text : String) :
    scan (normalized text) = (lexemesFrom 0 (tokens text)).map .lexeme ∧
      tokens (normalized text) = tokens text ∧ strays (normalized text) = [] ∧
      normalized (normalized text) = normalized text ∧
      ∀ other, normalized other = normalized text ↔ tokens other = tokens text := by
  have hcongr {a b : String} (h : tokens a = tokens b) : normalized a = normalized b :=
    congrArg printed h
  have hback {a b : String} (h : normalized a = normalized b) : tokens a = tokens b := by
    rw [← tokens_normalized a, h, tokens_normalized]
  refine ⟨scan_normalized text, tokens_normalized text, ?_, hcongr (tokens_normalized text),
    fun other => ⟨hback, hcongr⟩⟩
  rw [strays, scan_normalized, Scanned.filterMap_stray?_map_lexeme]

end PlanningDomain
