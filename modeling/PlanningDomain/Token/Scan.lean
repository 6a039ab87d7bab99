import PlanningDomain.Source.Cursor
import PlanningDomain.Token

/-! A text cut into tokens and stray characters. Blanks and comments separate them and are left
out. -/
namespace PlanningDomain

/-- A token where it stands: as written, with its bytes. -/
structure Lexeme where
  token : Token
  written : String
  range : ByteRange
deriving DecidableEq

/-- A character at which neither a token nor a blank nor a comment starts. -/
structure Stray where
  char : Char
  offset : Nat
deriving DecidableEq

namespace Stray

def range (s : Stray) : ByteRange := ⟨s.offset, s.offset + s.char.utf8Size⟩

def written (s : Stray) : String := s.char.toString

end Stray

inductive Scanned
  | lexeme (l : Lexeme)
  | stray (s : Stray)
deriving DecidableEq

namespace Scanned

def range : Scanned → ByteRange
  | lexeme l => l.range
  | stray s => s.range

def lexeme? : Scanned → Option Lexeme
  | lexeme l => some l
  | stray _ => none

def stray? : Scanned → Option Stray
  | lexeme _ => none
  | stray s => some s

def token? (s : Scanned) : Option Token :=
  s.lexeme?.map Lexeme.token

end Scanned

/-- Space, tab, carriage return, newline and form feed separate tokens. -/
def isBlank (c : Char) : Bool :=
  c == ' ' || c == '\t' || c == '\r' || c == '\n' || c == '\x0c'

def inComment (c : Char) : Bool :=
  c != '\n'

private theorem length_dropWhile_le (p : Char → Bool) (cs : List Char) :
    (cs.dropWhile p).length ≤ cs.length :=
  (List.dropWhile_sublist p).length_le

private theorem rest_length_lt {cs : List Char} {m : Munch} (h : munch? cs = some m) :
    m.rest.length < cs.length := by
  obtain ⟨hcs, hne⟩ := munch?_eq_some h
  have := List.length_pos_iff.2 hne
  rw [hcs, List.length_append]
  omega

/-- The tokens and stray characters of a text whose first character is at `offset`. -/
def scanFrom (offset : Nat) (cs : List Char) : List Scanned :=
  match cs with
  | [] => []
  | c :: rest =>
    if isBlank c then scanFrom (offset + c.utf8Size) rest
    else if c = ';' then
      scanFrom (offset + byteLength (c :: rest.takeWhile inComment)) (rest.dropWhile inComment)
    else
      match _found : munch? (c :: rest) with
      | some m =>
        let stop := offset + byteLength m.written
        .lexeme ⟨m.token, String.ofList m.written, ⟨offset, stop⟩⟩ :: scanFrom stop m.rest
      | none => .stray ⟨c, offset⟩ :: scanFrom (offset + c.utf8Size) rest
termination_by cs.length
decreasing_by
  · simp
  · have := length_dropWhile_le inComment rest
    simp only [List.length_cons]
    omega
  · exact rest_length_lt _found
  · simp

def scan (text : String) : List Scanned :=
  scanFrom 0 text.toList

def lexemes (text : String) : List Lexeme :=
  (scan text).filterMap Scanned.lexeme?

def tokens (text : String) : List Token :=
  (lexemes text).map Lexeme.token

/-- The characters of a text that start nothing. -/
def strays (text : String) : List Stray :=
  (scan text).filterMap Scanned.stray?

namespace Scanned

section Cons
variable (l : Lexeme) (s : Stray) (items : List Scanned)

@[simp] theorem filterMap_lexeme?_lexeme :
    (lexeme l :: items).filterMap lexeme? = l :: items.filterMap lexeme? := rfl

@[simp] theorem filterMap_lexeme?_stray :
    (stray s :: items).filterMap lexeme? = items.filterMap lexeme? := rfl

@[simp] theorem filterMap_stray?_lexeme :
    (lexeme l :: items).filterMap stray? = items.filterMap stray? := rfl

@[simp] theorem filterMap_stray?_stray :
    (stray s :: items).filterMap stray? = s :: items.filterMap stray? := rfl

end Cons

theorem filterMap_token? (items : List Scanned) :
    items.filterMap token? = (items.filterMap lexeme?).map Lexeme.token := by
  rw [List.map_filterMap]
  rfl

theorem eq_lexeme_of_token? {s : Scanned} {t : Token} (h : s.token? = some t) :
    ∃ l, s = lexeme l ∧ l.token = t := by
  cases s with
  | lexeme l => exact ⟨l, rfl, Option.some.inj h⟩
  | stray s => cases h

theorem eq_map_lexeme {items : List Scanned} (h : items.filterMap stray? = []) :
    items = (items.filterMap lexeme?).map lexeme := by
  induction items with
  | nil => rfl
  | cons item items ih =>
    cases item with
    | stray s => simp [stray?] at h
    | lexeme l => simpa [lexeme?] using ih h

theorem filterMap_lexeme?_map_lexeme (ls : List Lexeme) :
    (ls.map lexeme).filterMap lexeme? = ls := by
  rw [List.filterMap_map]
  exact List.filterMap_some

theorem filterMap_stray?_map_lexeme (ls : List Lexeme) :
    (ls.map lexeme).filterMap stray? = [] := by
  simp [stray?]

theorem filterMap_token?_map_lexeme (ls : List Lexeme) :
    (ls.map lexeme).filterMap token? = ls.map Lexeme.token := by
  rw [filterMap_token?, filterMap_lexeme?_map_lexeme]

end Scanned

theorem tokens_eq_filterMap (text : String) :
    tokens text = (scan text).filterMap Scanned.token? :=
  (Scanned.filterMap_token? _).symm

end PlanningDomain
