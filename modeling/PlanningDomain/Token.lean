/-! The tokens of the domain language, and the token at the front of a text: it is spelled by as
many characters as any token there has. Reserved words fold the case of ASCII letters; names and
variables keep the spelling of the text. -/
namespace PlanningDomain

inductive Token
  | openParen
  | closeParen
  | dash
  | define
  | domain
  | not
  | and
  | requirements
  | types
  | predicates
  | task
  | method
  | parameters
  | orderedSubtasks
  | unorderedSubtasks
  /-- Any other word after a colon, in lower case and without the colon. -/
  | keyword (word : String)
  /-- A variable with its question mark. -/
  | var (spelling : String)
  | name (spelling : String)
deriving DecidableEq

namespace Token

def opensSection : Token → Bool
  | requirements | types | predicates | task | method => true
  | _ => false

def label : Token → String
  | openParen => "'('"
  | closeParen => "')'"
  | dash => "'-'"
  | define => "'define'"
  | domain => "'domain'"
  | not => "'not'"
  | and => "'and'"
  | requirements => "':requirements'"
  | types => "':types'"
  | predicates => "':predicates'"
  | task => "':task'"
  | method => "':method'"
  | parameters => "':parameters'"
  | orderedSubtasks => "':ordered-subtasks'"
  | unorderedSubtasks => "':unordered-subtasks'"
  | keyword _ => "keyword"
  | var _ => "variable"
  | name _ => "name"

/-- The usual way to write the token; of several spellings, one. -/
def spelling : Token → String
  | openParen => "("
  | closeParen => ")"
  | dash => "-"
  | define => "define"
  | domain => "domain"
  | not => "not"
  | and => "and"
  | requirements => ":requirements"
  | types => ":types"
  | predicates => ":predicates"
  | task => ":task"
  | method => ":method"
  | parameters => ":parameters"
  | orderedSubtasks => ":ordered-subtasks"
  | unorderedSubtasks => ":unordered-subtasks"
  | keyword word => ":" ++ word
  | var text => text
  | name text => text

/-- The reserved words without a colon. -/
def reservedNames : List (String × Token) :=
  [("define", define), ("domain", domain), ("not", not), ("and", and)]

/-- The reserved words after a colon, with every accepted spelling. -/
def reservedKeywords : List (String × Token) :=
  [("requirements", requirements), ("types", types), ("predicates", predicates),
   ("task", task), ("method", method), ("parameters", parameters),
   ("ordered-subtasks", orderedSubtasks), ("ordered-tasks", orderedSubtasks),
   ("unordered-subtasks", unorderedSubtasks), ("subtasks", unorderedSubtasks),
   ("tasks", unorderedSubtasks)]

def folded (cs : List Char) : String :=
  String.ofList (cs.map Char.toLower)

def ofWord (cs : List Char) : Token :=
  (reservedNames.lookup (folded cs)).getD (name (String.ofList cs))

def ofKeyword (cs : List Char) : Token :=
  (reservedKeywords.lookup (folded cs)).getD (keyword (folded cs))

def ofVariable (cs : List Char) : Token :=
  var (String.ofList ('?' :: cs))

end Token

def startsWord (c : Char) : Bool :=
  c.isAlpha || c == '_'

/-- A word goes on with ASCII letters, digits, underscores and dashes. -/
def continuesWord (c : Char) : Bool :=
  c.isAlphanum || c == '_' || c == '-'

def splitWord : List Char → Option (List Char × List Char)
  | [] => none
  | c :: cs =>
    if startsWord c then some (c :: cs.takeWhile continuesWord, cs.dropWhile continuesWord)
    else none

/-- A token, the characters that spell it and the characters after them. -/
structure Munch where
  token : Token
  written : List Char
  rest : List Char

/-- A word behind a leading sign, which becomes part of the spelling. -/
def signedWord (sign : Char) (token : List Char → Token) (cs : List Char) : Option Munch :=
  (splitWord cs).map fun (word, rest) => ⟨token word, sign :: word, rest⟩

def munch? : List Char → Option Munch
  | [] => none
  | c :: cs =>
    if c = '(' then some ⟨.openParen, [c], cs⟩
    else if c = ')' then some ⟨.closeParen, [c], cs⟩
    else if c = '-' then some ⟨.dash, [c], cs⟩
    else if c = ':' then signedWord c .ofKeyword cs
    else if c = '?' then signedWord c .ofVariable cs
    else (splitWord (c :: cs)).map fun (word, rest) => ⟨.ofWord word, word, rest⟩

/-- A word and what follows it make up the text, and the word is not empty. -/
theorem splitWord_eq_some {cs word rest : List Char} (h : splitWord cs = some (word, rest)) :
    cs = word ++ rest ∧ word ≠ [] := by
  cases cs with
  | nil => simp [splitWord] at h
  | cons c cs =>
    simp only [splitWord] at h
    split at h
    · simp only [Option.some.injEq, Prod.mk.injEq] at h
      obtain ⟨rfl, rfl⟩ := h
      simp [List.takeWhile_append_dropWhile]
    · simp at h

private theorem signedWord_eq_some {sign : Char} {token : List Char → Token} {cs : List Char}
    {m : Munch} (h : signedWord sign token cs = some m) :
    sign :: cs = m.written ++ m.rest ∧ m.written ≠ [] := by
  simp only [signedWord, Option.map_eq_some_iff] at h
  obtain ⟨⟨word, rest⟩, hw, rfl⟩ := h
  simp [(splitWord_eq_some hw).1]

/-- A token takes at least one character from the front and leaves the others in place. -/
theorem munch?_eq_some {cs : List Char} {m : Munch} (h : munch? cs = some m) :
    cs = m.written ++ m.rest ∧ m.written ≠ [] := by
  cases cs with
  | nil => simp [munch?] at h
  | cons c cs =>
    simp only [munch?] at h
    split at h
    · cases h; simp
    split at h
    · cases h; simp
    split at h
    · cases h; simp
    split at h
    · exact signedWord_eq_some h
    split at h
    · exact signedWord_eq_some h
    · simp only [Option.map_eq_some_iff] at h
      obtain ⟨⟨word, rest⟩, hw, rfl⟩ := h
      exact splitWord_eq_some hw

end PlanningDomain
