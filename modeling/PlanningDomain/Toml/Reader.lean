import PlanningDomain.Toml
import PlanningDomain.Toml.Quoted

/-! TOML documents read from text. -/
namespace PlanningDomain.Toml

def skipBlanks (cs : List Char) : List Char := cs.dropWhile isBlank

/-- What follows a comment, if one that holds no control character is at the front; else all. -/
def skipComment? (cs : List Char) : Option (List Char) :=
  if cs.head? = some '#' then
    let isEnd (c : Char) := c == '\n' || c == '\r'
    if (cs.takeWhile fun c => !isEnd c).all isTextChar then some (cs.dropWhile fun c => !isEnd c)
    else none
  else some cs

/-- What follows the blanks and the comment up to the end of a line or of the text. -/
def readLineEnd (cs : List Char) : Option (List Char) := do
  let rest ← skipComment? (skipBlanks cs)
  if rest.isEmpty then return [] else dropLineBreak? rest

/-- What follows blanks, comments and line breaks between the items of an array. -/
def skipSpace : Nat → List Char → Option (List Char)
  | 0, _ => none
  | fuel + 1, cs => do
    let rest ← skipComment? (skipBlanks cs)
    match dropLineBreak? rest with
    | some rest => skipSpace fuel rest
    | none => return rest

def isBareKeyChar (c : Char) : Bool := c.isAlphanum || c == '_' || c == '-'

def readKeyPart (cs : List Char) : Option (String × List Char) :=
  let bare := cs.takeWhile isBareKeyChar
  if bare.isEmpty then readShort cs else some (String.ofList bare, cs.dropWhile isBareKeyChar)

/-- Values stand within fewer than this many others, and keys have fewer parts. -/
def nestingLimit : Nat := 80

def readKeyParts : Nat → List Char → Option (List String × List Char)
  | 0, _ => none
  | fuel + 1, cs => do
    let (part, rest) ← readKeyPart (skipBlanks cs)
    match skipBlanks rest with
    | '.' :: rest =>
      let (parts, rest) ← readKeyParts fuel rest
      return (part :: parts, rest)
    | rest => return ([part], rest)

def readKey (cs : List Char) : Option (List String × List Char) :=
  (readKeyParts (cs.length + 1) cs).filter fun key => key.1.length < nestingLimit

def isWordChar (c : Char) : Bool :=
  c.isAlphanum || c == '_' || c == '+' || c == '-' || c == '.' || c == ':'

/-- A number, a truth value, a date or a time. A blank may join a date and a time. -/
def readWord (cs : List Char) : Option (Value × List Char) :=
  let word := cs.takeWhile isWordChar
  let rest := cs.dropWhile isWordChar
  let joined := word ++ ' ' :: rest.tail.takeWhile isWordChar
  match if rest.head? = some ' ' then Moment.ofChars? joined else none with
  | some moment => some (.moment moment, rest.tail.dropWhile isWordChar)
  | none => (ofWord? word).map fun value => (value, rest)

mutual

def readValue (depth : Nat) : Nat → List Char → Option (Value × List Char)
  | 0, _ => none
  | fuel + 1, cs =>
    match cs.head? with
    | some '"' | some '\x27' => (readQuoted cs).map fun (text, rest) => (.text text, rest)
    | some '[' =>
      if nestingLimit ≤ depth + 1 then none
      else (readItems (depth + 1) fuel cs.tail).map fun (items, rest) => (.array items, rest)
    | some '\x7b' =>
      if nestingLimit ≤ depth + 1 then none
      else do
        let inside := skipBlanks cs.tail
        let (pairs, rest) ←
          if inside.head? = some '\x7d' then some ([], inside.tail)
          else readPairs (depth + 1) fuel inside
        return (.table .inline (← inlineMembers pairs), rest)
    | _ => readWord cs

/-- The items of an array up to and with its closing bracket. A comma may stand behind the last. -/
def readItems (depth : Nat) : Nat → List Char → Option (List Value × List Char)
  | 0, _ => none
  | fuel + 1, cs => do
    let cs ← skipSpace (cs.length + 1) cs
    if cs.head? = some ']' then return ([], cs.tail)
    else
      let (item, rest) ← readValue depth fuel cs
      let rest ← skipSpace (rest.length + 1) rest
      if rest.head? = some ']' then return ([item], rest.tail)
      else if rest.head? = some ',' then
        let (items, rest) ← readItems depth fuel rest.tail
        return (item :: items, rest)
      else none

/-- The pairs of a table on one line, up to and with its closing brace. -/
def readPairs (depth : Nat) : Nat → List Char → Option (List (List String × Value) × List Char)
  | 0, _ => none
  | fuel + 1, cs => do
    let (key, rest) ← readKey cs
    if rest.head? = some '=' then
      let (value, rest) ← readValue depth fuel (skipBlanks rest.tail)
      let rest := skipBlanks rest
      if rest.head? = some '\x7d' then return ([(key, value)], rest.tail)
      else if rest.head? = some ',' then
        let (pairs, rest) ← readPairs depth fuel rest.tail
        return ((key, value) :: pairs, rest)
      else none
    else none

end

def readHeader (closing : List Char) (cs : List Char) : Option (List String × List Char) := do
  let (path, rest) ← readKey cs
  if rest.take closing.length = closing then return (path, rest.drop closing.length) else none

/-- One line, without its end. -/
def readStatement (cs : List Char) : Option (Statement × List Char) :=
  match skipBlanks cs with
  | [] => some (.blank, [])
  | '[' :: '[' :: rest =>
    (readHeader [']', ']'] rest).map fun (path, rest) => (.itemHeader path, rest)
  | '[' :: rest => (readHeader [']'] rest).map fun (path, rest) => (.header path, rest)
  | c :: rest =>
    if c = '#' ∨ c = '\n' ∨ c = '\r' then some (.blank, c :: rest)
    else do
      let (path, rest) ← readKey (c :: rest)
      if rest.head? = some '=' then
        let (value, rest) ← readValue 0 (rest.length + 1) (skipBlanks rest.tail)
        return (.pair path value, rest)
      else none

def readDocument : Nat → Document → List Char → Option Document
  | 0, _, _ => none
  | fuel + 1, d, cs =>
    if cs.isEmpty then some d
    else do
      let (statement, rest) ← readStatement cs
      let rest ← readLineEnd rest
      readDocument fuel (← d.add statement) rest

/-- The members of the document that a text writes. A byte order mark in front is passed over. -/
def parse? (text : String) : Option Members := do
  let cs := text.toList
  let cs := if cs.head? = some '\uFEFF' then cs.tail else cs
  (← readDocument (cs.length + 1) .empty cs).members.settle?

end PlanningDomain.Toml
