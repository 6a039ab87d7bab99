import PlanningDomain.Toml

/-! Scalars of TOML: numbers, truth values, dates and times, each one word save for a blank between
a date and a time, and quoted text, with escapes or without, on one line or over several. Readers of
quoted text start behind the opening quotes, and their fuel bounds the number of steps. -/
namespace PlanningDomain.Toml

def isGrouped (digit : Char → Bool) : List Char → Bool
  | [] => false
  | [c] => digit c
  | c :: d :: cs =>
    if d = '_' then digit c && isGrouped digit cs else digit c && isGrouped digit (d :: cs)

/-- The number that digits spell in a base; underscores count for nothing. -/
def valueIn (base : Nat) (cs : List Char) : Nat :=
  (cs.filter (· != '_')).foldl (fun n c => n * base + digitValue c) 0

/-- A whole number without a zero in front. -/
def isWhole (cs : List Char) : Bool :=
  isGrouped Char.isDigit cs && (cs.length == 1 || cs.head? != some '0')

def splitSign : List Char → Option Char × List Char
  | [] => (none, [])
  | c :: cs => if c = '+' ∨ c = '-' then (some c, cs) else (none, c :: cs)

/-- Digits of a base behind its mark, which takes no sign. -/
def based? (base : Nat) (digit : Char → Bool) (cs : List Char) : Option Int :=
  if isGrouped digit cs then signedWord? false (valueIn base cs) else none

def integer? (cs : List Char) : Option Int :=
  match cs with
  | '0' :: 'x' :: digits => based? 16 isHexDigit digits
  | '0' :: 'o' :: digits => based? 8 (fun c => '0' ≤ c && c ≤ '7') digits
  | '0' :: 'b' :: digits => based? 2 (fun c => c == '0' || c == '1') digits
  | cs =>
    let (sign, digits) := splitSign cs
    if isWhole digits then signedWord? (sign == some '-') (valueIn 10 digits) else none

def exponent? (cs : List Char) : Option Int :=
  let (sign, digits) := splitSign cs
  if isGrouped Char.isDigit digits then
    let size : Int := valueIn 10 digits
    some (if sign == some '-' then -size else size)
  else none

/-- A number with a fraction or an exponent. One too large to be finite is refused, one too small
becomes the negative infinity. -/
def decimal? (cs : List Char) : Option Binary64 := do
  let (sign, unsigned) := splitSign cs
  let isMark (c : Char) := c == 'e' || c == 'E'
  let mantissa := unsigned.takeWhile fun c => !isMark c
  let whole := mantissa.takeWhile (· != '.')
  let hasPoint := whole.length < mantissa.length
  let fraction := mantissa.drop (whole.length + 1)
  let hasExponent := mantissa.length < unsigned.length
  let exponent ← if hasExponent then exponent? (unsigned.drop (mantissa.length + 1)) else some 0
  if !isWhole whole || (hasPoint && !isGrouped Char.isDigit fraction) || (!hasPoint && !hasExponent)
  then none
  else
    let digits := (whole ++ fraction).filter (· != '_')
    let places := (fraction.filter (· != '_')).length
    match Binary64.ofDecimal (sign == some '-') (valueIn 10 digits) (exponent - places) with
    | .infinite false => none
    | x => some x

/-- Infinity and what is not a number, by name. -/
def special? (cs : List Char) : Option Binary64 :=
  let (sign, word) := splitSign cs
  if word = "inf".toList then some (.infinite (sign == some '-'))
  else if word = "nan".toList then some .nan
  else none

def ofWord? (cs : List Char) : Option Value :=
  if cs = "true".toList then some (.boolean true)
  else if cs = "false".toList then some (.boolean false)
  else
    ((integer? cs).map .integer).or <|
      (((decimal? cs).or (special? cs)).map .real).or <|
        (Moment.ofChars? cs).map .moment

/-- Tabs and everything from the blank on, without the delete character. -/
def isTextChar (c : Char) : Bool :=
  c == '\t' || (32 ≤ c.toNat && c.toNat != 127)

/-- A character by its number in some hexadecimal digits; surrogates have none. -/
def readNumbered (count : Nat) (cs : List Char) : Option (Char × List Char) :=
  let digits := cs.take count
  let n := valueIn 16 digits
  if digits.length = count ∧ digits.all isHexDigit ∧ n.isValidChar then
    some (Char.ofNat n, cs.drop count)
  else none

/-- The character of an escape, behind its backslash. -/
def readEscape : List Char → Option (Char × List Char)
  | [] => none
  | c :: cs =>
    if c = '"' ∨ c = '\\' then some (c, cs)
    else if c = 'n' then some ('\n', cs)
    else if c = 't' then some ('\t', cs)
    else if c = 'r' then some ('\r', cs)
    else if c = 'b' then some ('\x08', cs)
    else if c = 'f' then some ('\x0c', cs)
    else if c = 'u' then readNumbered 4 cs
    else if c = 'U' then readNumbered 8 cs
    else none

def dropLineBreak? : List Char → Option (List Char)
  | '\n' :: cs => some cs
  | '\r' :: '\n' :: cs => some cs
  | _ => none

def readBasic : Nat → List Char → Option (List Char × List Char)
  | 0, _ => none
  | _, [] => none
  | fuel + 1, c :: cs =>
    if c = '"' then some ([], cs)
    else do
      let (c, cs) ← if c = '\\' then readEscape cs else if isTextChar c then some (c, cs) else none
      let (text, cs) ← readBasic fuel cs
      return (c :: text, cs)

/-- Text without escapes, on one line. -/
def readLiteral (cs : List Char) : Option (List Char × List Char) :=
  let text := cs.takeWhile (· != '\x27')
  if text.all isTextChar then
    match cs.dropWhile (· != '\x27') with
    | [] => none
    | _ :: rest => some (text, rest)
  else none

def isBlank (c : Char) : Bool := c == ' ' || c == '\t'

def dropBreaks : List Char → List Char
  | [] => []
  | '\r' :: '\n' :: cs => dropBreaks cs
  | c :: cs => if isBlank c || c == '\n' then dropBreaks cs else c :: cs

/-- A backslash at the end of a line takes all blanks and line breaks that follow. -/
def dropFolded? (cs : List Char) : Option (List Char) :=
  (dropLineBreak? (cs.dropWhile isBlank)).map dropBreaks

/-- Text over several lines. Three quotes end it; up to two more in front of them belong to it. -/
def readLines (quote : Char) (escapes : Bool) : Nat → List Char → Option (List Char × List Char)
  | 0, _ => none
  | _, [] => none
  | fuel + 1, c :: cs =>
    if c = quote then
      let run := ((c :: cs).takeWhile (· == quote)).length
      if run < 3 then do
        let (text, rest) ← readLines quote escapes fuel cs
        return (c :: text, rest)
      else if run ≤ 5 then some (List.replicate (run - 3) quote, (c :: cs).drop run)
      else none
    else
      match dropLineBreak? (c :: cs) with
      | some rest => do
        let (text, rest) ← readLines quote escapes fuel rest
        return ('\n' :: text, rest)
      | none =>
        if c = '\\' ∧ escapes then
          match dropFolded? cs with
          | some rest => readLines quote escapes fuel rest
          | none => do
            let (c, rest) ← readEscape cs
            let (text, rest) ← readLines quote escapes fuel rest
            return (c :: text, rest)
        else if isTextChar c then do
          let (text, rest) ← readLines quote escapes fuel cs
          return (c :: text, rest)
        else none

def readShort : List Char → Option (String × List Char)
  | [] => none
  | c :: cs =>
    if c = '"' then (readBasic (cs.length + 1) cs).map fun (text, cs) => (String.ofList text, cs)
    else if c = '\x27' then (readLiteral cs).map fun (text, cs) => (String.ofList text, cs)
    else none

/-- Any quoted text, from its opening quotes on. A line break right behind three quotes does not
belong to the text. -/
def readQuoted (cs : List Char) : Option (String × List Char) :=
  match cs with
  | a :: b :: c :: rest =>
    if a = b ∧ b = c ∧ (a = '"' ∨ a = '\x27') then
      let inside := (dropLineBreak? rest).getD rest
      (readLines a (a == '"') (inside.length + 1) inside).map fun (text, cs) =>
        (String.ofList text, cs)
    else readShort cs
  | _ => readShort cs

end PlanningDomain.Toml
