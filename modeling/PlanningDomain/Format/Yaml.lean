import PlanningDomain.Json.Writer
import PlanningDomain.Number.Binary64
import PlanningDomain.Number.Shortest
import PlanningDomain.Source.Cursor

/-! JSON values in the block style of YAML. A text stands plain where nothing in it can be taken for
a mark or for a value that is not text. Otherwise it stands in quotes, and over several lines in the
literal style; where neither can show it, in double quotes with escapes. -/
namespace PlanningDomain.Yaml

/-- The words that are not text. -/
def coreWords : List String :=
  ["", "~", "null", "Null", "NULL", "true", "True", "TRUE", "false", "False", "FALSE",
    ".nan", ".NaN", ".NAN", ".inf", ".Inf", ".INF", "+.inf", "+.Inf", "+.INF",
    "-.inf", "-.Inf", "-.INF"]

/-- The base that a mark in front of digits stands for, the test for its digits, and the digits. -/
def splitBase : List Char → Option (Nat × (Char → Bool) × List Char)
  | '0' :: 'x' :: digits => some (16, isHexDigit, digits)
  | '0' :: 'o' :: digits => some (8, fun c => '0' ≤ c && c ≤ '7', digits)
  | '0' :: 'b' :: digits => some (2, fun c => c == '0' || c == '1', digits)
  | _ => none

/-- A numeral in base sixteen, eight or two that has 128 bits, with a sign or without. -/
def isBased (cs : List Char) : Bool :=
  let (negative, unsigned) := Numeral.splitSign cs
  match splitBase unsigned with
  | none => false
  | some (base, isDigit, digits) =>
    let n := digits.foldl (fun n c => n * base + digitValue c) 0
    !digits.isEmpty && digits.all isDigit &&
      if negative then 2 * n ≤ wordLimit * wordLimit else n < wordLimit * wordLimit

/-- A decimal numeral within the range of finite numbers. There is one sign at most. -/
def isDecimal (cs : List Char) : Bool :=
  match Numeral.real? cs with
  | some x => x.isFinite
  | none => false

/-- Digits behind a zero, which some take for a number and some for text. -/
def isZeroPadded (cs : List Char) : Bool :=
  let unsigned := (Numeral.splitSign cs).2
  1 < unsigned.length && unsigned.head? == some '0' && unsigned.all Char.isDigit

/-- Whether plain text would be taken for something else. -/
def isAmbiguous (cs : List Char) : Bool :=
  coreWords.contains (String.ofList cs) || isZeroPadded cs || isBased cs || isDecimal cs

/-- The line breaks: newline, carriage return, next line, line separator and paragraph separator. -/
def isBreak (c : Char) : Bool :=
  c == '\n' || c == '\r' || c == '\x85' || c == '\u2028' || c == '\u2029'

def isPrintable (c : Char) : Bool :=
  let n := c.toNat
  c == '\n' || (32 ≤ n && n ≤ 126) || (0xA0 ≤ n && n ≤ 0xFFFD && n != 0xFEFF) || 0x10000 ≤ n

def isGap : Option Char → Bool
  | none => true
  | some c => c == ' ' || c == '\t' || c == '\x00' || isBreak c

/-- The marks that cannot stand first in plain text. -/
def firstMarks : List Char :=
  "#,[]&*!|>\"%@\x27\x60\x7b\x7d".toList

def startsWithMark (cs : List Char) : Bool :=
  match cs with
  | [] => false
  | c :: rest =>
    firstMarks.contains c || ((c == '-' || c == '?' || c == ':') && isGap rest.head?) ||
      cs.take 3 == ['-', '-', '-'] || cs.take 3 == ['.', '.', '.']

/-- Whether a comment or the value of a mapping starts behind a character. -/
def holdsMark (previous : Char) : List Char → Bool
  | [] => false
  | c :: rest =>
    (c == '#' && isGap (some previous)) || (c == ':' && isGap rest.head?) || holdsMark c rest

/-- Whether a character of one kind stands in front of one of another kind. -/
def holdsPair (first second : Char → Bool) : List Char → Bool
  | [] => false
  | [_] => false
  | c :: d :: rest => (first c && second d) || holdsPair first second (d :: rest)

def isSpace (c : Char) : Bool := c == ' '

def isEdge (c : Option Char) : Bool :=
  c.any fun c => isSpace c || isBreak c

/-- Whether text can be shown without escapes at all. -/
def isShowable (cs : List Char) : Bool :=
  cs.all isPrintable && !holdsPair isSpace isBreak cs

def allowsPlain (cs : List Char) : Bool :=
  match cs with
  | [] => false
  | c :: rest =>
    isShowable cs && !cs.any isBreak && !isEdge cs.head? && !isEdge cs.getLast? &&
      !startsWithMark cs && !holdsMark c rest

def allowsSingleQuotes (cs : List Char) : Bool :=
  isShowable cs && !holdsPair isBreak isSpace cs

def allowsLiteral (cs : List Char) : Bool :=
  isShowable cs && !cs.getLast?.any isSpace

def singleQuoted (cs : List Char) : List Char :=
  '\x27' :: (cs.flatMap fun c => if c = '\x27' then [c, c] else [c]) ++ ['\x27']

def hexDigit (n : Nat) : Char :=
  if n < 10 then Char.ofNat ('0'.toNat + n) else Char.ofNat ('A'.toNat + (n - 10))

def hexDigits (n : Nat) : Nat → List Char
  | 0 => []
  | width + 1 => hexDigits (n / 16) width ++ [hexDigit (n % 16)]

def shortEscapes : List (Char × Char) :=
  [('\x00', '0'), ('\x07', 'a'), ('\x08', 'b'), ('\t', 't'), ('\n', 'n'), ('\x0b', 'v'),
    ('\x0c', 'f'), ('\r', 'r'), ('\x1b', 'e'), ('"', '"'), ('\\', '\\'), ('\x85', 'N'),
    ('\u2028', 'L'), ('\u2029', 'P')]

def escaped (c : Char) : List Char :=
  match shortEscapes.lookup c with
  | some letter => ['\\', letter]
  | none =>
    if isPrintable c then [c]
    else if c.toNat < 0x100 then '\\' :: 'x' :: hexDigits c.toNat 2
    else if c.toNat < 0x10000 then '\\' :: 'u' :: hexDigits c.toNat 4
    else '\\' :: 'U' :: hexDigits c.toNat 8

def doubleQuoted (cs : List Char) : List Char :=
  '"' :: cs.flatMap escaped ++ ['"']

/-- The mark of the literal style. A number tells the indent of text whose first line does not show
it; a dash tells that no line break ends the text, and a plus that several do. -/
def literalMark (cs : List Char) : List Char :=
  let indent := if isEdge cs.head? then ['2'] else []
  let ending :=
    match cs.reverse with
    | [] => ['-']
    | last :: before =>
      if !isBreak last then ['-'] else if before.head?.all isBreak then ['+'] else []
  '|' :: indent ++ ending

def literal (cs : List Char) : List Char :=
  literalMark cs ++ '\n' :: cs

def scalar (text : String) : List Char :=
  let cs := text.toList
  if cs.contains '\n' then
    if allowsLiteral cs then literal cs else doubleQuoted cs
  else if allowsPlain cs && !isAmbiguous cs then cs
  else if allowsSingleQuotes cs then singleQuoted cs
  else doubleQuoted cs

/-- Blanks behind every line break that another break or the end does not follow. -/
def indentRest (width : Nat) : List Char → List Char
  | [] => []
  | c :: rest =>
    if isBreak c && rest.head?.any (fun next => !isBreak next) then
      c :: List.replicate width ' ' ++ indentRest width rest
    else c :: indentRest width rest

/-- A mark in front of the first line, and as many blanks in front of the others. -/
def hang (mark : String) (block : List Char) : List Char :=
  mark.toList ++ indentRest mark.length block

def endLine (cs : List Char) : List Char :=
  if cs.getLast?.any isBreak then cs else cs ++ ['\n']

def single : Json → List Char
  | .null => "null".toList
  | .boolean value => (if value then "true" else "false").toList
  | .integer value => (toString value).toList
  | .real value => value.realText.toList
  | .text value => scalar value
  | .array _ => "[]".toList
  | .object _ => "\x7b\x7d".toList

/-- A name of more bytes than this has a mark and lines of its own. -/
def longestName : Nat := 128

def isShortName (name : String) : Bool :=
  byteLength name.toList ≤ longestName && !name.toList.any isBreak

/-- A member, given the block of its value. A list is not indented below its name, and a map is. -/
def memberBlock (name : String) (value : Json) (block : List Char) : List Char :=
  if isShortName name then
    match value with
    | .array (_ :: _) => scalar name ++ ':' :: '\n' :: block
    | .object (_ :: _) => scalar name ++ ':' :: '\n' :: hang "  " block
    | _ => scalar name ++ ':' :: ' ' :: indentRest 2 block
  else hang "? " (endLine (scalar name)) ++ hang ": " block

mutual

def block : Json → List Char
  | .array (item :: items) => hang "- " (block item) ++ itemBlocks items
  | .object ((name, value) :: members) =>
    memberBlock name value (block value) ++ memberBlocks members
  | j => endLine (single j)

def itemBlocks : List Json → List Char
  | [] => []
  | item :: items => hang "- " (block item) ++ itemBlocks items

def memberBlocks : List (String × Json) → List Char
  | [] => []
  | (name, value) :: members => memberBlock name value (block value) ++ memberBlocks members

end

def document (j : Json) : String :=
  String.ofList (block j)

end PlanningDomain.Yaml
