/-! Byte offsets in a text, their lines and columns, and a cursor that remembers the span passed
last. Lines and columns count from one, columns count bytes, and only a newline ends a line. -/
namespace PlanningDomain

/-- A line and a column. -/
structure Position where
  line : Nat
  column : Nat
deriving DecidableEq

namespace Position

def text (p : Position) : String :=
  toString p.line ++ ":" ++ toString p.column

def order (p q : Position) : Ordering :=
  (compare p.line q.line).then (compare p.column q.column)

end Position

/-- The stretch from one place up to another. Nothing forces the end to come second. -/
structure Span where
  start : Position
  stop : Position
deriving DecidableEq

namespace Span

def point (p : Position) : Span := ⟨p, p⟩

/-- A point is written as its place; a stretch inside one line names that line once. -/
def text (s : Span) : String :=
  if s.start = s.stop then s.start.text
  else if s.start.line = s.stop.line then s.start.text ++ "-" ++ toString s.stop.column
  else s.start.text ++ "-" ++ s.stop.text

end Span

structure ByteRange where
  start : Nat
  stop : Nat
deriving DecidableEq

def byteLength : List Char → Nat
  | [] => 0
  | c :: cs => c.utf8Size + byteLength cs

@[simp] theorem byteLength_append (cs ds : List Char) :
    byteLength (cs ++ ds) = byteLength cs + byteLength ds := by
  induction cs with
  | nil => simp [byteLength]
  | cons c cs ih => simp [byteLength, ih, Nat.add_assoc]

theorem byteLength_pos {cs : List Char} (h : cs ≠ []) : 0 < byteLength cs := by
  cases cs with
  | nil => exact absurd rfl h
  | cons c cs =>
    have := c.utf8Size_pos
    simp only [byteLength]
    omega

/-- The offsets at which lines start, in order, and the length of the text in bytes. -/
structure LineTable where
  starts : List Nat
  size : Nat

namespace LineTable

/-- The offsets just past the newlines of a text whose first character is at `offset`. -/
def startsAfter (offset : Nat) : List Char → List Nat
  | [] => []
  | c :: cs =>
    if c = '\n' then (offset + c.utf8Size) :: startsAfter (offset + c.utf8Size) cs
    else startsAfter (offset + c.utf8Size) cs

/-- The first line starts at the first byte, even of an empty text. -/
def ofChars (cs : List Char) : LineTable :=
  ⟨0 :: startsAfter 0 cs, byteLength cs⟩

def ofText (text : String) : LineTable :=
  ofChars text.toList

def startsUpTo (t : LineTable) (offset : Nat) : List Nat :=
  t.starts.takeWhile (· ≤ offset)

/-- The place of an offset; an offset past the end has the place of the end. -/
def position (t : LineTable) (offset : Nat) : Position :=
  let here := min offset t.size
  let starts := t.startsUpTo here
  ⟨starts.length, here - starts.getLast?.getD 0 + 1⟩

def span (t : LineTable) (r : ByteRange) : Span :=
  ⟨t.position r.start, t.position r.stop⟩

def endPosition (t : LineTable) : Position :=
  t.position t.size

def endPoint (t : LineTable) : Span :=
  .point t.endPosition

end LineTable

structure Cursor where
  table : LineTable
  current : Span

namespace Cursor

def ofText (text : String) : Cursor :=
  let table := LineTable.ofText text
  ⟨table, .point (table.position 0)⟩

def step (c : Cursor) (r : ByteRange) : Cursor :=
  { c with current := c.table.span r }

def finish (c : Cursor) : Cursor :=
  { c with current := c.table.endPoint }

/-- The span of a range, without moving. -/
def spanOf (c : Cursor) (r : ByteRange) : Span :=
  c.table.span r

def endOfInput (c : Cursor) : Span :=
  c.table.endPoint

end Cursor
end PlanningDomain
