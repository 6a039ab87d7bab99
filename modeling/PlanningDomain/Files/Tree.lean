import PlanningDomain.Source.Cursor

/-! Files to be read, by path, and their bytes as UTF-8 with the malformed parts marked. The files
of one working directory are a value; nothing is known of what lies outside it. -/
namespace PlanningDomain.Utf8

/-- The number of continuation bytes that a first byte announces, and the bounds of the first of
them. The bounds exclude overlong forms, surrogates and numbers past the last character. -/
def announced (b : UInt8) : Option (Nat × UInt8 × UInt8) :=
  if 0xC2 ≤ b && b ≤ 0xDF then some (1, 0x80, 0xBF)
  else if b == 0xE0 then some (2, 0xA0, 0xBF)
  else if b == 0xED then some (2, 0x80, 0x9F)
  else if 0xE1 ≤ b && b ≤ 0xEF then some (2, 0x80, 0xBF)
  else if b == 0xF0 then some (3, 0x90, 0xBF)
  else if 0xF1 ≤ b && b ≤ 0xF3 then some (3, 0x80, 0xBF)
  else if b == 0xF4 then some (3, 0x80, 0x8F)
  else none

/-- The bits that a first byte adds to a character of `count` continuation bytes. -/
def leadBits (count : Nat) (b : UInt8) : Nat :=
  b.toNat % Nat.pow 2 (6 - count)

/-- The announced continuation bytes, as far as they are there: the number that the bytes spell, or
`none` where one is wrong, and the bytes that follow. -/
def takeContinuations (n : Nat) : Nat → UInt8 × UInt8 → List UInt8 → Option Nat × List UInt8
  | 0, _, bs => (some n, bs)
  | _ + 1, _, [] => (none, [])
  | count + 1, (low, high), b :: bs =>
    if low ≤ b && b ≤ high then
      takeContinuations (n * 64 + b.toNat % 64) count (0x80, 0xBF) bs
    else (none, b :: bs)

/-- The character at the front, or `none` for a malformed part, and what follows. -/
def decodeFront (b : UInt8) (bs : List UInt8) : Option Char × List UInt8 :=
  if b < 0x80 then (some (Char.ofNat b.toNat), bs)
  else
    match announced b with
    | none => (none, bs)
    | some (count, low, high) =>
      let (n, rest) := takeContinuations (leadBits count b) count (low, high) bs
      (n.map Char.ofNat, rest)

theorem length_takeContinuations_le (n count : Nat) (bounds : UInt8 × UInt8) (bs : List UInt8) :
    (takeContinuations n count bounds bs).2.length ≤ bs.length := by
  induction count generalizing n bounds bs with
  | zero => simp [takeContinuations]
  | succ count ih =>
    cases bs with
    | nil => simp [takeContinuations]
    | cons b bs =>
      simp only [takeContinuations]
      split
      · exact Nat.le_succ_of_le (ih ..)
      · exact Nat.le_refl _

theorem length_decodeFront_le (b : UInt8) (bs : List UInt8) :
    (decodeFront b bs).2.length ≤ bs.length := by
  simp only [decodeFront]
  split
  · exact Nat.le_refl _
  · split
    · exact Nat.le_refl _
    · exact length_takeContinuations_le ..

/-- The characters of some bytes, with `none` for each malformed part. -/
def decode (bs : List UInt8) : List (Option Char) :=
  match bs with
  | [] => []
  | b :: bs => (decodeFront b bs).1 :: decode (decodeFront b bs).2
termination_by bs.length
decreasing_by
  have := length_decodeFront_le b bs
  simp only [List.length_cons]
  omega

/-- The text of bytes without a malformed part. -/
def text? (bs : List UInt8) : Option String :=
  ((decode bs).mapM id).map String.ofList

/-- The characters of some bytes, with the replacement character for each malformed part. -/
def lossyText (bs : List UInt8) : List Char :=
  (decode bs).map fun c => c.getD '\uFFFD'

end PlanningDomain.Utf8

namespace PlanningDomain

/-- Why a file cannot be read. -/
inductive ReadFault
  | notFound
  | isDirectory
  | notDirectory
  | nameTooLong
  | nulInPath
  | notUtf8
  /-- Any other fault, in the words of the system. -/
  | other (text : String)
deriving DecidableEq

def ReadFault.text : ReadFault → String
  | notFound => "No such file or directory (os error 2)"
  | isDirectory => "Is a directory (os error 21)"
  | notDirectory => "Not a directory (os error 20)"
  | nameTooLong => "File name too long (os error 36)"
  | nulInPath => "file name contained an unexpected NUL byte"
  | notUtf8 => "stream did not contain valid UTF-8"
  | other text => text

/-- What the user is told about a path that cannot be read. -/
def ReadFault.message (fault : ReadFault) (path : String) : String :=
  "cannot read " ++ path ++ ": " ++ fault.text

/-- What reading gives at each path. -/
structure Files where
  read : String → Except ReadFault (List UInt8)

namespace Files

def readText (files : Files) (path : String) : Except ReadFault String := do
  match Utf8.text? (← files.read path) with
  | some text => return text
  | none => throw .notUtf8

def isFile (files : Files) (path : String) : Bool :=
  (files.read path).isOk

end Files

inductive FileTree.Entry
  | file (bytes : List UInt8)
  | directory

/-- Entries by the names on the way to them. The directories on the way are there without being
listed. -/
structure FileTree where
  entries : List (List String × FileTree.Entry)

namespace FileTree

def entry? (t : FileTree) (names : List String) : Option Entry :=
  match t.entries.lookup names with
  | some e => some e
  | none =>
    if t.entries.any fun e => names.isPrefixOf e.1 then some .directory
    else if names.isEmpty then some .directory
    else none

inductive Place
  | inside (names : List String)
  | outside

/-- The longest name and the longest path that a system takes, in bytes. -/
def longestName : Nat := 255

def longestPath : Nat := 4095

/-- One step along a path, from a place that has to be a directory. -/
def step (t : FileTree) (place : Place) (name : String) : Except ReadFault Place :=
  match place with
  | .outside =>
    if name == "" || name == "." || name == ".." then .ok .outside else .error .notFound
  | .inside names =>
    match t.entry? names with
    | none => .error .notFound
    | some (.file _) => .error .notDirectory
    | some .directory =>
      if name == "" || name == "." then .ok (.inside names)
      else if name == ".." then
        .ok (if names.isEmpty then .outside else .inside names.dropLast)
      else if longestName < byteLength name.toList then .error .nameTooLong
      else .ok (.inside (names ++ [name]))

def walk (t : FileTree) (path : String) : Except ReadFault Place :=
  if path.isEmpty then .error .notFound
  else if path.toList.contains '\x00' then .error .nulInPath
  else if longestPath < byteLength path.toList then .error .nameTooLong
  else
    let start := if path.toList.head? = some '/' then Place.outside else .inside []
    (path.splitOn "/").foldlM t.step start

def read (t : FileTree) (path : String) : Except ReadFault (List UInt8) := do
  match ← t.walk path with
  | .outside => throw .isDirectory
  | .inside names =>
    match t.entry? names with
    | some (.file bytes) => return bytes
    | some .directory => throw .isDirectory
    | none => throw .notFound

def files (t : FileTree) : Files := ⟨t.read⟩

end FileTree
end PlanningDomain
