/- # Lines and columns

Editors name a place by its line and its column in UTF-16 units, both from zero; spans are in
bytes.  An index keeps the lines of a text with the offset at which each starts, finds a line
by halving, and counts through that line only.

A line ends with its line feed.  Its content leaves the feed out, and one carriage return
before it.
-/
import ComponentHost.Text.Cursor

namespace ComponentHost

/-- A place as editors name it. -/
structure Position where
  line : Nat
  /-- Column in UTF-16 units. -/
  character : Nat
deriving DecidableEq, Repr, Inhabited

/-- Two places as editors name them. -/
structure PositionRange where
  start : Position
  stop : Position
deriving DecidableEq, Repr

/-! ## 1. Lines -/

/-- A line with the offset at which it starts. -/
structure Line where
  start : Nat
  chars : List Char
deriving DecidableEq, Repr

namespace Line

/-- The lines of a text; what follows the last line feed is a line too. -/
def split : List Char → List (List Char)
  | [] => [[]]
  | c :: r =>
    if c == '\n' then ['\n'] :: split r
    else
      match split r with
      | [] => [[c]]
      | l :: ls => (c :: l) :: ls

/-- Lines that follow each other, from an offset on. -/
def place : Nat → List (List Char) → List Line
  | _, [] => []
  | start, l :: ls => ⟨start, l⟩ :: place (start + byteWidth l) ls

/-- The characters without a line feed at the end, and then without one carriage return. -/
def contentOf (chars : List Char) : List Char :=
  let body := match chars.getLast? with
    | some '\n' => chars.dropLast
    | _ => chars
  match body.getLast? with
  | some '\r' => body.dropLast
  | _ => body

/-- Content of the line. -/
def content (l : Line) : List Char := contentOf l.chars

/-- UTF-16 units of the characters that end at or before an offset, from a place on. -/
def unitsUpTo (offset : Nat) : Nat → List Char → Nat
  | _, [] => 0
  | here, c :: r =>
    if here + c.utf8Size ≤ offset then unitSize c + unitsUpTo offset (here + c.utf8Size) r else 0

/-- Offset of the first character at or past a column, or of the end. -/
def offsetAt (column : Nat) : Nat → Nat → List Char → Nat
  | here, _, [] => here
  | here, units, c :: r =>
    if column ≤ units then here else offsetAt column (here + c.utf8Size) (units + unitSize c) r

end Line

/-! ## 2. The index -/

/-- The lines of a text. -/
structure LineIndex where
  lines : Array Line
  /-- Bytes of the text. -/
  size : Nat
deriving Repr

namespace LineIndex

/-- The index of a text. -/
def ofText (text : String) : LineIndex :=
  ⟨(Line.place 0 (Line.split text.toList)).toArray, byteWidth text.toList⟩

/-- Number of lines. -/
def count (ix : LineIndex) : Nat := ix.lines.size

/-- Offset at which a line starts. -/
def startOf (ix : LineIndex) (n : Nat) : Nat := (ix.lines[n]?.map Line.start).getD 0

/-- The last line between `lo` and `hi` that starts at or before an offset, given that `lo`
does.  The distance is halved until nothing lies between. -/
def lineBetween (ix : LineIndex) (offset lo hi : Nat) : Nat :=
  if h : lo + 1 < hi then
    let middle := lo + (hi - lo) / 2
    if ix.startOf middle ≤ offset then lineBetween ix offset middle hi
    else lineBetween ix offset lo middle
  else lo
termination_by hi - lo
decreasing_by
  · omega
  · omega

/-- The line that holds an offset. -/
def lineOf (ix : LineIndex) (offset : Nat) : Nat := ix.lineBetween offset 0 ix.count

/-- The place of an offset.  Past the end it is the end; inside a character, the character. -/
def position (ix : LineIndex) (offset : Nat) : Position :=
  let offset := min offset ix.size
  let n := ix.lineOf offset
  match ix.lines[n]? with
  | some l => ⟨n, Line.unitsUpTo offset l.start l.chars⟩
  | none => ⟨n, 0⟩

/-- The offset of a place.  A column past the content of its line is the end of the content. -/
def offset? (ix : LineIndex) (p : Position) : Option Nat :=
  ix.lines[p.line]?.map fun l => Line.offsetAt p.character l.start 0 l.content

/-- The places of a span. -/
def range (ix : LineIndex) (start stop : Nat) : PositionRange := ⟨ix.position start, ix.position stop⟩

end LineIndex

end ComponentHost
