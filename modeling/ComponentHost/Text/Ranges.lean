/- # Sets of code points as ranges

Character classes of a standard are kept as lists of closed ranges in increasing order;
membership stops at the first range that lies beyond the code point.  Large classes are written
as text: a word is a range, given by its bounds with `-` between them, or a single code point.
-/
import ComponentHost.Text.CodeTable

namespace ComponentHost.Text

/-- Is the code point in one of the ranges?  The ranges are in increasing order. -/
def inRanges (n : Nat) : List (Nat × Nat) → Bool
  | [] => false
  | (low, high) :: rest => low ≤ n && (n ≤ high || inRanges n rest)

/-- The range that a word writes, with numbers in base sixteen. -/
def rangeOf (word : List Char) : Nat × Nat :=
  match splitAt '-' word with
  | [low, high] => (CodeTable.number low, CodeTable.number high)
  | _ => (CodeTable.number word, CodeTable.number word)

/-- Reads ranges from their lines. -/
def readRanges (lines : List String) : List (Nat × Nat) :=
  (lines.flatMap fun l => splitAt ' ' l.toList).map rangeOf

end ComponentHost.Text
