/- # Tables of code points

A table says what belongs to a code point.  Large tables are written as text: a word that ends
in a colon names a code point, the word after it is what belongs to that code point, and each
further word belongs to the next one.  What belongs to a code point is a list of code points
with `+` between them; all numbers are in base sixteen.
-/
import ComponentHost.Text.Split

namespace ComponentHost.Text

/-- What belongs to some code points. -/
abbrev CodeTable := List (Nat × List Nat)

namespace CodeTable

/-- The number that a word writes in base sixteen, in large letters. -/
def number (word : List Char) : Nat :=
  word.foldl (fun n c => n * 16 + (if c.isDigit then c.toNat - 48 else c.toNat - 55)) 0

/-- Takes one more word: the code point that the next word belongs to, and the table so far,
last entry first. -/
def takeWord (state : Nat × CodeTable) (word : List Char) : Nat × CodeTable :=
  if word.getLast? == some ':' then (number word.dropLast, state.2)
  else (state.1 + 1, (state.1, (splitAt '+' word).map number) :: state.2)

/-- Reads a table from its lines. -/
def read (lines : List String) : CodeTable :=
  let words := lines.flatMap fun l => splitAt ' ' l.toList
  (words.foldl takeWord (0, [])).2.reverse

end CodeTable

end ComponentHost.Text
