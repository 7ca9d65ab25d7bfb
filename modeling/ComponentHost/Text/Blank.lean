/- # Blank characters

The characters that count as white space in any script, and texts without them at their ends.
-/
import ComponentHost.Text.Ranges

namespace ComponentHost.Text

/-- Code points of white space. -/
def blankRanges : Array (Nat × Nat) :=
  #[(0x9, 0xD), (0x20, 0x20), (0x85, 0x85), (0xA0, 0xA0), (0x1680, 0x1680), (0x2000, 0x200A),
    (0x2028, 0x2029), (0x202F, 0x202F), (0x205F, 0x205F), (0x3000, 0x3000)]

/-- Is the character white space? -/
def isBlank (c : Char) : Bool := blankRanges.any fun (lo, hi) => lo ≤ c.toNat && c.toNat ≤ hi

/-- The characters without white space at their ends. -/
def trimmedChars (cs : List Char) : List Char :=
  ((cs.dropWhile isBlank).reverse.dropWhile isBlank).reverse

/-- The text without white space at its ends. -/
def trimmed (s : String) : String := String.ofList (trimmedChars s.toList)

/-- Is the text white space throughout? -/
def isBlankText (s : String) : Bool := s.toList.all isBlank

end ComponentHost.Text
