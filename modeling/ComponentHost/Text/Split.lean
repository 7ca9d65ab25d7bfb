/- # Splitting text

A text between separators: splitting keeps empty parts, so that joining gives the text back.
-/
namespace ComponentHost.Text

/-- Splits a text at every occurrence of a character. -/
def splitAt (sep : Char) : List Char → List (List Char)
  | [] => [[]]
  | c :: r =>
    if c == sep then [] :: splitAt sep r
    else
      match splitAt sep r with
      | [] => [[c]]
      | p :: ps => (c :: p) :: ps

/-- Parts with a separator between them. -/
def joinWith (sep : Char) : List (List Char) → List Char
  | [] => []
  | [p] => p
  | p :: ps => p ++ sep :: joinWith sep ps

end ComponentHost.Text
