/- # Matching paths

A pattern matches a path byte by byte.  A token is described by its rests: what can be left of a
text after the token has taken its part from the front.  A pattern matches if nothing is one of
the rests of its tokens in a row.
-/
import ComponentHost.Glob.Basic
import ComponentHost.Text.Utf8

namespace ComponentHost

/-- A text as its bytes. -/
abbrev Bytes := List UInt8

namespace Glob

/-- The separator of components. -/
def slash : UInt8 := 0x2F

/-! ## 1. Rests -/

/-- All ends of a text, the text first. -/
def tails : Bytes → List Bytes
  | [] => [[]]
  | b :: r => (b :: r) :: tails r

/-- The ends of a text before which no slash is passed. -/
def tailsWithin : Bytes → List Bytes
  | [] => [[]]
  | b :: r => (b :: r) :: (if b == slash then [] else tailsWithin r)

/-- The ends of a text that follow a slash. -/
def tailsAfterSlash : Bytes → List Bytes
  | [] => []
  | b :: r => if b == slash then r :: tailsAfterSlash r else tailsAfterSlash r

/-- Of ends of one text, each once. -/
def distinct (rests : List Bytes) : List Bytes :=
  rests.foldr (fun r found => if found.any (·.length == r.length) then found else r :: found) []

/-- The ranges of bytes that a range of characters stands for: the bytes of its ends, with a
range from the last byte of the first to the first byte of the last. -/
def byteRanges (range : Char × Char) : List (UInt8 × UInt8) :=
  let low := Utf8.charBytes range.1
  let high := Utf8.charBytes range.2
  let single := fun b => (b, b)
  if range.1 = range.2 then low.map single
  else
    match low.getLast?, high with
    | some first, last :: more => low.dropLast.map single ++ (first, last) :: more.map single
    | _, _ => []

/-- Does the byte belong to one of the ranges of characters? -/
def inBrackets (ranges : List (Char × Char)) (b : UInt8) : Bool :=
  ranges.any fun r => (byteRanges r).any fun (low, high) => low ≤ b && b ≤ high

/-- The rest after a byte of some kind. -/
def restAfter (good : UInt8 → Bool) : Bytes → List Bytes
  | [] => []
  | b :: r => if good b then [r] else []

/-- The rest after a literal text. -/
def restAfterText : Bytes → Bytes → List Bytes
  | [], text => [text]
  | _ :: _, [] => []
  | b :: bs, c :: r => if b == c then restAfterText bs r else []

mutual

/-- Does the token stand for nothing?  Only groups of empty alternatives do. -/
def isVoid : GlobToken → Bool
  | .alternatives branches => branchesVoid branches
  | _ => false

/-- Do all alternatives stand for nothing? -/
def branchesVoid : List (List GlobToken) → Bool
  | [] => true
  | branch :: rest => allVoid branch && branchesVoid rest

/-- Do all tokens stand for nothing? -/
def allVoid : List GlobToken → Bool
  | [] => true
  | t :: ts => isVoid t && allVoid ts

end

mutual

/-- What can be left of a text after a token.  A group of empty alternatives takes nothing. -/
def restsOf (stopsAtSlash : Bool) : GlobToken → Bytes → List Bytes
  | .literal c, text => restAfterText (Utf8.charBytes c) text
  | .any, text => restAfter (fun b => !(stopsAtSlash && b == slash)) text
  | .star, text => if stopsAtSlash then tailsWithin text else tails text
  | .treeStart, text => text :: tailsAfterSlash text
  | .treeEnd, text => (restAfter (· == slash) text).flatMap tails
  | .treeBetween, text => (restAfter (· == slash) text).flatMap fun r => r :: tailsAfterSlash r
  | .oneOf negated ranges, text => restAfter (fun b => inBrackets ranges b != negated) text
  | .alternatives branches, text =>
    if branchesVoid branches then [text] else restsOfBranches stopsAtSlash branches text

/-- What can be left of a text after one of some patterns; an empty one is no choice. -/
def restsOfBranches (stopsAtSlash : Bool) : List (List GlobToken) → Bytes → List Bytes
  | [], _ => []
  | branch :: rest, text =>
    (if allVoid branch then [] else restsOfAll stopsAtSlash branch [text]) ++
      restsOfBranches stopsAtSlash rest text

/-- What can be left of one of some texts after tokens in a row. -/
def restsOfAll (stopsAtSlash : Bool) : List GlobToken → List Bytes → List Bytes
  | [], texts => texts
  | t :: ts, texts =>
    restsOfAll stopsAtSlash ts (distinct (texts.flatMap fun text => restsOf stopsAtSlash t text))

end

/-! ## 2. Matches -/

/-- Does the pattern match the whole of a text?  A lone `**` matches everything. -/
def matchesBytes (g : Glob) (text : Bytes) : Bool :=
  match g.tokens with
  | [.treeStart] => true
  | tokens => (restsOfAll g.stopsAtSlash tokens [text]).any List.isEmpty

/-- Does the pattern match a path? -/
def isMatch (g : Glob) (path : String) : Bool := g.matchesBytes (Utf8.bytes path)

/-- Does one of the patterns match a path? -/
def anyMatch (globs : List Glob) (path : String) : Bool := globs.any (·.isMatch path)

end Glob

end ComponentHost
