/- # Patterns of paths

A pattern is read into tokens: `?` and `*` stand for any text, `**` as a whole component for any
number of components, `[..]` for one of several characters and `{a,b}` for one of several
patterns.  A backslash takes the character after it literally.

Reading goes through the pattern one character at a time; what a token needs of the characters
after it is looked up ahead, and the characters it takes are skipped.
-/
namespace ComponentHost

/-! ## 1. Tokens -/

/-- A part of a pattern. -/
inductive GlobToken where
  | literal (c : Char)
  /-- One character. -/
  | any
  /-- Any run of characters. -/
  | star
  /-- `**/` at the start: any number of components. -/
  | treeStart
  /-- `/**` at the end: whatever is below. -/
  | treeEnd
  /-- `/**/` in the middle: any number of components between. -/
  | treeBetween
  /-- One of some characters, or none of them. -/
  | oneOf (negated : Bool) (ranges : List (Char × Char))
  /-- One of some patterns. -/
  | alternatives (branches : List (List GlobToken))
deriving Repr

/-- A pattern, and whether its wildcards stop at slashes. -/
structure Glob where
  tokens : List GlobToken
  stopsAtSlash : Bool
deriving Repr

namespace Glob

/-! ## 2. Brackets -/

/-- What is read of `[..]`: its ranges, last first, and whether a dash waits for the end of its
range. -/
structure Bracket where
  ranges : List (Char × Char) := []
  dash : Bool := false

/-- How `[..]` ends. -/
inductive BracketEnd where
  | closed (ranges : List (Char × Char)) (length : Nat)
  | unclosed
  | reversed

namespace Bracket

/-- Takes one more character; none if a range runs backwards.  A dash after the first character
opens a range that starts with the range before it. -/
def take (b : Bracket) (first : Bool) (c : Char) : Option Bracket :=
  if b.dash then
    match b.ranges with
    | (low, _) :: before => if c < low then none else some ⟨(low, c) :: before, false⟩
    | [] => none
  else if c == '-' && !first then some { b with dash := true }
  else some { b with ranges := (c, c) :: b.ranges }

/-- The ranges; a dash at the end stands for itself. -/
def finish (b : Bracket) : List (Char × Char) :=
  (if b.dash then ('-', '-') :: b.ranges else b.ranges).reverse

/-- Reads up to the closing bracket, which as the first character stands for itself. -/
def scan (b : Bracket) (first : Bool) (length : Nat) : List Char → BracketEnd
  | [] => .unclosed
  | c :: r =>
    if c == ']' && !first then .closed b.finish (length + 1)
    else
      match b.take first c with
      | some b => scan b false (length + 1) r
      | none => .reversed

/-- Does the text after an opening bracket ask for other characters than the listed ones? -/
def isNegated (cs : List Char) : Bool :=
  match cs with
  | c :: _ => c == '!' || c == '^'
  | [] => false

/-- Reads what follows an opening bracket. -/
def read (cs : List Char) : BracketEnd :=
  if isNegated cs then scan {} true 1 (cs.drop 1) else scan {} true 0 cs

end Bracket

/-! ## 3. Reading -/

/-- A group of alternatives that is still open. -/
structure Group where
  /-- The tokens before the group, last first. -/
  before : List GlobToken
  /-- The alternatives that are complete, last first. -/
  branches : List (List GlobToken)

/-- What is read of a pattern. -/
structure Draft where
  /-- The tokens of the current alternative, last first. -/
  tokens : List GlobToken := []
  /-- The open groups, innermost first. -/
  groups : List Group := []
  /-- The last character. -/
  last : Option Char := none
  /-- How many of the next characters are taken already. -/
  skip : Nat := 0
  /-- Brackets stand for themselves from here on. -/
  plainBrackets : Bool := false

namespace Draft

/-- One more token. -/
def push (d : Draft) (t : GlobToken) : Draft := { d with tokens := t :: d.tokens }

/-- One more token that takes some of the next characters. -/
def pushPast (d : Draft) (t : GlobToken) (n : Nat) : Draft :=
  { d with tokens := t :: d.tokens, skip := n }

/-- Two stars that are not a component act like one. -/
def twoStars (d : Draft) : Draft :=
  { d with tokens := .star :: .star :: d.tokens, skip := 1 }

/-- Does the character end an alternative of an open group? -/
def endsBranch (d : Draft) (c : Char) : Bool := !d.groups.isEmpty && (c == ',' || c == '}')

/-- May `**` start here, after a token? -/
def startsComponent (d : Draft) : Bool :=
  match d.last with
  | some c => c == '/' || (!d.groups.isEmpty && (c == ',' || c == '{'))
  | none => false

/-- `**` after a token takes the place of the slash before it, unless it repeats an earlier
`**`. -/
def pushTree (d : Draft) (t : GlobToken) (n : Nat) : Draft :=
  match d.tokens with
  | .treeStart :: _ | .treeEnd :: _ => { d with skip := n }
  | _ :: before => { d with tokens := t :: before, skip := n }
  | [] => { d with tokens := [t], skip := n }

/-- Takes `**`, given what follows. -/
def doubleStar (d : Draft) (next : Option Char) : Draft :=
  if d.tokens.isEmpty then
    match next with
    | none => d.pushPast .treeStart 1
    | some c => if c == '/' then d.pushPast .treeStart 2 else d.twoStars
  else if d.startsComponent then
    match next with
    | none => d.pushTree .treeEnd 1
    | some c =>
      if c == '/' then d.pushTree .treeBetween 2
      else if d.endsBranch c then d.pushTree .treeEnd 1
      else d.twoStars
  else d.twoStars

/-- Takes `[`, given what follows; none if the pattern is not valid.  If `lenient`, a bracket that
is never closed stands for itself, and so do all that follow. -/
def bracket (lenient : Bool) (d : Draft) (rest : List Char) : Option Draft :=
  match Bracket.read rest with
  | .closed ranges length => some (d.pushPast (.oneOf (Bracket.isNegated rest) ranges) length)
  | .unclosed => if lenient then some { d.push (.literal '[') with plainBrackets := true } else none
  | .reversed => none

/-- The innermost group has one more alternative. -/
def nextBranch (d : Draft) : Draft :=
  match d.groups with
  | g :: outer =>
    { d with tokens := [], groups := { g with branches := d.tokens.reverse :: g.branches } :: outer }
  | [] => d.push (.literal ',')

/-- The innermost group ends; none if there is none. -/
def closeGroup (d : Draft) : Option Draft :=
  match d.groups with
  | g :: outer =>
    let branches := (d.tokens.reverse :: g.branches).reverse
    some { d with tokens := .alternatives branches :: g.before, groups := outer }
  | [] => none

/-- Takes one character, given those after it; none if the pattern is not valid. -/
def take (lenient : Bool) (d : Draft) (c : Char) (rest : List Char) : Option Draft :=
  match c with
  | '?' => some (d.push .any)
  | '*' => if rest.head? == some '*' then some (d.doubleStar (rest.drop 1).head?) else some (d.push .star)
  | '[' => if d.plainBrackets then some (d.push (.literal '[')) else d.bracket lenient rest
  | '{' => some { d with tokens := [], groups := ⟨d.tokens, []⟩ :: d.groups }
  | '}' => d.closeGroup
  | ',' => some d.nextBranch
  | '\\' => rest.head?.map fun c => d.pushPast (.literal c) 1
  | c => some (d.push (.literal c))

/-- Reads the rest of a pattern. -/
def read (lenient : Bool) (d : Draft) : List Char → Option (List GlobToken)
  | [] => if d.groups.isEmpty then some d.tokens.reverse else none
  | c :: rest =>
    if d.skip = 0 then
      match d.take lenient c rest with
      | some d => read lenient { d with last := some c } rest
      | none => none
    else read lenient { d with last := some c, skip := d.skip - 1 } rest

end Draft

/-- Reads a pattern whose wildcards match slashes too; none if it is not valid. -/
def parse? (pattern : String) : Option Glob :=
  (Draft.read false {} pattern.toList).map (⟨·, false⟩)

/-- Reads a pattern whose wildcards stop at slashes, and in which a bracket need not be closed. -/
def parseWithin? (pattern : String) : Option Glob :=
  (Draft.read true {} pattern.toList).map (⟨·, true⟩)

/-- Has the character a meaning in a pattern that brackets take away? -/
def isSpecial (c : Char) : Bool := ['?', '*', '[', ']', '{', '}'].contains c

/-- A pattern that matches exactly the given text. -/
def escape (text : String) : String :=
  String.ofList (text.toList.flatMap fun c => if isSpecial c then ['[', c, ']'] else [c])

end Glob

end ComponentHost
