/- # Ignore files

An ignore file lists patterns of paths below its directory, one in a line.  The last rule that
matches a path decides; a rule with `!` takes the path back in.  Of several ignore files the one
in the innermost directory with a matching rule decides.
-/
import ComponentHost.FileTree
import ComponentHost.Glob.Match
import ComponentHost.Text.Blank

namespace ComponentHost

/-! ## 1. Rules -/

/-- A line of an ignore file. -/
structure IgnoreRule where
  glob : Glob
  /-- The rule takes paths back in. -/
  negated : Bool
  /-- The rule is about directories only. -/
  onlyDirectories : Bool

namespace IgnoreRule

/-- The line without white space at its end, unless that is escaped. -/
def trimmedEnd (line : List Char) : List Char :=
  match line.reverse with
  | ' ' :: '\\' :: _ => line
  | back => (back.dropWhile Text.isBlank).reverse

/-- Drops a slash at the end, which makes the rule one about directories; an escape before it goes
with it. -/
def splitTrailingSlash (line : List Char) : Bool × List Char :=
  match line.reverse with
  | '/' :: '\\' :: back => (true, back.reverse)
  | '/' :: back => (true, back.reverse)
  | _ => (false, line)

/-- The pattern of whole paths for a rule.  A rule without a slash matches at any depth, and one
that ends in `/**` does not match the directory itself. -/
def pattern (anchored : Bool) (text : List Char) : List Char :=
  let atAnyDepth := !anchored && !text.contains '/' && text != ['*', '*']
  let text := if atAnyDepth then '*' :: '*' :: '/' :: text else text
  if ['*', '*', '/'].isPrefixOf text.reverse then text ++ ['/', '*'] else text

/-- Reads one line; none for a comment, an empty line and a pattern that is not valid. -/
def parse? (line : List Char) : Option IgnoreRule :=
  let line := trimmedEnd line
  if line.isEmpty || line.head? == some '#' then none
  else
    let (negated, anchored, text) := match line with
      | '\\' :: '!' :: r => (false, false, '!' :: r)
      | '\\' :: '#' :: r => (false, false, '#' :: r)
      | '!' :: '/' :: r => (true, true, r)
      | '!' :: r => (true, false, r)
      | '/' :: r => (false, true, r)
      | r => (false, false, r)
    let (onlyDirectories, text) := splitTrailingSlash text
    (Glob.parseWithin? (String.ofList (pattern anchored text))).map fun glob =>
      ⟨glob, negated, onlyDirectories⟩

end IgnoreRule

/-! ## 2. Files -/

/-- The rules of an ignore file, last first, and the directory they are about. -/
structure IgnoreFile where
  directory : String
  rules : List IgnoreRule

namespace IgnoreFile

/-- The runs of bytes between line ends; a line end is a line feed, or a carriage return and a line
feed. -/
def splitLines : List UInt8 → List (List UInt8)
  | [] => []
  | b :: r =>
    if b == 0x0A then [] :: splitLines r
    else if b == 0x0D && r.head? == some 0x0A then splitLines r
    else
      match splitLines r with
      | [] => [[b]]
      | line :: lines => (b :: line) :: lines

/-- The mark that may stand at the start of a text. -/
def byteOrderMark : Char := Char.ofNat 0xFEFF

/-- The lines of a file up to the first that is not text. -/
def linesOf (content : List UInt8) : List (List Char) :=
  let lines := (((splitLines content).map Utf8.decode?).takeWhile Option.isSome).filterMap id
  match lines with
  | first :: rest => first.dropWhile (· == byteOrderMark) :: rest
  | [] => []

/-- The name of ignore files. -/
def fileName : String := ".gitignore"

/-- The rules that a directory brings. -/
def ofDirectory (path : String) (tree : FileTree) : IgnoreFile :=
  match tree.entry? fileName with
  | some (.file content) => ⟨path, ((linesOf content).filterMap IgnoreRule.parse?).reverse⟩
  | _ => ⟨path, []⟩

/-- A path as the rules see it: from the directory on. -/
def relative (f : IgnoreFile) (path : String) : String :=
  String.ofList ((path.toList.drop f.directory.length).dropWhile (· == '/'))

/-- What the rules say of a path below the directory: is it ignored?  `none` if no rule matches. -/
def verdict? (f : IgnoreFile) (path : String) (isDirectory : Bool) : Option Bool :=
  let name := f.relative path
  (f.rules.find? fun r => (!r.onlyDirectories || isDirectory) && r.glob.isMatch name).map
    fun r => !r.negated

/-- Is a path ignored by the files of the directories above it, innermost first? -/
def ignores (files : List IgnoreFile) (path : String) (isDirectory : Bool) : Bool :=
  (files.findSome? (·.verdict? path isDirectory)).getD false

end IgnoreFile

end ComponentHost
