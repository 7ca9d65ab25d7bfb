/- # The files of a project

A project without a configuration has all scripts and components of its directory, but for
installed packages and what ignore files name.  A configuration lists files, and patterns of
files to include and to exclude.  A pattern for inclusion that names a directory means all that
is below it; a pattern for exclusion leaves out what it matches and all that is below that, and
without a slash it matches at any depth.
-/
import ComponentHost.Glob.Ignore
import ComponentHost.Project.Config
import ComponentHost.Project.Options

namespace ComponentHost

/-! ## 1. Which files can belong to a project -/

/-- Extensions of files that can belong to any project. -/
def rootExtensions : List String := [".ts", ".tsx", ".d.ts", ".vue"]

/-- Extensions of untyped scripts. -/
def untypedExtensions : List String := [".js", ".jsx"]

/-- Can a file of this name belong to a project with these options? -/
def CompilerOptions.admits (o : CompilerOptions) (name : String) : Bool :=
  rootExtensions.any (name.endsWith ·) ||
    (o.allowUntyped && untypedExtensions.any (name.endsWith ·))

/-- The names in order. -/
def sortedNames (names : List String) : List String := names.mergeSort fun a b => !(b < a)

/-! ## 2. Without a configuration -/

/-- The directory of installed packages. -/
def packageDirectory : String := "node_modules"

/-- The ignore files of the directories on a way, innermost first. -/
def ignoreFilesAbove : List (String × FileTree) → List IgnoreFile
  | [] => []
  | (_, above) :: way => .ofDirectory (FileTree.Place.pathOf way) above :: ignoreFilesAbove way

/-- The files of a directory without a configuration. -/
def filesWithoutConfig (disk : FileTree) (dir : String) (o : CompilerOptions) : List String :=
  match disk.locate dir with
  | .error _ => []
  | .ok place =>
    let found := place.tree.walk (fun files path tree => .ofDirectory path tree :: files)
      (fun files path name isDirectory =>
        name != packageDirectory && !IgnoreFile.ignores files path isDirectory)
      (ignoreFilesAbove place.way) place.path
    sortedNames ((found.map Path.normalize).filter o.admits)

/-! ## 3. Patterns of a configuration -/

/-- Drops `./` at the start as often as it stands there. -/
def dropDots : List Char → List Char
  | '.' :: '/' :: r => dropDots r
  | cs => cs

/-- Goes up one directory for each `../` at the start; how much is dropped is bounded by the
first argument. -/
def climb : Nat → String → List Char → String × List Char
  | fuel + 1, dir, '.' :: '.' :: '/' :: r => climb fuel ((Path.parent? dir).getD dir) (dropDots r)
  | _, dir, cs => (dir, cs)

/-- Drops slashes at the end. -/
def dropSlashes (cs : List Char) : List Char := (cs.reverse.dropWhile (· == '/')).reverse

/-- A pattern as a directory and a pattern below it: `./`, `../` and `/` at the start go into the
directory. -/
def anchor (dir pattern : String) : String × String :=
  let (dir, rest) := match dropDots pattern.toList with
    | '/' :: rest => ("/", rest)
    | rest => (dir, rest)
  let (dir, rest) := climb rest.length dir rest
  (dir, String.ofList (dropSlashes rest))

/-- The pattern of whole paths for a pattern below a directory. -/
def globText (dir pattern : String) : String :=
  Glob.escape (String.ofList (dropSlashes (Path.normalize dir).toList)) ++ "/" ++ pattern

/-- Has a pattern a wildcard? -/
def hasWildcard (cs : List Char) : Bool := cs.any fun c => c == '*' || c == '?' || c == '['

/-- A pattern to include and where to look for its files. -/
structure Inclusion where
  glob : Option Glob
  root : String

/-- The pattern below the directory that an inclusion means: everything below if its last part is
the plain name of a directory. -/
def expanded (pattern : String) : String :=
  let last := (pattern.toList.reverse.takeWhile (· != '/')).reverse
  if hasWildcard last || last.contains '.' then pattern else pattern ++ "/**/*"

/-- The directory in which all files of a pattern are: its parts before the last, up to the first
with a wildcard. -/
def walkRoot (dir pattern : String) : String :=
  ((Path.splitSegments pattern.toList).dropLast.takeWhile (!hasWildcard ·)).foldl
    (fun root segment => Path.child root (String.ofList segment)) dir

/-- The inclusion of a pattern. -/
def Inclusion.of (dir pattern : String) : Inclusion :=
  let (dir, pattern) := anchor dir pattern
  let pattern := expanded pattern
  ⟨Glob.parse? (globText dir pattern), walkRoot dir pattern⟩

/-- Is a pattern bound to its directory? -/
def isAnchored (pattern : String) : Bool :=
  pattern.startsWith "/" || (dropSlashes pattern.toList).contains '/'

/-- The patterns of whole paths that an exclusion means. -/
def exclusionTexts (dir pattern : String) : List String :=
  let anchored := isAnchored pattern
  let (dir, pattern) := anchor dir pattern
  if pattern.isEmpty then []
  else
    [pattern, pattern ++ "/**"].map (globText dir) ++
      if anchored then [] else ["**/" ++ pattern, "**/" ++ pattern ++ "/**"].map (globText dir)

/-! ## 4. With a configuration -/

/-- The files that the patterns of a configuration choose. -/
def filesMatching (disk : FileTree) (including excluding : FileList) (o : CompilerOptions) :
    List String :=
  let inclusions := including.items.map (Inclusion.of including.dir)
  let included := inclusions.filterMap (·.glob)
  let excluded := (excluding.items.flatMap (exclusionTexts excluding.dir)).filterMap Glob.parse?
  let roots := (inclusions.map (·.root)).eraseDups
  let found := roots.flatMap fun root =>
    disk.filesKeeping (fun path => !Glob.anyMatch excluded (Path.normalize path)) root
  (found.map Path.normalize).filter fun name => o.admits name && Glob.anyMatch included name

/-- The files of a configuration, in order and each once: those it lists, whether they exist or
not, and those its patterns choose. -/
def filesOfConfig (disk : FileTree) (files including excluding : FileList) (o : CompilerOptions) :
    List String :=
  let listed := files.items.map (Path.join (Path.normalize files.dir))
  (sortedNames (listed ++ filesMatching disk including excluding o)).eraseReps

end ComponentHost
