/- # The declaration of the bridge

The bridge wraps the options of a component, so that the compiler sees a typed call.  Which
declaration it carries depends on the version of the framework that the workspace depends on:
versions from a threshold on bring a typed function of their own.
-/
import ComponentHost.Project.Error
import ComponentHost.Json.Reader
import ComponentHost.Text.Digit

namespace ComponentHost

/-! ## 1. Versions -/

/-- A version, as far as it matters here. -/
structure Version where
  major : Nat
  minor : Nat
deriving DecidableEq, Repr

namespace Version

/-- Is the version at least the other one? -/
def atLeast (v threshold : Version) : Bool :=
  threshold.major < v.major || (threshold.major = v.major && threshold.minor ≤ v.minor)

/-- Numbers of a version are below this bound. -/
def limit : Nat := Nat.pow 2 32

/-- The number that a run of digits writes, if it is below the bound. -/
def number? (digits : List Char) : Option Nat :=
  (Text.decimal? digits).filter (· < limit)

/-- The first pair of digit runs with a point between them: the leftmost run of digits that is
followed by a point and a digit, and the run after the point. -/
def firstPair? (cs : List Char) : Option (List Char × List Char) :=
  match cs with
  | [] => none
  | c :: r =>
    if Text.isDigit c then
      let run := r.takeWhile Text.isDigit
      match r.dropWhile Text.isDigit with
      | '.' :: d :: after =>
        if Text.isDigit d then some (c :: run, d :: after.takeWhile Text.isDigit)
        else firstPair? (r.dropWhile Text.isDigit)
      | _ => firstPair? (r.dropWhile Text.isDigit)
    else firstPair? r
termination_by cs.length
decreasing_by
  · have := (List.dropWhile_sublist (l := r) Text.isDigit).length_le
    simp only [List.length_cons]
    omega
  · have := (List.dropWhile_sublist (l := r) Text.isDigit).length_le
    simp only [List.length_cons]
    omega
  · simp

/-- The first pair of numbers in a text such as `^2.5.17`.  If the first pair is not of numbers
in range, there is none: no later pair is tried. -/
def parse? (text : String) : Option Version := do
  let (major, minor) ← firstPair? text.toList
  return ⟨← number? major, ← number? minor⟩

/-- The version from which on the framework has a typed function of its own. -/
def threshold : Version := ⟨2, 5⟩

end Version

/-! ## 2. Declarations -/

/-- The declaration that the bridge carries. -/
inductive BridgeDeclaration where
  | legacy
  | current
deriving DecidableEq, Repr

namespace BridgeDeclaration

/-- The text of the declaration. -/
def content : BridgeDeclaration → String
  | .legacy =>
    "import Vue from 'vue';\n" ++
    "export interface GeneralOption extends Vue.ComponentOptions<Vue> \x7b\n" ++
    "  [key: string]: any\n" ++
    "\x7d\n" ++
    "export default function bridge<T>(t: T & GeneralOption): T \x7b\n" ++
    "  return t;\n" ++
    "\x7d"
  | .current =>
    "import Vue from 'vue';\n" ++
    "const func = Vue.extend;\n" ++
    "export default func;"

/-- The name of the declaration. -/
def name : BridgeDeclaration → String
  | .legacy => "Legacy"
  | .current => "Current"

/-- The nearest manifest at or above a directory. -/
def findManifest (disk : FileTree) (dir : String) : Except ProjectError String :=
  match disk.nearest? "package.json" dir with
  | some path => .ok path
  | none => .error (.manifestNotFound dir)

/-- The tables of a manifest that name dependencies, the first that names one wins. -/
def dependencyTables : List String := ["dependencies", "devDependencies"]

/-- What a manifest requires of a dependency. -/
def requirement? (manifest : Json) (dependency : String) : Option String :=
  dependencyTables.findSome? fun table =>
    ((manifest.get? table).bind (Json.get? dependency)).bind Json.text?

/-- The version of a dependency that the nearest manifest requires. -/
def installedVersion (disk : FileTree) (dir dependency : String) : Except ProjectError Version := do
  let path ← findManifest disk dir
  let text ← disk.text path
  match Json.parse? text with
  | none => throw (.badData path)
  | some manifest =>
    match requirement? manifest dependency with
    | none => throw (.missingDependency dependency path)
    | some requirement =>
      match Version.parse? requirement with
      | none => throw (.badVersion requirement)
      | some version => return version

/-- The declaration for a workspace; the legacy one if the version cannot be found. -/
def detect (disk : FileTree) (dir dependency : String) (threshold : Version) : BridgeDeclaration :=
  match installedVersion disk dir dependency with
  | .ok version => if version.atLeast threshold then .current else .legacy
  | .error _ => .legacy

end BridgeDeclaration

end ComponentHost
