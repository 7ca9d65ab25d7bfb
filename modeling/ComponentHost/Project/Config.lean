/- # Configuration files

A configuration sets compiler options and says which files belong to the project.  It may extend
others: its own settings are laid over theirs, in the order in which it names them.  Options are
laid over each other one by one, lists of files and patterns as a whole, and a list is read from
the directory of the configuration that holds it.

A configuration that would extend itself, directly or through others, is left out there.  Reading
ends because every configuration that is read below another is a file that is not yet on the way.
-/
import ComponentHost.Project.Error
import ComponentHost.Json.Reader
import ComponentHost.Json.Relaxed

namespace ComponentHost

/-! ## 1. What one file says -/

/-- The text of one configuration. -/
structure ConfigFile where
  /-- The configurations it extends. -/
  bases : List String := []
  options : Table String Json := []
  files : Option (List String) := none
  including : Option (List String) := none
  excluding : Option (List String) := none

namespace ConfigFile

/-- The names of the fields, in order. -/
def fields : List String := ["extends", "compilerOptions", "files", "include", "exclude"]

/-- A list of texts. -/
def texts? (v : Json) : Option (List String) := v.items?.bind fun items => items.mapM Json.text?

/-- A list of texts, or null for none. -/
def optionalTexts? (v : Json) : Option (Option (List String)) :=
  if v.isNull then some none else (texts? v).map some

/-- One text or a list of them, or null for none. -/
def bases? (v : Json) : Option (List String) :=
  match v with
  | .null => some []
  | .string s => some [s]
  | v => texts? v

/-- Sets one field; none if the value is of the wrong kind. -/
def set? (c : ConfigFile) (field : String) (v : Json) : Option ConfigFile :=
  match field with
  | "extends" => (bases? v).map fun bases => { c with bases := bases }
  | "compilerOptions" => v.members?.map fun options => { c with options := options }
  | "files" => (optionalTexts? v).map fun files => { c with files := files }
  | "include" => (optionalTexts? v).map fun patterns => { c with including := patterns }
  | "exclude" => (optionalTexts? v).map fun patterns => { c with excluding := patterns }
  | _ => none

/-- The configuration of some fields. -/
def ofFields? (values : List (String × Json)) : Option ConfigFile :=
  values.foldlM (fun c (field, v) => c.set? field v) {}

/-- The configuration of a record: no field may come twice, and a list holds the fields in order
and no more than those. -/
def ofRecord? : Json.Reader.Record → Option ConfigFile
  | .named members => if (members.map Prod.fst).Nodup then ofFields? members else none
  | .listed items => if items.length ≤ fields.length then ofFields? (fields.zip items) else none

/-- Reads a configuration, which may have comments and commas at the end of lists. -/
def parse? (text : String) : Option ConfigFile :=
  (Json.Reader.record? fields (Json.Relaxed.strict text)).bind ofRecord?

/-- Reads a configuration file. -/
def read (disk : FileTree) (path : String) : Except ProjectError ConfigFile := do
  match parse? (← disk.text path) with
  | some file => return file
  | none => throw (.badData path)

end ConfigFile

/-! ## 2. Configurations laid over each other -/

/-- Paths or patterns, and the directory they are read from. -/
structure FileList where
  dir : String
  items : List String
deriving Repr

/-- A configuration with those it extends. -/
structure Config where
  options : Table String Json := []
  files : Option FileList := none
  including : Option FileList := none
  excluding : Option FileList := none

namespace Config

/-- One configuration laid over another. -/
def laidOver (top base : Config) : Config where
  options := top.options.foldl (fun t (k, v) => Table.insertSorted k v t) base.options
  files := top.files.orElse fun _ => base.files
  including := top.including.orElse fun _ => base.including
  excluding := top.excluding.orElse fun _ => base.excluding

/-- What one file says, read from its directory. -/
def ofFile (dir : String) (file : ConfigFile) : Config where
  options := file.options
  files := file.files.map (⟨dir, ·⟩)
  including := file.including.map (⟨dir, ·⟩)
  excluding := file.excluding.map (⟨dir, ·⟩)

/-! ## 3. Finding what is extended -/

/-- Where a configuration may stand: at the path itself, with `.json`, or in a directory. -/
def candidates (path : String) : List String :=
  [path, path ++ ".json", Path.child path "tsconfig.json"]

/-- The first of the candidates for a path that is a file. -/
def firstFile? (disk : FileTree) (path : String) : Option String :=
  (candidates path).find? disk.isFile

/-- The configuration that is extended under a name: a path from the directory, or else a name in
the installed packages of the directory or one above it. -/
def findBase? (disk : FileTree) (dir name : String) : Option String :=
  if Path.isRelativeName name || Path.isAbsolute name then firstFile? disk (Path.child dir name)
  else
    (Path.ancestors dir).findSome? fun above =>
      firstFile? disk (Path.child (Path.child above "node_modules") name)

theorem isFile_of_findBase? {disk : FileTree} {dir name path : String}
    (h : findBase? disk dir name = some path) : disk.isFile path = true := by
  unfold findBase? at h
  split at h
  · exact List.find?_some h
  · obtain ⟨above, _, hfound⟩ := List.exists_of_findSome?_eq_some h
    exact List.find?_some hfound

/-! ## 4. Loading -/

/-- How many files are not on the way yet. -/
def unvisited (disk : FileTree) (chain : List String) : Nat :=
  (disk.filePaths.filter (· ∉ chain)).length

theorem unvisited_cons_lt {disk : FileTree} {chain : List String} {path : String}
    (hfile : path ∈ disk.filePaths) (hnew : path ∉ chain) :
    unvisited disk (path :: chain) < unvisited disk chain := by
  unfold unvisited
  have hsub : disk.filePaths.filter (· ∉ path :: chain) =
      (disk.filePaths.filter (· ∉ chain)).filter (· ≠ path) := by
    rw [List.filter_filter]
    congr 1
    funext x
    simp [not_or]
  rw [hsub]
  have hmem : path ∈ disk.filePaths.filter (· ∉ chain) := by simp [hfile, hnew]
  exact List.length_filter_lt_length_iff_exists.mpr ⟨path, hmem, by simp⟩

mutual

/-- Loads a configuration with all that it extends.  The chain holds the files on the way to it,
itself included. -/
def loadFrom (disk : FileTree) (chain : List String) (path : String) : Except ProjectError Config := do
  let file ← ConfigFile.read disk path
  let dir := (Path.parent? path).getD "/"
  return (ofFile dir file).laidOver (loadBases disk chain dir file.bases {})
termination_by (unvisited disk chain, 1, 0)

/-- Lays the configurations of the given names over one another.  Those that cannot be found or
read, and those on the way already, are left out. -/
def loadBases (disk : FileTree) (chain : List String) (dir : String) :
    List String → Config → Config
  | [], base => base
  | name :: rest, base =>
    match _h : findBase? disk dir name with
    | none => loadBases disk chain dir rest base
    | some path =>
      if _hnew : disk.canonical path ∈ chain then loadBases disk chain dir rest base
      else
        match loadFrom disk (disk.canonical path :: chain) path with
        | .ok config => loadBases disk chain dir rest (config.laidOver base)
        | .error _ => loadBases disk chain dir rest base
termination_by names => (unvisited disk chain, 0, names.length)
decreasing_by
  · decreasing_tactic
  · decreasing_tactic
  · exact Prod.Lex.left _ _
      (unvisited_cons_lt (FileTree.canonical_mem_filePaths (isFile_of_findBase? _h)) _hnew)
  · decreasing_tactic
  · decreasing_tactic

end

/-- Loads a configuration file. -/
def load (disk : FileTree) (path : String) : Except ProjectError Config :=
  loadFrom disk [disk.canonical path] path

end Config

end ComponentHost
