/- # Trees of files

The files of a machine as a value: a tree of directories whose leaves are runs of bytes.  A path
is looked up segment by segment: an empty segment and `.` stay where they are, `..` goes up, and
every other segment names an entry.  Nothing can be looked up below a file, not even `.`.
-/
import ComponentHost.Path
import ComponentHost.Table
import ComponentHost.Text.Utf8

namespace ComponentHost

/-! ## 1. Trees -/

/-- A file or a directory; the entries of a directory are in the order of their names. -/
inductive FileTree where
  | file (content : List UInt8)
  | directory (entries : List (String × FileTree))
deriving Inhabited

/-- Why a file cannot be read. -/
inductive FileError where
  | notFound
  | notDirectory
  | isDirectory
  /-- The bytes are not those of a text. -/
  | notText
  /-- Any other cause, in words. -/
  | other (cause : String)
deriving DecidableEq, Repr

/-- The cause in words. -/
def FileError.message : FileError → String
  | .notFound => "No such file or directory (os error 2)"
  | .notDirectory => "Not a directory (os error 20)"
  | .isDirectory => "Is a directory (os error 21)"
  | .notText => "stream did not contain valid UTF-8"
  | .other cause => cause

namespace FileTree

/-- A machine without files. -/
def empty : FileTree := .directory []

/-- The file of a text. -/
def ofText (text : String) : FileTree := .file (Utf8.bytes text)

/-- Is it a directory? -/
def isBranch : FileTree → Bool
  | .file _ => false
  | .directory _ => true

/-- The entry of a directory. -/
def entry? (name : String) : FileTree → Option FileTree
  | .file _ => none
  | .directory entries => entries.lookup name

/-- The entries of a directory. -/
def entries : FileTree → List (String × FileTree)
  | .file _ => []
  | .directory entries => entries

/-! ## 2. Looking up -/

/-- A place in a tree: what stands there, and the way to it from the root, last step first. -/
structure Place where
  tree : FileTree
  way : List (String × FileTree)

namespace Place

/-- The path that a way spells. -/
def pathOf : List (String × FileTree) → String
  | [] => "/"
  | (name, _) :: way => Path.child (pathOf way) name

/-- The path of a place, without `.` and `..`. -/
def path (p : Place) : String := pathOf p.way

/-- One segment further.  A step up from the root stays there. -/
def step (p : Place) (segment : String) : Except FileError Place :=
  match p.tree with
  | .file _ => .error .notDirectory
  | .directory entries =>
    if segment = "" ∨ segment = "." then .ok p
    else if segment = ".." then
      match p.way with
      | [] => .ok p
      | (_, above) :: way => .ok ⟨above, way⟩
    else
      match entries.lookup segment with
      | some tree => .ok ⟨tree, (segment, p.tree) :: p.way⟩
      | none => .error .notFound

end Place

/-- The place that an absolute path leads to. -/
def locate (root : FileTree) (path : String) : Except FileError Place :=
  if Path.isAbsolute path then
    ((Path.splitSegments path.toList).map String.ofList).foldlM Place.step ⟨root, []⟩
  else .error .notFound

/-- What an absolute path leads to. -/
def find? (root : FileTree) (path : String) : Option FileTree :=
  (root.locate path).toOption.map Place.tree

/-- Is there a file? -/
def isFile (root : FileTree) (path : String) : Bool :=
  match root.find? path with
  | some (.file _) => true
  | _ => false

/-- Is there a directory? -/
def isDirectory (root : FileTree) (path : String) : Bool :=
  match root.find? path with
  | some (.directory _) => true
  | _ => false

/-- The bytes of a file. -/
def readBytes (root : FileTree) (path : String) : Except FileError (List UInt8) := do
  match (← root.locate path).tree with
  | .file content => return content
  | .directory _ => throw .isDirectory

/-- The text of a file. -/
def readText (root : FileTree) (path : String) : Except FileError String := do
  match Utf8.decode? (← root.readBytes path) with
  | some cs => return String.ofList cs
  | none => throw .notText

/-- The path without `.` and `..`; none if it leads nowhere. -/
def canonical? (root : FileTree) (path : String) : Option String :=
  (root.locate path).toOption.map Place.path

/-- Names of the directories in a directory. -/
def directoryNames (root : FileTree) (path : String) : List String :=
  match root.find? path with
  | some tree => (tree.entries.filter (·.2.isBranch)).map Prod.fst
  | none => []

/-- The nearest file of the given name in a directory or above it. -/
def nearest? (root : FileTree) (name dir : String) : Option String :=
  ((Path.ancestors dir).map (Path.child · name)).find? root.isFile

/-! ## 3. Walking

A walk lists the files below a place, entries in order.  It carries a state: `enter` gives the
state inside a directory, and `keep` says whether an entry is visited at all. -/

section Walk

variable {σ : Type} (enter : σ → String → FileTree → σ) (keep : σ → String → String → Bool → Bool)

mutual

/-- Paths of the files at a place and below it; the place itself is always visited. -/
def walk (state : σ) (path : String) : FileTree → List String
  | .file _ => [path]
  | .directory entries => walkEntries (enter state path (.directory entries)) path entries

/-- Paths of the files at and below the entries of a directory. -/
def walkEntries (state : σ) (path : String) : List (String × FileTree) → List String
  | [] => []
  | (name, tree) :: rest =>
    let below := Path.child path name
    (if keep state below name tree.isBranch then walk state below tree else []) ++
      walkEntries state path rest

end

end Walk

/-- All files below a path, but for entries that are left out. -/
def filesKeeping (root : FileTree) (keep : String → Bool) (path : String) : List String :=
  match root.find? path with
  | some tree => walk (fun _ _ _ => ()) (fun _ below _ _ => keep below) () path tree
  | none => []

/-- All files at most so many levels below a path; the path itself is level zero. -/
def filesWithin (root : FileTree) (depth : Option Nat) (path : String) : List String :=
  match root.find? path with
  | some tree =>
    walk (fun left _ _ => left.map (· - 1)) (fun left _ _ _ => left != some 0)
      (depth.map (· + 1)) path tree
  | none => []

/-- All files. -/
def filePaths (root : FileTree) : List String :=
  walk (fun _ _ _ => ()) (fun _ _ _ _ => true) () "/" root

/-! ## 4. Every file has its path among all paths -/

/-- The way leads from the root to the tree, entry by entry. -/
def Leads (root : FileTree) : FileTree → List (String × FileTree) → Prop
  | tree, [] => tree = root
  | tree, (name, above) :: way => above.entries.lookup name = some tree ∧ Leads root above way

theorem leads_step {root : FileTree} {p q : Place} {segment : String}
    (hp : Leads root p.tree p.way) (h : p.step segment = .ok q) : Leads root q.tree q.way := by
  unfold Place.step at h
  split at h
  · cases h
  · next entries htree =>
    split at h
    · cases h
      exact hp
    · split at h
      · split at h
        · cases h
          exact hp
        · next name above way hway =>
          cases h
          rw [hway] at hp
          exact hp.2
      · split at h
        · next tree hfound =>
          cases h
          refine ⟨?_, hp⟩
          rw [htree]
          exact hfound
        · cases h

theorem leads_foldlM {root : FileTree} {p q : Place} {segments : List String}
    (hp : Leads root p.tree p.way) (h : segments.foldlM Place.step p = .ok q) :
    Leads root q.tree q.way := by
  induction segments generalizing p with
  | nil =>
    simp only [List.foldlM_nil, pure, Except.pure, Except.ok.injEq] at h
    exact h ▸ hp
  | cons s rest ih =>
    rw [List.foldlM_cons] at h
    match hs : p.step s with
    | .ok r =>
      rw [hs] at h
      exact ih (leads_step hp hs) h
    | .error e =>
      rw [hs] at h
      cases h

theorem leads_of_locate {root : FileTree} {path : String} {p : Place}
    (h : root.locate path = .ok p) : Leads root p.tree p.way := by
  unfold locate at h
  split at h
  · have hroot : Leads root root [] := by rw [Leads]
    exact leads_foldlM hroot h
  · cases h

/-- A walk goes through each entry that is kept. -/
theorem mem_walkEntries {σ : Type} {enter : σ → String → FileTree → σ}
    {keep : σ → String → String → Bool → Bool} {state : σ} {x path name : String} {tree : FileTree}
    {entries : List (String × FileTree)} (hname : entries.lookup name = some tree)
    (hkeep : keep state (Path.child path name) name tree.isBranch = true)
    (hx : x ∈ walk enter keep state (Path.child path name) tree) :
    x ∈ walkEntries enter keep state path entries := by
  induction entries with
  | nil => cases hname
  | cons e rest ih =>
    obtain ⟨n, t⟩ := e
    simp only [walkEntries, List.mem_append]
    rw [List.lookup_cons] at hname
    split at hname
    · next heq =>
      cases hname
      rw [← beq_iff_eq.mp heq, if_pos hkeep]
      exact .inl hx
    · exact .inr (ih hname)

theorem mem_filePaths_of_leads {root tree : FileTree} {x : String}
    {way : List (String × FileTree)} (h : Leads root tree way)
    (hx : x ∈ walk (fun _ _ _ => ()) (fun _ _ _ _ => true) () (Place.pathOf way) tree) :
    x ∈ root.filePaths := by
  induction way generalizing tree with
  | nil =>
    cases h
    exact hx
  | cons e way ih =>
    obtain ⟨name, above⟩ := e
    refine ih h.2 ?_
    match above with
    | .file _ => cases h.1
    | .directory entries =>
      rw [walk]
      exact mem_walkEntries h.1 rfl hx

/-- The path without `.` and `..`, or the path itself if it leads nowhere. -/
def canonical (root : FileTree) (path : String) : String := (root.canonical? path).getD path

theorem canonical_mem_filePaths {root : FileTree} {path : String} (h : root.isFile path = true) :
    root.canonical path ∈ root.filePaths := by
  unfold isFile find? at h
  match hl : root.locate path with
  | .error _ =>
    rw [hl] at h
    cases h
  | .ok p =>
    rw [hl] at h
    simp only [canonical, canonical?, hl, Except.toOption, Option.map_some, Option.getD_some] at h ⊢
    refine mem_filePaths_of_leads (leads_of_locate hl) ?_
    match ht : p.tree with
    | .file _ =>
      rw [walk]
      exact List.mem_singleton.mpr rfl
    | .directory _ =>
      rw [ht] at h
      cases h

/-! ## 5. Changing -/

/-- Changes what stands at a path of entry names; directories on the way are made. -/
def alter (change : Option FileTree → FileTree) : List String → Option FileTree → FileTree
  | [], tree => change tree
  | name :: rest, tree =>
    let entries := (tree.map FileTree.entries).getD []
    .directory (Table.insertSorted name (alter change rest (entries.lookup name)) entries)

/-- Forgets what stands at a path of entry names. -/
def remove : List String → FileTree → FileTree
  | _, .file content => .file content
  | [], tree => tree
  | [name], .directory entries => .directory (entries.filter (·.1 != name))
  | name :: rest, .directory entries =>
    match entries.lookup name with
    | some tree => .directory (Table.insertSorted name (remove rest tree) entries)
    | none => .directory entries

/-- The entry names of a path.  A backslash is part of a name. -/
def namesOf (path : String) : List String :=
  (Path.resolve true (Path.splitSegments path.toList)).map String.ofList

/-- Puts a file in its place. -/
def write (root : FileTree) (path : String) (content : List UInt8) : FileTree :=
  alter (fun _ => .file content) (namesOf path) (some root)

/-- Makes a directory, if there is none. -/
def makeDirectory (root : FileTree) (path : String) : FileTree :=
  alter (fun tree => tree.getD .empty) (namesOf path) (some root)

/-- Takes a file away. -/
def delete (root : FileTree) (path : String) : FileTree := remove (namesOf path) root

end FileTree

end ComponentHost
