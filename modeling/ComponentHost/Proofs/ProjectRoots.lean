/-
# The files of a project

Files join a project one at a time and never leave it.  The host keeps them in the order in which
they came, and counts them a second time in the version of the project, which the compiler compares
to see whether the list has changed.

`Joins h files h'` says all that can happen to the two: the files join in order, each that is new
comes last, and the version moves once for each of these.  It composes, so what a whole operation
does is read from the files that it makes join.

The files that an operation makes join depend on the files on disk and on the imports of a document,
and most statements do not care which ones they are.  So `joins_resolveModule` and
`joins_resolveModules` only say that there are some, and `joins_updateDocument`, where it matters,
names them.  The invariant that the compiler relies on follows from `Joins` alone: each file stands
once, and the version of the project is their number (`Rooted`).
-/
import ComponentHost.Proofs.FeatureRuns

namespace ComponentHost.Host

/-! ## 1. Lists that files join

The list on its own, without the host.  A file that is there already leaves the list as it is, so
the list has no repetitions if it had none, and holds what it held and what has joined. -/

/-- The files after one more has joined. -/
def joinedFile (roots : List String) (file : String) : List String :=
  if roots.contains file then roots else roots ++ [file]

/-- The files after some more have joined, one after another. -/
def joinedFiles (roots files : List String) : List String := files.foldl joinedFile roots

/-- Whether the file was new or not, afterwards it is in the list, and nothing else has come or
gone. -/
theorem mem_joinedFile {roots : List String} {file p : String} :
    p ∈ joinedFile roots file ↔ p ∈ roots ∨ p = file := by
  unfold joinedFile
  split
  · next hmem =>
    refine ⟨Or.inl, fun h => h.elim id ?_⟩
    rintro rfl
    simpa using hmem
  · rw [List.mem_append, List.mem_singleton]

/-- **What is in the list at the end**: what was there and what has joined, in whatever order. -/
theorem mem_joinedFiles {roots files : List String} {p : String} :
    p ∈ joinedFiles roots files ↔ p ∈ roots ∨ p ∈ files := by
  induction files generalizing roots with
  | nil => simp [joinedFiles]
  | cons file files ih =>
    have hstep : p ∈ joinedFiles roots (file :: files) ↔ p ∈ joinedFile roots file ∨ p ∈ files := ih
    rw [hstep, mem_joinedFile, List.mem_cons, or_assoc]

/-- A file only comes last if it is not there, so none stands twice. -/
theorem nodup_joinedFile {roots : List String} (h : roots.Nodup) (file : String) :
    (joinedFile roots file).Nodup := by
  unfold joinedFile
  split
  · exact h
  · next hmem =>
    have hnot : file ∉ roots := by simpa using hmem
    refine List.nodup_append.mpr ⟨h, by simp, ?_⟩
    intro p hp q hq
    rw [List.mem_singleton.mp hq]
    rintro rfl
    exact hnot hp

/-- The list keeps each file once, however often the file joins. -/
theorem nodup_joinedFiles {roots : List String} (h : roots.Nodup) (files : List String) :
    (joinedFiles roots files).Nodup := by
  induction files generalizing roots with
  | nil => exact h
  | cons file files ih => exact ih (nodup_joinedFile h file)

/-! ## 2. Hosts that files join

The version is not said to grow by the number of files that join, since some of these may be there
already: it moves with the length of the list.  Put as a sum, the condition needs no subtraction,
and those of two operations add up. -/

/-- `h'` has the files of `h` after some more have joined, and its version has moved once for each
that was new. -/
structure Joins (h : Host) (files : List String) (h' : Host) : Prop where
  roots : h'.roots = joinedFiles h.roots files
  version : h'.projectVersion + h.roots.length = h.projectVersion + h'.roots.length

/-- An operation that leaves the list and the version alone is one that no file joins. -/
theorem Joins.of_same {h h' : Host} (hroots : h'.roots = h.roots)
    (hversion : h'.projectVersion = h.projectVersion) : Joins h [] h' where
  roots := hroots
  version := by rw [hroots, hversion]

/-- **One operation after another**: the files of the first join, then those of the second. -/
theorem Joins.trans {a b c : Host} {files more : List String} (h : Joins a files b)
    (h' : Joins b more c) : Joins a (files ++ more) c where
  roots := by
    rw [h'.roots, h.roots, joinedFiles, joinedFiles, joinedFiles, List.foldl_append]
  version := by
    have hfirst := h.version
    have hsecond := h'.version
    omega

/-- The host asks its set of files whether a file is new; the list has the same files, so this is
the question whether the file stands in the list. -/
theorem joins_addRoot (h : Host) (file : String) : Joins h [file] (h.addRoot file) := by
  have hlist : joinedFiles h.roots [file] = joinedFile h.roots file := rfl
  have hroot : h.isRoot file ↔ h.roots.contains file :=
    RootFiles.has_iff.trans List.contains_iff_mem.symm
  unfold addRoot
  split
  · next hmem =>
    -- the file is there: neither the list nor the version moves
    refine ⟨?_, rfl⟩
    rw [hlist, joinedFile, if_pos (hroot.mp hmem)]
  · next hmem =>
    refine ⟨?_, ?_⟩
    · rw [hlist, joinedFile, if_neg (fun h' => hmem (hroot.mpr h'))]
      rfl
    · show h.projectVersion + 1 + h.roots.length = h.projectVersion + (h.roots ++ [file]).length
      rw [List.length_append, List.length_singleton]
      omega

/-- All of them in turn, as a workspace and a document make their files join. -/
theorem joins_foldl_addRoot (h : Host) (files : List String) :
    Joins h files (files.foldl addRoot h) := by
  induction files generalizing h with
  | nil => exact .of_same rfl rfl
  | cons file files ih => exact (joins_addRoot h file).trans (ih _)

/-- Looking up a module makes at most one file join: the component that it leads to. -/
theorem joins_resolveModule (h : Host) (s : FileView) (containing name : String) :
    ∃ files, Joins h files (h.resolveModule s containing name).2 := by
  unfold resolveModule
  split
  · exact ⟨[], .of_same rfl rfl⟩
  · split
    · exact ⟨[], .of_same rfl rfl⟩
    · split
      · exact ⟨[], .of_same rfl rfl⟩
      · split
        · exact ⟨_, joins_addRoot h _⟩
        · exact ⟨[], .of_same rfl rfl⟩

/-- Each name may bring its own component, and the names are looked up one after another. -/
theorem joins_resolveModules (h : Host) (s : FileView) (containing : String)
    (names : List String) : ∃ files, Joins h files (h.resolveModules s containing names).2 := by
  induction names generalizing h with
  | nil => exact ⟨[], .of_same rfl rfl⟩
  | cons name names ih =>
    obtain ⟨first, hfirst⟩ := joins_resolveModule h s containing name
    obtain ⟨rest, hrest⟩ := ih (h.resolveModule s containing name).2
    exact ⟨first ++ rest, hfirst.trans hrest⟩

/-- The files that a document makes join: its own, if it is a component, and the components that it
imports. -/
def joinsOf (s : FileView) (file : String) (imports : List String) : List String :=
  (if Path.isComponent file then [file] else []) ++ importedComponents s file imports

/-- **Taking in a document** makes its own file and the components that it imports join, in this
order.  The imports are those of the index under which the document is taken in, which may come from
the cache. -/
theorem joins_updateDocument (h : Host) (s : FileView) (now : Nat) (d : Document) :
    Joins h (joinsOf s d.fileName (h.indexed now d).1.layout.imports)
      (h.updateDocument s now d).2 := by
  unfold updateDocument indexed
  rcases h.regions.get d.fingerprint now fun _ => DocumentIndex.ofDocument d
    with ⟨index, derived, regions⟩
  dsimp only
  -- the host once the files have joined; what is written after that leaves them alone
  generalize hj : (importedComponents s d.fileName index.layout.imports).foldl addRoot
    (if Path.isComponent d.fileName then ({ h with regions := regions }).addRoot d.fileName
      else { h with regions := regions }) = joined
  have hjoined : Joins h (joinsOf s d.fileName index.layout.imports) joined := by
    rw [← hj, joinsOf]
    refine Joins.trans ?_ (joins_foldl_addRoot _ _)
    have hsame : Joins h [] { h with regions := regions } := .of_same rfl rfl
    split
    · exact hsame.trans (joins_addRoot _ _)
    · exact hsame
  split
  · exact ⟨hjoined.roots, hjoined.version⟩
  · exact ⟨hjoined.roots, hjoined.version⟩

/-! ## 3. Each file once, and a version for each

What the compiler sees of the project is the list and the version.  It asks for the list anew when
the version differs from the one that it knows, so two lists must not go under one version. -/

/-- Each file stands once, and the version of the project counts them. -/
structure Rooted (h : Host) : Prop where
  nodup : h.roots.Nodup
  version : h.projectVersion = h.roots.length

/-- Whatever joins, the version goes on counting the files. -/
theorem Rooted.joins {h h' : Host} {files : List String} (hr : Rooted h) (hj : Joins h files h') :
    Rooted h' where
  nodup := hj.roots ▸ nodup_joinedFiles hr.nodup files
  version := by
    have hmoved := hj.version
    have hcounted := hr.version
    omega

/-- The files of the workspace join an empty project, whose version is zero. -/
theorem rooted_ofWorkspace (disk : FileTree) (workspace : String) (settings : Settings)
    (factory : TreeFactory) : Rooted (ofWorkspace disk workspace settings factory) := by
  refine Rooted.joins ?_ (joins_foldl_addRoot _ _)
  exact ⟨List.nodup_nil, rfl⟩

end ComponentHost.Host
