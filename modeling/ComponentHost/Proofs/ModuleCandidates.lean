/-
# The files that a module name can lead to

The resolver tries one thing after another: a path as a file, the manifest of a directory, its
index, the packages of one directory and of the next one up.  Each attempt asks the file system and
the next one is made only if it fails.

Written out, the attempts are a list of files (`candidates`), which depends on the directories that
exist and on what manifests say, but not on whether any of the files does.  A name leads to the
first file of the list that exists (`resolve_eq_find?_candidates`).  Each way of looking up a path
is read as such a list, from the inside out; two attempts one after the other are two lists one
behind the other.
-/
import ComponentHost.Proofs.NormalPaths

namespace ComponentHost

/-! ## 1. The list

The list follows the order in which things are tried.  `untyped` says whether scripts without types
count, which depends on the resolver and on whether only types are wanted. -/

namespace Candidates

/-- The extensions of modules.  Those of untyped scripts come last, and only where they count. -/
def extensions (untyped : Bool) : List Extension :=
  [.ts, .tsx, .dts] ++ if untyped then [.js, .jsx] else []

/-- A path under its own name, if that has the extension of a module. -/
def itself (untyped : Bool) (path : String) : List (String × Extension) :=
  ((Extension.ofFileName? path).toList.filter fun e => (extensions untyped).contains e).map
    fun e => (path, e)

/-- A path with each extension appended. -/
def extended (untyped : Bool) (path : String) : List (String × Extension) :=
  (extensions untyped).map fun e => (path ++ e.suffix, e)

/-- A path as a file. -/
def ofFile (untyped : Bool) (path : String) : List (String × Extension) :=
  itself untyped path ++ extended untyped path

/-- The index files of a directory. -/
def ofIndex (untyped : Bool) (dir : String) : List (String × Extension) :=
  extended untyped (Path.join dir "index")

/-- The fields of a manifest that lead to a file, as far as they are there. -/
def entries (untyped : Bool) (manifest : ManifestEntry) : List String :=
  manifest.types.toList ++ manifest.typings.toList ++
    if untyped then manifest.main.toList else []

/-- The paths that the manifest of a directory names; none if there is no valid manifest. -/
def targets (untyped : Bool) (s : FileView) (dir : String) : List String :=
  ((s.textOf? (Path.join dir "package.json")).bind ManifestEntry.parse?).toList.flatMap
    fun manifest => (entries untyped manifest).map (Path.join dir)

/-- A path as a directory. -/
def ofDirectory (untyped : Bool) (s : FileView) (dir : String) : List (String × Extension) :=
  ((targets untyped s dir).flatMap fun target => ofFile untyped target ++ ofIndex untyped target) ++
    ofIndex untyped dir

/-- A path as a file, and as a directory if there is one. -/
def ofPath (untyped : Bool) (s : FileView) (path : String) : List (String × Extension) :=
  ofFile untyped path ++ if s.directoryExists path then ofDirectory untyped s path else []

/-- A name in the packages of one directory, if it has any: among all packages, and then among those
that only declare types. -/
def ofPackages (untyped : Bool) (s : FileView) (name dir : String) : List (String × Extension) :=
  if s.directoryExists (Path.join dir "node_modules") then
    ofPath untyped s (Path.join (Path.join dir "node_modules") name) ++
      ofPath false s (Path.join (Path.join dir "node_modules") ("@types/" ++ name))
  else []

end Candidates

/-- The files that a name can lead to, in the order in which they are tried. -/
def Resolver.candidates (r : Resolver) (s : FileView) (name containing : String) :
    List ModuleTarget :=
  if Path.isRelativeName name || Path.isAbsolute name then
    (Candidates.ofPath r.allowUntyped s (Path.join (Path.directoryOf containing) name)).map
      fun c => ⟨c.1, c.2, false⟩
  else
    ((Path.directoriesOf containing).flatMap (Candidates.ofPackages r.allowUntyped s name)).map
      fun c => ⟨c.1, c.2, true⟩

/-! ## 2. Attempts are lists

For each function of the resolver: it gives the first file that exists of the list that it stands
for. -/

/-- No extension of a module is found on an index file before one is appended. -/
theorem Extension.ofFileName?_index (dir : String) :
    Extension.ofFileName? (Path.join dir "index") = none := by
  have hindex : ['i', 'n', 'd', 'e', 'x'] <:+ (Path.join dir "index").toList :=
    Path.suffix_join dir "index" ⟨by decide, by decide, by decide, by decide⟩ (by decide)
  rw [ofFileName?, List.find?_eq_none]
  intro e _ hends
  -- both endings belong to one name, so the shorter one ends the longer one
  have hsuffix := List.suffix_of_suffix_length_le (Text.endsWith_iff.mp hends) hindex
    (by cases e <;> decide)
  revert hsuffix
  cases e <;> decide

namespace Resolver

variable (r : Resolver) (s : FileView)

/-- The first of some files that exists. -/
def firstOf (s : FileView) (files : List (String × Extension)) : Option (String × Extension) :=
  files.find? fun c => s.fileExists c.1

theorem extensions_eq (typesOnly : Bool) :
    r.extensions typesOnly = Candidates.extensions (r.allowUntyped && !typesOnly) := by
  unfold extensions Candidates.extensions
  cases r.allowUntyped && !typesOnly <;> rfl

theorem firstOf_append (files more : List (String × Extension)) :
    firstOf s (files ++ more) = (firstOf s files).or (firstOf s more) :=
  List.find?_append

theorem firstOf_itself (untyped : Bool) (path : String) :
    firstOf s (Candidates.itself untyped path)
      = ((Extension.ofFileName? path).filter fun e =>
          (Candidates.extensions untyped).contains e && s.fileExists path).map fun e => (path, e) := by
  unfold Candidates.itself
  cases Extension.ofFileName? path with
  | none => rfl
  | some e =>
    rw [firstOf, Option.toList_some, List.filter_singleton, Option.filter_some]
    cases (Candidates.extensions untyped).contains e with
    | false => rfl
    | true => cases hexists : s.fileExists path <;> simp [hexists]

theorem firstOf_extended (untyped : Bool) (path : String) :
    firstOf s (Candidates.extended untyped path)
      = ((Candidates.extensions untyped).find? fun e => s.fileExists (path ++ e.suffix)).map
          fun e => (path ++ e.suffix, e) :=
  List.find?_map

/-- A path as a file: first under its own name, then with each extension. -/
theorem asFile?_eq (typesOnly : Bool) (path : String) :
    r.asFile? s typesOnly path
      = firstOf s (Candidates.ofFile (r.allowUntyped && !typesOnly) path) := by
  unfold asFile?
  rw [Candidates.ofFile, firstOf_append, firstOf_itself, firstOf_extended, ← extensions_eq]
  dsimp only
  split
  · next e hitself => rw [hitself, Option.map_some, Option.some_or]
  · next hitself => rw [hitself, Option.map_none, Option.none_or]

/-- A directory by its index.  The name of an index has no extension, so its own name is no
candidate. -/
theorem asIndex?_eq (typesOnly : Bool) (dir : String) :
    r.asIndex? s typesOnly dir
      = firstOf s (Candidates.ofIndex (r.allowUntyped && !typesOnly) dir) := by
  have hitself : Candidates.itself (r.allowUntyped && !typesOnly) (Path.join dir "index") = [] := by
    rw [Candidates.itself, Extension.ofFileName?_index]
    rfl
  rw [asIndex?, asFile?_eq, Candidates.ofFile, hitself, List.nil_append]
  rfl

/-- The paths that a manifest names, in the order of its fields. -/
theorem manifestTargets_eq (typesOnly : Bool) (dir : String) :
    r.manifestTargets s typesOnly dir
      = Candidates.targets (r.allowUntyped && !typesOnly) s dir := by
  unfold manifestTargets Candidates.targets
  cases (s.textOf? (Path.join dir "package.json")).bind ManifestEntry.parse? with
  | none => rfl
  | some manifest =>
    have hfields : ∀ a b c : Option String,
        [a, b, c].filterMap id = a.toList ++ b.toList ++ c.toList := by
      intro a b c
      cases a <;> cases b <;> cases c <;> rfl
    rw [Option.toList_some, List.flatMap_singleton, Candidates.entries]
    dsimp only
    rw [hfields]
    cases typesOnly <;> cases r.allowUntyped <;> rfl

/-- What a manifest names, as a file or by its index. -/
theorem firstOf_targets (typesOnly : Bool) (dir : String) :
    ((r.manifestTargets s typesOnly dir).findSome? fun target =>
        (r.asFile? s typesOnly target).orElse fun _ => r.asIndex? s typesOnly target)
      = firstOf s ((Candidates.targets (r.allowUntyped && !typesOnly) s dir).flatMap fun target =>
          Candidates.ofFile (r.allowUntyped && !typesOnly) target ++
            Candidates.ofIndex (r.allowUntyped && !typesOnly) target) := by
  rw [manifestTargets_eq, firstOf, List.find?_flatMap]
  congr 1
  funext target
  rw [Option.orElse_eq_or, asFile?_eq, asIndex?_eq]
  exact (firstOf_append s _ _).symm

/-- A directory: what its manifest names, and then its index. -/
theorem asDirectory?_eq (typesOnly : Bool) (dir : String) :
    r.asDirectory? s typesOnly dir
      = firstOf s (if s.directoryExists dir then
          Candidates.ofDirectory (r.allowUntyped && !typesOnly) s dir else []) := by
  unfold asDirectory?
  split
  · rw [Option.orElse_eq_or, firstOf_targets, asIndex?_eq, ← firstOf_append]
    rfl
  · rfl

theorem asPath?_eq (typesOnly : Bool) (path : String) :
    r.asPath? s typesOnly path
      = firstOf s (Candidates.ofPath (r.allowUntyped && !typesOnly) s path) := by
  rw [asPath?, Option.orElse_eq_or, asFile?_eq, asDirectory?_eq, ← firstOf_append]
  rfl

/-- A name in the packages of one directory. -/
theorem asPackage?_eq (name dir : String) :
    r.asPackage? s name dir = firstOf s (Candidates.ofPackages r.allowUntyped s name dir) := by
  unfold asPackage? Candidates.ofPackages
  dsimp only
  split
  · rw [Option.orElse_eq_or, asPath?_eq, asPath?_eq, ← firstOf_append, Bool.not_false,
      Bool.not_true, Bool.and_true, Bool.and_false]
  · rfl

/-! ## 3. Names

A relative or absolute name is one path.  Any other is looked up in the packages of each directory
above, the nearest first. -/

/-- **A name leads to the first of its candidates that exists**, and nowhere if none does. -/
theorem resolve_eq_find?_candidates (name : String) {containing : String}
    (hnormal : Path.normalize containing = containing) (habsolute : Path.isAbsolute containing) :
    r.resolve s name containing
      = (r.candidates s name containing).find? fun t => s.fileExists t.file := by
  unfold resolve candidates
  dsimp only
  split
  · rw [asPath?_eq, Bool.not_false, Bool.and_true, List.find?_map]
    rfl
  · have hpackages : (Path.directoriesOf containing).findSome? (r.asPackage? s name)
        = firstOf s ((Path.directoriesOf containing).flatMap
            (Candidates.ofPackages r.allowUntyped s name)) := by
      rw [firstOf, List.find?_flatMap]
      congr 1
      funext dir
      exact r.asPackage?_eq s name dir
    rw [Path.directoriesAbove_directoryOf hnormal habsolute, hpackages, List.find?_map]
    rfl

/-- A package of the directory above, whose manifest names a directory: the index of that wins over
a package of the same name that only declares types, and over one at the root. -/
theorem resolve_eq_find?_candidates_package :
    let s := FileView.ofTexts [("/node_modules/a.ts", ""), ("/p/node_modules/@types/a/index.d.ts", ""),
      ("/p/node_modules/a/lib/index.js", ""),
      ("/p/node_modules/a/package.json", "\x7b\"main\":\"./lib/\"\x7d")]
    let r : Resolver := ⟨true⟩
    Path.normalize "/p/q/c.ts" = "/p/q/c.ts" ∧ Path.isAbsolute "/p/q/c.ts" ∧
      Path.directoriesOf "/p/q/c.ts" = ["/p/q", "/p", "/"] ∧
      r.resolve s "a" "/p/q/c.ts" = some ⟨"/p/node_modules/a/lib/index.js", .js, true⟩ := by
  intro s r
  have hnormal : Path.normalize "/p/q/c.ts" = "/p/q/c.ts" := by decide
  have habsolute : Path.isAbsolute "/p/q/c.ts" := Path.isAbsolute_iff.mpr rfl
  refine ⟨hnormal, habsolute, by decide, ?_⟩
  rw [resolve_eq_find?_candidates r s "a" hnormal habsolute]
  decide +kernel

end Resolver

end ComponentHost
