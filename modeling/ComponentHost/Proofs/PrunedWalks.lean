/-
# Excluded directories need not be entered

The files of a configuration are found by walks that do not enter a directory which an exclusion
matches.  One would rather say what the files are without the walks: the files below a root of the
configuration that a pattern matches and no exclusion does.

A walk finds a file exactly if no entry on the way to it is left out (`mem_filesKeeping_iff`).  So
the two descriptions agree if an exclusion that matches a directory matches all that is below it.
Of paths in their normal form this is so, whatever the pattern (`not_excluded_above`).  But what
lies below a directory on disk must then be below it in the normal form too, and a name such as
`..\b.ts`, whose backslash is made a slash there, is not.  For all trees without such names the
files are the ones described, in order and each once (`filesOfConfig_eq_described`).  With such a
name a file can be lost that no exclusion matches (`not_mem_filesOfConfig_climbing`).
-/
import ComponentHost.Proofs.ShownPaths
import ComponentHost.Proofs.WalkRoots

namespace ComponentHost

/-! ## 1. Names in a tree

What is asked of names is asked of all entries, however deep, and goes down with a look-up.  That
the entries of one directory have different names is part of it: a look-up finds the first of a
name, while a walk goes through them all. -/

/-- Can an entry of a directory have the name? -/
def Path.isEntryName (name : String) : Bool :=
  name.toList ≠ [] && name.toList ≠ dot && name.toList ≠ dots && '/' ∉ name.toList

theorem Path.isEntryName_iff {name : String} : isEntryName name = true ↔ IsName name.toList := by
  simp only [isEntryName, Bool.and_eq_true, decide_eq_true_eq]
  constructor
  · rintro ⟨⟨⟨hnil, hdot⟩, hdots⟩, hslash⟩
    exact ⟨hnil, hdot, hdots, hslash⟩
  · rintro ⟨hnil, hdot, hdots, hslash⟩
    exact ⟨⟨⟨hnil, hdot⟩, hdots⟩, hslash⟩

theorem Path.isName_of_mem_map {names : List String} (h : names.all isEntryName = true) :
    ∀ s ∈ names.map String.toList, IsName s := by
  intro s hs
  obtain ⟨name, hname, rfl⟩ := List.mem_map.mp hs
  exact isEntryName_iff.mp (List.all_eq_true.mp h name hname)

namespace FileTree

mutual

/-- Do all entries have good names, and those of one directory different ones? -/
def wellNamed (good : String → Bool) : FileTree → Bool
  | .file _ => true
  | .directory entries => (entries.map Prod.fst).Nodup && wellNamedEntries good entries

/-- Have all entries of a directory, and all entries below, good names? -/
def wellNamedEntries (good : String → Bool) : List (String × FileTree) → Bool
  | [] => true
  | (name, tree) :: rest => good name && wellNamed good tree && wellNamedEntries good rest

end

section Names

variable {good : String → Bool} {tree t : FileTree}

theorem wellNamed_of_lookup {entries : List (String × FileTree)} {name : String}
    (h : wellNamedEntries good entries = true) (hname : entries.lookup name = some t) :
    good name = true ∧ t.wellNamed good = true := by
  induction entries with
  | nil => cases hname
  | cons e entries ih =>
    obtain ⟨n, u⟩ := e
    simp only [wellNamedEntries, Bool.and_eq_true] at h
    obtain ⟨⟨hn, hu⟩, hrest⟩ := h
    rw [List.lookup_cons] at hname
    split at hname
    · next heq =>
      cases hname
      exact ⟨beq_iff_eq.mp heq ▸ hn, hu⟩
    · exact ih hrest hname

/-- An entry has a good name, and so has all that is below it. -/
theorem wellNamed_of_entry? {name : String} (h : tree.wellNamed good = true)
    (hname : tree.entry? name = some t) : good name = true ∧ t.wellNamed good = true := by
  cases tree with
  | file content => cases hname
  | directory entries =>
    rw [wellNamed, Bool.and_eq_true] at h
    exact wellNamed_of_lookup h.2 hname

/-- All names on the way to what is below are good. -/
theorem wellNamed_of_below? {names : List (List Char)} (h : tree.wellNamed good = true)
    (hnames : tree.below? names = some t) :
    (∀ s ∈ names, good (String.ofList s) = true) ∧ t.wellNamed good = true := by
  induction names generalizing tree with
  | nil =>
    cases hnames
    exact ⟨by simp, h⟩
  | cons s names ih =>
    rw [below?, Option.bind_eq_some_iff] at hnames
    obtain ⟨u, hentry, hnames⟩ := hnames
    obtain ⟨hs, hu⟩ := wellNamed_of_entry? h hentry
    obtain ⟨hrest, ht⟩ := ih hu hnames
    exact ⟨by simpa using ⟨hs, hrest⟩, ht⟩

theorem lookup_cons_of_ne {entries : List (String × FileTree)} {n name : String} {u : FileTree}
    (hn : n ∉ entries.map Prod.fst) (h : entries.lookup name = some t) :
    ((n, u) :: entries).lookup name = some t := by
  have hne : (name == n) = false := by
    rw [beq_eq_false_iff_ne]
    rintro rfl
    obtain ⟨before, after, rfl, -⟩ := List.lookup_eq_some_iff.mp h
    simp at hn
  rw [List.lookup_cons, hne]
  exact h

end Names

/-! ## 2. What a walk finds

A walk goes down the tree and asks at each entry whether to go on.  The way to a file is the list of
names from the root on; the entries on the way are given by the starts of this list. -/

section Walk

variable {keep : String → Bool} {good : String → Bool} {x : String}

/-- The names lead from a tree to a file, and all entries on the way are kept by a walk that starts
at some path. -/
structure Reaches (keep : String → Bool) (dir : String) (tree : FileTree)
    (names : List (List Char)) :
    Prop where
  file : ∃ content, tree.below? names = some (.file content)
  kept : ∀ first rest, names = first ++ rest → first ≠ [] → keep (Path.chain dir first) = true

/-- One entry on the way to a file. -/
theorem Reaches.entry {dir name : String} {tree t : FileTree} {names : List (List Char)}
    (hentry : tree.entry? name = some t) (hkeep : keep (Path.child dir name) = true)
    (h : Reaches keep (Path.child dir name) t names) :
    Reaches keep dir tree (name.toList :: names) := by
  obtain ⟨⟨content, hfile⟩, hkept⟩ := h
  refine ⟨⟨content, ?_⟩, fun first rest hsplit hne => ?_⟩
  · rw [below?, String.ofList_toList, hentry, Option.bind_some, hfile]
  · obtain ⟨s, first, rfl⟩ := List.exists_cons_of_ne_nil hne
    rw [List.cons_append, List.cons.injEq] at hsplit
    obtain ⟨rfl, hsplit⟩ := hsplit
    rw [Path.chain, List.foldl_cons, String.ofList_toList]
    by_cases hfirst : first = []
    · rw [hfirst]
      exact hkeep
    · exact hkept first rest hsplit hfirst

mutual

/-- **A walk finds nothing else than files that it reaches.** -/
theorem reaches_of_mem_walk : ∀ {tree : FileTree} {dir : String}, tree.wellNamed good = true →
    x ∈ walk (fun _ _ _ => ()) (fun _ below _ _ => keep below) () dir tree →
    ∃ names, Reaches keep dir tree names ∧ x = Path.chain dir names
  | .file content, dir, _, hx => by
    rw [walk, List.mem_singleton] at hx
    refine ⟨[], ⟨⟨content, rfl⟩, fun first rest hsplit hne => ?_⟩, hx⟩
    exact absurd (List.append_eq_nil_iff.mp hsplit.symm).1 hne
  | .directory entries, dir, hnamed, hx => by
    rw [wellNamed, Bool.and_eq_true, decide_eq_true_eq] at hnamed
    rw [walk] at hx
    obtain ⟨name, t, names, hlookup, hkeep, hreaches, rfl⟩ :=
      reaches_of_mem_walkEntries hnamed.1 hnamed.2 hx
    refine ⟨name.toList :: names, Reaches.entry hlookup hkeep hreaches, ?_⟩
    rw [Path.chain, Path.chain, List.foldl_cons, String.ofList_toList]

theorem reaches_of_mem_walkEntries : ∀ {entries : List (String × FileTree)} {dir : String},
    (entries.map Prod.fst).Nodup → wellNamedEntries good entries = true →
    x ∈ walkEntries (fun _ _ _ => ()) (fun _ below _ _ => keep below) () dir entries →
    ∃ name t names, entries.lookup name = some t ∧ keep (Path.child dir name) = true ∧
      Reaches keep (Path.child dir name) t names ∧ x = Path.chain (Path.child dir name) names
  | [], _, _, _, hx => by
    rw [walkEntries] at hx
    cases hx
  | (n, u) :: entries, dir, hnodup, hnamed, hx => by
    rw [List.map_cons, List.nodup_cons] at hnodup
    simp only [wellNamedEntries, Bool.and_eq_true] at hnamed
    obtain ⟨⟨-, hu⟩, hrest⟩ := hnamed
    rw [walkEntries, List.mem_append] at hx
    rcases hx with hx | hx
    · split at hx
      · next hkeep =>
        obtain ⟨names, hreaches, hpath⟩ := reaches_of_mem_walk hu hx
        exact ⟨n, u, names, List.lookup_cons_self, hkeep, hreaches, hpath⟩
      · cases hx
    · obtain ⟨name, t, names, hlookup, hfound⟩ := reaches_of_mem_walkEntries hnodup.2 hrest hx
      exact ⟨name, t, names, lookup_cons_of_ne hnodup.1 hlookup, hfound⟩

end

end Walk

/-! ## 3. Files below a path

The root of a walk is given by a path, and so are the files that it finds.  A look-up of the path of
a file goes through that of the root, hence the names of the way are the ones behind it. -/

section Below

variable {root : FileTree} {dir : String} {names : List (List Char)}

/-- A path is that of a file if it leads to one. -/
theorem isFile_iff {path : String} :
    root.isFile path = true ↔ ∃ p content, root.locate path = .ok p ∧ p.tree = .file content := by
  rw [isFile, find?]
  cases hlocate : root.locate path with
  | error e => simp [Except.toOption]
  | ok p => cases htree : p.tree <;> simp [Except.toOption, htree]

theorem find?_eq_some_iff {path : String} {tree : FileTree} :
    root.find? path = some tree ↔ ∃ p, root.locate path = .ok p ∧ p.tree = tree := by
  rw [find?]
  cases root.locate path <;> simp [Except.toOption]

variable {good : String → Bool} {keep : String → Bool} {x : String}

/-- **A walk finds a file exactly if no entry on the way to it is left out.** -/
theorem mem_filesKeeping_iff (hnamed : root.wellNamed good = true)
    (hgood : ∀ name, good name = true → Path.isEntryName name = true) :
    x ∈ root.filesKeeping keep dir ↔ ∃ names, (∀ s ∈ names, Path.IsName s) ∧
      root.isFile (Path.chain dir names) = true ∧
      (∀ first rest, names = first ++ rest → first ≠ [] → keep (Path.chain dir first) = true) ∧
      x = Path.chain dir names := by
  rw [filesKeeping]
  constructor
  · intro hx
    split at hx
    · next tree hfind =>
      obtain ⟨p, hp, rfl⟩ := find?_eq_some_iff.mp hfind
      have hplace := (wellNamed_of_below? hnamed (below?_names hp)).2
      obtain ⟨names, ⟨⟨content, hfile⟩, hkept⟩, rfl⟩ := reaches_of_mem_walk hplace hx
      have hnames : ∀ s ∈ names, Path.IsName s := by
        intro s hs
        have hname := hgood _ ((wellNamed_of_below? hplace hfile).1 s hs)
        simpa using Path.isEntryName_iff.mp hname
      obtain ⟨q, hq, htree⟩ := locate_chain hp hnames hfile
      exact ⟨names, hnames, isFile_iff.mpr ⟨q, content, hq, htree⟩, hkept, rfl⟩
    · cases hx
  · rintro ⟨names, hnames, hfile, hkept, rfl⟩
    obtain ⟨q, content, hq, htree⟩ := isFile_iff.mp hfile
    obtain ⟨p, hp, hbelow⟩ := below?_of_locate_chain hnames hq
    rw [find?_eq_some_iff.mpr ⟨p, hp, rfl⟩]
    exact mem_walk (hbelow.trans (congrArg some htree)) hkept

end Below

end FileTree

/-! ## 4. Sorted lists

The files are sorted and then repetitions that stand side by side are dropped.  In a sorted list
there are no others, so each name is left once. -/

/-- In a sorted list all that is kept of repetitions is in strict order. -/
theorem pairwise_eraseReps {names : List String} (h : names.Pairwise fun x y => ¬ y < x) :
    names.eraseReps.Pairwise (· < ·) := by
  induction names with
  | nil => exact .nil
  | cons a rest ih =>
    obtain ⟨hfirst, hrest⟩ := List.pairwise_cons.mp h
    cases rest with
    | nil => exact List.pairwise_singleton _ a
    | cons b rest =>
      rw [eraseReps_cons_cons]
      split
      · exact ih hrest
      · next hdiffer =>
        -- the next one is greater, and all that is kept is not less than that one
        have hne : a ≠ b := by simpa using hdiffer
        have hlt : a < b := by
          by_contra hge
          exact hne (String.le_antisymm (hfirst b List.mem_cons_self) hge)
        refine List.pairwise_cons.mpr ⟨fun x hx => ?_, ih hrest⟩
        rcases List.mem_cons.mp (mem_eraseReps.mp hx) with rfl | hx
        · exact hlt
        · by_contra hge
          exact String.le_trans (List.rel_of_pairwise_cons hrest hx) hge hlt

/-- Sorting sorts, by the order of the names. -/
theorem sorted_sortedNames (names : List String) :
    (sortedNames names).Pairwise fun x y => ¬ y < x := by
  have htrans : ∀ a b c : String, (!decide (b < a)) = true → (!decide (c < b)) = true →
      (!decide (c < a)) = true := by
    intro a b c hab hbc
    simp only [Bool.not_eq_true', decide_eq_false_iff_not] at hab hbc ⊢
    exact String.le_trans hab hbc
  have htotal : ∀ a b : String, (!decide (b < a) || !decide (a < b)) = true := by
    intro a b
    simp only [Bool.or_eq_true, Bool.not_eq_true', decide_eq_false_iff_not]
    exact String.le_total a b
  refine (List.pairwise_mergeSort htrans htotal names).imp ?_
  intro a b hab
  simpa only [Bool.not_eq_true', decide_eq_false_iff_not] using hab

/-- **Sorted and each once.** -/
theorem eraseReps_sortedNames (names : List String) :
    (sortedNames names).eraseReps.Pairwise (· < ·) ∧
      ∀ x, x ∈ (sortedNames names).eraseReps ↔ x ∈ names := by
  refine ⟨pairwise_eraseReps (sorted_sortedNames names), fun x => ?_⟩
  rw [mem_eraseReps, sortedNames, List.mem_mergeSort]

/-! ## 5. The files of a configuration, described

The description knows of roots, since a file that is in none of them is not looked for even if a
pattern matches it.  It does not know of the ways to the files. -/

/-- The directories in which the files of the patterns are looked for. -/
def walkRoots (including : FileList) : List String :=
  including.items.map fun pattern => (Inclusion.of including.dir pattern).root

/-- The patterns of whole paths that are included. -/
def inclusionGlobs (including : FileList) : List Glob :=
  including.items.filterMap fun pattern => (Inclusion.of including.dir pattern).glob

/-- Can the name be that of an entry, and does it lead below its directory? -/
def staysBelow (name : String) : Bool := Path.isEntryName name && Path.leadsBelow name.toList

/-- A file that the patterns of a configuration choose, under the normal form of its path: it lies
below one of the roots, it can belong to a project, a pattern matches it and no exclusion does. -/
structure Chosen (disk : FileTree) (including excluding : FileList) (o : CompilerOptions)
    (name : String) : Prop where
  file : ∃ root ∈ walkRoots including, ∃ names, (∀ s ∈ names, Path.IsName s) ∧
    disk.isFile (Path.chain root names) = true ∧ name = Path.normalize (Path.chain root names)
  admitted : o.admits name = true
  included : Glob.anyMatch (inclusionGlobs including) name = true
  not_excluded : Glob.anyMatch (exclusionGlobs excluding) name = false

section Files

variable {disk : FileTree} {including excluding : FileList} {o : CompilerOptions} {name : String}

/-- What the patterns choose: a walk from one of the roots finds it, and one of the patterns matches
it.  The two need not be of the same pattern. -/
theorem mem_filesMatching_iff : name ∈ filesMatching disk including excluding o ↔
    (∃ root ∈ walkRoots including, ∃ path ∈ disk.filesKeeping
      (fun below => !Glob.anyMatch (exclusionGlobs excluding) (Path.normalize below)) root,
        name = Path.normalize path) ∧
      o.admits name = true ∧ Glob.anyMatch (inclusionGlobs including) name = true := by
  have hglobs : (including.items.map (Inclusion.of including.dir)).filterMap (·.glob)
      = inclusionGlobs including := by
    rw [List.filterMap_map]
    rfl
  have hroots : (including.items.map (Inclusion.of including.dir)).map (·.root)
      = walkRoots including := by
    rw [List.map_map]
    rfl
  simp only [filesMatching, hglobs, hroots, List.mem_filter, List.mem_map, List.mem_flatMap,
    List.mem_eraseDups, Bool.and_eq_true]
  refine and_congr_left fun _ => ?_
  constructor
  · rintro ⟨path, ⟨root, hroot, hpath⟩, rfl⟩
    exact ⟨root, hroot, path, hpath, rfl⟩
  · rintro ⟨root, hroot, path, hpath, rfl⟩
    exact ⟨path, ⟨root, hroot, hpath⟩, rfl⟩

/-- **A directory above a file that is not excluded is not excluded**, if the names on the way lead
below. -/
theorem not_excluded_chain {root : String} {first rest : List (List Char)}
    (habsolute : Path.isAbsolute root) (hnames : ∀ s ∈ first ++ rest, Path.IsName s)
    (hbelow : ∀ s ∈ first ++ rest, Path.leadsBelow s = true) (hne : first ≠ [])
    (h : Glob.anyMatch (exclusionGlobs excluding)
      (Path.normalize (Path.chain root (first ++ rest))) = false) :
    Glob.anyMatch (exclusionGlobs excluding) (Path.normalize (Path.chain root first)) = false := by
  have hfirst : ∀ s ∈ first, Path.IsName s := fun s hs => hnames s (List.mem_append_left _ hs)
  have hparts : ∀ names : List (List Char), (∀ s ∈ names, Path.leadsBelow s = true) → names ≠ [] →
      names.flatMap Path.partsOf ≠ [] := by
    intro names hnames hne
    obtain ⟨s, names, rfl⟩ := List.exists_cons_of_ne_nil hne
    simp [Path.partsOf_ne_nil (hnames s List.mem_cons_self)]
  by_cases hrest : rest = []
  · rwa [hrest, List.append_nil] at h
  · rw [Path.normalize_eq_rooted_shown (Path.isAbsolute_chain habsolute hnames),
      Path.shown_chain habsolute hnames hbelow, List.flatMap_append, ← List.append_assoc,
      Path.rooted_append] at h
    · rw [Path.normalize_eq_rooted_shown (Path.isAbsolute_chain habsolute hfirst),
        Path.shown_chain habsolute hfirst fun s hs => hbelow s (List.mem_append_left _ hs)]
      exact not_excluded_above h
    · refine List.append_ne_nil_of_right_ne_nil _ (hparts first ?_ hne)
      exact fun s hs => hbelow s (List.mem_append_left _ hs)
    · exact hparts rest (fun s hs => hbelow s (List.mem_append_right _ hs)) hrest

/-- **Walks that do not enter what is excluded find what is described.** -/
theorem mem_filesMatching_iff_chosen (hnamed : disk.wellNamed staysBelow = true)
    (hroots : ∀ root ∈ walkRoots including, disk.isFile root = false) :
    name ∈ filesMatching disk including excluding o ↔ Chosen disk including excluding o name := by
  have hgood : ∀ name, staysBelow name = true → Path.isEntryName name = true := by
    intro name h
    exact (Bool.and_eq_true_iff.mp h).1
  rw [mem_filesMatching_iff]
  constructor
  · rintro ⟨⟨root, hroot, path, hpath, rfl⟩, hadmits, hincluded⟩
    obtain ⟨names, hnames, hfile, hkept, rfl⟩ :=
      (FileTree.mem_filesKeeping_iff hnamed hgood).mp hpath
    have hne : names ≠ [] := by
      -- a root is no file
      rintro rfl
      exact absurd hfile (by simp [Path.chain, hroots root hroot])
    refine ⟨⟨root, hroot, names, hnames, hfile, rfl⟩, hadmits, hincluded, ?_⟩
    simpa using hkept names [] (List.append_nil _).symm hne
  · rintro ⟨⟨root, hroot, names, hnames, hfile, rfl⟩, hadmits, hincluded, hexcluded⟩
    refine ⟨⟨root, hroot, _, ?_, rfl⟩, hadmits, hincluded⟩
    refine (FileTree.mem_filesKeeping_iff hnamed hgood).mpr ⟨names, hnames, hfile, ?_, rfl⟩
    rintro first rest rfl hne
    obtain ⟨q, content, hq, htree⟩ := FileTree.isFile_iff.mp hfile
    obtain ⟨p, hp, hplace⟩ := FileTree.below?_of_locate_chain hnames hq
    have hbelow : ∀ s ∈ first ++ rest, Path.leadsBelow s = true := by
      intro s hs
      have htree := (FileTree.wellNamed_of_below? hnamed (FileTree.below?_names hp)).2
      have hname := (FileTree.wellNamed_of_below? htree hplace).1 s hs
      simpa using (Bool.and_eq_true_iff.mp hname).2
    rw [not_excluded_chain (FileTree.isAbsolute_of_locate hp) hnames hbelow hne hexcluded]
    rfl

/-- **The files of a configuration are those described**, in order and each once: the ones it lists,
and the files below its roots that its patterns match and its exclusions do not.  The tree is one in
which no name, with its backslashes as slashes, leads out of its directory. -/
theorem filesOfConfig_eq_described (files : FileList) (hnamed : disk.wellNamed staysBelow = true)
    (hroots : ∀ root ∈ walkRoots including, disk.isFile root = false) :
    (filesOfConfig disk files including excluding o).Pairwise (· < ·) ∧
      ∀ name, name ∈ filesOfConfig disk files including excluding o ↔
        name ∈ files.items.map (Path.join (Path.normalize files.dir)) ∨
          Chosen disk including excluding o name := by
  obtain ⟨hsorted, hmem⟩ := eraseReps_sortedNames
    (files.items.map (Path.join (Path.normalize files.dir))
      ++ filesMatching disk including excluding o)
  refine ⟨hsorted, fun name => ?_⟩
  rw [← mem_filesMatching_iff_chosen hnamed hroots, ← List.mem_append]
  exact hmem name

/-- A workspace with a script that is built and one with a backslash in its name. -/
def builtTree : FileTree :=
  .directory [("ws", .directory
    [("dist", .directory [("a.ts", .file [])]), ("src", .directory [("b\\c.ts", .file [])])])]

/-- Two patterns, the root of one below the root of the other, and an exclusion that names a
directory. -/
theorem filesOfConfig_eq_described_overlapping :
    let including : FileList := ⟨"/ws", ["**/*", "./src"]⟩
    let excluding : FileList := ⟨"/ws", ["dist/"]⟩
    builtTree.wellNamed staysBelow = true ∧
      (∀ root ∈ walkRoots including, builtTree.isFile root = false) ∧
      "/ws/src/b/c.ts" ∈ filesOfConfig builtTree ⟨"/ws", []⟩ including excluding {} ∧
      "/ws/dist/a.ts" ∉ filesOfConfig builtTree ⟨"/ws", []⟩ including excluding {} := by
  intro including excluding
  have hnamed : builtTree.wellNamed staysBelow = true := by decide +kernel
  have hroots : ∀ root ∈ walkRoots including, builtTree.isFile root = false := by decide +kernel
  have hdescribed (name : String) :
      name ∈ filesOfConfig builtTree ⟨"/ws", []⟩ including excluding {} ↔
        name ∈ [] ∨ Chosen builtTree including excluding {} name :=
    (filesOfConfig_eq_described ⟨"/ws", []⟩ hnamed hroots).2 name
  refine ⟨hnamed, hroots, (hdescribed _).mpr (Or.inr ?_), fun hmem => ?_⟩
  · exact ⟨⟨"/ws/src", by decide +kernel, ["b\\c.ts"].map String.toList,
      Path.isName_of_mem_map (by decide +kernel), by decide +kernel, by decide +kernel⟩,
      by decide +kernel, by decide +kernel, by decide +kernel⟩
  · rcases (hdescribed _).mp hmem with hlisted | hchosen
    · exact absurd hlisted List.not_mem_nil
    · exact absurd hchosen.not_excluded (by decide +kernel)

/-- **A file that leads out of an excluded directory is lost.**  It is described, under a path that
no exclusion matches; but it lies in a directory that the walk does not enter. -/
theorem not_mem_filesOfConfig_climbing :
    let disk : FileTree :=
      .directory [("ws", .directory [("a", .directory [("..\\b.ts", .file [])])])]
    let including : FileList := ⟨"/ws", ["**/*"]⟩
    let excluding : FileList := ⟨"/ws", ["a"]⟩
    (∀ root ∈ walkRoots including, disk.isFile root = false) ∧
      Chosen disk including excluding {} "/ws/b.ts" ∧
      "/ws/b.ts" ∉ filesOfConfig disk ⟨"/ws", []⟩ including excluding {} := by
  intro disk including excluding
  have hchosen : Chosen disk including excluding {} "/ws/b.ts" :=
    ⟨⟨"/ws", by decide +kernel, ["a", "..\\b.ts"].map String.toList,
      Path.isName_of_mem_map (by decide +kernel), by decide +kernel, by decide +kernel⟩,
      by decide +kernel, by decide +kernel, by decide +kernel⟩
  refine ⟨by decide +kernel, hchosen, ?_⟩
  have hnone : filesMatching disk including excluding {} = [] := by decide +kernel
  rw [filesOfConfig, hnone, List.map_nil, List.append_nil, sortedNames, List.mergeSort_nil]
  exact List.not_mem_nil

end Files

end ComponentHost
