/-
# What a directory lists

A view of files is asked for the files below a directory, at most so many levels, with one of some
suffixes.  It lists exactly these if a path is in the list just when there is such a file and the
path leads down from the directory by that many names (`FileView.ListsExactly`).

The view of a disk does, for a directory in its normal form on a disk without backslashes in names.
The walk counts levels down as it goes, so the files it comes to are those with few enough names
behind the directory (`FileTree.mem_walkWithin_iff`), and different names spell different paths
(`FileTree.nodup_walkWithin`).

Names must be plain for this.  A backslash in a name would be read as a slash in the normal form,
and the path would have more names than there are levels.  With plain names the directory, written
normally, and the names behind it spell a normal path, and the two sides of `ListsExactly` speak of
one path.

A file at the place of the directory is excluded, since the walk from a file finds that file, which
is not below anything.
-/
import ComponentHost.FileView
import ComponentHost.Proofs.PrunedWalks
import ComponentHost.Proofs.StraightPaths

namespace ComponentHost

/-- The path leads down from the directory by at most so many names. -/
def Path.LiesWithin (dir : String) (depth : Option Nat) (path : String) : Prop :=
  ∃ names, names ≠ [] ∧ (∀ s ∈ names, IsName s) ∧
    path.toList = dropSlashes dir.toList ++ lead names ∧ ∀ d ∈ depth, names.length ≤ d

/-- The view lists what there is below the directory, each file once. -/
structure FileView.ListsExactly (s : FileView) (dir : String) (depth : Option Nat) : Prop where
  mem_iff : ∀ suffixes path, path ∈ s.filesBelow dir suffixes depth ↔
    s.fileExists path = true ∧ Path.LiesWithin dir depth path ∧ hasSuffix suffixes path = true
  nodup : ∀ suffixes, (s.filesBelow dir suffixes depth).Nodup

/-- Names behind a path are told apart by the path they spell. -/
theorem Path.chain_inj {dir : String} {a b : List (List Char)} (habsolute : isAbsolute dir)
    (ha : ∀ s ∈ a, IsName s) (hb : ∀ s ∈ b, IsName s) (h : chain dir a = chain dir b) : a = b := by
  have hresolved := congrArg resolved h
  rw [resolved_chain habsolute ha, resolved_chain habsolute hb] at hresolved
  exact List.append_cancel_left hresolved

/-- How the names behind the plain form of a directory are spelled. -/
theorem Path.toList_chain_rooted {ns names : List (List Char)} (hns : ∀ s ∈ ns, IsName s)
    (hne : names ≠ []) (h : ∀ s ∈ names, IsName s) :
    (chain (rooted ns) names).toList = dropSlashes (rooted ns).toList ++ lead names := by
  rw [chain_rooted hns h, toList_rooted_eq_lead (by simp [hne]), lead_append,
    dropSlashes_rooted hns]

namespace FileTree

/-! ## 1. Walks that count levels

A walk carries a state down, here the number of levels that are left, and does not enter an entry if
that is zero.  The state that a walk starts with counts the directory itself as a level;
`walkWithin` hides this, so that its depth is the number of names that may follow. -/

section Walk

/-- The walk of a listing.  The state is one more than the levels that are left. -/
def walkWithin (depth : Option Nat) (dir : String) (tree : FileTree) : List String :=
  walk (fun left _ _ => left.map (· - 1)) (fun left _ _ _ => left != some 0)
    (depth.map (· + 1)) dir tree

/-- The same for the entries of a directory, of which one is one level down. -/
def walkEntriesWithin (depth : Option Nat) (dir : String) (entries : List (String × FileTree)) :
    List String :=
  walkEntries (fun left _ _ => left.map (· - 1)) (fun left _ _ _ => left != some 0) depth dir entries

theorem walkWithin_directory (depth : Option Nat) (dir : String)
    (entries : List (String × FileTree)) :
    walkWithin depth dir (.directory entries) = walkEntriesWithin depth dir entries := by
  rw [walkWithin, walk, walkEntriesWithin]
  cases depth <;> rfl

/-- An entry is entered unless no level is left, and with one level less. -/
theorem walkEntriesWithin_cons (depth : Option Nat) (dir name : String) (tree : FileTree)
    (rest : List (String × FileTree)) :
    walkEntriesWithin depth dir ((name, tree) :: rest) =
      (if depth = some 0 then [] else walkWithin (depth.map (· - 1)) (Path.child dir name) tree) ++
        walkEntriesWithin depth dir rest := by
  rw [walkEntriesWithin, walkEntries]
  congr 1
  rcases depth with _ | _ | d
  · rfl
  · rfl
  · rfl

/-- A level that is left for a directory is one less for its entries. -/
theorem forall_mem_pred_iff {depth : Option Nat} (h : depth ≠ some 0) (k : Nat) :
    (∀ d ∈ depth.map (· - 1), k ≤ d) ↔ ∀ d ∈ depth, k + 1 ≤ d := by
  rcases depth with _ | _ | d
  · simp
  · exact absurd rfl h
  · simp

variable {good : String → Bool} {x : String}

mutual

/-- **A walk comes to the files with few enough names behind it.**  By induction on the tree and on
lists of entries together.  Names must differ within a directory: of two entries with one name the
look-up would find the first, and the walk would come to both. -/
theorem mem_walkWithin_iff : ∀ {tree : FileTree} {depth : Option Nat} {dir : String},
    tree.wellNamed good = true → (x ∈ walkWithin depth dir tree ↔
      ∃ names content, tree.below? names = some (.file content) ∧
        (∀ d ∈ depth, names.length ≤ d) ∧ x = Path.chain dir names)
  | .file content, depth, dir, _ => by
    rw [walkWithin, walk, List.mem_singleton]
    constructor
    · rintro rfl
      exact ⟨[], content, rfl, by simp, rfl⟩
    · rintro ⟨names, content', hbelow, -, rfl⟩
      cases names with
      | nil => rfl
      | cons s names => cases hbelow
  | .directory entries, depth, dir, hnamed => by
    rw [wellNamed, Bool.and_eq_true, decide_eq_true_eq] at hnamed
    rw [walkWithin_directory, mem_walkEntriesWithin_iff hnamed.1 hnamed.2]
    constructor
    · rintro ⟨name, t, names, content, hlookup, hbelow, hdepth, rfl⟩
      refine ⟨name.toList :: names, content, ?_, hdepth, rfl⟩
      rw [below?, String.ofList_toList, entry?, hlookup]
      exact hbelow
    · rintro ⟨names, content, hbelow, hdepth, rfl⟩
      cases names with
      | nil => cases hbelow
      | cons s names =>
        rw [below?, Option.bind_eq_some_iff] at hbelow
        obtain ⟨t, hentry, hbelow⟩ := hbelow
        refine ⟨String.ofList s, t, names, content, hentry, hbelow, ?_⟩
        rw [String.toList_ofList]
        exact ⟨hdepth, rfl⟩

/-- The same for the entries of a directory, of which one is chosen by its name first. -/
theorem mem_walkEntriesWithin_iff : ∀ {entries : List (String × FileTree)} {depth : Option Nat}
    {dir : String}, (entries.map Prod.fst).Nodup → wellNamedEntries good entries = true →
    (x ∈ walkEntriesWithin depth dir entries ↔ ∃ name t names content,
      entries.lookup name = some t ∧ t.below? names = some (.file content) ∧
        (∀ d ∈ depth, (name.toList :: names).length ≤ d) ∧
        x = Path.chain dir (name.toList :: names))
  | [], depth, dir, _, _ => by
    rw [walkEntriesWithin, walkEntries]
    simp
  | (n, u) :: entries, depth, dir, hnodup, hnamed => by
    rw [List.map_cons, List.nodup_cons] at hnodup
    simp only [wellNamedEntries, Bool.and_eq_true] at hnamed
    obtain ⟨⟨-, hu⟩, hrest⟩ := hnamed
    rw [walkEntriesWithin_cons, List.mem_append, mem_walkEntriesWithin_iff hnodup.2 hrest]
    constructor
    · rintro (hx | ⟨name, t, names, content, hlookup, hfound⟩)
      · split at hx
        · cases hx
        · next hdepth =>
          obtain ⟨names, content, hbelow, hlength, rfl⟩ := (mem_walkWithin_iff hu).mp hx
          refine ⟨n, u, names, content, List.lookup_cons_self, hbelow,
            (forall_mem_pred_iff hdepth _).mp hlength, ?_⟩
          rw [Path.chain, Path.chain, List.foldl_cons, String.ofList_toList]
      · exact ⟨name, t, names, content, lookup_cons_of_ne hnodup.1 hlookup, hfound⟩
    · rintro ⟨name, t, names, content, hlookup, hbelow, hlength, hx⟩
      rw [List.lookup_cons] at hlookup
      split at hlookup
      · next heq =>
        cases hlookup
        have hdepth : depth ≠ some 0 := by
          rintro rfl
          exact absurd (hlength 0 rfl) (by simp)
        rw [if_neg hdepth, mem_walkWithin_iff hu]
        refine .inl ⟨names, content, hbelow, (forall_mem_pred_iff hdepth _).mpr hlength, ?_⟩
        rw [hx, Path.chain, Path.chain, List.foldl_cons, String.ofList_toList, beq_iff_eq.mp heq]
      · exact .inr ⟨name, t, names, content, hlookup, hbelow, hlength, hx⟩

end

theorem isName_of_below? (hgood : ∀ name, good name = true → Path.isEntryName name = true)
    {tree t : FileTree} {names : List (List Char)} (hnamed : tree.wellNamed good = true)
    (h : tree.below? names = some t) : ∀ s ∈ names, Path.IsName s := by
  intro s hs
  have hname := hgood _ ((wellNamed_of_below? hnamed h).1 s hs)
  simpa using Path.isEntryName_iff.mp hname

mutual

/-- **A walk comes to each file once.**  Two entries have different names, so the paths below them
differ in the name behind the directory. -/
theorem nodup_walkWithin (hgood : ∀ name, good name = true → Path.isEntryName name = true) :
    ∀ {tree : FileTree} {depth : Option Nat} {dir : String}, tree.wellNamed good = true →
      Path.isAbsolute dir → (walkWithin depth dir tree).Nodup
  | .file content, depth, dir, _, _ => by
    rw [walkWithin, walk]
    simp
  | .directory entries, depth, dir, hnamed, habsolute => by
    rw [wellNamed, Bool.and_eq_true, decide_eq_true_eq] at hnamed
    rw [walkWithin_directory]
    exact nodup_walkEntriesWithin hgood hnamed.1 hnamed.2 habsolute

/-- The paths of the first entry, those of the others, and none in both. -/
theorem nodup_walkEntriesWithin
    (hgood : ∀ name, good name = true → Path.isEntryName name = true) :
    ∀ {entries : List (String × FileTree)} {depth : Option Nat} {dir : String},
      (entries.map Prod.fst).Nodup → wellNamedEntries good entries = true →
      Path.isAbsolute dir → (walkEntriesWithin depth dir entries).Nodup
  | [], depth, dir, _, _, _ => by
    rw [walkEntriesWithin, walkEntries]
    exact List.nodup_nil
  | (n, u) :: entries, depth, dir, hnodup, hnamed, habsolute => by
    rw [List.map_cons, List.nodup_cons] at hnodup
    simp only [wellNamedEntries, Bool.and_eq_true] at hnamed
    obtain ⟨⟨hn, hu⟩, hrest⟩ := hnamed
    have hchild : Path.isAbsolute (Path.child dir n) := Path.isAbsolute_child habsolute n
    rw [walkEntriesWithin_cons, List.nodup_append]
    refine ⟨?_, nodup_walkEntriesWithin hgood hnodup.2 hrest habsolute, ?_⟩
    · split
      · exact List.nodup_nil
      · exact nodup_walkWithin hgood hu hchild
    · -- what is found below the first entry and below a later one differs in the first name
      intro y hy z hz heq
      subst heq
      obtain ⟨name, t, names, content, hlookup, hbelow, -, hname⟩ :=
        (mem_walkEntriesWithin_iff hnodup.2 hrest).mp hz
      split at hy
      · cases hy
      · obtain ⟨names', content', hbelow', -, hn'⟩ := (mem_walkWithin_iff hu).mp hy
        obtain ⟨hgoodName, ht⟩ := wellNamed_of_lookup hrest hlookup
        have hnames : ∀ s ∈ name.toList :: names, Path.IsName s := by
          rw [List.forall_mem_cons]
          exact ⟨Path.isEntryName_iff.mp (hgood _ hgoodName), isName_of_below? hgood ht hbelow⟩
        have hnames' : ∀ s ∈ n.toList :: names', Path.IsName s := by
          rw [List.forall_mem_cons]
          exact ⟨Path.isEntryName_iff.mp (hgood _ hn), isName_of_below? hgood hu hbelow'⟩
        have hchain : Path.chain dir (name.toList :: names) = Path.chain dir (n.toList :: names') := by
          rw [← hname, hn', Path.chain, Path.chain, List.foldl_cons, String.ofList_toList]
        have hsame := Path.chain_inj habsolute hnames hnames' hchain
        obtain rfl : name = n := String.toList_inj.mp (List.cons.inj hsame).1
        obtain ⟨before, after, rfl, -⟩ := List.lookup_eq_some_iff.mp hlookup
        simp at hnodup

end

end Walk

/-! ## 2. Files within a directory

The walk starts at the place that the directory leads to, or there are no files if it leads nowhere.
-/

section Files

variable {root : FileTree} {depth : Option Nat} {dir : String} {good : String → Bool}

theorem filesWithin_eq {p : Place} (h : root.locate dir = .ok p) :
    root.filesWithin depth dir = walkWithin depth dir p.tree := by
  rw [filesWithin, find?_eq_some_iff.mpr ⟨p, h, rfl⟩]
  rfl

theorem filesWithin_of_error {e : FileError} (h : root.locate dir = .error e) :
    root.filesWithin depth dir = [] := by
  rw [filesWithin, find?, h]
  rfl

/-- A file that is listed lies behind the directory, with good names. -/
theorem exists_of_mem_filesWithin (hnamed : root.wellNamed good = true)
    (hgood : ∀ name, good name = true → Path.isEntryName name = true) {x : String}
    (h : x ∈ root.filesWithin depth dir) :
    ∃ names, (∀ s ∈ names, Path.IsName s ∧ good (String.ofList s) = true) ∧
      root.isFile (Path.chain dir names) = true ∧ (∀ d ∈ depth, names.length ≤ d) ∧
      x = Path.chain dir names := by
  cases hlocate : root.locate dir with
  | error e =>
    rw [filesWithin_of_error hlocate] at h
    cases h
  | ok p =>
    rw [filesWithin_eq hlocate] at h
    have hplace := (wellNamed_of_below? hnamed (below?_names hlocate)).2
    obtain ⟨names, content, hbelow, hdepth, rfl⟩ := (mem_walkWithin_iff hplace).mp h
    have hnames := isName_of_below? hgood hplace hbelow
    obtain ⟨q, hq, htree⟩ := locate_chain hlocate hnames hbelow
    refine ⟨names, ?_, isFile_iff.mpr ⟨q, content, hq, htree⟩, hdepth, rfl⟩
    intro s hs
    exact ⟨hnames s hs, (wellNamed_of_below? hplace hbelow).1 s hs⟩

/-- **Every file that lies within the directory is listed.** -/
theorem mem_filesWithin (hnamed : root.wellNamed good = true) {names : List (List Char)}
    (hnames : ∀ s ∈ names, Path.IsName s) (hfile : root.isFile (Path.chain dir names) = true)
    (hdepth : ∀ d ∈ depth, names.length ≤ d) :
    Path.chain dir names ∈ root.filesWithin depth dir := by
  obtain ⟨q, content, hq, htree⟩ := isFile_iff.mp hfile
  obtain ⟨p, hp, hbelow⟩ := below?_of_locate_chain hnames hq
  have hplace := (wellNamed_of_below? hnamed (below?_names hp)).2
  rw [filesWithin_eq hp, mem_walkWithin_iff hplace]
  exact ⟨names, content, hbelow.trans (congrArg some htree), hdepth, rfl⟩

/-- No file is listed twice. -/
theorem nodup_filesWithin (hnamed : root.wellNamed good = true)
    (hgood : ∀ name, good name = true → Path.isEntryName name = true) :
    (root.filesWithin depth dir).Nodup := by
  cases hlocate : root.locate dir with
  | error e =>
    rw [filesWithin_of_error hlocate]
    exact List.nodup_nil
  | ok p =>
    rw [filesWithin_eq hlocate]
    exact nodup_walkWithin hgood (wellNamed_of_below? hnamed (below?_names hlocate)).2
      (isAbsolute_of_locate hlocate)

end Files

/-- Can an entry of a directory have the name, and is it free of backslashes? -/
def isPlainName (name : String) : Bool := Path.isEntryName name && !name.toList.contains '\\'

end FileTree

/-! ## 3. The view of a disk

What the view lists are the files of the walk with one of the suffixes, their paths made normal.
They are normal already, so nothing changes and no two paths become one. -/

namespace FileView

variable {disk : FileTree} {dir : String} (depth : Option Nat)
  (hnamed : disk.wellNamed FileTree.isPlainName = true)
  (hnormal : Path.normalize dir = dir) (habsolute : Path.isAbsolute dir)
include hnamed hnormal habsolute

/-- A path that is listed is in its normal form. -/
theorem normalize_of_mem_filesWithin {path : String} (h : path ∈ disk.filesWithin depth dir) :
    Path.normalize path = path := by
  have hgood : ∀ name, FileTree.isPlainName name = true → Path.isEntryName name = true := by
    intro name hname
    exact (Bool.and_eq_true_iff.mp hname).1
  obtain ⟨names, hnames, -, -, rfl⟩ := FileTree.exists_of_mem_filesWithin hnamed hgood h
  obtain ⟨ns, hns, rfl⟩ := Path.exists_rooted hnormal habsolute
  have hisName : ∀ s ∈ names, Path.IsName s := fun s hs => (hnames s hs).1
  have hback : ∀ s ∈ names, '\\' ∉ s := by
    intro s hs
    simpa [FileTree.isPlainName] using (Bool.and_eq_true_iff.mp (hnames s hs).2).2
  have hdir : '\\' ∉ (Path.rooted ns).toList := hnormal ▸ Path.no_backslash_normalize _
  rw [Path.normalize_chain habsolute hisName hdir hback, Path.resolved_rooted hns,
    Path.chain_rooted hns hisName]

/-- **The view of a disk lists what there is.** -/
theorem listsExactly_ofDisk (hfile : disk.isFile dir = false) :
    (ofDisk disk).ListsExactly dir depth := by
  have hgood : ∀ name, FileTree.isPlainName name = true → Path.isEntryName name = true := by
    intro name hname
    exact (Bool.and_eq_true_iff.mp hname).1
  have hshown : ∀ path ∈ disk.filesWithin depth dir, Path.normalize path = path := fun path =>
    normalize_of_mem_filesWithin depth hnamed hnormal habsolute
  have hlist : ∀ suffixes, (ofDisk disk).filesBelow dir suffixes depth
      = (disk.filesWithin depth dir).filter (hasSuffix suffixes) := by
    intro suffixes
    have hmap := List.map_congr_left (g := id) hshown
    rw [List.map_id] at hmap
    exact congrArg (List.filter _) hmap
  obtain ⟨ns, hns, rfl⟩ := Path.exists_rooted hnormal habsolute
  refine ⟨?_, ?_⟩
  · intro suffixes path
    rw [hlist, List.mem_filter, ← and_assoc]
    refine and_congr_left fun _ => ⟨?_, ?_⟩
    · intro hmem
      obtain ⟨names, hnames, hisFile, hdepth, rfl⟩ :=
        FileTree.exists_of_mem_filesWithin hnamed hgood hmem
      have hisName : ∀ s ∈ names, Path.IsName s := fun s hs => (hnames s hs).1
      have hne : names ≠ [] := by
        rintro rfl
        rw [Path.chain, List.foldl_nil, hfile] at hisFile
        cases hisFile
      exact ⟨hisFile, names, hne, hisName, Path.toList_chain_rooted hns hne hisName, hdepth⟩
    · rintro ⟨hisFile, names, hne, hisName, hpath, hdepth⟩
      rw [← Path.toList_chain_rooted hns hne hisName, String.toList_inj] at hpath
      subst hpath
      exact FileTree.mem_filesWithin hnamed hisName hisFile hdepth
  · intro suffixes
    rw [hlist]
    exact (FileTree.nodup_filesWithin hnamed hgood).filter _

end FileView

end ComponentHost
