/-
# Which files a walk can find

The files of a configuration are looked for in the directories that its patterns begin with.  The
directory of a pattern is made of its parts before the first wildcard, and a wildcard is `*`, `?` or
`[`.  The reader of patterns knows two more signs, the brace that opens a group and the backslash.
A part with one of them is no plain text for the reader, but it is for the search, which then looks
in a directory of that very name.

This file shows that nothing else goes wrong.  A file whose normal path a pattern matches, and no
exclusion, is among the files of the configuration, provided that none of the parts the walk starts
from has a group or a backslash, and that the paths of the configuration and of the file have no
backslash, which the normal form makes a slash (`mem_filesOfConfig`).  Two facts carry this:

* the path that is matched begins with the directory and the plain parts (`starts_of_globText`), so
  the root of the walk is on the way to the file (`exists_root`);
* a directory that an exclusion matches is not entered, but then the file is excluded as well
  (`excluded_below`).

The condition is needed: with a group in the first part of a pattern the files of all its
alternatives are lost (`not_mem_filesOfConfig_group`).
-/
import ComponentHost.Proofs.FileWays

namespace ComponentHost

/-! ## 1. The directory of a pattern

A pattern may begin with steps up and is then looked for elsewhere.  Wherever that is, it is a
directory that is there, given that the one it starts from is. -/

/-- A directory that is there, at a path without backslashes. -/
structure Grounded (disk : FileTree) (dir : String) : Prop where
  there : disk.HasDirectory dir
  no_backslash : '\\' ∉ dir.toList

section Anchor

variable {disk : FileTree} {dir : String}

theorem Grounded.isAbsolute (h : Grounded disk dir) : Path.isAbsolute dir := by
  obtain ⟨p, entries, hp, -⟩ := h.there
  exact FileTree.isAbsolute_of_locate hp

/-- The directory above one that is there is there. -/
theorem Grounded.parent (h : Grounded disk dir) : Grounded disk ((Path.parent? dir).getD dir) := by
  cases hparent : Path.parent? dir with
  | none => exact h
  | some above =>
    obtain ⟨-, hchars, -⟩ := Path.parent?_spec h.isAbsolute hparent
    exact ⟨FileTree.hasDirectory_parent h.there hparent,
      fun hback => h.no_backslash (hchars _ hback)⟩

theorem Grounded.climb (h : Grounded disk dir) (fuel : Nat) (cs : List Char) :
    Grounded disk (climb fuel dir cs).1 := by
  induction fuel generalizing dir cs with
  | zero => exact h
  | succ fuel ih =>
    unfold ComponentHost.climb
    split
    · next heq =>
      cases heq
      exact ih h.parent _
    · exact h

/-- The directory that a pattern is anchored to is there. -/
theorem Grounded.anchor (h : Grounded disk dir) (pattern : String) :
    Grounded disk (anchor dir pattern).1 := by
  have hroot : Grounded disk "/" := ⟨FileTree.hasDirectory_root h.there, by simp⟩
  unfold ComponentHost.anchor
  dsimp only
  split
  · exact hroot.climb _ _
  · exact h.climb _ _

end Anchor

/-! ## 2. The root of a walk

The walk for a pattern starts from its parts before the first one with a wildcard, the last part
left out.  The parts are also what the pattern of whole paths begins with. -/

/-- The parts of a pattern that its walk starts from. -/
def rootParts (pattern : String) : List (List Char) :=
  (Path.splitSegments pattern.toList).dropLast.takeWhile (!hasWildcard ·)

theorem walkRoot_eq_chain (dir pattern : String) :
    walkRoot dir pattern = Path.chain dir (rootParts pattern) := rfl

theorem glob_of (dir pattern : String) : (Inclusion.of dir pattern).glob
    = Glob.parse? (globText (anchor dir pattern).1 (expanded (anchor dir pattern).2)) := by
  rw [Inclusion.of]

theorem root_of (dir pattern : String) : (Inclusion.of dir pattern).root
    = Path.chain (anchor dir pattern).1 (rootParts (expanded (anchor dir pattern).2)) := by
  rw [Inclusion.of, ← walkRoot_eq_chain]

theorem joinSegments_append {a b : List (List Char)} (hb : b ≠ []) :
    Path.joinSegments (a ++ b) = a.flatMap (· ++ ['/']) ++ Path.joinSegments b := by
  induction a with
  | nil => rfl
  | cons s a ih =>
    obtain ⟨t, rest, ht⟩ := List.exists_cons_of_ne_nil (List.append_ne_nil_of_right_ne_nil a hb)
    rw [List.cons_append, ht, Path.joinSegments_cons_cons, ← ht, ih, List.flatMap_cons,
      List.append_assoc, List.append_assoc]
    rfl

/-- A pattern is the parts of its root, each with a slash behind it, and what follows. -/
theorem exists_pattern_eq (pattern : String) :
    ∃ others, pattern.toList = (rootParts pattern).flatMap (· ++ ['/']) ++ others := by
  have hne := Path.splitSegments_ne_nil pattern.toList
  obtain ⟨more, hmore⟩ : rootParts pattern <+: (Path.splitSegments pattern.toList).dropLast :=
    List.takeWhile_prefix _
  have hsplit : Path.splitSegments pattern.toList
      = rootParts pattern ++ (more ++ [(Path.splitSegments pattern.toList).getLast hne]) := by
    rw [← List.append_assoc, hmore, List.dropLast_concat_getLast]
  have hjoin := Path.joinSegments_splitSegments pattern.toList
  rw [hsplit, joinSegments_append (by simp)] at hjoin
  exact ⟨_, hjoin.symm⟩

/-- Has no part that the walk starts from a group or a backslash?  The reader of patterns knows
these signs, the search for wildcards does not. -/
def hasPlainRoot (dir pattern : String) : Bool :=
  (rootParts (expanded (anchor dir pattern).2)).all fun s => !(s.contains '{' || s.contains '\\')

section Plain

variable {dir pattern : String} {s : List Char}

theorem no_sign_of_hasPlainRoot (h : hasPlainRoot dir pattern = true)
    (hs : s ∈ rootParts (expanded (anchor dir pattern).2)) : '{' ∉ s ∧ '\\' ∉ s := by
  have hnone := List.all_eq_true.mp h s hs
  rw [Bool.not_eq_true', Bool.or_eq_false_iff] at hnone
  constructor
  · intro hmem
    rw [List.contains_iff_mem.mpr hmem] at hnone
    exact absurd hnone.1 (Bool.false_ne_true.symm)
  · intro hmem
    rw [List.contains_iff_mem.mpr hmem] at hnone
    exact absurd hnone.2 (Bool.false_ne_true.symm)

/-- The characters of the root stand for themselves in the pattern. -/
theorem isPlain_of_hasPlainRoot (h : hasPlainRoot dir pattern = true)
    (hs : s ∈ rootParts (expanded (anchor dir pattern).2)) {c : Char} (hc : c ∈ s) :
    Glob.Draft.isPlain c = true := by
  have hwild : hasWildcard s = false := by
    simpa using List.all_eq_true.mp List.all_takeWhile s hs
  have hnone := List.any_eq_false.mp hwild c hc
  simp only [Bool.or_eq_true, beq_iff_eq, not_or] at hnone
  obtain ⟨⟨hstar, hquestion⟩, hbracket⟩ := hnone
  obtain ⟨hbrace, hback⟩ := no_sign_of_hasPlainRoot h hs
  have hopen : c ≠ '{' := by
    rintro rfl
    exact hbrace hc
  have hescape : c ≠ '\\' := by
    rintro rfl
    exact hback hc
  simp [Glob.Draft.isPlain, hstar, hquestion, hbracket, hopen, hescape]

end Plain

/-! ## 3. Files and their names

From here on files are given by the names of their normal path.  Without backslashes these are the
names of the entries on the way to the file. -/

section Files

variable {disk : FileTree} {path : String}

theorem Path.rooted_append {first rest : List (List Char)} (hfirst : first ≠ [])
    (hrest : rest ≠ []) :
    rooted (first ++ rest) = rooted first ++ "/" ++ String.ofList (joinSegments rest) := by
  have hname : (String.ofList (joinSegments rest)).toList = joinSegments rest :=
    String.toList_ofList
  rw [← String.toList_inj, toList_rooted_eq_lead (by simp [hfirst]), String.toList_append,
    String.toList_append, toList_rooted_eq_lead hfirst, lead_append, ← lead_eq_joinSegments hrest,
    hname, List.append_assoc]
  rfl

/-- A file is what the names of its normal path lead to. -/
theorem exists_names_of_isFile (hfile : disk.isFile path = true) (hback : '\\' ∉ path.toList) :
    ∃ names content, (∀ s ∈ names, Path.IsName s) ∧ (∀ s ∈ names, '\\' ∉ s) ∧
      Path.normalize path = Path.rooted names ∧ disk.below? names = some (.file content) := by
  rw [FileTree.isFile, FileTree.find?] at hfile
  cases hlocate : disk.locate path with
  | error e =>
    rw [hlocate] at hfile
    cases hfile
  | ok p =>
    have hnormal := Path.normalize_eq_rooted (FileTree.isAbsolute_of_locate hlocate) hback
    have hbelow := FileTree.below?_names hlocate
    rw [FileTree.Place.names_of_locate hlocate] at hbelow
    simp only [hlocate, Except.toOption, Option.map_some] at hfile
    cases htree : p.tree with
    | directory entries =>
      rw [htree] at hfile
      cases hfile
    | file content =>
      rw [htree] at hbelow
      refine ⟨Path.resolved path, content, Path.isName_resolved path, ?_, hnormal, hbelow⟩
      intro s hs hmem
      rcases Path.mem_resolve hs with hsegment | rfl
      · exact hback (Path.mem_of_mem_splitSegments hsegment hmem)
      · simp [Path.dots] at hmem

/-! ## 4. Files below a root

A file that is matched lies below the root of the walk, by the names that its path begins with.  The
walk comes to it if it enters the directories in between, and an exclusion that keeps it from one of
them matches the file as well. -/

/-- The patterns that the exclusions of a configuration mean. -/
def exclusionGlobs (excluding : FileList) : List Glob :=
  (excluding.items.flatMap (exclusionTexts excluding.dir)).filterMap Glob.parse?

/-- **A directory above a file that is not excluded is not excluded.** -/
theorem not_excluded_above {excluding : FileList} {above rest : String}
    (h : Glob.anyMatch (exclusionGlobs excluding) (above ++ "/" ++ rest) = false) :
    Glob.anyMatch (exclusionGlobs excluding) above = false := by
  rw [Bool.eq_false_iff] at h ⊢
  intro hany
  obtain ⟨g, hg, hmatch⟩ := List.any_eq_true.mp hany
  obtain ⟨text, htext, hparse⟩ := List.mem_filterMap.mp hg
  obtain ⟨pattern, hpattern, htext⟩ := List.mem_flatMap.mp htext
  obtain ⟨text', htext', g', hparse', hmatch'⟩ := excluded_below htext hparse hmatch rest
  refine h (List.any_eq_true.mpr ⟨g', ?_, hmatch'⟩)
  exact List.mem_filterMap.mpr ⟨text', List.mem_flatMap.mpr ⟨pattern, hpattern, htext'⟩, hparse'⟩

/-- **A walk that starts above a file finds it**, unless an exclusion matches the file. -/
theorem mem_filesKeeping {root : String} {p : FileTree.Place} {excluding : FileList}
    {others : List (List Char)} {content : List UInt8}
    (hroot : disk.locate root = .ok p) (hback : '\\' ∉ root.toList)
    (hothers : ∀ s ∈ others, Path.IsName s) (hbacks : ∀ s ∈ others, '\\' ∉ s)
    (hpath : path = Path.rooted (p.names ++ others))
    (hfile : p.tree.below? others = some (.file content))
    (hexcluded : Glob.anyMatch (exclusionGlobs excluding) path = false) :
    path ∈ (disk.filesKeeping
      (fun below => !Glob.anyMatch (exclusionGlobs excluding) (Path.normalize below)) root).map
        Path.normalize := by
  have habsolute := FileTree.isAbsolute_of_locate hroot
  have hnames := FileTree.Place.names_of_locate hroot
  have hnormal : ∀ first rest, others = first ++ rest →
      Path.normalize (Path.chain root first) = Path.rooted (p.names ++ first) := by
    intro first rest hsplit
    rw [hnames]
    refine Path.normalize_chain habsolute ?_ hback ?_
    · exact fun s hs => hothers s (hsplit ▸ List.mem_append_left _ hs)
    · exact fun s hs => hbacks s (hsplit ▸ List.mem_append_left _ hs)
  have hfind : disk.find? root = some p.tree := by
    rw [FileTree.find?, hroot]
    rfl
  refine List.mem_map.mpr ⟨Path.chain root others, ?_, ?_⟩
  · rw [FileTree.filesKeeping, hfind]
    refine FileTree.mem_walk hfile fun first rest hsplit hne => ?_
    rw [hnormal first rest hsplit, Bool.not_eq_true']
    by_cases hrest : rest = []
    · rw [hrest, List.append_nil] at hsplit
      rw [← hsplit, ← hpath]
      exact hexcluded
    · have hbelow : path = Path.rooted (p.names ++ first) ++ "/" ++
          String.ofList (Path.joinSegments rest) := by
        rw [← Path.rooted_append (by simp [hne]) hrest, List.append_assoc, ← hsplit, hpath]
      rw [hbelow] at hexcluded
      exact not_excluded_above hexcluded
  · rw [hnormal others [] (List.append_nil _).symm, hpath]

/-- A path that begins with a directory and some parts leads through them. -/
theorem exists_root_of_starts {dir : String} {names parts : List (List Char)} {content : List UInt8}
    {more : List Char} (hdir : Grounded disk dir) (hnames : ∀ s ∈ names, Path.IsName s)
    (hpath : path = Path.rooted names) (hfile : disk.below? names = some (.file content))
    (hstarts : path.toList = patternDir dir ++ Path.lead parts ++ '/' :: more)
    (hslashes : ∀ s ∈ parts, '/' ∉ s) (hbacks : ∀ s ∈ parts, '\\' ∉ s) :
    ∃ p others, disk.locate (Path.chain dir parts) = .ok p ∧
      '\\' ∉ (Path.chain dir parts).toList ∧ names = p.names ++ others ∧
      p.tree.below? others = some (.file content) := by
  have habsolute := hdir.isAbsolute
  obtain ⟨p, entries, hp, -⟩ := hdir.there
  have hbelow := FileTree.below?_names hp
  rw [FileTree.Place.names_of_locate hp] at hbelow
  have hne : names ≠ [] := by
    -- a path of no names is the root, which is no file
    rintro rfl
    obtain ⟨q, entries, hq, hdirectory⟩ := FileTree.hasDirectory_root hdir.there
    have hroot := FileTree.below?_names hq
    have hnone : Path.resolved "/" = [] := rfl
    rw [FileTree.Place.names_of_locate hq, hnone, hfile, hdirectory] at hroot
    cases hroot
  have hlead : Path.lead names = Path.lead (Path.resolved dir ++ parts) ++ '/' :: more := by
    rw [← Path.toList_rooted_eq_lead hne, ← hpath, hstarts, Path.lead_append, patternDir,
      Path.normalize_eq_rooted habsolute hdir.no_backslash,
      dropSlashes_rooted (Path.isName_resolved dir)]
  obtain ⟨others, rfl⟩ : ∃ others, names = Path.resolved dir ++ parts ++ others := by
    refine Path.exists_of_lead_eq (fun s hs => (hnames s hs).no_slash) ?_ hlead
    intro s hs
    rcases List.mem_append.mp hs with hs | hs
    · exact (Path.isName_resolved dir s hs).no_slash
    · exact hslashes s hs
  have hparts : ∀ s ∈ parts, Path.IsName s := fun s hs =>
    hnames s (List.mem_append_left _ (List.mem_append_right _ hs))
  rw [List.append_assoc, FileTree.below?_append, hbelow, Option.bind_some, FileTree.below?_append,
    Option.bind_eq_some_iff] at hfile
  obtain ⟨t, ht, hfile⟩ := hfile
  obtain ⟨q, hq, rfl⟩ := FileTree.locate_chain hp hparts ht
  refine ⟨q, others, hq, Path.no_backslash_chain habsolute hparts hdir.no_backslash hbacks, ?_,
    hfile⟩
  rw [FileTree.Place.names_of_locate hq, Path.resolved_chain habsolute hparts]

/-- **The root of a walk is on the way to what its pattern matches.** -/
theorem exists_root {dir pattern : String} {g : Glob} {names : List (List Char)}
    {content : List UInt8}
    (hdir : Grounded disk dir) (hroot : hasPlainRoot dir pattern = true)
    (hglob : (Inclusion.of dir pattern).glob = some g) (hmatch : g.isMatch path = true)
    (hnames : ∀ s ∈ names, Path.IsName s) (hpath : path = Path.rooted names)
    (hfile : disk.below? names = some (.file content)) :
    ∃ p others, disk.locate (Inclusion.of dir pattern).root = .ok p ∧
      '\\' ∉ (Inclusion.of dir pattern).root.toList ∧ names = p.names ++ others ∧
      p.tree.below? others = some (.file content) := by
  have hground := hdir.anchor pattern
  obtain ⟨behind, hpattern⟩ := exists_pattern_eq (expanded (anchor dir pattern).2)
  rw [glob_of] at hglob
  obtain ⟨more, hmore⟩ := Glob.starts_of_globText hpattern
    (fun s hs c hc => isPlain_of_hasPlainRoot hroot hs hc) hglob hmatch
  have hslashes : ∀ s ∈ rootParts (expanded (anchor dir pattern).2), '/' ∉ s := fun s hs =>
    Path.no_slash_of_mem_splitSegments
      ((List.dropLast_sublist _).mem ((List.takeWhile_sublist _).mem hs))
  have hbacks : ∀ s ∈ rootParts (expanded (anchor dir pattern).2), '\\' ∉ s := fun s hs =>
    (no_sign_of_hasPlainRoot hroot hs).2
  rw [root_of]
  generalize rootParts (expanded (anchor dir pattern).2) = parts at hmore hslashes hbacks ⊢
  generalize (anchor dir pattern).1 = above at hground hmore ⊢
  exact exists_root_of_starts hground hnames hpath hfile hmore hslashes hbacks

/-! ## 5. The files of a configuration

What the walks find is put together, sorted, and freed of repetitions, which loses nothing. -/

section Repetitions

variable {α : Type} [BEq α]

/-- What was found before the loop only stands before what it finds. -/
theorem eraseReps_loop (a : α) (rest found : List α) :
    List.eraseRepsBy.loop (· == ·) a rest found
      = found.reverse ++ List.eraseRepsBy.loop (· == ·) a rest [] := by
  induction rest generalizing a found with
  | nil => simp [List.eraseRepsBy.loop]
  | cons b rest ih =>
    rw [List.eraseRepsBy.loop, List.eraseRepsBy.loop]
    split
    · exact ih a found
    · rw [ih b (a :: found), ih b [a], List.reverse_cons, List.append_assoc]
      rfl

variable [LawfulBEq α]

/-- **Repetitions are dropped one by one**: an element goes if the next one is the same.  All that
is needed to know about dropping them follows from this by induction on the list. -/
theorem eraseReps_cons_cons (a b : α) (rest : List α) :
    (a :: b :: rest).eraseReps
      = if a == b then (b :: rest).eraseReps else a :: (b :: rest).eraseReps := by
  show List.eraseRepsBy.loop (· == ·) a (b :: rest) [] = _
  rw [List.eraseRepsBy.loop]
  cases hsame : a == b with
  | true =>
    rw [if_pos rfl, beq_iff_eq.mp hsame]
    rfl
  | false =>
    rw [if_neg Bool.false_ne_true]
    exact eraseReps_loop b rest [a]

/-- Nothing is lost with the repetitions, and nothing is added. -/
theorem mem_eraseReps {names : List α} {x : α} : x ∈ names.eraseReps ↔ x ∈ names := by
  induction names with
  | nil => exact Iff.rfl
  | cons a rest ih =>
    cases rest with
    | nil => exact Iff.rfl
    | cons b rest =>
      rw [eraseReps_cons_cons]
      split
      · next hsame =>
        rw [ih, beq_iff_eq.mp hsame]
        simp
      · rw [List.mem_cons, ih, ← List.mem_cons]

end Repetitions

/-- What the patterns of a configuration choose is among its files. -/
theorem mem_filesOfConfig_of_matching {files including excluding : FileList} {o : CompilerOptions}
    (h : path ∈ filesMatching disk including excluding o) :
    path ∈ filesOfConfig disk files including excluding o := by
  refine mem_eraseReps.mpr ?_
  rw [sortedNames, List.mem_mergeSort]
  exact List.mem_append_right _ h

/-- **No file is lost.**  A file whose normal path a pattern of the configuration matches, and no
exclusion, is one of the files of the configuration, if the walk of that pattern starts from plain
parts.  A walk does enter all directories on the way, and it finds the file under its own path. -/
theorem mem_filesOfConfig {files including excluding : FileList} {o : CompilerOptions}
    {pattern : String} {g : Glob} (hdir : disk.isDirectory including.dir = true)
    (hdirBack : '\\' ∉ including.dir.toList) (hfile : disk.isFile path = true)
    (hback : '\\' ∉ path.toList) (hadmits : o.admits (Path.normalize path) = true)
    (hpattern : pattern ∈ including.items) (hroot : hasPlainRoot including.dir pattern = true)
    (hglob : (Inclusion.of including.dir pattern).glob = some g)
    (hmatch : g.isMatch (Path.normalize path) = true)
    (hexcluded : Glob.anyMatch (exclusionGlobs excluding) (Path.normalize path) = false) :
    Path.normalize path ∈ filesOfConfig disk files including excluding o := by
  refine mem_filesOfConfig_of_matching ?_
  have hground : Grounded disk including.dir := ⟨FileTree.hasDirectory_iff.mp hdir, hdirBack⟩
  obtain ⟨names, content, hnames, hbacks, hpath, hbelow⟩ := exists_names_of_isFile hfile hback
  obtain ⟨p, others, hp, hrootBack, rfl, hothers⟩ :=
    exists_root hground hroot hglob hmatch hnames hpath hbelow
  have hfound := mem_filesKeeping hp hrootBack
    (fun s hs => hnames s (List.mem_append_right _ hs))
    (fun s hs => hbacks s (List.mem_append_right _ hs)) hpath hothers hexcluded
  have hinclusion : Inclusion.of including.dir pattern ∈
      including.items.map (Inclusion.of including.dir) := List.mem_map_of_mem hpattern
  refine List.mem_filter.mpr ⟨?_, ?_⟩
  · obtain ⟨x, hx, hxpath⟩ := List.mem_map.mp hfound
    refine List.mem_map.mpr ⟨x, List.mem_flatMap.mpr ⟨_, ?_, hx⟩, hxpath⟩
    exact List.mem_eraseDups.mpr (List.mem_map_of_mem hinclusion)
  · rw [Bool.and_eq_true]
    refine ⟨hadmits, List.any_eq_true.mpr ⟨g, ?_, hmatch⟩⟩
    exact List.mem_filterMap.mpr ⟨_, hinclusion, hglob⟩

/-- A workspace with an application and a script beside it. -/
def workspaceTree : FileTree :=
  .directory [("ws", .directory
    [("app", .directory [("main.ts", .file [])]), ("src", .directory [("a.ts", .file [])])])]

/-- A pattern that leaves the directory of its configuration and has a `/**/` behind its plain
part, and an exclusion that matches at any depth. -/
theorem mem_filesOfConfig_beside :
    (Inclusion.of "/ws/app" "../src/**/*.ts").glob.any
        (·.isMatch (Path.normalize "/ws/app/../src/a.ts")) = true ∧
      Path.normalize "/ws/app/../src/a.ts" ∈ filesOfConfig workspaceTree ⟨"/ws/app", []⟩
        ⟨"/ws/app", ["../src/**/*.ts"]⟩ ⟨"/ws/app", ["../**/node_modules"]⟩ {} := by
  have hmatch : (Inclusion.of "/ws/app" "../src/**/*.ts").glob.any
      (·.isMatch (Path.normalize "/ws/app/../src/a.ts")) = true := by
    decide +kernel
  obtain ⟨g, hglob, hg⟩ := (Option.any_eq_true _ _).mp hmatch
  exact ⟨hmatch, mem_filesOfConfig (by decide +kernel) (by decide +kernel) (by decide +kernel)
    (by decide +kernel) (by decide +kernel) (List.mem_singleton_self _) (by decide +kernel) hglob hg
    (by decide +kernel)⟩

/-- A backslash in a name is a slash in the normal path, and no walk finds `a` there. -/
example : let disk : FileTree := .directory [("ws", .directory [("a\\b.ts", .file [])])]
    Path.normalize "/ws/a\\b.ts" = "/ws/a/b.ts" ∧ disk.isFile "/ws/a\\b.ts" = true ∧
      (Inclusion.of "/ws" "a/*.ts").glob.any (·.isMatch "/ws/a/b.ts") = true ∧
      filesMatching disk ⟨"/ws", ["a/*.ts"]⟩ ⟨"/ws", []⟩ {} = [] := by
  decide +kernel

/-- **With a group in its first part a pattern finds nothing.**  The pattern matches the file, and
no exclusion does; but the walk starts from a directory named `{src,lib}`. -/
theorem not_mem_filesOfConfig_group :
    workspaceTree.isFile "/ws/src/a.ts" = true ∧
      Path.normalize "/ws/src/a.ts" = "/ws/src/a.ts" ∧
      CompilerOptions.admits {} "/ws/src/a.ts" = true ∧
      (Inclusion.of "/ws" "{src,lib}/**/*.ts").glob.any (·.isMatch "/ws/src/a.ts") = true ∧
      Glob.anyMatch (exclusionGlobs ⟨"/ws", []⟩) "/ws/src/a.ts" = false ∧
      (Inclusion.of "/ws" "{src,lib}/**/*.ts").root = "/ws/{src,lib}" ∧
      "/ws/src/a.ts" ∉ filesOfConfig workspaceTree ⟨"/ws", []⟩ ⟨"/ws", ["{src,lib}/**/*.ts"]⟩
        ⟨"/ws", []⟩ {} := by
  refine ⟨by decide +kernel, by decide +kernel, by decide +kernel, by decide +kernel,
    by decide +kernel, by decide +kernel, ?_⟩
  have hnone : filesMatching workspaceTree ⟨"/ws", ["{src,lib}/**/*.ts"]⟩ ⟨"/ws", []⟩ {} = [] := by
    decide +kernel
  rw [filesOfConfig, hnone, List.map_nil, List.append_nil, sortedNames, List.mergeSort_nil]
  exact List.not_mem_nil

end Files

end ComponentHost
