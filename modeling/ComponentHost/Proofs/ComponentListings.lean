/-
# Components among listed files

In the view with scripts a component is there twice, as itself and as a script.  Three questions
about the script are answered by three rules: a path is asked for and loses its suffix, a text is
read and the path loses its suffix, a directory is listed and paths get the suffix.  Each rule has
its own test for installed packages.

The rules agree because the suffix takes a component to a place in the same directory and on the
same level (`Path.liesWithin_viewName`) and into no package (`Path.inPackages_viewName`), and
because the test for a script's name is met by exactly the names that a listing makes.  So a listing
has no path twice, lists only what exists, and lists each script that exists within the directory
(`FileView.listing_coherent`).  For this no file of the view below may have the name of a script:
such a file cannot be seen in the view with scripts, and would still be listed.
-/
import ComponentHost.Proofs.ComponentImports
import ComponentHost.Proofs.DirectoryListings

namespace ComponentHost

/-! ## 1. Where the script of a component lies

The suffix is added to the last name of a path and has no slash in it.  So nothing before that name
changes: the directories that hold the path are the same, and so is the level. -/

namespace Path

/-- What ends a path and has no slash ends its last name. -/
theorem suffix_of_suffix_append_slash {before last word : List Char} (hword : '/' ∉ word)
    (h : word <:+ before ++ '/' :: last) : word <:+ last := by
  rcases List.suffix_or_suffix_of_suffix h (List.suffix_append before ('/' :: last)) with hle | hle
  · rcases List.suffix_cons_iff.mp hle with rfl | hlast
    · exact absurd List.mem_cons_self hword
    · exact hlast
  · exact absurd (hle.subset List.mem_cons_self) hword

/-- More than two characters other than slashes are a name. -/
theorem isName_of_length {s : List Char} (hslash : '/' ∉ s) (h : 2 < s.length) : IsName s := by
  refine ⟨?_, ?_, ?_, hslash⟩
  · rintro rfl
    simp at h
  · rintro rfl
    simp [dot] at h
  · rintro rfl
    simp [dots] at h

/-- **The script of a component lies where the component does.** -/
theorem liesWithin_viewName {dir path : String} {depth : Option Nat} (h : isComponent path) :
    LiesWithin dir depth (viewName path) ↔ LiesWithin dir depth path := by
  have hview : (viewName path).toList = path.toList ++ ['.', 't', 's'] := String.toList_append
  have hending := isComponent_iff.mp h
  have hlead : ∀ (front : List (List Char)) (last : List Char),
      dropSlashes dir.toList ++ lead (front ++ [last])
        = (dropSlashes dir.toList ++ lead front) ++ '/' :: last := by
    intro front last
    simp
  constructor
  · rintro ⟨names, hne, hnames, hpath, hdepth⟩
    obtain ⟨front, last, rfl⟩ : ∃ front last, names = front ++ [last] :=
      ⟨_, _, (List.dropLast_concat_getLast hne).symm⟩
    have hslash := (hnames last (by simp)).no_slash
    rw [hlead, hview] at hpath
    -- the last name ends as the whole path does
    have hsuffix : ending ++ ['.', 't', 's'] <:+ last := by
      obtain ⟨before, hbefore⟩ := hending
      have hwhole : before ++ (ending ++ ['.', 't', 's'])
          = dropSlashes dir.toList ++ lead front ++ '/' :: last := by
        rw [← hpath, ← hbefore, List.append_assoc]
      exact suffix_of_suffix_append_slash (by decide) ⟨before, hwhole⟩
    obtain ⟨x, rfl⟩ := hsuffix
    have hcomponent : '/' ∉ x ++ ending := fun hmem => hslash (by
      rw [← List.append_assoc]
      exact List.mem_append_left _ hmem)
    refine ⟨front ++ [x ++ ending], by simp, ?_, ?_, by simpa using hdepth⟩
    · intro s hs
      rcases List.mem_append.mp hs with hs | hs
      · exact hnames s (List.mem_append_left _ hs)
      · rw [List.mem_singleton.mp hs]
        exact isName_of_length hcomponent (by simp [ending])
    · have hspelled : path.toList ++ ['.', 't', 's']
          = (dropSlashes dir.toList ++ lead (front ++ [x ++ ending])) ++ ['.', 't', 's'] := by
        rw [hpath]
        simp
      exact List.append_cancel_right hspelled
  · rintro ⟨names, hne, hnames, hpath, hdepth⟩
    obtain ⟨front, last, rfl⟩ : ∃ front last, names = front ++ [last] :=
      ⟨_, _, (List.dropLast_concat_getLast hne).symm⟩
    have hslash := (hnames last (by simp)).no_slash
    refine ⟨front ++ [last ++ ['.', 't', 's']], by simp, ?_, ?_, by simpa using hdepth⟩
    · intro s hs
      rcases List.mem_append.mp hs with hs | hs
      · exact hnames s (List.mem_append_left _ hs)
      · rw [List.mem_singleton.mp hs]
        exact isName_of_length (by simpa using hslash) (by simp)
    · rw [hview, hpath, hlead, hlead]
      simp

end Path

/-! ## 2. Scripts among the files

A listing with scripts has two parts, the files of the view below and the scripts of its components.
The second part is described here by the name that is asked for and not by the component that it
comes from, since existence is asked by name as well. -/

namespace FileView

variable {s : FileView} {dir path : String} {depth : Option Nat} {suffixes : List String}

theorem fileExists_withScripts_of_view (h : Path.isViewName path = true) :
    s.withScripts.fileExists path = s.fileExists (Path.ofViewName path) := if_pos h

theorem fileExists_withScripts_of_not_view (h : Path.isViewName path = false) :
    s.withScripts.fileExists path = s.fileExists path := if_neg (by simp [h])

/-- What is listed with scripts: the files, and the script of each component in no package. -/
theorem filesBelow_withScripts (hscripts : Path.viewSuffix ∈ suffixes) :
    s.withScripts.filesBelow dir suffixes depth = s.filesBelow dir suffixes depth ++
      ((s.filesBelow dir [".vue"] depth).filter (!Path.inPackages ·)).map Path.viewName :=
  if_pos (List.contains_iff_mem.mpr hscripts)

/-- **The scripts that are listed are those that are there.** -/
theorem mem_scripts_iff (h : s.ListsExactly dir depth) :
    path ∈ ((s.filesBelow dir [".vue"] depth).filter (!Path.inPackages ·)).map Path.viewName ↔
      Path.isViewName path = true ∧ s.fileExists (Path.ofViewName path) = true ∧
        Path.LiesWithin dir depth path := by
  have hcomponent : ∀ name, hasSuffix [".vue"] name = Path.isComponent name := by
    intro name
    simp [hasSuffix, Path.isComponent]
  rw [List.mem_map]
  constructor
  · rintro ⟨component, hmem, rfl⟩
    obtain ⟨hlisted, hout⟩ := List.mem_filter.mp hmem
    obtain ⟨hexists, hlies, hsuffix⟩ := (h.mem_iff [".vue"] component).mp hlisted
    rw [hcomponent] at hsuffix
    obtain ⟨hview, hback⟩ := Path.isViewName_viewName hsuffix (by simpa using hout)
    rw [hback]
    exact ⟨hview, hexists, (Path.liesWithin_viewName hsuffix).mpr hlies⟩
  · rintro ⟨hview, hexists, hlies⟩
    have hsuffix := Path.isComponent_ofViewName hview
    have hout := Path.not_inPackages_ofViewName hview
    have hback := Path.viewName_ofViewName hview
    rw [← hback, Path.liesWithin_viewName hsuffix] at hlies
    refine ⟨Path.ofViewName path, List.mem_filter.mpr ⟨?_, by simpa using hout⟩, hback⟩
    exact (h.mem_iff _ _).mpr ⟨hexists, hlies, (hcomponent _).trans hsuffix⟩

/-- No script is listed twice, since the name of the component can be told from it. -/
theorem nodup_scripts (h : s.ListsExactly dir depth) :
    (((s.filesBelow dir [".vue"] depth).filter (!Path.inPackages ·)).map Path.viewName).Nodup := by
  refine List.pairwise_map.mpr (((h.nodup [".vue"]).filter _).imp ?_)
  intro a b hne heq
  have hchars := congrArg String.toList heq
  rw [Path.viewName, Path.viewName, String.toList_append, String.toList_append] at hchars
  exact hne (String.toList_inj.mp (List.append_cancel_right hchars))

/-- Where what exists can be read, so can the scripts that exist. -/
theorem isSome_textOf?_withScripts (h : ∀ path, (s.textOf? path).isSome = s.fileExists path)
    (path : String) : (s.withScripts.textOf? path).isSome = s.withScripts.fileExists path := by
  cases hview : Path.isViewName path with
  | true =>
    rw [fileExists_withScripts_of_view hview, ← h, withScripts]
    simp [hview]
  | false =>
    rw [fileExists_withScripts_of_not_view hview, ← h, withScripts]
    simp [hview]

end FileView

/-! ## 3. The view of a disk

The conditions on the view below, for a disk.  That what exists can be read asks that files hold
text; that no file has the name of a script asks this of the names of entries. -/

namespace FileTree

mutual

/-- Are all files texts? -/
def holdsTexts : FileTree → Bool
  | .file content => (Utf8.decode? content).isSome
  | .directory entries => entriesHoldTexts entries

/-- Are all files at and below the entries of a directory texts? -/
def entriesHoldTexts : List (String × FileTree) → Bool
  | [] => true
  | (_, tree) :: rest => holdsTexts tree && entriesHoldTexts rest

end

theorem holdsTexts_of_lookup {entries : List (String × FileTree)} {name : String} {t : FileTree}
    (h : entriesHoldTexts entries = true) (hname : entries.lookup name = some t) :
    t.holdsTexts = true := by
  induction entries with
  | nil => cases hname
  | cons e entries ih =>
    obtain ⟨n, u⟩ := e
    rw [entriesHoldTexts, Bool.and_eq_true] at h
    rw [List.lookup_cons] at hname
    split at hname
    · cases hname
      exact h.1
    · exact ih h.2 hname

/-- What is found below a tree of texts is one. -/
theorem holdsTexts_of_below? {tree t : FileTree} {names : List (List Char)}
    (h : tree.holdsTexts = true) (hnames : tree.below? names = some t) : t.holdsTexts = true := by
  induction names generalizing tree with
  | nil =>
    cases hnames
    exact h
  | cons s names ih =>
    rw [below?, Option.bind_eq_some_iff] at hnames
    obtain ⟨u, hentry, hnames⟩ := hnames
    refine ih ?_ hnames
    cases tree with
    | file content => cases hentry
    | directory entries =>
      rw [holdsTexts] at h
      exact holdsTexts_of_lookup h hentry

/-- What ends a path to a file ends the name of the file. -/
theorem exists_last_of_isFile {root : FileTree} {path : String} {word : List Char}
    (hslash : '/' ∉ word) (hlong : 2 < word.length) (hfile : root.isFile path = true)
    (hends : word <:+ path.toList) :
    ∃ names last content, word <:+ last ∧ root.below? (names ++ [last]) = some (.file content) := by
  obtain ⟨p, content, hp, htree⟩ := isFile_iff.mp hfile
  obtain ⟨before, hbefore⟩ := hends
  obtain ⟨parts, last, hsplit⟩ := Text.splitAt_append hslash before
  rw [hbefore, ← Path.splitSegments_eq_splitAt] at hsplit
  have hname : Path.IsName (last ++ word) := by
    refine Path.isName_of_length ?_ (by simp; omega)
    exact Path.no_slash_of_mem_splitSegments (hsplit ▸ List.mem_append_right _ List.mem_cons_self)
  have hresolved : Path.resolved path
      = (parts.foldl (Path.push true) []).reverse ++ [last ++ word] := by
    rw [Path.resolved, hsplit, Path.resolve, List.foldl_append, List.foldl_cons, List.foldl_nil,
      Path.push_of_isName true _ hname, List.reverse_cons]
  have hbelow := below?_names hp
  rw [Place.names_of_locate hp, hresolved, htree] at hbelow
  exact ⟨_, last ++ word, content, List.suffix_append _ _, hbelow⟩

end FileTree

namespace FileView

variable {disk : FileTree}

/-- A disk of texts reads what exists. -/
theorem isSome_textOf?_ofDisk (h : disk.holdsTexts = true) (path : String) :
    ((ofDisk disk).textOf? path).isSome = (ofDisk disk).fileExists path := by
  change (disk.readText path).toOption.isSome = disk.isFile path
  rw [FileTree.readText, FileTree.readBytes, FileTree.isFile, FileTree.find?]
  cases hlocate : disk.locate path with
  | error e => rfl
  | ok p =>
    have htexts := FileTree.holdsTexts_of_below? h (FileTree.below?_names hlocate)
    cases htree : p.tree with
    | directory entries =>
      simp [htree, bind, Except.bind, throw, throwThe, MonadExceptOf.throw, Except.toOption]
    | file content =>
      rw [htree, FileTree.holdsTexts, Option.isSome_iff_exists] at htexts
      obtain ⟨cs, hcs⟩ := htexts
      simp [htree, hcs, bind, Except.bind, pure, Except.pure, Except.toOption]

/-- On a disk where no entry has such a name, no path to a file ends so. -/
theorem endsWith_of_ofDisk {path : String} {ending : String}
    (hslash : '/' ∉ ending.toList) (hlong : 2 < ending.toList.length)
    (h : disk.wellNamed (fun name => !name.endsWith ending) = true)
    (hexists : (ofDisk disk).fileExists path = true) : path.endsWith ending = false := by
  refine Bool.eq_false_iff.mpr fun hends => ?_
  obtain ⟨names, last, content, hlast, hbelow⟩ :=
    FileTree.exists_last_of_isFile hslash hlong hexists (Text.endsWith_iff.mp hends)
  have hname := (FileTree.wellNamed_of_below? h hbelow).1 last (by simp)
  have hends' : (String.ofList last).endsWith ending := by
    rw [Text.endsWith_iff, String.toList_ofList]
    exact hlast
  simp [hends'] at hname

/-! ## 4. The three questions

The result, for any view that lists what it has.  The two parts of the listing have no path in
common, for otherwise the view below had a file with the name of a script. -/

/-- **Listing, existence and reading agree on scripts.**  The view below lists what there is within
the directory and has no file with the name of a script.  Then the view with scripts lists no path
twice and only paths that exist, and it lists the name of a script outside of packages exactly if
the name lies within the directory and exists.  Wherever the view below reads exactly what exists,
so does the view with scripts. -/
theorem listing_coherent {s : FileView} {dir : String} {depth : Option Nat}
    {suffixes : List String} (h : s.ListsExactly dir depth)
    (hreal : ∀ path, s.fileExists path = true → path.endsWith ".vue.ts" = true →
      Path.inPackages path = true)
    (hscripts : Path.viewSuffix ∈ suffixes) :
    (s.withScripts.filesBelow dir suffixes depth).Nodup ∧
    (∀ path ∈ s.withScripts.filesBelow dir suffixes depth,
      s.withScripts.fileExists path = true) ∧
    (∀ path, path.endsWith ".vue.ts" = true → Path.inPackages path = false →
      (path ∈ s.withScripts.filesBelow dir suffixes depth ↔
        Path.LiesWithin dir depth path ∧ s.withScripts.fileExists path = true)) ∧
    ((∀ path, (s.textOf? path).isSome = s.fileExists path) →
      ∀ path, (s.withScripts.textOf? path).isSome = s.withScripts.fileExists path) := by
  have hfiles : ∀ path ∈ s.filesBelow dir suffixes depth,
      s.fileExists path = true ∧ Path.isViewName path = false := by
    intro path hpath
    have hexists := ((h.mem_iff _ _).mp hpath).1
    refine ⟨hexists, Bool.eq_false_iff.mpr fun hview => ?_⟩
    obtain ⟨hends, hout⟩ := Bool.and_eq_true_iff.mp hview
    simp [hreal path hexists hends] at hout
  rw [filesBelow_withScripts hscripts]
  refine ⟨List.nodup_append.mpr ⟨h.nodup _, nodup_scripts h, ?_⟩, ?_, ?_,
    isSome_textOf?_withScripts⟩
  · rintro path hfile _ hscript rfl
    have hview := ((mem_scripts_iff h).mp hscript).1
    rw [(hfiles path hfile).2] at hview
    cases hview
  · intro path hpath
    rcases List.mem_append.mp hpath with hfile | hscript
    · obtain ⟨hexists, hview⟩ := hfiles path hfile
      rw [fileExists_withScripts_of_not_view hview, hexists]
    · obtain ⟨hview, hexists, -⟩ := (mem_scripts_iff h).mp hscript
      rw [fileExists_withScripts_of_view hview, hexists]
  · intro path hends hout
    have hview : Path.isViewName path = true := by simp [Path.isViewName, hends, hout]
    rw [List.mem_append, mem_scripts_iff h, fileExists_withScripts_of_view hview]
    constructor
    · rintro (hfile | ⟨-, hexists, hlies⟩)
      · rw [(hfiles path hfile).2] at hview
        cases hview
      · exact ⟨hlies, hexists⟩
    · rintro ⟨hlies, hexists⟩
      exact .inr ⟨hview, hexists, hlies⟩

/-- Components on three levels, and one in a package. -/
def layeredTree : FileTree :=
  .directory [("p", .directory [("a.ts", .file []), ("b.vue", .file []),
    ("node_modules", .directory [("c.vue", .file [])]),
    ("s", .directory [("d.vue", .file []), ("t", .directory [("e.vue", .file [])])])])]

/-- On two levels, the scripts of the two components there are listed; the one in the package has no
script, and the one on the third level has one that is not listed. -/
theorem listing_coherent_layered :
    let s := ofDisk layeredTree
    let listed := s.withScripts.filesBelow "/p" [".ts"] (some 2)
    s.ListsExactly "/p" (some 2) ∧
      (∀ path, s.fileExists path = true → path.endsWith ".vue.ts" = true →
        Path.inPackages path = true) ∧
      Path.viewSuffix ∈ [".ts"] ∧ (∀ path, (s.textOf? path).isSome = s.fileExists path) ∧
      listed = ["/p/a.ts", "/p/b.vue.ts", "/p/s/d.vue.ts"] ∧ listed.Nodup ∧
      (∀ path ∈ listed, s.withScripts.fileExists path = true) ∧
      Path.LiesWithin "/p" (some 2) "/p/s/d.vue.ts" ∧
      (s.withScripts.textOf? "/p/s/t/e.vue.ts").isSome = true ∧
      ¬ Path.LiesWithin "/p" (some 2) "/p/s/t/e.vue.ts" := by
  intro s listed
  have hlists : s.ListsExactly "/p" (some 2) :=
    listsExactly_ofDisk (some 2) (by decide +kernel) (by decide +kernel) (by decide +kernel)
      (by decide +kernel)
  have hreal : ∀ path, s.fileExists path = true → path.endsWith ".vue.ts" = true →
      Path.inPackages path = true := by
    intro path hexists hends
    rw [endsWith_of_ofDisk (by decide) (by decide) (by decide +kernel) hexists] at hends
    cases hends
  have hscripts : Path.viewSuffix ∈ [".ts"] := List.mem_singleton_self _
  have htexts : ∀ path, (s.textOf? path).isSome = s.fileExists path :=
    isSome_textOf?_ofDisk (by decide +kernel)
  have hlisted : listed = ["/p/a.ts", "/p/b.vue.ts", "/p/s/d.vue.ts"] := by decide +kernel
  obtain ⟨hnodup, hexists, hiff, hread⟩ := listing_coherent hlists hreal hscripts
  refine ⟨hlists, hreal, hscripts, htexts, hlisted, hnodup, hexists, ?_, ?_, ?_⟩
  · refine ((hiff "/p/s/d.vue.ts" (by decide +kernel) (by decide +kernel)).mp ?_).1
    rw [show s.withScripts.filesBelow "/p" [".ts"] (some 2) = _ from hlisted]
    simp
  · rw [hread htexts]
    decide +kernel
  · intro hlies
    have hmem := (hiff "/p/s/t/e.vue.ts" (by decide +kernel) (by decide +kernel)).mpr
      ⟨hlies, by decide +kernel⟩
    rw [show s.withScripts.filesBelow "/p" [".ts"] (some 2) = _ from hlisted] at hmem
    simp at hmem

end FileView

end ComponentHost
