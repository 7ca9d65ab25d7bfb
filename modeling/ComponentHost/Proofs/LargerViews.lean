/-
# Names lead somewhere in larger views too

A file that is added can come in the way of a module name.  It can be a candidate that is tried
earlier, it can make a directory out of a path that had none, and it can be a manifest that sends
the search to other files.

None of this makes a name lead nowhere that led somewhere before.  The files to which a name can
lead are a list, and the list only grows with the view (`Candidates.ofPath_subset`): what a manifest
names is tried before the index of its directory and does not take the place of it, a directory is
looked at in addition to the file of the same path, and all the directories above are the same ones.
So a file that is found in the smaller view is still there to be found (`resolve_isSome_of_larger`).
Which file is found may well change.
-/
import ComponentHost.Proofs.ModuleCandidates

namespace ComponentHost

/-! ## 1. Larger views

A view is larger if it has all that the other one has.  That its texts are the same is part of it,
since a manifest with another text may lead elsewhere. -/

namespace FileView

/-- A view in which everything of another one is still there: its files, their texts and its
directories. -/
structure Within (s s' : FileView) : Prop where
  files : ∀ path, s.fileExists path → s'.fileExists path
  texts : ∀ path text, s.textOf? path = some text → s'.textOf? path = some text
  directories : ∀ path, s.directoryExists path → s'.directoryExists path

/-- Texts in memory, and more of them. -/
theorem within_ofTexts {files files' : Table String String}
    (h : ∀ path text, Table.get? files path = some text → Table.get? files' path = some text) :
    (ofTexts files).Within (ofTexts files') := by
  have hhas : ∀ path, Table.has files path → Table.has files' path := by
    intro path hpath
    obtain ⟨text, htext⟩ := Option.isSome_iff_exists.mp hpath
    exact Option.isSome_iff_exists.mpr ⟨text, h path text htext⟩
  refine ⟨hhas, h, fun path hpath => ?_⟩
  -- a directory is there because of some file below it
  obtain ⟨e, he, hbelow⟩ := List.any_eq_true.mp hpath
  have hkey : e.1 ∈ Table.keys files' :=
    Table.mem_keys_iff.mpr (hhas e.1 (Table.mem_keys_iff.mp (List.mem_map_of_mem he)))
  obtain ⟨e', he', hsame⟩ := List.mem_map.mp hkey
  exact List.any_eq_true.mpr ⟨e', he', by rw [hsame]; exact hbelow⟩

/-- Components as scripts, in both views. -/
theorem Within.withScripts {s s' : FileView} (h : s.Within s') :
    s.withScripts.Within s'.withScripts := by
  refine ⟨fun path hpath => ?_, fun path text htext => ?_, h.directories⟩
  · unfold FileView.withScripts at hpath ⊢
    dsimp only at hpath ⊢
    split
    · next hview =>
      rw [if_pos hview] at hpath
      exact h.files _ hpath
    · next hview =>
      rw [if_neg hview] at hpath
      exact h.files _ hpath
  · unfold FileView.withScripts at htext ⊢
    dsimp only at htext ⊢
    split
    · next hview =>
      rw [if_pos hview] at htext
      obtain ⟨component, hcomponent, rfl⟩ := Option.map_eq_some_iff.mp htext
      rw [h.texts _ _ hcomponent, Option.map_some]
    · next hview =>
      rw [if_neg hview] at htext
      exact h.texts _ _ htext

end FileView

/-! ## 2. More candidates

The candidates of a path are compared piece by piece, as they are put together.  Each piece is a
list that grows with the extensions that count and with the view; the order is not looked at. -/

namespace Candidates

section Extensions

variable {untyped untyped' : Bool} (huntyped : untyped → untyped')
include huntyped

/-- If untyped scripts come to count, there are more extensions. -/
theorem extensions_subset : extensions untyped ⊆ extensions untyped' := by
  intro e he
  rcases List.mem_append.mp he with htyped | hplain
  · exact List.mem_append_left _ htyped
  · refine List.mem_append_right _ ?_
    cases untyped with
    | false => cases hplain
    | true => rwa [huntyped rfl]

theorem ofFile_subset (path : String) : ofFile untyped path ⊆ ofFile untyped' path := by
  have hextensions := extensions_subset huntyped
  refine List.append_subset.mpr
    ⟨List.subset_append_of_subset_left _ ?_, List.subset_append_of_subset_right _ ?_⟩
  · refine List.map_subset _ fun e he => ?_
    obtain ⟨hname, hknown⟩ := List.mem_filter.mp he
    refine List.mem_filter.mpr ⟨hname, ?_⟩
    exact List.contains_iff_mem.mpr (hextensions (List.contains_iff_mem.mp hknown))
  · exact List.map_subset _ hextensions

theorem ofIndex_subset (dir : String) : ofIndex untyped dir ⊆ ofIndex untyped' dir :=
  List.map_subset _ (extensions_subset huntyped)

theorem entries_subset (manifest : ManifestEntry) :
    entries untyped manifest ⊆ entries untyped' manifest := by
  intro target htarget
  rcases List.mem_append.mp htarget with htypes | hmain
  · exact List.mem_append_left _ htypes
  · refine List.mem_append_right _ ?_
    cases untyped with
    | false => cases hmain
    | true => rwa [huntyped rfl]

variable {s s' : FileView} (hview : s.Within s')
include hview

/-- A manifest that is there says the same; one that is new only adds paths. -/
theorem targets_subset (dir : String) : targets untyped s dir ⊆ targets untyped' s' dir := by
  intro target htarget
  obtain ⟨manifest, hmanifest, hentry⟩ := List.mem_flatMap.mp htarget
  obtain ⟨text, htext, hparse⟩ := Option.bind_eq_some_iff.mp (Option.mem_toList.mp hmanifest)
  have hsame : manifest ∈ ((s'.textOf? (Path.join dir "package.json")).bind
      ManifestEntry.parse?).toList := by
    rw [hview.texts _ _ htext, Option.bind_some, hparse]
    exact List.mem_singleton_self _
  exact List.mem_flatMap.mpr ⟨manifest, hsame, List.map_subset _ (entries_subset huntyped manifest) hentry⟩

theorem ofDirectory_subset (dir : String) :
    ofDirectory untyped s dir ⊆ ofDirectory untyped' s' dir := by
  refine List.append_subset.mpr
    ⟨List.subset_append_of_subset_left _ fun c hc => ?_,
      List.subset_append_of_subset_right _ (ofIndex_subset huntyped dir)⟩
  obtain ⟨target, htarget, hc⟩ := List.mem_flatMap.mp hc
  refine List.mem_flatMap.mpr ⟨target, targets_subset huntyped hview dir htarget, ?_⟩
  rcases List.mem_append.mp hc with hfile | hindex
  · exact List.mem_append_left _ (ofFile_subset huntyped target hfile)
  · exact List.mem_append_right _ (ofIndex_subset huntyped target hindex)

/-- **A path has no fewer candidates in a larger view.** -/
theorem ofPath_subset (path : String) : ofPath untyped s path ⊆ ofPath untyped' s' path := by
  intro c hc
  rcases List.mem_append.mp hc with hfile | hdirectory
  · exact List.mem_append_left _ (ofFile_subset huntyped path hfile)
  · refine List.mem_append_right _ ?_
    split at hdirectory
    · next hthere =>
      rw [if_pos (hview.directories path hthere)]
      exact ofDirectory_subset huntyped hview path hdirectory
    · cases hdirectory

/-- A name in packages has no fewer candidates in a larger view. -/
theorem ofPackages_subset (name dir : String) :
    ofPackages untyped s name dir ⊆ ofPackages untyped' s' name dir := by
  intro c hc
  unfold ofPackages at hc ⊢
  split at hc
  · next hthere =>
    rw [if_pos (hview.directories _ hthere)]
    rcases List.mem_append.mp hc with hpath | htypes
    · exact List.mem_append_left _ (ofPath_subset huntyped hview _ hpath)
    · exact List.mem_append_right _ (ofPath_subset id hview _ htypes)
  · cases hc

end Extensions

end Candidates

/-! ## 3. Names

The first candidate that exists is found if there is any, so more candidates and more files can only
help. -/

namespace Resolver

theorem firstOf_isSome_of_subset {s s' : FileView} (hview : s.Within s')
    {files files' : List (String × Extension)} (hfiles : files ⊆ files')
    (h : (firstOf s files).isSome) : (firstOf s' files').isSome := by
  obtain ⟨c, hc, hexists⟩ := List.find?_isSome.mp h
  exact List.find?_isSome.mpr ⟨c, hfiles hc, hview.files _ hexists⟩

/-- **A name that leads somewhere leads somewhere in a larger view.** -/
theorem resolve_isSome_of_within {r r' : Resolver} (hallow : r.allowUntyped → r'.allowUntyped)
    {s s' : FileView} (hview : s.Within s') {name containing : String}
    (h : (r.resolve s name containing).isSome) : (r'.resolve s' name containing).isSome := by
  unfold resolve at h ⊢
  dsimp only at h ⊢
  split at h
  · next hpath =>
    rw [if_pos hpath, Option.isSome_map, asPath?_eq]
    rw [Option.isSome_map, asPath?_eq] at h
    refine firstOf_isSome_of_subset hview (Candidates.ofPath_subset ?_ hview _) h
    simpa using hallow
  · next hpath =>
    rw [if_neg hpath, Option.isSome_map, List.findSome?_isSome_iff]
    rw [Option.isSome_map, List.findSome?_isSome_iff] at h
    obtain ⟨dir, hdir, hfound⟩ := h
    refine ⟨dir, hdir, ?_⟩
    rw [asPackage?_eq] at hfound ⊢
    exact firstOf_isSome_of_subset hview (Candidates.ofPackages_subset hallow hview name dir) hfound

/-- **Resolution is monotone.**  If a name leads to a file of some texts in memory, it leads to one
of any more texts, with or without components as scripts, also if untyped scripts come to count. -/
theorem resolve_isSome_of_larger {files files' : Table String String}
    (hlarger : ∀ path text, Table.get? files path = some text → Table.get? files' path = some text)
    {r r' : Resolver} (hallow : r.allowUntyped → r'.allowUntyped) (name containing : String) :
    ((r.resolve (.ofTexts files) name containing).isSome →
        (r'.resolve (.ofTexts files') name containing).isSome) ∧
      ((r.resolve (FileView.ofTexts files).withScripts name containing).isSome →
        (r'.resolve (FileView.ofTexts files').withScripts name containing).isSome) := by
  have hview := FileView.within_ofTexts hlarger
  exact ⟨resolve_isSome_of_within hallow hview, resolve_isSome_of_within hallow hview.withScripts⟩

/-- A package with an index and nothing else.  In the larger view a manifest sends the search to a
missing file, and a package of the same name stands nearer to the importing file; the name leads
there instead. -/
theorem resolve_isSome_of_larger_nearer :
    let files := [("/node_modules/a/index.ts", "")]
    let files' := [("/node_modules/a/index.ts", ""),
      ("/node_modules/a/package.json", "\x7b\"types\":\"missing\"\x7d"), ("/p/node_modules/a.js", "")]
    (Resolver.mk false).resolve (.ofTexts files) "a" "/p/c.ts"
        = some ⟨"/node_modules/a/index.ts", .ts, true⟩ ∧
      (Resolver.mk true).resolve (.ofTexts files') "a" "/p/c.ts"
        = some ⟨"/p/node_modules/a.js", .js, true⟩ ∧
      ((Resolver.mk true).resolve (.ofTexts files') "a" "/p/c.ts").isSome := by
  intro files files'
  have hlarger : ∀ path text, Table.get? files path = some text →
      Table.get? files' path = some text := by
    intro path text h
    simp only [files, Table.get?] at h
    split at h
    · next heq => simpa [files', Table.get?, heq] using h
    · cases h
  have hfound : (Resolver.mk false).resolve (.ofTexts files) "a" "/p/c.ts"
      = some ⟨"/node_modules/a/index.ts", .ts, true⟩ := by
    decide +kernel
  refine ⟨hfound, by decide +kernel, ?_⟩
  have hallow : (Resolver.mk false).allowUntyped → (Resolver.mk true).allowUntyped :=
    fun _ => rfl
  refine (resolve_isSome_of_larger hlarger hallow "a" "/p/c.ts").1 ?_
  rw [hfound]
  rfl

end Resolver

end ComponentHost
