/-
# The extension that a module is reported with

A module is reported with its file and with the extension of the file.  The extension is not read
off the file that was found.  A path that is looked up under its own name is reported with the
extension of that name; if an extension was appended to the path, the module is reported with that
one.

The two agree as long as no longer suffix reaches back into the path.  The suffix of declarations,
`.d.ts`, ends in that of plain scripts, `.ts`, so it does for a path that ends in `.d`: with `.ts`
behind it the path is the name of a declaration file, and it is reported as a plain script
(`resolve_declaration_as_script`).  For all other paths the extension is that of the file
(`resolve_extension_iff`).  The paths in question are those that an extension is appended to
(`Resolver.stems`): the name itself and what manifests say, but no index file.
-/
import ComponentHost.Proofs.ModuleCandidates

namespace ComponentHost

/-! ## 1. Names with an extension appended

The extension of a name is found by its suffix.  Of the suffixes only one ends in another, so with
one exception a name has at most one of them. -/

namespace Extension

/-- How a path ends that is a declaration file with `.ts` behind it. -/
def declarationStem : String := ".d"

theorem mem_all (e : Extension) : e ∈ all := by
  cases e <;> decide

theorem toList_suffix_dts : dts.suffix.toList = declarationStem.toList ++ ts.suffix.toList := rfl

/-- **One suffix ends in another** only where that of declarations ends in that of scripts. -/
theorem eq_or_of_suffix {e e' : Extension} (h : e.suffix.toList <:+ e'.suffix.toList) :
    e = e' ∨ e = .ts ∧ e' = .dts := by
  revert h
  cases e <;> cases e' <;> decide

/-- Two suffixes of one name are the same, or those of scripts and of declarations. -/
theorem eq_or_of_endsWith {name : String} {e e' : Extension} (h : name.endsWith e.suffix)
    (h' : name.endsWith e'.suffix) : e = e' ∨ e = .ts ∧ e' = .dts ∨ e = .dts ∧ e' = .ts := by
  rw [Text.endsWith_iff] at h h'
  rcases Nat.le_total e.suffix.toList.length e'.suffix.toList.length with hle | hle
  · rcases eq_or_of_suffix (List.suffix_of_suffix_length_le h h' hle) with heq | hscript
    · exact Or.inl heq
    · exact Or.inr (Or.inl hscript)
  · rcases eq_or_of_suffix (List.suffix_of_suffix_length_le h' h hle) with heq | ⟨hscript, hdecl⟩
    · exact Or.inl heq.symm
    · exact Or.inr (Or.inr ⟨hdecl, hscript⟩)

theorem ofFileName?_of_dts {name : String} (h : name.endsWith dts.suffix) :
    ofFileName? name = some .dts :=
  List.find?_cons_of_pos h

/-- **The extension of a name** is the one whose suffix the name ends in; a name that ends in the
suffix of declarations is no plain script. -/
theorem ofFileName?_eq_some_iff {name : String} {e : Extension} :
    ofFileName? name = some e ↔ name.endsWith e.suffix ∧ (e = .ts → ¬ name.endsWith dts.suffix) := by
  have hsound : ∀ {e}, ofFileName? name = some e →
      name.endsWith e.suffix ∧ (e = .ts → ¬ name.endsWith dts.suffix) := by
    intro e hfound
    refine ⟨?_, ?_⟩
    · have hends := List.find?_some hfound
      exact hends
    · rintro rfl hends
      rw [ofFileName?_of_dts hends] at hfound
      cases hfound
  refine ⟨hsound, fun ⟨hends, hscript⟩ => ?_⟩
  cases hfound : ofFileName? name with
  | none => exact absurd hends (List.find?_eq_none.mp hfound e (mem_all e))
  | some e' =>
    obtain ⟨hends', hscript'⟩ := hsound hfound
    rcases eq_or_of_endsWith hends hends' with rfl | ⟨rfl, rfl⟩ | ⟨rfl, rfl⟩
    · rfl
    · exact absurd hends' (hscript rfl)
    · exact absurd hends (hscript' rfl)

/-- Only the stem of a declaration becomes one with `.ts` behind it. -/
theorem endsWith_dts_append {stem : String} :
    (stem ++ ts.suffix).endsWith dts.suffix ↔ stem.endsWith declarationStem := by
  rw [Text.endsWith_iff, Text.endsWith_iff, String.toList_append, toList_suffix_dts]
  constructor
  · rintro ⟨before, hbefore⟩
    rw [← List.append_assoc] at hbefore
    exact ⟨before, List.append_cancel_right hbefore⟩
  · rintro ⟨before, hbefore⟩
    exact ⟨before, by rw [← hbefore, List.append_assoc]⟩

/-- **A name with an extension appended has that extension**, unless it becomes that of a
declaration file. -/
theorem ofFileName?_append (stem : String) (e : Extension) :
    ofFileName? (stem ++ e.suffix) = some e ↔ ¬ (e = .ts ∧ stem.endsWith declarationStem) := by
  have hends : (stem ++ e.suffix).endsWith e.suffix := by
    rw [Text.endsWith_iff, String.toList_append]
    exact List.suffix_append _ _
  rw [ofFileName?_eq_some_iff, and_iff_right hends, not_and]
  refine forall_congr' fun hscript => not_congr ?_
  subst hscript
  exact endsWith_dts_append

end Extension

/-! ## 2. What candidates are reported with

A candidate carries the extension that it is reported with.  It is compared with that of its name
where the candidate is made: by appending an extension, by taking the path as it is, or as an index.
-/

namespace Candidates

/-- The paths that an extension is appended to when a path is looked up: the path, and those that
its manifest names. -/
def stems (untyped : Bool) (s : FileView) (path : String) : List String :=
  path :: targets untyped s path

/-- A candidate that is reported with another extension than that of its file. -/
def Misnamed (stems : List String) (c : String × Extension) : Prop :=
  ∃ stem ∈ stems, stem.endsWith Extension.declarationStem ∧ c = (stem ++ Extension.ts.suffix, .ts)

/-- A candidate stays misnamed among more paths. -/
theorem Misnamed.mono {stems stems' : List String} {c : String × Extension} (h : Misnamed stems c)
    (hstems : stems ⊆ stems') : Misnamed stems' c := by
  obtain ⟨stem, hstem, hc⟩ := h
  exact ⟨stem, hstems hstem, hc⟩

/-- What is misnamed is a declaration file that is reported as a script. -/
theorem Misnamed.ofFileName?_eq {stems : List String} {c : String × Extension}
    (h : Misnamed stems c) : Extension.ofFileName? c.1 = some .dts ∧ c.2 = .ts := by
  obtain ⟨stem, -, hends, rfl⟩ := h
  exact ⟨Extension.ofFileName?_of_dts (Extension.endsWith_dts_append.mpr hends), rfl⟩

theorem ofFileName?_of_mem_extended {untyped : Bool} {path : String} {c : String × Extension}
    (h : c ∈ extended untyped path) :
    Extension.ofFileName? c.1 = some c.2 ∨ Misnamed [path] c := by
  obtain ⟨e, -, rfl⟩ := List.mem_map.mp h
  by_cases hstem : e = .ts ∧ path.endsWith Extension.declarationStem
  · obtain ⟨rfl, hends⟩ := hstem
    exact Or.inr ⟨path, List.mem_singleton_self _, hends, rfl⟩
  · exact Or.inl ((Extension.ofFileName?_append path e).mpr hstem)

theorem ofFileName?_of_mem_ofFile {untyped : Bool} {path : String} {c : String × Extension}
    (h : c ∈ ofFile untyped path) : Extension.ofFileName? c.1 = some c.2 ∨ Misnamed [path] c := by
  rcases List.mem_append.mp h with hitself | hextended
  · obtain ⟨e, he, rfl⟩ := List.mem_map.mp hitself
    exact Or.inl (Option.mem_toList.mp (List.mem_filter.mp he).1)
  · exact ofFileName?_of_mem_extended hextended

/-- An index file is never the stem of a declaration. -/
theorem ofFileName?_of_mem_ofIndex {untyped : Bool} {dir : String} {c : String × Extension}
    (h : c ∈ ofIndex untyped dir) : Extension.ofFileName? c.1 = some c.2 := by
  rcases ofFileName?_of_mem_extended h with hright | ⟨stem, hstem, hends, -⟩
  · exact hright
  · rw [List.mem_singleton.mp hstem, Text.endsWith_iff] at hends
    have hindex : ['i', 'n', 'd', 'e', 'x'] <:+ (Path.join dir "index").toList :=
      Path.suffix_join dir "index" ⟨by decide, by decide, by decide, by decide⟩ (by decide)
    exact absurd (List.suffix_of_suffix_length_le hends hindex (by decide)) (by decide)

theorem ofFileName?_of_mem_ofPath {untyped : Bool} {s : FileView} {path : String}
    {c : String × Extension} (h : c ∈ ofPath untyped s path) :
    Extension.ofFileName? c.1 = some c.2 ∨ Misnamed (stems untyped s path) c := by
  rcases List.mem_append.mp h with hfile | hdirectory
  · exact (ofFileName?_of_mem_ofFile hfile).imp_right
      fun hwrong => hwrong.mono (by simp [stems])
  · split at hdirectory
    · rcases List.mem_append.mp hdirectory with htargets | hindex
      · obtain ⟨target, htarget, hc⟩ := List.mem_flatMap.mp htargets
        rcases List.mem_append.mp hc with hfile | hindex
        · refine (ofFileName?_of_mem_ofFile hfile).imp_right fun hwrong => hwrong.mono ?_
          simpa [stems] using Or.inr htarget
        · exact Or.inl (ofFileName?_of_mem_ofIndex hindex)
      · exact Or.inl (ofFileName?_of_mem_ofIndex hindex)
    · cases hdirectory

end Candidates

/-! ## 3. What modules are reported with

A name leads to one of the candidates of the paths that it stands for: one path for a relative name,
and two for each directory above in which packages may be. -/

namespace Resolver

/-- The paths that an extension is appended to when a name is looked up. -/
def stems (r : Resolver) (s : FileView) (name containing : String) : List String :=
  let dir := Path.directoryOf containing
  if Path.isRelativeName name || Path.isAbsolute name then
    Candidates.stems r.allowUntyped s (Path.join dir name)
  else
    (Path.directoriesAbove dir).flatMap fun above =>
      let packages := Path.join above "node_modules"
      Candidates.stems r.allowUntyped s (Path.join packages name) ++
        Candidates.stems false s (Path.join packages ("@types/" ++ name))

variable {r : Resolver} {s : FileView}

theorem ofFileName?_of_asPath? {typesOnly : Bool} {path : String} {c : String × Extension}
    (h : r.asPath? s typesOnly path = some c) : Extension.ofFileName? c.1 = some c.2 ∨
      Candidates.Misnamed (Candidates.stems (r.allowUntyped && !typesOnly) s path) c := by
  rw [asPath?_eq] at h
  exact Candidates.ofFileName?_of_mem_ofPath (List.mem_of_find?_eq_some h)

theorem ofFileName?_of_resolve {name containing : String} {t : ModuleTarget}
    (h : r.resolve s name containing = some t) :
    Extension.ofFileName? t.file = some t.extension ∨
      Candidates.Misnamed (r.stems s name containing) (t.file, t.extension) := by
  unfold resolve at h
  unfold stems
  dsimp only at h ⊢
  split at h
  · next hpath =>
    rw [if_pos hpath]
    obtain ⟨c, hc, rfl⟩ := Option.map_eq_some_iff.mp h
    simpa using ofFileName?_of_asPath? hc
  · next hpath =>
    rw [if_neg hpath]
    obtain ⟨c, hc, rfl⟩ := Option.map_eq_some_iff.mp h
    obtain ⟨above, habove, hc⟩ := List.exists_of_findSome?_eq_some hc
    rw [asPackage?_eq] at hc
    have hmem := List.mem_of_find?_eq_some hc
    unfold Candidates.ofPackages at hmem
    split at hmem
    · rcases List.mem_append.mp hmem with hpath | htypes
      · refine (Candidates.ofFileName?_of_mem_ofPath hpath).imp_right fun hwrong => hwrong.mono ?_
        exact fun stem hstem => List.mem_flatMap.mpr ⟨above, habove, List.mem_append_left _ hstem⟩
      · refine (Candidates.ofFileName?_of_mem_ofPath htypes).imp_right fun hwrong => hwrong.mono ?_
        exact fun stem hstem => List.mem_flatMap.mpr ⟨above, habove, List.mem_append_right _ hstem⟩
    · cases hmem

/-- **A module is reported with the extension of its file, or a declaration file as a script.**  The
second happens exactly if the file was found by appending `.ts` to a path that ends in `.d`. -/
theorem resolve_extension_iff {name containing : String} {t : ModuleTarget}
    (h : r.resolve s name containing = some t) :
    (Extension.ofFileName? t.file = some t.extension ∨
        Extension.ofFileName? t.file = some .dts ∧ t.extension = .ts) ∧
      (Extension.ofFileName? t.file = some t.extension ↔
        ¬ ∃ stem ∈ r.stems s name containing, stem.endsWith Extension.declarationStem ∧
          t.file = stem ++ Extension.ts.suffix ∧ t.extension = .ts) := by
  have hcases := ofFileName?_of_resolve h
  refine ⟨hcases.imp_right Candidates.Misnamed.ofFileName?_eq, ?_, ?_⟩
  · rintro hright ⟨stem, -, hends, hfile, hscript⟩
    rw [hfile, hscript] at hright
    exact (Extension.ofFileName?_append stem .ts).mp hright ⟨rfl, hends⟩
  · intro hnone
    refine hcases.resolve_right ?_
    rintro ⟨stem, hstem, hends, heq⟩
    exact hnone ⟨stem, hstem, hends, (Prod.mk.inj heq).1, (Prod.mk.inj heq).2⟩

/-- A package whose manifest names its declarations with `.d` and no more.  It is the path of the
manifest, and not the name of the package, that `.ts` is appended to. -/
theorem resolve_extension_iff_manifest :
    let s := FileView.ofTexts [("/p/node_modules/a/main.d.ts", ""),
      ("/p/node_modules/a/package.json", "\x7b\"types\":\"./main.d\"\x7d")]
    (Resolver.mk false).resolve s "a" "/p/c.ts"
        = some ⟨"/p/node_modules/a/main.d.ts", .ts, true⟩ ∧
      ∃ stem ∈ (Resolver.mk false).stems s "a" "/p/c.ts",
        stem.endsWith Extension.declarationStem ∧
          "/p/node_modules/a/main.d.ts" = stem ++ Extension.ts.suffix := by
  intro s
  have hfound : (Resolver.mk false).resolve s "a" "/p/c.ts"
      = some ⟨"/p/node_modules/a/main.d.ts", .ts, true⟩ := by
    decide +kernel
  refine ⟨hfound, ?_⟩
  by_contra hnone
  have hright : Extension.ofFileName? "/p/node_modules/a/main.d.ts" = some .ts :=
    (resolve_extension_iff hfound).2.mpr fun ⟨stem, hstem, hends, hfile, _⟩ =>
      hnone ⟨stem, hstem, hends, hfile⟩
  exact absurd hright (by decide +kernel)

/-- **A declaration file is reported as a script** to an import that leaves out only its `.ts`; to
one that leaves out its whole extension, or nothing of it, it is reported as what it is. -/
theorem resolve_declaration_as_script :
    let s := FileView.ofTexts [("/p/types.d.ts", "")]
    (["./types.d", "./types", "./types.d.ts"].map fun name => (Resolver.mk true).resolve s name "/p/main.ts")
        = [some ⟨"/p/types.d.ts", .ts, false⟩, some ⟨"/p/types.d.ts", .dts, false⟩,
          some ⟨"/p/types.d.ts", .dts, false⟩] ∧
      Extension.ofFileName? "/p/types.d.ts" = some .dts := by
  decide +kernel

end Resolver

end ComponentHost
