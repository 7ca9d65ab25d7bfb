/-
# Components that are imported

A component that another file imports joins the project in two ways.  When a document is taken in,
the components that it imports by relative names join at once, if their files exist.  When the
compiler looks up such a name, it is looked up as any other: as a file with each extension, then as
a directory with a manifest or an index, among components as scripts.  That view is what makes the
second way lead to the component: the first extension that is tried is that of the view, so no file
or directory beside the component comes before it (`resolveModule_of_exists`).

The two ways part inside of packages, where components have no views.  No name leads to a component
there (`component_of_resolveModule`), while a document that imports one makes it join all the
same.  Everywhere else they agree, and on both sides the file decides alone (`leadsTo_iff`).
-/
import ComponentHost.Proofs.NormalPaths
import ComponentHost.Proofs.SameScripts

namespace ComponentHost

/-! ## 1. Relative names of components

What the two ways have in common: a relative name of a component leads from a directory to the path
of a component, and neither the bridge nor any extension is involved. -/

namespace Path

/-- The path that the name of a component stands for is that of one. -/
theorem isComponent_join (dir : String) {name : String} (h : isComponent name) :
    isComponent (join dir name) := by
  rw [isComponent_iff] at h
  unfold join
  split
  · exact isComponent_normalize h
  · refine isComponent_normalize ?_
    rw [String.toList_append]
    exact h.trans (List.suffix_append _ _)

/-- A relative name starts with a dot and not at the root. -/
theorem not_isAbsolute_of_isRelativeName {name : String} (h : isRelativeName name) :
    ¬ isAbsolute name := by
  intro habsolute
  rw [isAbsolute_iff] at habsolute
  have hdot : ∀ start : String, start.toList.head? = some '.' → name.startsWith start → False := by
    intro start hstart hname
    obtain ⟨rest, hrest⟩ := Text.startsWith_iff.mp hname
    rw [← hrest, List.head?_append, hstart, Option.some_or, Option.some.injEq] at habsolute
    exact absurd habsolute (by decide)
  simp only [isRelativeName, Bool.or_eq_true, beq_iff_eq] at h
  rcases h with ((hhere | habove) | rfl) | rfl
  · exact hdot _ rfl hhere
  · exact hdot _ rfl habove
  · exact absurd habsolute (by decide)
  · exact absurd habsolute (by decide)

/-- The name of a view is that of the view of its component. -/
theorem viewName_ofViewName {name : String} (h : isViewName name) :
    viewName (ofViewName name) = name := by
  obtain ⟨before, hname⟩ := exists_of_isViewName h
  rw [ofViewName_eq hname, viewName, ← String.toList_inj, String.toList_append,
    String.toList_ofList, hname]
  rfl

/-- A component that has a view is in no package. -/
theorem not_inPackages_ofViewName {name : String} (h : isViewName name) :
    ¬ inPackages (ofViewName name) := by
  have hout : (!inPackages name) = true := (Bool.and_eq_true_iff.mp h).2
  rw [← inPackages_viewName, viewName_ofViewName h]
  simpa using hout

end Path

theorem Extension.ofFileName?_of_isComponent {file : String} (h : Path.isComponent file) :
    Extension.ofFileName? file = none :=
  List.find?_eq_none.mpr fun _ _ hends => Extension.not_isComponent hends h

/-- The name of the bridge has no dot. -/
theorem Bridge.ne_moduleName_of_isComponent {name : String} (h : Path.isComponent name) :
    name ≠ Bridge.moduleName := by
  rintro rfl
  have hdot : '.' ∈ Bridge.moduleName.toList :=
    (Path.isComponent_iff.mp h).subset List.mem_cons_self
  simp [Bridge.moduleName] at hdot

/-! ## 2. Where such a name leads

Looking up goes through candidates in order.  The name of the view is the first of them, so if it
exists there is nothing else to look at.  And if the name leads to a component, it was by such a
view, which only exists if the component does and is in no package. -/

namespace FileView

/-- The view of a component outside of packages exists if the component does. -/
theorem fileExists_viewName (s : FileView) {file : String} (h : Path.isComponent file)
    (hout : ¬ Path.inPackages file) :
    s.withScripts.fileExists (Path.viewName file) = s.fileExists file := by
  obtain ⟨hview, hback⟩ := Path.isViewName_viewName h hout
  unfold withScripts
  dsimp only
  rw [if_pos hview, hback]

end FileView

namespace Resolver

/-- **The view of a component comes first.**  The component has no extension of its own, and the
extension of its view is the first that is tried. -/
theorem asFile?_component (r : Resolver) {s : FileView} {typesOnly : Bool} {file : String}
    (h : Path.isComponent file) (hout : ¬ Path.inPackages file) (hexists : s.fileExists file) :
    r.asFile? s.withScripts typesOnly file = some (Path.viewName file, .ts) := by
  have hfirst : ∃ rest, r.extensions typesOnly = .ts :: rest := by
    unfold extensions
    split
    · exact ⟨_, rfl⟩
    · exact ⟨_, rfl⟩
  obtain ⟨rest, hextensions⟩ := hfirst
  have hview : s.withScripts.fileExists (file ++ Extension.ts.suffix) = true :=
    (s.fileExists_viewName h hout).trans hexists
  have hfind : (Extension.ts :: rest).find? (fun e => s.withScripts.fileExists (file ++ e.suffix))
      = some .ts := List.find?_cons_of_pos hview
  unfold asFile?
  dsimp only
  rw [Extension.ofFileName?_of_isComponent h, hextensions, hfind]
  rfl

/-- A relative name is looked up from the directory of the file that imports it, and leads to the
view. -/
theorem resolve_component (r : Resolver) {s : FileView} {name containing : String}
    (hrelative : Path.isRelativeName name) (hcomponent : Path.isComponent name)
    (hout : ¬ Path.inPackages (Path.join (Path.directoryOf containing) name))
    (hexists : s.fileExists (Path.join (Path.directoryOf containing) name)) :
    r.resolve s.withScripts name containing
      = some ⟨Path.viewName (Path.join (Path.directoryOf containing) name), .ts, false⟩ := by
  have htarget := Path.isComponent_join (Path.directoryOf containing) hcomponent
  unfold resolve
  dsimp only
  rw [hrelative, Bool.true_or, if_pos rfl, asPath?, asFile?_component r htarget hout hexists]
  rfl

end Resolver

namespace Host

variable {h : Host} {s : FileView} {containing name : String}

/-- **A component that exists outside of packages is found**, under the extension of its script,
and joins the project. -/
theorem resolveModule_of_exists (hrelative : Path.isRelativeName name)
    (hcomponent : Path.isComponent name)
    (hout : ¬ Path.inPackages (Path.join (Path.directoryOf containing) name))
    (hexists : s.fileExists (Path.join (Path.directoryOf containing) name)) :
    (h.resolveModule s containing name).1
      = some ⟨Path.join (Path.directoryOf containing) name,
          .forComponent (h.scriptKind s (Path.join (Path.directoryOf containing) name)), false⟩ := by
  have htarget := Path.isComponent_join (Path.directoryOf containing) hcomponent
  obtain ⟨hview, hback⟩ := Path.isViewName_viewName htarget hout
  have hlookup : ¬ (Path.isAbsolute name || !Path.isComponent name) = true := by
    simp [Path.not_isAbsolute_of_isRelativeName hrelative, hcomponent]
  rw [resolveModule, if_neg (Bridge.ne_moduleName_of_isComponent hcomponent), if_neg hlookup,
    Resolver.resolve_component _ hrelative hcomponent hout hexists]
  dsimp only
  rw [if_pos hview, hback]

/-- **What a name leads to exists, if it is a component, and is in no package.** -/
theorem component_of_resolveModule {t : ModuleTarget}
    (ht : (h.resolveModule s containing name).1 = some t) (hcomponent : Path.isComponent t.file) :
    s.fileExists t.file ∧ ¬ Path.inPackages t.file := by
  refine ⟨(resolveModule_spec ht).1.resolve_left (ne_bridge_of_isComponent hcomponent), ?_⟩
  unfold resolveModule at ht
  split at ht
  · cases ht
    exact absurd hcomponent bridge_ordinary.1
  · split at ht
    · exact absurd hcomponent (Resolver.not_isComponent_of_resolve ht)
    · split at ht
      · cases ht
      · next found hfound =>
        -- without a view the file has the extension of a script
        split at ht
        · next hview =>
          cases ht
          exact Path.not_inPackages_ofViewName hview
        · cases ht
          exact absurd hcomponent (Resolver.not_isComponent_of_resolve hfound)

theorem mem_componentsOf {found : List (Option ModuleTarget)} {file : String} :
    file ∈ componentsOf found ↔
      (∃ t, some t ∈ found ∧ t.file = file) ∧ Path.isComponent file := by
  simp [componentsOf, List.mem_filter, List.mem_filterMap]

theorem mem_roots_resolveModules {names : List String} {file : String} :
    file ∈ (h.resolveModules s containing names).2.roots ↔
      file ∈ h.roots ∨ file ∈ componentsOf (h.resolveModules s containing names).1 := by
  rw [roots_resolveModules, ← joinedFiles_eq, mem_joinedFiles]

/-- **Imports of components lead to the components.**  Let a relative name be that of a component,
and let what it stands for be in no package.  If that file exists, it is what the name leads to,
under the extension of its script, and it is in the project afterwards, whatever else there is in
the view of the files and whatever other names are looked up.  If it does not exist, none of the
names leads to it, and it does not join. -/
theorem resolveModules_relative_component (h : Host) (s : FileView) (containing : String)
    (names : List String) (i : Nat) (name : String) (hname : names[i]? = some name)
    (hrelative : Path.isRelativeName name) (hcomponent : Path.isComponent name)
    (hout : ¬ Path.inPackages (Path.join (Path.directoryOf containing) name)) :
    let t := Path.join (Path.directoryOf containing) name
    let result := h.resolveModules s containing names
    Path.isComponent t ∧
    (s.fileExists t →
      result.1[i]? = some (some ⟨t, .forComponent (h.scriptKind s t), false⟩) ∧
        result.2.isRoot t) ∧
    (¬ s.fileExists t →
      (∀ target, some target ∈ result.1 → target.file ≠ t) ∧ (result.2.isRoot t ↔ h.isRoot t)) := by
  intro t result
  have htarget : Path.isComponent t := Path.isComponent_join (Path.directoryOf containing) hcomponent
  have hfound : result.1 = names.map fun name => (h.resolveModule s containing name).1 :=
    (h.resolveModules_spec s containing names).1
  have hroot : result.2.isRoot t ↔ h.isRoot t ∨ t ∈ componentsOf result.1 := by
    rw [isRoot_iff, isRoot_iff]
    exact mem_roots_resolveModules
  refine ⟨htarget, fun hexists => ?_, fun habsent => ?_⟩
  · have hat : result.1[i]? = some (some ⟨t, .forComponent (h.scriptKind s t), false⟩) := by
      rw [hfound, List.getElem?_map, hname, Option.map_some,
        resolveModule_of_exists hrelative hcomponent hout hexists]
    have hmem := List.mem_of_getElem? hat
    exact ⟨hat, hroot.mpr (Or.inr (mem_componentsOf.mpr ⟨⟨_, hmem, rfl⟩, htarget⟩))⟩
  · have hnone : ∀ target, some target ∈ result.1 → target.file ≠ t := by
      intro target hmem hfile
      rw [hfound] at hmem
      obtain ⟨name', -, hlookup⟩ := List.mem_map.mp hmem
      have hexists := (component_of_resolveModule hlookup (hfile ▸ htarget)).1
      exact habsent (hfile ▸ hexists)
    refine ⟨hnone, hroot.trans (or_iff_left fun hmem => ?_)⟩
    obtain ⟨⟨target, htargets, hfile⟩, -⟩ := mem_componentsOf.mp hmem
    exact hnone target htargets hfile

/-- Two components are looked up at once.  Beside each there are a script, declarations and a
directory with an index under its name, but only one of the components exists. -/
theorem resolveModules_relative_component_beside :
    let s := FileView.ofTexts [("/p/a.vue", "<script lang=\"ts\">let x</script>"),
      ("/p/a.vue.ts", ""), ("/p/a.vue.d.ts", ""), ("/p/a.vue/index.ts", ""),
      ("/p/b.vue.ts", ""), ("/p/b.vue.d.ts", ""), ("/p/b.vue/index.ts", "")]
    let h := ofWorkspace .empty "/" {} .bridging
    let result := h.resolveModules s "/p/c.ts" ["./b.vue", "./a.vue"]
    (s.fileExists "/p/a.vue" ∧ result.1[1]? = some (some ⟨"/p/a.vue", .ts, false⟩) ∧
        result.2.isRoot "/p/a.vue") ∧
      ¬ s.fileExists "/p/b.vue" ∧ (∀ target, some target ∈ result.1 → target.file ≠ "/p/b.vue") ∧
        ¬ result.2.isRoot "/p/b.vue" := by
  intro s h result
  have ha : Path.join (Path.directoryOf "/p/c.ts") "./a.vue" = "/p/a.vue" := by decide +kernel
  have hb : Path.join (Path.directoryOf "/p/c.ts") "./b.vue" = "/p/b.vue" := by decide +kernel
  have hfiles : s.fileExists "/p/a.vue" ∧ ¬ s.fileExists "/p/b.vue" := by decide +kernel
  have hkind : h.scriptKind s "/p/a.vue" = .ts := by decide +kernel
  have hbefore : ¬ h.isRoot "/p/b.vue" := by decide +kernel
  obtain ⟨-, hthere, -⟩ := resolveModules_relative_component h s "/p/c.ts" ["./b.vue", "./a.vue"] 1
    "./a.vue" rfl (by decide +kernel) (by decide +kernel) (by decide +kernel)
  obtain ⟨-, -, hmissing⟩ := resolveModules_relative_component h s "/p/c.ts" ["./b.vue", "./a.vue"] 0
    "./b.vue" rfl (by decide +kernel) (by decide +kernel) (by decide +kernel)
  rw [ha, hkind] at hthere
  rw [hb] at hmissing
  obtain ⟨hfound, hroot⟩ := hthere hfiles.1
  obtain ⟨hnone, hsame⟩ := hmissing hfiles.2
  exact ⟨⟨hfiles.1, hfound, hroot⟩, hfiles.2, hnone, fun hafter => hbefore (hsame.mp hafter)⟩

/-! ## 3. Components that a document imports

A document that is taken in is asked for its imports, and each that is the relative name of a
component makes that one join if there is such a file.  Packages are not asked about. -/

/-- The file that one import of a document makes join: the component that the import names, by a
relative name, if it exists. -/
def seed? (s : FileView) (file name : String) : Option String :=
  let t := Path.join (Path.directoryOf file) name
  if Path.isRelativeName name && Path.isComponent name && s.fileExists t then some t else none

/-- The components that join are decided import by import. -/
theorem importedComponents_eq (s : FileView) (file : String) (imports : List String) :
    importedComponents s file imports = imports.filterMap (seed? s file) := by
  unfold importedComponents
  dsimp only
  induction imports with
  | nil => rfl
  | cons m imports ih =>
    rw [List.filterMap_cons, ← ih, seed?]
    cases hnamed : Path.isRelativeName m && Path.isComponent m <;>
      cases hexists : s.fileExists (Path.join (Path.directoryOf file) m) <;>
        simp [hnamed, hexists]

theorem seed?_eq_some_iff {file : String} (hrelative : Path.isRelativeName name)
    (hcomponent : Path.isComponent name) :
    seed? s file name = some (Path.join (Path.directoryOf file) name) ↔
      s.fileExists (Path.join (Path.directoryOf file) name) := by
  simp [seed?, hrelative, hcomponent]

/-- The name leads from one file to the other. -/
def LeadsTo (h : Host) (s : FileView) (containing name file : String) : Prop :=
  ∃ e external, (h.resolveModules s containing [name]).1 = [some ⟨file, e, external⟩]

/-- **The relative name of a component leads to it** if it exists outside of packages. -/
theorem leadsTo_iff (hrelative : Path.isRelativeName name) (hcomponent : Path.isComponent name) :
    h.LeadsTo s containing name (Path.join (Path.directoryOf containing) name) ↔
      s.fileExists (Path.join (Path.directoryOf containing) name) ∧
        ¬ Path.inPackages (Path.join (Path.directoryOf containing) name) := by
  have hfound : (h.resolveModules s containing [name]).1
      = [(h.resolveModule s containing name).1] := (h.resolveModules_spec s containing [name]).1
  constructor
  · rintro ⟨e, external, hleads⟩
    rw [hfound, List.singleton_inj] at hleads
    exact component_of_resolveModule hleads (Path.isComponent_join _ hcomponent)
  · rintro ⟨hexists, hout⟩
    rw [resolveModule_of_exists hrelative hcomponent hout hexists] at hfound
    exact ⟨_, _, hfound⟩

/-- **Components join where they are found, but for those in packages.**  A document that is taken
in makes its own file join, if it is a component, and then one file for each import that has one.
For the relative name of a component this is the file that it stands for.  Outside of packages it
joins exactly if looking up the name leads to it, in this host or in any other.  Inside of packages
no lookup leads to it, but it joins if it exists. -/
theorem seed?_eq_some_iff_leadsTo (h : Host) (s : FileView) (now : Nat) (d : Document) :
    let imports := (h.indexed now d).1.layout.imports
    let after := (h.updateDocument s now d).2
    after.roots = h.roots ++ newFiles h.roots
      ((if Path.isComponent d.fileName then [d.fileName] else []) ++
        imports.filterMap (seed? s d.fileName)) ∧
    ∀ m ∈ imports, Path.isRelativeName m → Path.isComponent m →
      let t := Path.join (Path.directoryOf d.fileName) m
      (seed? s d.fileName m = some t → after.isRoot t) ∧
      (¬ Path.inPackages t → ∀ h' : Host,
        (seed? s d.fileName m = some t ↔ h'.LeadsTo s d.fileName m t)) ∧
      (Path.inPackages t → (seed? s d.fileName m = some t ↔ s.fileExists t) ∧
        ∀ h' : Host, ¬ h'.LeadsTo s d.fileName m t) := by
  intro imports after
  have hroots : after.roots = joinedFiles h.roots
      ((if Path.isComponent d.fileName then [d.fileName] else []) ++
        imports.filterMap (seed? s d.fileName)) := by
    rw [(h.joins_updateDocument s now d).roots, joinsOf, importedComponents_eq]
  refine ⟨hroots.trans (joinedFiles_eq _ _), fun m hm hrelative hcomponent => ⟨?_, ?_, ?_⟩⟩
  · intro hseed
    rw [isRoot_iff, hroots, mem_joinedFiles]
    exact Or.inr (List.mem_append_right _ (List.mem_filterMap.mpr ⟨m, hm, hseed⟩))
  · intro hout h'
    rw [seed?_eq_some_iff hrelative hcomponent, leadsTo_iff hrelative hcomponent]
    exact (and_iff_left hout).symm
  · intro hpackage
    refine ⟨seed?_eq_some_iff hrelative hcomponent, fun h' hleads => ?_⟩
    exact ((leadsTo_iff hrelative hcomponent).mp hleads).2 hpackage

/-- A document imports a component beside it, one in a package, and one that does not exist. -/
theorem seed?_eq_some_iff_leadsTo_three :
    let s := FileView.ofTexts [("/b.vue", ""), ("/node_modules/c.vue", "")]
    let uri : Uri := { scheme := "file", host := some "", path := "/a.vue" }
    let d : Document := ⟨uri, 1,
      "<script>import './b.vue'; import './node_modules/c.vue'; import './d.vue'</script>"⟩
    let h := ofWorkspace .empty "/" {} .bridging
    let after := (h.updateDocument s 0 d).2
    after.roots = ["/a.vue", "/b.vue", "/node_modules/c.vue"] ∧
      after.LeadsTo s "/a.vue" "./b.vue" "/b.vue" ∧
      ¬ after.LeadsTo s "/a.vue" "./node_modules/c.vue" "/node_modules/c.vue" ∧
      ¬ after.LeadsTo s "/a.vue" "./d.vue" "/d.vue" := by
  intro s uri d h after
  have himports : (h.indexed 0 d).1.layout.imports
      = ["./b.vue", "./node_modules/c.vue", "./d.vue"] := by decide +kernel
  have hfile : d.fileName = "/a.vue" := by decide +kernel
  have hstart : h.roots = [] := by decide +kernel
  have hseeds : seed? s "/a.vue" "./b.vue" = some "/b.vue" ∧ seed? s "/a.vue" "./d.vue" = none := by
    decide +kernel
  have htargets : ["./b.vue", "./node_modules/c.vue", "./d.vue"].map
      (Path.join (Path.directoryOf "/a.vue")) = ["/b.vue", "/node_modules/c.vue", "/d.vue"] := by
    decide +kernel
  simp only [List.map_cons, List.cons.injEq] at htargets
  obtain ⟨hroots, himport⟩ := seed?_eq_some_iff_leadsTo h s 0 d
  rw [himports, hfile] at hroots himport
  obtain ⟨-, hbeside, -⟩ := himport "./b.vue" (by simp) (by decide +kernel) (by decide +kernel)
  obtain ⟨-, -, hpackage⟩ := himport "./node_modules/c.vue" (by simp) (by decide +kernel)
    (by decide +kernel)
  obtain ⟨-, hmissing, -⟩ := himport "./d.vue" (by simp) (by decide +kernel) (by decide +kernel)
  rw [htargets.1] at hbeside
  rw [htargets.2.1] at hpackage
  rw [htargets.2.2.1, hseeds.2] at hmissing
  refine ⟨hroots.trans ?_, (hbeside (by decide +kernel) after).mp hseeds.1,
    (hpackage (by decide +kernel)).2 after, fun hleads => ?_⟩
  · rw [hstart]
    decide +kernel
  · cases (hmissing (by decide +kernel) after).mpr hleads

/-- **A component in a package joins and is not found.**  It exists, and the document imports it by
a relative name. -/
theorem seed_in_package_not_found :
    let s := FileView.ofTexts [("/node_modules/b.vue", "")]
    let uri : Uri := { scheme := "file", host := some "", path := "/a.vue" }
    let d : Document := ⟨uri, 1, "<script>import './node_modules/b.vue'</script>"⟩
    let h := ofWorkspace .empty "/" {} .bridging
    let after := (h.updateDocument s 0 d).2
    (h.indexed 0 d).1.layout.imports = ["./node_modules/b.vue"] ∧
      Path.join (Path.directoryOf d.fileName) "./node_modules/b.vue" = "/node_modules/b.vue" ∧
      h.roots = [] ∧ after.roots = ["/a.vue", "/node_modules/b.vue"] ∧
      (after.resolveModules s d.fileName ["./node_modules/b.vue"]).1 = [none] := by
  decide +kernel

end Host

end ComponentHost
