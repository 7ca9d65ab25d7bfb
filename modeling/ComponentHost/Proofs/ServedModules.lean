/-
# Modules that are found and modules that are served

The compiler asks the host twice about an import: where the name leads, and what the text of that
file is.  The two questions go to different views of the files.  The name of a component is looked
up among components as scripts, any other name among the files as they are; but the text of every
file that is no component is read among components as scripts, where a name such as `X.vue.ts`
stands for the script of `X.vue`.

What is found always exists (`fileExists_of_resolve`), and a component always has a text.  So the
two views can only part on a real file under the name of a view, and such a file is found by names
that are not those of components.  What is served of it is the script of the component, or nothing
if there is no such component (`serves_iff`).
-/
import ComponentHost.Proofs.ComponentNames
import ComponentHost.Proofs.HostRuns

namespace ComponentHost

/-! ## 1. What is found exists

There are many ways in which a name can lead to a file, and only one place where it is asked whether
the file exists. -/

namespace Resolver

variable {r : Resolver} {s : FileView} {typesOnly : Bool} {found : String × Extension}

theorem fileExists_of_asFile? {path : String} (h : r.asFile? s typesOnly path = some found) :
    s.fileExists found.1 := by
  unfold asFile? at h
  dsimp only at h
  split at h
  · next e hitself =>
    cases h
    exact (Bool.and_eq_true_iff.mp (Option.filter_eq_some_iff.mp hitself).2).2
  · obtain ⟨e, hfind, rfl⟩ := Option.map_eq_some_iff.mp h
    have hexists := List.find?_some hfind
    exact hexists

/-! Whichever way a name leads, it ends with a path that is looked up as a file. -/

theorem exists_asFile?_of_asDirectory? {dir : String}
    (h : r.asDirectory? s typesOnly dir = some found) :
    ∃ path, r.asFile? s typesOnly path = some found := by
  unfold asDirectory? at h
  split at h
  · rw [Option.orElse_eq_or] at h
    rcases Option.or_eq_some_iff.mp h with hmanifest | ⟨-, hindex⟩
    · obtain ⟨target, -, htarget⟩ := List.exists_of_findSome?_eq_some hmanifest
      rw [Option.orElse_eq_or] at htarget
      rcases Option.or_eq_some_iff.mp htarget with hfile | ⟨-, hindex⟩
      · exact ⟨target, hfile⟩
      · exact ⟨Path.join target "index", hindex⟩
    · exact ⟨Path.join dir "index", hindex⟩
  · cases h

theorem exists_asFile?_of_asPath? {path : String} (h : r.asPath? s typesOnly path = some found) :
    ∃ path, r.asFile? s typesOnly path = some found := by
  rw [asPath?, Option.orElse_eq_or] at h
  rcases Option.or_eq_some_iff.mp h with hfile | ⟨-, hdirectory⟩
  · exact ⟨path, hfile⟩
  · exact exists_asFile?_of_asDirectory? hdirectory

theorem exists_asFile?_of_asPackage? {name dir : String}
    (h : r.asPackage? s name dir = some found) :
    ∃ typesOnly path, r.asFile? s typesOnly path = some found := by
  unfold asPackage? at h
  dsimp only at h
  split at h
  · rw [Option.orElse_eq_or] at h
    rcases Option.or_eq_some_iff.mp h with hpath | ⟨-, htypes⟩
    · exact ⟨false, exists_asFile?_of_asPath? hpath⟩
    · exact ⟨true, exists_asFile?_of_asPath? htypes⟩
  · cases h

/-- **A name leads to what some path is as a file.** -/
theorem exists_asFile?_of_resolve {name containing : String} {t : ModuleTarget}
    (h : r.resolve s name containing = some t) :
    ∃ typesOnly path, r.asFile? s typesOnly path = some (t.file, t.extension) := by
  unfold resolve at h
  dsimp only at h
  split at h
  · obtain ⟨found, hfound, rfl⟩ := Option.map_eq_some_iff.mp h
    exact ⟨false, exists_asFile?_of_asPath? hfound⟩
  · obtain ⟨found, hfound, rfl⟩ := Option.map_eq_some_iff.mp h
    obtain ⟨dir, -, hdir⟩ := List.exists_of_findSome?_eq_some hfound
    exact exists_asFile?_of_asPackage? hdir

/-- **The file that a name leads to exists**, in the view in which the name was looked up. -/
theorem fileExists_of_resolve {name containing : String} {t : ModuleTarget}
    (h : r.resolve s name containing = some t) : s.fileExists t.file := by
  obtain ⟨typesOnly, path, hfile⟩ := exists_asFile?_of_resolve h
  exact fileExists_of_asFile? hfile

end Resolver

/-! ## 2. Names of components and names of their views

The two sorts of names are told apart by their ends. -/

namespace Path

/-- How the names of views end. -/
def viewEnding : List Char := ['.', 'v', 'u', 'e', '.', 't', 's']

theorem viewEnding_suffix_of_isViewName {name : String} (h : isViewName name) :
    viewEnding <:+ name.toList := by
  have hends : name.endsWith ".vue.ts" := (Bool.and_eq_true_iff.mp h).1
  exact Text.endsWith_iff.mp hends

/-- The name of a view is that of a component with an extension. -/
theorem exists_of_isViewName {name : String} (h : isViewName name) :
    ∃ before, name.toList = before ++ ending ++ ['.', 't', 's'] := by
  obtain ⟨before, hbefore⟩ := viewEnding_suffix_of_isViewName h
  refine ⟨before, ?_⟩
  rw [← hbefore, List.append_assoc]
  rfl

/-- No name is both that of a component and that of a view: they differ in the last character. -/
theorem not_isViewName_of_isComponent {name : String} (h : isComponent name) :
    ¬ isViewName name := by
  intro hview
  obtain ⟨before, hbefore⟩ := isComponent_iff.mp h
  obtain ⟨before', hbefore'⟩ := viewEnding_suffix_of_isViewName hview
  have hlast := congrArg List.getLast? (hbefore.trans hbefore'.symm)
  rw [List.getLast?_append, List.getLast?_append] at hlast
  cases hlast

/-- The component of a view is the name without the extension. -/
theorem ofViewName_eq {name : String} {before : List Char}
    (h : name.toList = before ++ ending ++ ['.', 't', 's']) :
    ofViewName name = String.ofList (before ++ ending) := by
  have hends : name.endsWith viewSuffix :=
    Text.endsWith_iff.mpr ⟨before ++ ending, h.symm⟩
  have hlength : name.length - viewSuffix.length = (before ++ ending).length := by
    have hsuffix : viewSuffix.length = 3 := by decide
    rw [← String.length_toList, h, List.length_append, hsuffix]
    exact Nat.add_sub_cancel _ 3
  rw [ofViewName, if_pos hends, hlength, h, List.take_left]

/-- A view is that of a component. -/
theorem isComponent_ofViewName {name : String} (h : isViewName name) :
    isComponent (ofViewName name) := by
  obtain ⟨before, hname⟩ := exists_of_isViewName h
  rw [ofViewName_eq hname, isComponent_iff, String.toList_ofList]
  exact List.suffix_append before ending

end Path

/-! ## 3. What is served

A host serves three sorts of texts: the bridge, scripts of components, and files as they are.  Only
for the last it matters whether the name is that of a view. -/

namespace Host

/-- The host has a text for the file; that of a file which is neither the bridge nor a component is
its own. -/
def Serves (h : Host) (s : FileView) (file : String) : Prop :=
  ∃ text, h.snapshot? s file = some text ∧
    (file ≠ Bridge.fileName → ¬ Path.isComponent file → s.textOf? file = some text)

theorem snapshot?_bridge (h : Host) (s : FileView) :
    h.snapshot? s Bridge.fileName = some h.bridge.content :=
  if_pos rfl

/-- Of a file that is neither the bridge nor a component its text is served, or the script of the
component whose view it is. -/
theorem snapshot?_plain (h : Host) (s : FileView) {file : String}
    (hbridge : file ≠ Bridge.fileName) (hfile : ¬ Path.isComponent file) :
    h.snapshot? s file
      = if Path.isViewName file then (s.textOf? (Path.ofViewName file)).map FileView.componentScript
        else s.textOf? file := by
  rw [snapshot?, if_neg hbridge, if_neg hfile]
  rfl

/-- **A file that can be read is served**, unless it has the name of a view and the view has another
text. -/
theorem serves_iff (h : Host) (s : FileView) {file : String}
    (hread : file = Bridge.fileName ∨ (s.textOf? file).isSome) :
    h.Serves s file ↔ (Path.isViewName file →
      (s.textOf? (Path.ofViewName file)).map FileView.componentScript = s.textOf? file) := by
  by_cases hbridge : file = Bridge.fileName
  · subst hbridge
    exact iff_of_true ⟨_, snapshot?_bridge h s, fun hne => absurd rfl hne⟩
      fun hname => absurd hname bridge_ordinary.2
  by_cases hcomponent : Path.isComponent file
  · exact iff_of_true ⟨_, snapshot?_component h s hcomponent, fun _ hne => absurd hcomponent hne⟩
      fun hname => absurd hname (Path.not_isViewName_of_isComponent hcomponent)
  -- what is left is read among components as scripts
  obtain ⟨own, hown⟩ := Option.isSome_iff_exists.mp (hread.resolve_left hbridge)
  have hsnapshot := snapshot?_plain h s hbridge hcomponent
  constructor
  · rintro ⟨text, htext, hsame⟩ hname
    rw [if_pos hname, htext] at hsnapshot
    rw [← hsnapshot, hsame hbridge hcomponent]
  · intro hsame
    refine ⟨own, ?_, fun _ _ => hown⟩
    rw [hsnapshot]
    split
    · next hname => rw [hsame hname, hown]
    · exact hown

/-! ## 4. Modules

The name of a component is looked up among components as scripts, and what is found there is given
back as the component; so it never is the name of a view. -/

/-- **All that a name can lead to**: the bridge, or a file that exists.  A file with the name of a
view is found only by a name that is not that of a component. -/
theorem resolveModule_spec {h : Host} {s : FileView} {containing name : String} {t : ModuleTarget}
    (ht : (h.resolveModule s containing name).1 = some t) :
    (t.file = Bridge.fileName ∨ s.fileExists t.file) ∧
      (Path.isViewName t.file → Path.isAbsolute name ∨ ¬ Path.isComponent name) := by
  unfold resolveModule at ht
  split at ht
  · cases ht
    exact ⟨Or.inl rfl, fun hview => absurd hview bridge_ordinary.2⟩
  · split at ht
    · next hplain =>
      refine ⟨Or.inr (Resolver.fileExists_of_resolve ht), fun _ => ?_⟩
      simpa using hplain
    · split at ht
      · cases ht
      · next found hfound =>
        have hexists : s.withScripts.fileExists found.file := Resolver.fileExists_of_resolve hfound
        unfold FileView.withScripts at hexists
        dsimp only at hexists
        split at ht
        · next hview =>
          cases ht
          rw [if_pos hview] at hexists
          have hcomponent := Path.isComponent_ofViewName hview
          exact ⟨Or.inr hexists, fun hagain =>
            absurd hagain (Path.not_isViewName_of_isComponent hcomponent)⟩
        · next hview =>
          cases ht
          rw [if_neg hview] at hexists
          exact ⟨Or.inr hexists, fun hagain => absurd hagain hview⟩

/-- Each of several names is looked up as it would be alone, in some host on the way. -/
theorem getElem?_resolveModules (h : Host) (s : FileView) (containing : String)
    {names : List String} {i : Nat} {name : String} (hname : names[i]? = some name) :
    ∃ h' : Host, (h.resolveModules s containing names).1[i]?
      = some (h'.resolveModule s containing name).1 := by
  induction names generalizing h i with
  | nil => cases hname
  | cons first rest ih =>
    cases i with
    | zero =>
      cases hname
      exact ⟨h, rfl⟩
    | succ i => exact ih _ hname

/-- **Modules that are found can be served, but for files that hide behind a view.**  Where files
that exist can be read, a name leads to the bridge or to a file that exists.  That file has a text,
and its own if it is neither the bridge nor a component, exactly if it has not the name of a view or
the view happens to have the same text; and only a name that is not that of a component leads to a
file with the name of a view. -/
theorem resolveModules_serves_iff (h : Host) (s : FileView)
    (hread : ∀ file, s.fileExists file → (s.textOf? file).isSome) (containing : String)
    (names : List String) :
    let result := h.resolveModules s containing names
    ∀ (i : Nat) (name : String) (t : ModuleTarget), names[i]? = some name →
      result.1[i]? = some (some t) →
      (t.file = Bridge.fileName ∨ s.fileExists t.file) ∧
      (result.2.Serves s t.file ↔ (Path.isViewName t.file →
        (s.textOf? (Path.ofViewName t.file)).map FileView.componentScript = s.textOf? t.file)) ∧
      (Path.isViewName t.file → Path.isAbsolute name ∨ ¬ Path.isComponent name) := by
  intro result i name t hname ht
  obtain ⟨h', hlookup⟩ := h.getElem?_resolveModules s containing hname
  have hfound : (h'.resolveModule s containing name).1 = some t :=
    Option.some.inj (hlookup.symm.trans ht)
  obtain ⟨hexists, hview⟩ := resolveModule_spec hfound
  exact ⟨hexists, serves_iff _ s (hexists.imp_right (hread t.file)), hview⟩

/-- Texts in memory that exist can be read. -/
theorem isSome_textOf?_ofTexts (files : Table String String) (file : String) :
    (FileView.ofTexts files).fileExists file → ((FileView.ofTexts files).textOf? file).isSome :=
  id

/-- A component, a declaration beside it and the bridge: the names of all three can be served. -/
theorem resolveModules_serves_iff_component :
    let s := FileView.ofTexts [("/p/App.vue", "<script>let a</script>"),
      ("/p/util.d.ts", "export const b = 1")]
    let h := ofWorkspace .empty "/" {} .bridging
    let result := h.resolveModules s "/p/main.ts" ["./App.vue", "./util", "vue-editor-bridge"]
    result.1 = [some ⟨"/p/App.vue", .js, false⟩, some ⟨"/p/util.d.ts", .dts, false⟩,
        some ⟨Bridge.fileName, .ts, false⟩] ∧
      result.2.Serves s "/p/App.vue" ∧ result.2.Serves s "/p/util.d.ts" := by
  intro s h result
  have hfound : result.1 = [some ⟨"/p/App.vue", .js, false⟩, some ⟨"/p/util.d.ts", .dts, false⟩,
      some ⟨Bridge.fileName, .ts, false⟩] := by decide +kernel
  have hserves := resolveModules_serves_iff h s (isSome_textOf?_ofTexts _) "/p/main.ts"
    ["./App.vue", "./util", "vue-editor-bridge"]
  refine ⟨hfound, ?_, ?_⟩
  · exact (hserves 0 _ ⟨"/p/App.vue", .js, false⟩ rfl (congrArg (·[0]?) hfound)).2.1.mpr
      fun hview => absurd hview (by decide +kernel)
  · exact (hserves 1 _ ⟨"/p/util.d.ts", .dts, false⟩ rfl (congrArg (·[1]?) hfound)).2.1.mpr
      fun hview => absurd hview (by decide +kernel)

/-- **A real file with the name of a view is found and not served**: without a component of that
name there is no text at all. -/
theorem resolveModules_not_served_view_name :
    let s := FileView.ofTexts [("/p/App.vue.ts", "export const a = 1")]
    let result := (ofWorkspace .empty "/" {} .bridging).resolveModules s "/p/main.ts" ["./App.vue.ts"]
    result.1 = [some ⟨"/p/App.vue.ts", .ts, false⟩] ∧
      s.textOf? "/p/App.vue.ts" = some "export const a = 1" ∧
      result.2.snapshot? s "/p/App.vue.ts" = none := by
  decide +kernel

end Host

end ComponentHost
