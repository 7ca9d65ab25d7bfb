/-
# Three ways to the script of a component

The compiler can come by the script of a component in three ways.  It can read the component under
the name of its view, as a file among others; it can ask the host for a component that was never
open, which reads the file and projects it; and once the component is open it is given the
projection of the document, through the cache of indexes.  Each way has its own test for scripts
that are blank, and its own idea of the language.

All three are projections of one text as long as nothing else has come in between.  Two things
could: a document of the file that the host has taken in, and an index of an earlier text in the
cache.  A run that never opens the component brings neither.  It leaves the state of its script
without a text (`unwritten_along`), and the cache without an index of any version of it
(`Cache.contains_run`).

The placeholder stands for blank scripts and for nothing else, although it is a text like any other:
no projection begins as the placeholder does, because the first block can only start behind a tag
(`ScriptView.ofText_ne_placeholder`).
-/
import ComponentHost.Proofs.ProjectionBytes
import ComponentHost.Proofs.RootGrowth

namespace ComponentHost

/-! ## 1. The view of a component

The name of a view is that of the component with a suffix.  It leads back to the component, and both
are in a package or neither is, because the suffix has no slash and the test looks for a directory.
-/

namespace Path

/-- A word reaches over no character that it does not have. -/
theorem prefix_append_cons_iff {word : List Char} {c : Char} (hc : c ∉ word)
    (before after : List Char) : word <+: before ++ c :: after ↔ word <+: before := by
  constructor
  · intro h
    rcases Nat.le_total word.length before.length with hle | hle
    · exact List.prefix_of_prefix_length_le h (List.prefix_append _ _) hle
    · obtain ⟨rest, rfl⟩ := List.prefix_of_prefix_length_le (List.prefix_append _ _) h hle
      -- what is left of the word stands at the character
      have hrest : rest <+: c :: after := (List.prefix_append_right_inj before).mp h
      cases rest with
      | nil => exact ⟨[], by simp⟩
      | cons d rest =>
        obtain ⟨rfl, -⟩ := List.cons_prefix_cons.mp hrest
        exact absurd (List.mem_append_right before List.mem_cons_self) hc
  · exact fun h => h.trans (List.prefix_append _ _)

/-- Across a character that the word does not have, it occurs on one side or on the other. -/
theorem occursIn_append {word : List Char} (hne : word ≠ []) {c : Char} (hc : c ∉ word)
    (before after : List Char) :
    occursIn word (before ++ c :: after) = (occursIn word before || occursIn word after) := by
  have hempty : word.isEmpty = false := List.isEmpty_eq_false_iff.mpr hne
  have hprefix : ∀ cs, word.isPrefixOf (cs ++ c :: after) = word.isPrefixOf cs := fun cs => by
    rw [Bool.eq_iff_iff, List.isPrefixOf_iff_prefix, List.isPrefixOf_iff_prefix,
      prefix_append_cons_iff hc]
  induction before with
  | nil =>
    have hnil : word.isPrefixOf [] = false := by
      cases word with
      | nil => exact absurd rfl hne
      | cons d word => rfl
    rw [List.nil_append, occursIn, occursIn, hempty, ← List.nil_append (c :: after), hprefix, hnil]
  | cons d before ih =>
    rw [List.cons_append, occursIn, occursIn, ih, ← List.cons_append, hprefix, Bool.or_assoc]

/-- The view of a component is in no package that the component is not in. -/
theorem inPackages_viewName (name : String) : inPackages (viewName name) = inPackages name := by
  have hname : (viewName name).toList = name.toList ++ '.' :: ['t', 's'] := String.toList_append
  have hrest : occursIn "node_modules".toList ['t', 's'] = false := rfl
  rw [inPackages, hname, occursIn_append (by simp) (by simp), hrest, Bool.or_false]
  rfl

/-- **Each component outside of packages has a view**, and the view leads back to it. -/
theorem isViewName_viewName {name : String} (h : isComponent name) (hout : ¬ inPackages name) :
    isViewName (viewName name) ∧ ofViewName (viewName name) = name := by
  obtain ⟨before, hbefore⟩ := isComponent_iff.mp h
  have hname : (viewName name).toList = before ++ ending ++ ['.', 't', 's'] := by
    rw [hbefore]
    exact String.toList_append
  constructor
  · refine Bool.and_eq_true_iff.mpr ⟨?_, ?_⟩
    · rw [Text.endsWith_iff, hname, List.append_assoc]
      exact List.suffix_append _ _
    · rw [inPackages_viewName, Bool.eq_false_iff.mpr hout]
      rfl
  · rw [ofViewName_eq hname, hbefore, String.ofList_toList]

end Path

/-! ## 2. The placeholder

That a script equals the placeholder must mean that it was put in place of a blank one.  The
placeholder begins with a letter, and no projection does. -/

/-- **No script is the placeholder.**  What stands first in a text is in no block, and so it is
blank in every projection. -/
theorem ScriptView.ofText_ne_placeholder (text : String) :
    (ScriptView.ofText text).text ≠ placeholderScript := by
  intro heq
  have hexact := Projection.isExact_ofLayout (.kind .script) text
  rw [show Projection.ofLayout (.kind .script) (.ofText text) text = placeholderScript from heq]
    at hexact
  have hfirst : (Utf8.bytes placeholderScript)[0]? = some 'e'.toUInt8 := rfl
  have hlength : 0 < (Utf8.bytes text).length := by
    rw [← hexact.length_eq]
    exact (List.getElem?_eq_some_iff.mp hfirst).1
  have hbyte := hexact.byte_eq 0 _ (List.getElem?_eq_getElem hlength)
  rw [hfirst, Option.some.injEq] at hbyte
  have hbehind : ∀ r ∈ (Layout.ofText text).regions.filter (Selector.kind .script).selects,
      ¬ r.start ≤ 0 := fun r hr hzero =>
    absurd (Layout.delimited_of_mem (List.mem_filter.mp hr).1).one_le_start (by omega)
  split at hbyte
  · next hkept =>
    rcases hkept with ⟨r, hr, hzero, -⟩ | hfeed | hreturn
    · exact hbehind r hr hzero
    · rw [hfeed] at hbyte
      exact absurd hbyte (by decide)
    · rw [hreturn] at hbyte
      exact absurd hbyte (by decide)
  · exact absurd hbyte (by decide)

/-- **The placeholder stands for blank scripts.**  Any other script is as long as its component. -/
theorem FileView.componentScript_spec (text : String) :
    (componentScript text = placeholderScript ↔ Text.isBlankText (ScriptView.ofText text).text) ∧
      (¬ Text.isBlankText (ScriptView.ofText text).text →
        (Utf8.bytes (componentScript text)).length = (Utf8.bytes text).length) := by
  unfold componentScript orPlaceholder
  split
  · next hblank => exact ⟨iff_of_true rfl hblank, fun hnot => absurd hblank hnot⟩
  · next hblank =>
    refine ⟨iff_of_false (ScriptView.ofText_ne_placeholder text) hblank, fun _ => ?_⟩
    exact (Projection.isExact_ofLayout (.kind .script) text).length_eq

/-! ## 3. Components that are never open

Two tables remember documents: the scripts and the cache.  For both it is shown that along a run
they only come to know documents that are opened in it. -/

/-- What is in a cache after an operation was in it before or is asked for. -/
theorem Cache.contains_perform {α : Type} {c : Cache α} (hc : WellKept c) {derive : Document → α}
    {op : Cache.Operation} {key : Fingerprint} (h : (c.perform derive op).contains key) :
    c.contains key ∨ ∃ d ∈ op.document?, d.fingerprint = key := by
  cases op with
  | get d now =>
    by_cases hkey : key = d.fingerprint
    · exact Or.inr ⟨d, rfl, hkey.symm⟩
    · refine Or.inl ?_
      rw [contains, Cache.perform, find?_get hc, if_neg hkey] at h
      split at h
      · exact h
      · cases h
  | removeDocument uri =>
    have hfilter := Table.get?_filter c.entries (fun k => !decide (k.uri = uri)) key
    rw [contains, show (c.perform derive (.removeDocument uri)).find? key = _ from hfilter] at h
    split at h
    · exact Or.inl h
    · cases h
  | clear => cases h

/-- **A cache has only versions that were asked for.** -/
theorem Cache.contains_run {α : Type} {c : Cache α} (hc : WellKept c) {derive : Document → α}
    {ops : List Cache.Operation} {key : Fingerprint} (h : (c.run derive ops).contains key) :
    c.contains key ∨ ∃ d ∈ ops.filterMap Operation.document?, d.fingerprint = key := by
  induction ops generalizing c with
  | nil => exact Or.inl h
  | cons op ops ih =>
    rcases ih (hc.perform derive op) h with hbefore | ⟨d, hd, hkey⟩
    · rcases contains_perform hc hbefore with hfirst | ⟨d, hd, hkey⟩
      · exact Or.inl hfirst
      · exact Or.inr ⟨d, List.mem_filterMap.mpr ⟨op, List.mem_cons_self, hd⟩, hkey⟩
    · obtain ⟨op', hop', hd'⟩ := List.mem_filterMap.mp hd
      exact Or.inr ⟨d, List.mem_filterMap.mpr ⟨op', List.mem_cons_of_mem _ hop', hd'⟩, hkey⟩

namespace Host

/-- What a run is to the cache of indexes. -/
def cacheOperationsAlong (events : List (FileView × Event)) : List Cache.Operation :=
  cacheOperations (events.map Prod.snd)

/-- The documents that are opened along a run: those that are written, and those whose index is
asked of the cache. -/
def openedAlong (events : List (FileView × Event)) : List Document :=
  documentsOf (cacheOperationsAlong events)

theorem cacheOperationsAlong_cons (event : FileView × Event) (events : List (FileView × Event)) :
    cacheOperationsAlong (event :: events)
      = event.2.cacheOperation?.toList ++ cacheOperationsAlong events := by
  rw [cacheOperationsAlong, List.map_cons, cacheOperations, List.filterMap_cons]
  cases event.2.cacheOperation? <;> rfl

theorem openedAlong_cons (event : FileView × Event) (events : List (FileView × Event)) :
    openedAlong (event :: events)
      = documentsOf event.2.cacheOperation?.toList ++ openedAlong events := by
  rw [openedAlong, cacheOperationsAlong_cons]
  exact List.filterMap_append

/-- The cache along a run is that of the uses that are made of it. -/
theorem regions_along (h : Host) (events : List (FileView × Event)) :
    (h.along events).regions = h.regions.run .ofDocument (cacheOperationsAlong events) := by
  induction events generalizing h with
  | nil => rfl
  | cons event events ih =>
    have hstep : (h.along (event :: events)).regions
        = ((h.follow event.1 event.2).along events).regions := rfl
    rw [hstep, ih, regions_follow, cacheOperationsAlong_cons]
    exact List.foldl_append.symm

/-- Nothing was written of the script. -/
structure Unwritten (h : Host) (file : String) : Prop where
  text : (h.stateOf file).text = none
  kind : (h.stateOf file).kind = none

theorem Unwritten.of_state {h h' : Host} {file : String} (hu : Unwritten h file)
    (hstate : h'.stateOf file = h.stateOf file) : Unwritten h' file :=
  ⟨by rw [hstate, hu.text], by rw [hstate, hu.kind]⟩

/-- **One event** that opens no document of the file. -/
theorem Unwritten.follow {h : Host} {file : String} (hu : Unwritten h file) (s : FileView)
    {event : Event} (hopens : ∀ d ∈ documentsOf event.cacheOperation?.toList, d.fileName ≠ file) :
    Unwritten (h.follow s event) file := by
  cases event with
  | edit now e =>
    cases e with
    | update d =>
      have hne : d.fileName ≠ file := hopens d List.mem_cons_self
      exact hu.of_state ((h.updateDocument_spec s now d).1.others file hne.symm)
    | touch path =>
      obtain ⟨version, hmoved⟩ := h.stateOf_touch path file
      exact ⟨(congrArg ScriptState.text hmoved).trans hu.text,
        (congrArg ScriptState.kind hmoved).trans hu.kind⟩
  | resolve containing names =>
    exact hu.of_state
      (stateOf_eq_of_scripts (h.alike_resolveModules s containing names).scripts file)
  | sourceFile path => exact hu.of_state (h.stateOf_sourceFile s path file)
  | index operation => exact hu.of_state rfl

/-- **A run** that opens no document of the file. -/
theorem unwritten_along {h : Host} {file : String} (hu : Unwritten h file)
    {events : List (FileView × Event)} (hnever : ∀ d ∈ openedAlong events, d.fileName ≠ file) :
    Unwritten (h.along events) file := by
  induction events generalizing h with
  | nil => exact hu
  | cons event events ih =>
    rw [openedAlong_cons] at hnever
    refine ih (hu.follow event.1 fun d hd => ?_) fun d hd => ?_
    · exact hnever d (List.mem_append_left _ hd)
    · exact hnever d (List.mem_append_right _ hd)

theorem unwritten_ofWorkspace (disk : FileTree) (workspace : String) (settings : Settings)
    (factory : TreeFactory) (file : String) :
    Unwritten (ofWorkspace disk workspace settings factory) file := by
  constructor <;> rw [stateOf_ofWorkspace]

/-- A document of a file that was never open is taken in under its own index. -/
theorem indexed_along (disk : FileTree) (workspace : String) (settings : Settings)
    (factory : TreeFactory) {events : List (FileView × Event)} {d : Document}
    (hnever : ∀ d' ∈ openedAlong events, d'.fileName ≠ d.fileName) (now : Nat) :
    (((ofWorkspace disk workspace settings factory).along events).indexed now d).1
      = .ofDocument d := by
  have hregions := regions_ofWorkspace disk workspace settings factory
  have hstart : (ofWorkspace disk workspace settings factory).regions.WellKept :=
    .of_nil (by rw [hregions]) (by rw [hregions])
  have hkept := hstart.run .ofDocument (cacheOperationsAlong events)
  rw [← regions_along] at hkept
  rcases Cache.get_value hkept d.fingerprint now fun _ => .ofDocument d with
    ⟨e, hfind, -⟩ | hderived
  · -- an index in the cache would be that of a document with the same address
    have hcontains : (((ofWorkspace disk workspace settings factory).along events).regions).contains
        d.fingerprint := by
      rw [Cache.contains, hfind]
      rfl
    rw [regions_along] at hcontains
    rcases Cache.contains_run hstart hcontains with hempty | ⟨d', hd', hsame⟩
    · rw [hregions] at hempty
      cases hempty
    · have huri : d'.uri = d.uri := congrArg Fingerprint.uri hsame
      exact absurd (congrArg Uri.fileName huri) (hnever d' hd')
  · exact hderived

/-! ## 4. The script of a component that was never open

With nothing written and nothing in the cache, what is served comes from the file, and what is
written comes from the document. -/

theorem Unwritten.snapshot?_eq {h : Host} {file text : String} (hu : Unwritten h file)
    (hfile : Path.isComponent file) {s : FileView} (htext : s.textOf? file = some text) :
    h.snapshot? s file = some (FileView.componentScript text) := by
  rw [snapshot?_component h s hfile, componentText_eq, hu.text, scriptOnDisk, htext]
  rfl

theorem Unwritten.scriptKind_eq {h : Host} {file text : String} (hu : Unwritten h file)
    (hfile : Path.isComponent file) {s : FileView} (htext : s.textOf? file = some text) :
    h.scriptKind s file = .ofLanguageId (ScriptView.ofText text).language := by
  rw [Host.scriptKind_eq h s hfile, hu.kind, kindOnDisk, scriptOnDisk, htext]
  rfl

/-- A document that is taken in under its own index is served as its text would be. -/
theorem served_updateDocument {h : Host} {now : Nat} {d : Document}
    (hindex : (h.indexed now d).1 = .ofDocument d) (hfile : Path.isComponent d.fileName)
    (s : FileView) :
    (h.updateDocument s now d).2.snapshot? s d.fileName
        = some (FileView.componentScript d.text) ∧
      (h.updateDocument s now d).2.scriptKind s d.fileName
        = .ofLanguageId (ScriptView.ofText d.text).language := by
  have hself := (h.effected_updateDocument s now d).rewritten.self
  rw [hindex] at hself
  constructor
  · exact snapshot?_of_text hfile (text_updateDocument hindex s) s
  · rw [Host.scriptKind_eq _ s hfile,
      show ((h.updateDocument s now d).2.stateOf d.fileName).kind = _ from
        congrArg ScriptState.kind hself]
    rfl

/-- **The three ways agree.**  Take a component outside of packages that can be read, and any run
that never opens it.  Its view, as a file, has exactly the text that the host serves for it.  This
is the placeholder exactly if the script is blank, and else it is as long as the component.  A
document of the component with the text of the file, of any version and under any address, changes
neither what is served nor its kind. -/
theorem script_same_three_ways (disk : FileTree) (workspace : String) (settings : Settings)
    (factory : TreeFactory) (events : List (FileView × Event)) (s : FileView) {file text : String}
    (hfile : Path.isComponent file) (hout : ¬ Path.inPackages file)
    (htext : s.textOf? file = some text)
    (hnever : ∀ d ∈ openedAlong events, d.fileName ≠ file) :
    let h := (ofWorkspace disk workspace settings factory).along events
    let script := (ScriptView.ofText text).text
    (∃ served, s.withScripts.textOf? (Path.viewName file) = some served ∧
      h.snapshot? s file = some served ∧
      (served = placeholderScript ↔ Text.isBlankText script) ∧
      (¬ Text.isBlankText script → (Utf8.bytes served).length = (Utf8.bytes text).length)) ∧
    ∀ (now : Nat) (d : Document), d.fileName = file → d.text = text →
      (h.updateDocument s now d).2.snapshot? s file = h.snapshot? s file ∧
        (h.updateDocument s now d).2.scriptKind s file = h.scriptKind s file := by
  intro h script
  have hu : Unwritten h file :=
    unwritten_along (unwritten_ofWorkspace disk workspace settings factory file) hnever
  have hsnapshot := hu.snapshot?_eq hfile htext
  obtain ⟨hview, hback⟩ := Path.isViewName_viewName hfile hout
  refine ⟨⟨FileView.componentScript text, ?_, hsnapshot, FileView.componentScript_spec text⟩, ?_⟩
  · show (if Path.isViewName (Path.viewName file) then _ else _) = _
    rw [if_pos hview, hback, htext]
    rfl
  · rintro now d rfl rfl
    have hindex := indexed_along disk workspace settings factory hnever now
    obtain ⟨hserved, hkind⟩ := served_updateDocument hindex hfile s
    exact ⟨hserved.trans hsnapshot.symm, hkind.trans (hu.scriptKind_eq hfile htext).symm⟩

/-- A component with two scripts and a wide character, imported by another one that is open, and
changed on disk before it is opened. -/
theorem script_same_three_ways_imported :
    let text := "<script>let a</script>é<script lang=ts>let b</script>"
    let s := FileView.ofTexts [("/a.vue", ""), ("/b.vue", text)]
    let a : Uri := { scheme := "file", host := some "", path := "/a.vue" }
    let d : Document := ⟨{ scheme := "file", host := some "", path := "/%62.vue" }, 7, text⟩
    let events : List (FileView × Event) :=
      [(FileView.ofTexts [("/b.vue", "")],
          .edit 0 (.update ⟨a, 7, "<script>import './b.vue'</script>"⟩)),
        (s, .edit 0 (.touch "/b.vue")), (s, .sourceFile "/b.vue")]
    let h := (ofWorkspace .empty "/" {} .bridging).along events
    Path.isComponent "/b.vue" ∧ ¬ Path.inPackages "/b.vue" ∧ s.textOf? "/b.vue" = some text ∧
      (∀ d' ∈ openedAlong events, d'.fileName ≠ "/b.vue") ∧ d.fileName = "/b.vue" ∧
      s.withScripts.textOf? "/b.vue.ts"
        = some "        let a                           let b         " ∧
      h.snapshot? s "/b.vue" = s.withScripts.textOf? "/b.vue.ts" ∧
      (h.updateDocument s 1 d).2.snapshot? s "/b.vue" = h.snapshot? s "/b.vue" ∧
      (h.updateDocument s 1 d).2.scriptKind s "/b.vue" = h.scriptKind s "/b.vue" := by
  intro text s a d events h
  have hfile : Path.isComponent "/b.vue" := by decide +kernel
  have hout : ¬ Path.inPackages "/b.vue" := by decide +kernel
  have htext : s.textOf? "/b.vue" = some text := by decide +kernel
  have hnever : ∀ d' ∈ openedAlong events, d'.fileName ≠ "/b.vue" := by decide +kernel
  have hname : d.fileName = "/b.vue" := by decide +kernel
  obtain ⟨⟨served, hview, hserved, -⟩, hopened⟩ :=
    script_same_three_ways .empty "/" {} .bridging events s hfile hout htext hnever
  exact ⟨hfile, hout, htext, hnever, hname, by decide +kernel, hserved.trans hview.symm,
    hopened 1 d hname rfl⟩

end Host

end ComponentHost
