/-
# Places in components that were never open

The compiler names places by offsets into the script of a component, which are offsets into the
component as well.  To give the editor a place, its line and column have to be counted in some text.
For an open document that is the document.  For a component that was never open it is the SCRIPT
that the host serves, and not the component.

A component stays unopened along every run that does not bring a document of its file
(`Unseen.run`), and so its script is that of its text on disk.  If that script is the projection of
the text, an offset comes out right exactly if every wide character before it on its line is kept;
this is where blanks and the characters they stand for differ in units.  If the component has no
script, places are counted in the placeholder, which is a single short line whatever the component
looks like (`position_componentScript_iff`).
-/
import ComponentHost.Proofs.FeatureRuns
import ComponentHost.Proofs.ScriptColumns
import ComponentHost.Proofs.ServedModules

namespace ComponentHost

/-! ## 1. Lines of a script

The place of an offset is counted in the script.  There are two sorts of scripts, projections and
the placeholder, and for each it is said when the place is that in the component. -/

/-- The regions that the script of a text keeps. -/
def scriptRegions (text : String) : List Region :=
  (Layout.ofText text).regions.filter (·.kind = .script)

/-- An offset has the same place in a component and in its script.  In the placeholder all places
are on the first line, and none is past its 18 characters. -/
def PlaceKept (text : String) (offset : Nat) : Prop :=
  if Text.isBlankText (ScriptView.ofText text).text then
    (LineIndex.ofText text).position offset = ⟨0, min offset 18⟩
  else Projection.ColumnKept (scriptRegions text) text offset

theorem position_placeholder (offset : Nat) :
    (LineIndex.ofText placeholderScript).position offset = ⟨0, min offset 18⟩ := by
  have hnarrow : placeholderScript.toList.all fun c => decide (c.toNat < 0x80) := by
    decide +kernel
  refine LineIndex.position_narrow (fun c hc => ?_) (by decide +kernel) offset
  exact of_decide_eq_true (List.all_eq_true.mp hnarrow c hc)

/-- **The place of an offset in the script of a component.** -/
theorem position_componentScript_iff (text : String) (offset : Nat) :
    (LineIndex.ofText (FileView.componentScript text)).position offset
        = (LineIndex.ofText text).position offset ↔ PlaceKept text offset := by
  unfold FileView.componentScript orPlaceholder PlaceKept
  split
  · rw [position_placeholder]
    exact eq_comm
  · have halike : Projection.KeptAlike (scriptRegions text) text.toList :=
      Projection.keptAlike_ofText fun r hr => Layout.delimited_of_mem (List.mem_filter.mp hr).1
    exact (Projection.position_mask_spec halike offset).2.2

/-- Spans have the same places exactly if their ends have. -/
theorem LineIndex.spanRange_eq_iff (ix ix' : LineIndex) (span : Span) :
    ix.spanRange span = ix'.spanRange span ↔
      ix.position span.start = ix'.position span.start ∧
        ix.position span.stop = ix'.position span.stop := by
  unfold spanRange range
  rw [PositionRange.mk.injEq]

/-! ## 2. Components that stay unopened

Neither the store nor the host may know a document of the component. -/

/-- Setting a value brings no other one. -/
theorem Table.mem_of_mem_set {κ α : Type} [DecidableEq κ] {t : Table κ α} {key : κ} {value : α}
    {e : κ × α} (h : e ∈ t.set key value) : e = (key, value) ∨ e ∈ t := by
  induction t with
  | nil => exact Or.inl (List.mem_singleton.mp h)
  | cons first r ih =>
    obtain ⟨k, v⟩ := first
    unfold Table.set at h
    split at h
    · rcases List.mem_cons.mp h with hnew | hold
      · exact Or.inl hnew
      · exact Or.inr (List.mem_cons_of_mem _ hold)
    · rcases List.mem_cons.mp h with hfirst | hrest
      · exact Or.inr (hfirst ▸ List.mem_cons_self)
      · exact (ih hrest).imp_right (List.mem_cons_of_mem _)

/-- Opening a document brings no other one. -/
theorem DocumentStore.mem_opened {s : DocumentStore} {d : Document} {e : Uri × Document}
    (h : e ∈ (s.opened d).2) : e = (d.uri, d) ∨ e ∈ s := by
  unfold opened at h
  split at h
  · split at h
    · exact Table.mem_of_mem_set h
    · exact Or.inr h
  · exact Table.mem_of_mem_set h

namespace ScriptFeatures

/-- No document of the file is open, and the host has taken in none. -/
structure Unseen (m : ScriptFeatures) (file : String) : Prop where
  closed : ∀ uri d, (uri, d) ∈ m.documents → d.fileName ≠ file
  untaken : (m.host.stateOf file).text = none

/-- Before anything is asked, no document was seen. -/
theorem unseen_ofWorkspace (disk : FileTree) (workspace : String) (settings : Settings)
    (factory : TreeFactory) (autoImport : Bool) (file : String) :
    Unseen (ofWorkspace disk workspace settings factory autoImport) file where
  closed _ _ hmem := by cases hmem
  untaken := by
    show ((Host.ofWorkspace disk workspace settings factory).stateOf file).text = none
    rw [Host.stateOf_ofWorkspace]

theorem Unseen.prepare {m : ScriptFeatures} {file : String} (h : Unseen m file) {d : Document}
    (hd : d.fileName ≠ file) (s : FileView) (now : Nat) :
    Unseen (m.prepare s now d).features file where
  closed uri d' hmem := by
    rw [documents_prepare] at hmem
    rcases DocumentStore.mem_opened hmem with hnew | hold
    · cases hnew
      exact hd
    · exact h.closed uri d' hold
  untaken := by
    rw [host_prepare, (m.host.updateDocument_spec s now d).1.others file (Ne.symm hd)]
    exact h.untaken

/-- **One operation** that does not bring a document of the file. -/
theorem Unseen.perform {m : ScriptFeatures} {file : String} (h : Unseen m file) {op : Operation}
    (hop : ∀ d ∈ op.document?, d.fileName ≠ file) : Unseen (m.perform op) file := by
  refine ⟨?_, (text_perform hop).trans h.untaken⟩
  cases op with
  | ask question compiler files now d =>
    rw [ScriptFeatures.perform, asked_eq]
    exact (h.prepare (hop d rfl) files now).closed
  | close uri => exact fun uri' d hmem => h.closed uri' d (List.mem_filter.mp hmem).1
  | watched uri => exact h.closed
  | resolve files containing names => exact h.closed
  | sourceFile files file' => exact h.closed

/-- **A run** that does not bring a document of the file. -/
theorem Unseen.run {m : ScriptFeatures} {file : String} (h : Unseen m file) {ops : List Operation}
    (hops : ∀ d ∈ taken ops, d.fileName ≠ file) : Unseen (m.run ops) file := by
  induction ops generalizing m with
  | nil => exact h
  | cons op ops ih =>
    rw [taken_cons] at hops
    refine ih (h.perform fun d hd => ?_) fun d hd => hops d (List.mem_append_right _ hd)
    exact hops d (List.mem_append_left _ (Option.mem_toList.mpr hd))

/-- The lines of a component that was never open are those of the script of its text. -/
theorem Unseen.linesOf?_eq {m : ScriptFeatures} {file : String} (h : Unseen m file) {s : FileView}
    {text : String} (hcomponent : Path.isComponent file) (htext : s.textOf? file = some text) :
    m.linesOf? s file = some (.ofText (FileView.componentScript text)) := by
  have hclosed : m.documents.byFileName? file = none := by
    rw [DocumentStore.byFileName?, Option.map_eq_none_iff, List.find?_eq_none]
    rintro ⟨uri, d⟩ hmem
    simpa using h.closed uri d hmem
  rw [linesOf?, hclosed]
  dsimp only
  rw [Host.snapshot?_component m.host s hcomponent, Host.componentText_eq, h.untaken,
    Host.scriptOnDisk, htext]
  rfl

/-! ## 3. Locations

Definitions and references are located in the same way, so they are treated as one look-up. -/

/-- What is looked up for the name at a position. -/
inductive Lookup where
  | definition
  | references
deriving DecidableEq, Repr

/-- The answer to a lookup. -/
def lookUp (m : ScriptFeatures) (compiler : Compiler) (s : FileView) (now : Nat) (d : Document)
    (p : Position) : Lookup → FeatureResult (List Location)
  | .definition => m.definition compiler s now d p
  | .references => m.references compiler s now d p

/-- What the compiler reports for a name. -/
def Lookup.spans (compiler : Compiler) (file : String) (offset : Nat) : Lookup → List FileSpan
  | .definition => compiler.definitions file offset
  | .references => compiler.references file offset

/-- What the compiler reports for the name at a position, if it is asked: the document must be part
of its program once it is taken in, and the line must exist. -/
def reported (m : ScriptFeatures) (compiler : Compiler) (s : FileView) (now : Nat) (d : Document)
    (p : Position) (l : Lookup) : List FileSpan :=
  let prepared := m.prepare s now d
  if (compiler.programFiles prepared.features.host.roots).contains prepared.value.file then
    match d.lines.offset? p with
    | none => []
    | some offset => l.spans compiler prepared.value.file offset
  else []

theorem features_lookUp (m : ScriptFeatures) (compiler : Compiler) (s : FileView) (now : Nat)
    (d : Document) (p : Position) (l : Lookup) :
    (m.lookUp compiler s now d p l).features = (m.prepare s now d).features := by
  cases l with
  | definition => exact features_asking _ _ _ _ _ _ _
  | references => exact features_asking _ _ _ _ _ _ _

/-- Every span that the compiler reports gives its location, in the same order. -/
theorem value_lookUp (m : ScriptFeatures) (compiler : Compiler) (s : FileView) (now : Nat)
    (d : Document) (p : Position) (l : Lookup) :
    (m.lookUp compiler s now d p l).value
      = (m.reported compiler s now d p l).filterMap
          ((m.prepare s now d).features.location? s d) := by
  cases l with
  | definition =>
    unfold lookUp definition asking reported
    dsimp only
    split
    · cases d.lines.offset? p <;> rfl
    · rfl
  | references =>
    unfold lookUp references asking reported
    dsimp only
    split
    · cases d.lines.offset? p <;> rfl
    · rfl

/-- A place in a component that was never open has its line and column in the script. -/
theorem Unseen.location?_eq {m : ScriptFeatures} {file : String} (h : Unseen m file) {s : FileView}
    {text : String} (hcomponent : Path.isComponent file) (htext : s.textOf? file = some text)
    {d : Document} (hd : d.fileName ≠ file) (span : Span) :
    m.location? s d ⟨file, span⟩ = (Uri.ofFile? file).map
      (⟨·, (LineIndex.ofText (FileView.componentScript text)).spanRange span⟩) := by
  unfold location?
  dsimp only
  rw [if_neg (Host.ne_bridge_of_isComponent hcomponent), if_neg (Ne.symm hd),
    h.linesOf?_eq hcomponent htext]
  cases Uri.ofFile? file with
  | none => rfl
  | some uri => rfl

/-- **Locations in a component that was never open.**  After any run that brings no document of the
component, a lookup in another document gives the locations of what the compiler reports.  A span in
the component is located by its places in the script, and this is where it is in the component
exactly if both of its ends keep their places. -/
theorem location_unopened_iff (disk : FileTree) (workspace : String) (settings : Settings)
    (factory : TreeFactory) (autoImport : Bool) (ops : List Operation) (compiler : Compiler)
    (s : FileView) (now : Nat) (d : Document) (p : Position) (l : Lookup) {file text : String}
    (hcomponent : Path.isComponent file) (htext : s.textOf? file = some text)
    (hnever : ∀ d' ∈ d :: taken ops, d'.fileName ≠ file) :
    let m := (ofWorkspace disk workspace settings factory autoImport).run ops
    let answer := m.lookUp compiler s now d p l
    let served := LineIndex.ofText (FileView.componentScript text)
    answer.value
        = (m.reported compiler s now d p l).filterMap (answer.features.location? s d) ∧
      ∀ span : Span,
        answer.features.location? s d ⟨file, span⟩
            = (Uri.ofFile? file).map (⟨·, served.spanRange span⟩) ∧
          (served.spanRange span = (LineIndex.ofText text).spanRange span ↔
            PlaceKept text span.start ∧ PlaceKept text span.stop) := by
  intro m answer served
  have hd : d.fileName ≠ file := hnever d List.mem_cons_self
  have hunseen : Unseen m file := Unseen.run
    (unseen_ofWorkspace disk workspace settings factory autoImport file)
    fun d' hd' => hnever d' (List.mem_cons_of_mem d hd')
  have hfeatures : answer.features = (m.prepare s now d).features := features_lookUp _ _ _ _ _ _ _
  rw [hfeatures]
  refine ⟨value_lookUp _ _ _ _ _ _ _, fun span => ⟨?_, ?_⟩⟩
  · exact (hunseen.prepare hd s now).location?_eq hcomponent htext hd span
  · rw [LineIndex.spanRange_eq_iff, position_componentScript_iff, position_componentScript_iff]

/-- A compiler that finds every name at one place. -/
def findingCompiler (place : FileSpan) : Compiler :=
  { silentCompiler with definitions := fun _ _ => [place], references := fun _ _ => [place] }

/-- A component with a wide character on a line of its own, and one in the script: both ends of the
name behind it keep their places. -/
theorem location_unopened_iff_own_line :
    let text := "é\n<script>é a</script>"
    let s := FileView.ofTexts [("/p/B.vue", text)]
    let a : Uri := { scheme := "file", host := some "", path := "/p/App.vue" }
    let d : Document := ⟨a, 1, "<script>\nimport B from './B.vue'\n</script>\n"⟩
    let ops : List Operation := [.ask .validate silentCompiler s 0 d, .watched a]
    let compiler := findingCompiler ⟨"/p/B.vue", ⟨14, 1⟩⟩
    let m := (ofWorkspace .empty "/" {} .bridging false).run ops
    Path.isComponent "/p/B.vue" ∧ s.textOf? "/p/B.vue" = some text ∧
      (∀ d' ∈ d :: taken ops, d'.fileName ≠ "/p/B.vue") ∧
      (m.lookUp compiler s 1 d ⟨1, 8⟩ .references).value
        = [⟨{ scheme := "file", host := some "", path := "/p/B.vue" }, ⟨⟨1, 10⟩, ⟨1, 11⟩⟩⟩] ∧
      PlaceKept text 14 ∧ PlaceKept text 15 := by
  intro text s a d ops compiler m
  have hcomponent : Path.isComponent "/p/B.vue" := by decide +kernel
  have htext : s.textOf? "/p/B.vue" = some text := by decide +kernel
  have hnever : ∀ d' ∈ d :: taken ops, d'.fileName ≠ "/p/B.vue" := by decide +kernel
  have hvalue : (m.lookUp compiler s 1 d ⟨1, 8⟩ .references).value
      = [⟨{ scheme := "file", host := some "", path := "/p/B.vue" }, ⟨⟨1, 10⟩, ⟨1, 11⟩⟩⟩] := by
    decide +kernel
  obtain ⟨-, hspans⟩ := location_unopened_iff .empty "/" {} .bridging false ops compiler s 1 d
    ⟨1, 8⟩ .references hcomponent htext hnever
  exact ⟨hcomponent, htext, hnever, hvalue, (hspans ⟨14, 1⟩).2.mp (by decide +kernel)⟩

/-- **A wide character of the template before the script on the same line** moves every place
behind it to the right. -/
theorem location_unopened_ne_same_line :
    let text := "<template>é</template><script>export default \x7b\x7d</script>\n"
    let s := FileView.ofTexts [("/p/B.vue", text)]
    let a : Uri := { scheme := "file", host := some "", path := "/p/App.vue" }
    let d : Document := ⟨a, 1, "<script>\nimport B from './B.vue'\n</script>\n"⟩
    let compiler := findingCompiler ⟨"/p/B.vue", ⟨31, 6⟩⟩
    let m := ofWorkspace .empty "/" {} .bridging false
    (m.definition compiler s 0 d ⟨1, 8⟩).value
        = [⟨{ scheme := "file", host := some "", path := "/p/B.vue" }, ⟨⟨0, 31⟩, ⟨0, 37⟩⟩⟩] ∧
      (LineIndex.ofText text).spanRange ⟨31, 6⟩ = ⟨⟨0, 30⟩, ⟨0, 36⟩⟩ := by
  decide +kernel

end ScriptFeatures

end ComponentHost
