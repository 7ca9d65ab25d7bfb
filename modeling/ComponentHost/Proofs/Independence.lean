/-
# Edits of different files

Two files that change at about the same time reach the host in some order, and nothing should depend
on which.  All edits go through shared tables: the scripts, the files of the project, the parsed
scripts and the cache of indexes.  Only the first two of these come out the same in either order as
sets; as lists they differ, and the cache may even keep other documents.

So an edit is described apart from the host it is done to.  Its `Effect` says what becomes of the
state of its own file, which files join the project, and whether a parsed script is forgotten.
While a version has one text, an edit has its effect whatever is in the cache
(`effected_apply`).  Two effects on different files read and write different states, join files as
sets do, and forget different records, so they can be exchanged (`Effected.exchange`); this is
proved once and not for each pair of edits.
-/
import ComponentHost.Proofs.ProjectRoots
import ComponentHost.Proofs.ScriptKinds

namespace ComponentHost

/-! ## 1. Parsed scripts

Of the parsed scripts an edit can only forget one.  Two resets touch different places of the list of
records, since two files never share a number. -/

namespace SourceFiles

theorem ids_reset (a : SourceFiles) (file : String) (kind : ScriptKind) :
    (a.reset file kind).ids = a.ids := by
  unfold reset
  split <;> rfl

/-- A reset changes the record of its file, if there is one, and no other. -/
theorem records_reset (a : SourceFiles) (file : String) (kind : ScriptKind) (i : Nat) :
    (a.reset file kind).records[i]?
      = if (a.idOf? file).map (·.index) = some i then a.records[i]?.map (forgotten kind)
        else a.records[i]? := by
  unfold reset
  cases hid : a.idOf? file with
  | none => rfl
  | some id =>
    show (a.records.modify id.index (forgotten kind))[i]? = _
    rw [List.getElem?_modify, Option.map_some]
    by_cases hi : id.index = i
    · rw [if_pos (congrArg some hi)]
      simp only [hi, if_true, Option.map_eq_map]
    · rw [if_neg fun h => hi (Option.some.inj h)]
      simp only [hi, if_false, Option.map_eq_map, Option.map_id']

/-- **Resets of different files can be exchanged**, since different files have different records. -/
theorem reset_comm {a : SourceFiles} (hs : a.Sound) {p q : String} (hne : p ≠ q)
    (kind other : ScriptKind) :
    (a.reset p kind).reset q other = (a.reset q other).reset p kind := by
  have hids : ((a.reset p kind).reset q other).ids = ((a.reset q other).reset p kind).ids := by
    rw [ids_reset, ids_reset, ids_reset, ids_reset]
  have hq : (a.reset p kind).idOf? q = a.idOf? q := by rw [idOf?, idOf?, ids_reset]
  have hp : (a.reset q other).idOf? p = a.idOf? p := by rw [idOf?, idOf?, ids_reset]
  have hrecords : ((a.reset p kind).reset q other).records
      = ((a.reset q other).reset p kind).records := by
    refine List.ext_getElem? fun i => ?_
    rw [records_reset, records_reset, records_reset, records_reset, hp, hq]
    split
    · next hqi =>
      -- the record of `q` is not that of `p`
      have hnot : ¬ (a.idOf? p).map (·.index) = some i := by
        intro hpi
        obtain ⟨idq, hidq, hidxq⟩ := Option.map_eq_some_iff.mp hqi
        obtain ⟨idp, hidp, hidxp⟩ := Option.map_eq_some_iff.mp hpi
        exact hs.index_ne hidq hidp hne (hidxq.trans hidxp.symm)
      rw [if_neg hnot, if_neg hnot]
    · rfl
  calc (a.reset p kind).reset q other
      = ⟨((a.reset p kind).reset q other).ids, ((a.reset p kind).reset q other).records⟩ := rfl
    _ = ⟨((a.reset q other).reset p kind).ids, ((a.reset q other).reset p kind).records⟩ := by
        rw [hids, hrecords]

/-- A file is reset if a kind is given. -/
def resetTo (a : SourceFiles) (file : String) : Option ScriptKind → SourceFiles
  | none => a
  | some kind => a.reset file kind

theorem resetTo_ite (a : SourceFiles) (file : String) (kind : ScriptKind) (changed : Bool) :
    (if changed then a.reset file kind else a)
      = a.resetTo file (if changed then some kind else none) := by
  cases changed <;> rfl

/-- Resets that may be due or not can be exchanged as well. -/
theorem resetTo_comm {a : SourceFiles} (hs : a.Sound) {p q : String} (hne : p ≠ q)
    (kind? other? : Option ScriptKind) :
    (a.resetTo p kind?).resetTo q other? = (a.resetTo q other?).resetTo p kind? := by
  cases kind? with
  | none => cases other? <;> rfl
  | some kind =>
    cases other? with
    | none => rfl
    | some other => exact reset_comm hs hne kind other

end SourceFiles

namespace Host

/-! ## 2. Edits

There are two sorts of edits, in the editor and on disk.  They differ in what they do to the cache
and in what is reported, but both concern one file. -/

/-- A change to one file. -/
inductive Edit where
  /-- Its document is written in the editor. -/
  | update (document : Document)
  /-- It has changed outside of the editor. -/
  | touch (file : String)

namespace Edit

/-- The normal name of the file that is changed. -/
def path : Edit → String
  | update d => d.fileName
  | touch file => Path.normalize file

/-- The document that is written. -/
def document? : Edit → Option Document
  | update d => some d
  | touch _ => none

/-- What the edit is to the cache of indexes. -/
def cacheOperation? (now : Nat) : Edit → Option Cache.Operation
  | update d => some (.get d now)
  | touch _ => none

/-- Does the edit at a time.  Gives what is reported of it, and the host after it. -/
def apply (s : FileView) (now : Nat) (h : Host) : Edit → Option ScriptChange × Host
  | update d => (some (h.updateDocument s now d).1, (h.updateDocument s now d).2)
  | touch file => (none, h.touch file)

end Edit

/-! ## 3. Effects

An effect is a function of the state of its own file and of nothing else in the host.  For a
document this is true only under the index that it is taken in with, so that is an argument until
the cache is known to give the right one. -/

/-- What an edit does, apart from the host that it is done to. -/
structure Effect where
  path : String
  /-- The state of the script of that file afterwards. -/
  state : ScriptState → ScriptState
  /-- The kind as which the script is to be parsed anew. -/
  parsedAs? : ScriptState → Option ScriptKind
  /-- The files that join the project. -/
  joins : List String
  report : ScriptState → Option ScriptChange

/-- The kind of the script of a document. -/
def kindOf (index : DocumentIndex) : ScriptKind :=
  .ofLanguageId
    ((index.layout.scriptRegion?.map (·.language)).getD RegionKind.script.defaultLanguage)

/-- The effect of a document that is written, under an index. -/
def updateEffect (s : FileView) (d : Document) (index : DocumentIndex) : Effect :=
  let masked := index.projection (.kind .script)
  { path := d.fileName
    state := fun before => written before masked.text (kindOf index)
    parsedAs? := fun before =>
      if before.kind.any (· != kindOf index) then some (kindOf index) else none
    joins := joinsOf s d.fileName index.layout.imports
    report := fun before =>
      some ⟨d.fileName, masked, (written before masked.text (kindOf index)).version, kindOf index,
        before.kind.any (· != kindOf index)⟩ }

/-- The effect of an edit, over some files. -/
def Edit.effect (s : FileView) : Edit → Effect
  | .update d => updateEffect s d (.ofDocument d)
  | .touch file =>
    { path := Path.normalize file
      state := fun before => { before with version := before.version + 1 }
      parsedAs? := fun _ => none
      joins := []
      report := fun _ => none }

theorem Edit.path_effect (s : FileView) (e : Edit) : (e.effect s).path = e.path := by
  cases e <;> rfl

/-- `h'` is `h` after an effect. -/
structure Effected (h : Host) (e : Effect) (h' : Host) : Prop where
  rewritten : h.Rewritten e.path (e.state (h.stateOf e.path)) h'
  sources : h'.sources = h.sources.resetTo e.path (e.parsedAs? (h.stateOf e.path))
  joins : Joins h e.joins h'

/-- What is reported of a document that is written, by its effect. -/
theorem report_updateDocument (h : Host) (s : FileView) (now : Nat) (d : Document) :
    some (h.updateDocument s now d).1
      = (updateEffect s d (h.indexed now d).1).report (h.stateOf d.fileName) := by
  unfold updateDocument indexed
  rcases h.regions.get d.fingerprint now fun _ => DocumentIndex.ofDocument d
    with ⟨index, derived, regions⟩
  dsimp only
  generalize hj : (importedComponents s d.fileName index.layout.imports).foldl addRoot
    (if Path.isComponent d.fileName then ({ h with regions := regions }).addRoot d.fileName
      else { h with regions := regions }) = joined
  have hscripts : joined.scripts = h.scripts := by
    rw [← hj, (alike_foldl_addRoot _ _).scripts]
    split
    · exact (alike_addRoot _ _).scripts
    · rfl
  have hbefore : (joined.script? d.fileName).getD {} = h.stateOf d.fileName :=
    stateOf_eq_of_scripts hscripts d.fileName
  rw [hbefore]
  rfl

theorem effected_updateDocument (h : Host) (s : FileView) (now : Nat) (d : Document) :
    h.Effected (updateEffect s d (h.indexed now d).1) (h.updateDocument s now d).2 := by
  obtain ⟨hrewritten, hsources⟩ := h.updateDocument_spec s now d
  exact ⟨hrewritten, hsources.trans (SourceFiles.resetTo_ite _ _ _ _), h.joins_updateDocument s now d⟩

/-- **An edit has its effect**, if its document is taken in under its own index. -/
theorem effected_apply {h : Host} {now : Nat} {e : Edit}
    (hindex : ∀ d ∈ e.document?, (h.indexed now d).1 = .ofDocument d) (s : FileView) :
    h.Effected (e.effect s) (e.apply s now h).2 ∧
      (e.apply s now h).1 = (e.effect s).report (h.stateOf e.path) := by
  cases e with
  | update d =>
    have heffected := h.effected_updateDocument s now d
    have hreport := h.report_updateDocument s now d
    rw [hindex d rfl] at heffected hreport
    exact ⟨heffected, hreport⟩
  | touch file =>
    obtain ⟨hrewritten, hsources⟩ := h.touch_spec file
    exact ⟨⟨hrewritten, hsources, .of_same rfl rfl⟩, rfl⟩

/-! ## 4. Effects can be exchanged

After two effects on different files the state of each file was written once, by a function of the
state from before both.  In which order does not show. -/

/-- The hosts say the same of the script of a file. -/
structure SameScript (s : FileView) (h h' : Host) (p : String) : Prop where
  version : h'.scriptVersion p = h.scriptVersion p
  snapshot : h'.snapshot? s p = h.snapshot? s p
  kind : h'.scriptKind s p = h.scriptKind s p

/-- What is said of a script is read from its state. -/
theorem sameScript_of_state {h h' : Host} (s : FileView) {p : String}
    (hbridge : h'.bridge = h.bridge) (hstate : h'.stateOf p = h.stateOf p) : SameScript s h h' p := by
  refine ⟨?_, ?_, ?_⟩
  · by_cases hp : p = Bridge.fileName
    · rw [hp, scriptVersion_bridge, scriptVersion_bridge]
    · rw [scriptVersion_eq h hp, scriptVersion_eq h' hp, hstate]
  · rw [snapshot?, snapshot?, hbridge, componentText_eq, componentText_eq, hstate]
  · by_cases hp : Path.isComponent p
    · rw [scriptKind_eq h s hp, scriptKind_eq h' s hp, hstate]
    · rw [scriptKind, scriptKind, if_neg hp, if_neg hp]

/-- **An effect leaves other files alone.** -/
theorem Effected.sameScript {h h' : Host} {e : Effect} (he : h.Effected e h') (s : FileView)
    {p : String} (hp : p ≠ e.path) : SameScript s h h' p :=
  sameScript_of_state s he.rewritten.bridge (he.rewritten.others p hp)

/-- The state of a file after two effects: each has seen the state from before both. -/
theorem Effected.stateOf_twice {h ha hab : Host} {a b : Effect} (hne : a.path ≠ b.path)
    (h₁ : h.Effected a ha) (h₂ : ha.Effected b hab) (p : String) :
    hab.stateOf p = if p = b.path then b.state (h.stateOf b.path)
      else if p = a.path then a.state (h.stateOf a.path) else h.stateOf p := by
  split
  · next hp => rw [hp, h₂.rewritten.self, h₁.rewritten.others _ (Ne.symm hne)]
  · next hp =>
    rw [h₂.rewritten.others p hp]
    split
    · next hpa => rw [hpa, h₁.rewritten.self]
    · next hpa => exact h₁.rewritten.others p hpa

/-- The parsed scripts after two effects. -/
theorem Effected.sources_twice {h ha hab : Host} {a b : Effect} (hne : a.path ≠ b.path)
    (h₁ : h.Effected a ha) (h₂ : ha.Effected b hab) :
    hab.sources = (h.sources.resetTo a.path (a.parsedAs? (h.stateOf a.path))).resetTo b.path
      (b.parsedAs? (h.stateOf b.path)) := by
  rw [h₂.sources, h₁.sources, h₁.rewritten.others _ (Ne.symm hne)]

/-- The files of the project after two effects, as a set. -/
theorem Effected.mem_roots_twice {h ha hab : Host} {a b : Effect} (h₁ : h.Effected a ha)
    (h₂ : ha.Effected b hab) (p : String) :
    p ∈ hab.roots ↔ p ∈ h.roots ∨ p ∈ a.joins ∨ p ∈ b.joins := by
  rw [h₂.joins.roots, mem_joinedFiles, h₁.joins.roots, mem_joinedFiles, or_assoc]

/-- **Effects on different files can be exchanged.** -/
theorem Effected.exchange {h ha hab hb hba : Host} {a b : Effect} (hne : a.path ≠ b.path)
    (hr : Rooted h) (hs : h.sources.Sound) (h₁ : h.Effected a ha) (h₂ : ha.Effected b hab)
    (h₃ : h.Effected b hb) (h₄ : hb.Effected a hba) :
    (∀ s p, SameScript s hab hba p) ∧ hab.roots.Perm hba.roots ∧
      hab.projectVersion = hba.projectVersion ∧ hab.sources = hba.sources := by
  have hbridge : hba.bridge = hab.bridge := by
    rw [h₄.rewritten.bridge, h₃.rewritten.bridge, h₂.rewritten.bridge, h₁.rewritten.bridge]
  have hstate : ∀ p, hba.stateOf p = hab.stateOf p := by
    intro p
    rw [h₁.stateOf_twice hne h₂, h₃.stateOf_twice (Ne.symm hne) h₄]
    by_cases hp : p = a.path
    · rw [if_pos hp, if_neg fun hpb => hne (hp.symm.trans hpb), if_pos hp]
    · rw [if_neg hp, if_neg hp]
  have hab_rooted : Rooted hab := (hr.joins h₁.joins).joins h₂.joins
  have hba_rooted : Rooted hba := (hr.joins h₃.joins).joins h₄.joins
  have hperm : hab.roots.Perm hba.roots := by
    refine (List.perm_ext_iff_of_nodup hab_rooted.nodup hba_rooted.nodup).mpr fun p => ?_
    rw [h₁.mem_roots_twice h₂, h₃.mem_roots_twice h₄, or_comm (a := p ∈ a.joins)]
  refine ⟨fun s p => sameScript_of_state s hbridge (hstate p), hperm, ?_, ?_⟩
  · rw [hab_rooted.version, hba_rooted.version, hperm.length_eq]
  · rw [h₁.sources_twice hne h₂, h₃.sources_twice (Ne.symm hne) h₄, SourceFiles.resetTo_comm hs hne]

/-! ## 5. Hosts that are reached

What the exchange needs of a host holds of every host that is reached: its files are in the project
once, its records are sound, and its cache gives the right indexes for what is still to come. -/

theorem sound_sourceFile {h : Host} (hs : h.sources.Sound) (s : FileView) (file : String) :
    (h.sourceFile s file).2.2.sources.Sound := by
  rcases sourceFile_cases hs s file with ⟨-, hsame, -⟩ | ⟨text, id, sources, -, -, hafter, hrecorded⟩
  · rw [hsame]
    exact hs
  · rw [hafter]
    exact hrecorded.sound

/-- **No operation mixes up the records of files.** -/
theorem sound_perform {h : Host} (hs : h.sources.Sound) (s : FileView) (op : Operation) :
    (h.perform s op).sources.Sound := by
  cases op with
  | update now d =>
    show (h.updateDocument s now d).2.sources.Sound
    rw [(h.updateDocument_spec s now d).2]
    split
    · exact SourceFiles.sound_reset hs _ _
    · exact hs
  | touch file => exact hs
  | resolve containing names =>
    show (h.resolveModules s containing names).2.sources.Sound
    rw [(h.alike_resolveModules s containing names).sources]
    exact hs
  | sourceFile file => exact sound_sourceFile hs s file
  | recache regions => exact hs

/-- Every operation only makes files join the project. -/
theorem joins_perform (h : Host) (s : FileView) (op : Operation) :
    ∃ files, Joins h files (h.perform s op) := by
  cases op with
  | update now d => exact ⟨_, h.joins_updateDocument s now d⟩
  | touch file => exact ⟨[], .of_same rfl rfl⟩
  | resolve containing names => exact h.joins_resolveModules s containing names
  | sourceFile file =>
    obtain ⟨sources, hafter⟩ := h.scripts_sourceFile s file
    refine ⟨[], ?_⟩
    show Joins h [] (h.sourceFile s file).2.2
    rw [hafter]
    exact .of_same rfl rfl
  | recache regions => exact ⟨[], .of_same rfl rfl⟩

/-- What can happen to a host.  The cache of indexes is shared with the editor, which uses it as any
cache is used. -/
inductive Event where
  | edit (now : Nat) (edit : Edit)
  | resolve (containing : String) (names : List String)
  | sourceFile (file : String)
  | index (operation : Cache.Operation)

namespace Event

/-- The event as an operation on a host. -/
def operation (h : Host) : Event → Operation
  | edit now (.update d) => .update now d
  | edit _ (.touch file) => .touch file
  | resolve containing names => .resolve containing names
  | sourceFile file => .sourceFile file
  | index operation => .recache (h.regions.perform .ofDocument operation)

/-- What the event is to the cache of indexes. -/
def cacheOperation? : Event → Option Cache.Operation
  | edit now e => e.cacheOperation? now
  | index operation => some operation
  | _ => none

end Event

/-- The host after an event. -/
def follow (s : FileView) (h : Host) (event : Event) : Host := h.perform s (event.operation h)

/-- The host after some events, the first of the list first. -/
def after (s : FileView) (h : Host) (events : List Event) : Host := events.foldl (follow s) h

theorem follow_edit (s : FileView) (h : Host) (now : Nat) (e : Edit) :
    h.follow s (.edit now e) = (e.apply s now h).2 := by
  cases e <;> rfl

/-- The cache after an event is that of the use that the event makes of it. -/
theorem regions_follow (s : FileView) (h : Host) (event : Event) :
    (h.follow s event).regions = h.regions.run .ofDocument event.cacheOperation?.toList := by
  cases event with
  | edit now e =>
    cases e with
    | update d => exact h.regions_updateDocument s now d
    | touch file => rfl
  | resolve containing names => exact h.regions_resolveModules s containing names
  | sourceFile file =>
    obtain ⟨sources, hafter⟩ := h.scripts_sourceFile s file
    show (h.sourceFile s file).2.2.regions = _
    rw [hafter]
    rfl
  | index operation => rfl

/-- A version has one text. -/
def OneText (documents : List Document) : Prop :=
  ∀ d ∈ documents, ∀ d' ∈ documents, d'.fingerprint = d.fingerprint → d'.text = d.text

instance (documents : List Document) : Decidable (OneText documents) :=
  inferInstanceAs (Decidable (∀ d ∈ documents, ∀ d' ∈ documents, _ → _))

/-- The documents that are asked of the cache. -/
def documentsOf (ops : List Cache.Operation) : List Document :=
  ops.filterMap Cache.Operation.document?

theorem OneText.consistent {ops : List Cache.Operation} (h : OneText (documentsOf ops)) :
    Cache.Consistent ops := by
  intro before d now between d' now' after heq hsame _
  have hmem : ∀ {x : Document} {t : Nat}, .get x t ∈ ops → x ∈ documentsOf ops := fun hx =>
    List.mem_filterMap.mpr ⟨_, hx, rfl⟩
  have hd : .get d now ∈ ops := by simp [heq]
  have hd' : .get d' now' ∈ ops := by simp [heq]
  exact h d (hmem hd) d' (hmem hd') hsame

/-- What holds of every host that is reached, given what is still asked of its cache. -/
structure Orderly (ops : List Cache.Operation) (h : Host) : Prop where
  rooted : Rooted h
  sound : h.sources.Sound
  wellKept : h.regions.WellKept
  indexed : Cache.Sound .ofDocument h.regions ops
  consistent : Cache.Consistent ops

theorem orderly_ofWorkspace (disk : FileTree) (workspace : String) (settings : Settings)
    (factory : TreeFactory) {ops : List Cache.Operation} (h : Cache.Consistent ops) :
    Orderly ops (ofWorkspace disk workspace settings factory) := by
  have hregions := regions_ofWorkspace disk workspace settings factory
  refine ⟨rooted_ofWorkspace _ _ _ _, ?_, .of_nil (by rw [hregions]) (by rw [hregions]), ?_, h⟩
  · rw [sources_ofWorkspace]
    exact SourceFiles.sound_empty
  · intro key e hfind
    rw [hregions] at hfind
    cases hfind

/-- **Every event keeps a host orderly**, for what is still to come. -/
theorem Orderly.follow {s : FileView} {h : Host} {event : Event} {ops : List Cache.Operation}
    (ho : Orderly (event.cacheOperation?.toList ++ ops) h) : Orderly ops (h.follow s event) := by
  obtain ⟨files, hjoins⟩ := h.joins_perform s (event.operation h)
  have hrooted := ho.rooted.joins hjoins
  have hsound := sound_perform ho.sound s (event.operation h)
  have hregions := h.regions_follow s event
  obtain ⟨-, -, hkept, hindexed, hconsistent⟩ := ho
  cases hop : event.cacheOperation? with
  | none =>
    rw [hop] at hregions hindexed hconsistent
    exact ⟨hrooted, hsound, hregions ▸ hkept, hregions ▸ hindexed, hconsistent⟩
  | some op =>
    rw [hop] at hregions hindexed hconsistent
    obtain ⟨hkeeps, hrest⟩ := Cache.consistent_cons.mp hconsistent
    exact ⟨hrooted, hsound, hregions ▸ hkept.perform _ op, hregions ▸ hindexed.perform hkept hkeeps,
      hrest⟩

/-- What some events are to the cache of indexes. -/
def cacheOperations (events : List Event) : List Cache.Operation :=
  events.filterMap Event.cacheOperation?

/-- **Every run keeps a host orderly**, for what is still to come. -/
theorem Orderly.after {s : FileView} {h : Host} {events : List Event} {ops : List Cache.Operation}
    (ho : Orderly (cacheOperations events ++ ops) h) : Orderly ops (h.after s events) := by
  induction events generalizing h with
  | nil => exact ho
  | cons event events ih =>
    refine ih (Orderly.follow ?_)
    rw [cacheOperations, List.filterMap_cons] at ho
    cases hop : event.cacheOperation? with
    | none =>
      rw [hop] at ho
      exact ho
    | some op =>
      rw [hop] at ho
      exact ho

/-- In an orderly host an edit that comes next has its effect. -/
theorem Orderly.effected {s : FileView} {h : Host} {now : Nat} {e : Edit}
    {ops : List Cache.Operation} (ho : Orderly ((e.cacheOperation? now).toList ++ ops) h) :
    h.Effected (e.effect s) (e.apply s now h).2 ∧
      (e.apply s now h).1 = (e.effect s).report (h.stateOf e.path) ∧
      Orderly ops (e.apply s now h).2 := by
  have hnext : Orderly ops (h.follow s (.edit now e)) := Orderly.follow ho
  rw [follow_edit] at hnext
  have hindex : ∀ d ∈ e.document?, (h.indexed now d).1 = .ofDocument d := by
    intro d hd
    cases e with
    | update d' =>
      cases hd
      exact ho.indexed.get_eq ho.wellKept
    | touch file => cases hd
  obtain ⟨heffected, hreport⟩ := effected_apply hindex s
  exact ⟨heffected, hreport, hnext⟩

/-! ## 6. Edits can be exchanged

The two orders use the cache in different ways, and each has to be orderly for its own. -/

theorem documentsOf_cacheOperation? (now : Nat) (e : Edit) :
    documentsOf (e.cacheOperation? now).toList = e.document?.toList := by
  cases e <;> rfl

theorem OneText.of_subset {documents more : List Document} (h : OneText more)
    (hsub : ∀ d ∈ documents, d ∈ more) : OneText documents :=
  fun d hd d' hd' => h d (hsub d hd) d' (hsub d' hd')

/-- A host that is reached is orderly for two edits, if a version keeps its text throughout. -/
theorem orderly_reached (disk : FileTree) (workspace : String) (settings : Settings)
    (factory : TreeFactory) (s : FileView) {events : List Event} {a b : Edit}
    (htexts : OneText
      (documentsOf (cacheOperations events) ++ (a.document?.toList ++ b.document?.toList)))
    (now later : Nat) :
    Orderly ((a.cacheOperation? now).toList ++ ((b.cacheOperation? later).toList ++ []))
      ((ofWorkspace disk workspace settings factory).after s events) := by
  refine Orderly.after (orderly_ofWorkspace _ _ _ _ (OneText.consistent ?_))
  have hdocuments : documentsOf (cacheOperations events ++
      ((a.cacheOperation? now).toList ++ ((b.cacheOperation? later).toList ++ [])))
      = documentsOf (cacheOperations events) ++ (a.document?.toList ++ b.document?.toList) := by
    rw [← documentsOf_cacheOperation? now a, ← documentsOf_cacheOperation? later b, List.append_nil]
    simp only [documentsOf, List.filterMap_append]
  rw [hdocuments]
  exact htexts

/-- **Edits of different files are independent.**  Over files that do not change, take any host that
is reached and two edits of different files, at any times, where a version has one text throughout.
In either order the same is said of every script, the project has the same files and the same
version, the parsed scripts are the same, and so is what is reported of each edit.  Each edit alone
leaves the scripts of all other files as they were. -/
theorem edits_exchange (disk : FileTree) (workspace : String) (settings : Settings)
    (factory : TreeFactory) (s : FileView) (events : List Event) (a b : Edit)
    (hpaths : a.path ≠ b.path)
    (htexts : OneText
      (documentsOf (cacheOperations events) ++ (a.document?.toList ++ b.document?.toList)))
    (now later now' later' : Nat) :
    let h := (ofWorkspace disk workspace settings factory).after s events
    let a₁ := a.apply s now h
    let b₂ := b.apply s later a₁.2
    let b₁ := b.apply s now' h
    let a₂ := a.apply s later' b₁.2
    (∀ p, SameScript s b₂.2 a₂.2 p) ∧ b₂.2.roots.Perm a₂.2.roots ∧
      b₂.2.projectVersion = a₂.2.projectVersion ∧ b₂.2.sources = a₂.2.sources ∧
      a₁.1 = a₂.1 ∧ b₁.1 = b₂.1 ∧
      (∀ p, p ≠ a.path → SameScript s h a₁.2 p) ∧ ∀ p, p ≠ b.path → SameScript s h b₁.2 p := by
  intro h a₁ b₂ b₁ a₂
  have htexts' : OneText
      (documentsOf (cacheOperations events) ++ (b.document?.toList ++ a.document?.toList)) :=
    htexts.of_subset fun d hd => by
      simp only [List.mem_append] at hd ⊢
      exact hd.imp_right Or.symm
  have hfirst := orderly_reached disk workspace settings factory s htexts now later
  have hfirst' := orderly_reached disk workspace settings factory s htexts' now' later'
  obtain ⟨ha₁, ra₁, oa₁⟩ := hfirst.effected (s := s)
  obtain ⟨hb₂, rb₂, -⟩ := oa₁.effected (s := s)
  obtain ⟨hb₁, rb₁, ob₁⟩ := hfirst'.effected (s := s)
  obtain ⟨ha₂, ra₂, -⟩ := ob₁.effected (s := s)
  have hne : (a.effect s).path ≠ (b.effect s).path := by
    rw [Edit.path_effect, Edit.path_effect]
    exact hpaths
  obtain ⟨hscripts, hroots, hversion, hsources⟩ :=
    ha₁.exchange hne hfirst.rooted hfirst.sound hb₂ hb₁ ha₂
  -- the state of a file that an edit reports on is the same before and after the other edit
  have hstateA : b₁.2.stateOf a.path = h.stateOf a.path :=
    hb₁.rewritten.others _ (Edit.path_effect s b ▸ hpaths)
  have hstateB : a₁.2.stateOf b.path = h.stateOf b.path :=
    ha₁.rewritten.others _ (Edit.path_effect s a ▸ Ne.symm hpaths)
  refine ⟨hscripts s, hroots, hversion, hsources, ?_, ?_, ?_, ?_⟩
  · rw [ra₁, ra₂, hstateA]
  · rw [rb₁, rb₂, hstateB]
  · exact fun p hp => ha₁.sameScript s ((Edit.path_effect s a).symm ▸ hp)
  · exact fun p hp => hb₁.sameScript s ((Edit.path_effect s b).symm ▸ hp)

/-- A component that was parsed and open takes another language and an import, while the component
that it imports changes on disk. -/
theorem edits_exchange_imported :
    let s := FileView.ofTexts [("/a.vue", ""), ("/b.vue", "<script>let b</script>")]
    let uri : Uri := { scheme := "file", host := some "", path := "/a.vue" }
    let events : List Event := [.edit 0 (.update ⟨uri, 1, "<script>let a</script>"⟩),
      .sourceFile "/a.vue", .index (.removeDocument uri)]
    let a : Edit := .update ⟨uri, 2, "<script lang=ts>import './b.vue'</script>"⟩
    let b : Edit := .touch "/./b.vue"
    let h := (ofWorkspace .empty "/" {} .bridging).after s events
    let b₂ := b.apply s 2 (a.apply s 1 h).2
    let a₂ := a.apply s 2 (b.apply s 1 h).2
    a.path ≠ b.path ∧
      OneText (documentsOf (cacheOperations events) ++ (a.document?.toList ++ b.document?.toList)) ∧
      (∀ p, SameScript s b₂.2 a₂.2 p) ∧ a₂.2.roots = ["/a.vue", "/b.vue"] ∧
      b₂.2.projectVersion = a₂.2.projectVersion ∧ b₂.2.sources = a₂.2.sources ∧
      (a.apply s 1 h).1 = a₂.1 := by
  intro s uri events a b h b₂ a₂
  have hpaths : a.path ≠ b.path := by decide +kernel
  have htexts : OneText
      (documentsOf (cacheOperations events) ++ (a.document?.toList ++ b.document?.toList)) := by
    decide +kernel
  obtain ⟨hscripts, -, hversion, hsources, hreport, -⟩ :=
    edits_exchange .empty "/" {} .bridging s events a b hpaths htexts 1 2 1 2
  exact ⟨hpaths, htexts, hscripts, by decide +kernel, hversion, hsources, hreport⟩

end Host

end ComponentHost
