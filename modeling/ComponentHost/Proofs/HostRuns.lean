/-
# What a host serves along a run

The text of a script, its version and its parsed tree are kept in different places and moved by
different operations.  This file follows a host through any sequence of operations over files
that do not change, and proves that the three never drift apart.

The argument has two halves.  Between any two moments of a run versions only grow, and a version
that stands still keeps its text (`Advances`); nothing has to be known of the moments themselves.
A parsed script is `Fresh` while its version is behind that of its script or its tree is the one
the script is due, and this survives every operation because hosts only advance.  A script that
is asked for is never behind, so its tree is the one that is due.

The only way out is the version that marks a forgotten tree.  A script could be served a
forgotten tree if its own version ever came to be that one, which takes as many moves of a
version (`bumps`) as that number says.
-/
import ComponentHost.Host.Basic
import ComponentHost.Proofs.SourceRecords

namespace ComponentHost.Host

/-! ## 1. Operations and runs

The operations are those that write something.  The files are the same throughout, so that the text
of a file that was never opened has no reason to change. -/

/-- What can happen to a host.  Questions that leave it as it is are not listed. -/
inductive Operation where
  | update (now : Nat) (document : Document)
  | touch (file : String)
  | resolve (containing : String) (names : List String)
  | sourceFile (file : String)
  /-- The editor shares the cache of indexes and leaves it in some state. -/
  | recache (regions : Cache DocumentIndex)

/-- The host after an operation. -/
def perform (s : FileView) (h : Host) : Operation → Host
  | .update now document => (h.updateDocument s now document).2
  | .touch file => h.touch file
  | .resolve containing names => (h.resolveModules s containing names).2
  | .sourceFile file => (h.sourceFile s file).2.2
  | .recache regions => { h with regions := regions }

/-- The host after some operations, the first of the list first. -/
def run (s : FileView) (h : Host) (ops : List Operation) : Host := ops.foldl (perform s) h

/-- What is known of a script, or what a new script starts with. -/
def stateOf (h : Host) (file : String) : ScriptState := (h.script? file).getD {}

theorem run_cons (s : FileView) (h : Host) (op : Operation) (ops : List Operation) :
    h.run s (op :: ops) = (h.perform s op).run s ops := rfl

theorem run_append (s : FileView) (h : Host) (ops more : List Operation) :
    h.run s (ops ++ more) = (h.run s ops).run s more :=
  List.foldl_append

/-! ### What is read from the state of a script -/

theorem scriptVersion_eq (h : Host) {file : String} (hne : file ≠ Bridge.fileName) :
    h.scriptVersion file = (h.stateOf file).version := by
  rw [scriptVersion, if_neg hne, stateOf]
  cases h.script? file <;> rfl

theorem scriptVersion_bridge (h : Host) : h.scriptVersion Bridge.fileName = 0 :=
  if_pos rfl

theorem componentText_eq (h : Host) (s : FileView) (file : String) :
    h.componentText s file = (h.stateOf file).text.getD (scriptOnDisk s file).text := by
  rw [componentText, stateOf]
  cases h.script? file <;> rfl

/-- The bridge is neither a component nor the view of one. -/
theorem bridge_ordinary : ¬ Path.isComponent Bridge.fileName ∧ ¬ Path.isViewName Bridge.fileName := by
  decide +kernel

theorem ne_bridge_of_isComponent {file : String} (h : Path.isComponent file) :
    file ≠ Bridge.fileName := by
  rintro rfl
  exact bridge_ordinary.1 h

theorem snapshot?_component (h : Host) (s : FileView) {file : String}
    (hfile : Path.isComponent file) :
    h.snapshot? s file = some (orPlaceholder (h.componentText s file)) := by
  rw [snapshot?, if_neg (ne_bridge_of_isComponent hfile), if_pos hfile]

/-! ## 2. What each operation does

Files that join the project, and the cache, have no part in what is said of scripts below:
`Alike` leaves them out. -/

/-- The hosts have the same scripts and the same parsed scripts. -/
structure Alike (h h' : Host) : Prop where
  bridge : h'.bridge = h.bridge
  factory : h'.factory = h.factory
  scripts : h'.scripts = h.scripts
  sources : h'.sources = h.sources

theorem Alike.refl (h : Host) : Alike h h := ⟨rfl, rfl, rfl, rfl⟩

theorem Alike.trans {a b c : Host} (h : Alike a b) (h' : Alike b c) : Alike a c :=
  ⟨h'.bridge.trans h.bridge, h'.factory.trans h.factory, h'.scripts.trans h.scripts,
    h'.sources.trans h.sources⟩

theorem stateOf_eq_of_scripts {h h' : Host} (heq : h'.scripts = h.scripts) (file : String) :
    h'.stateOf file = h.stateOf file := by
  rw [stateOf, stateOf, script?, script?, heq]

/-- A file that joins the project changes no script. -/
theorem alike_addRoot (h : Host) (file : String) : Alike h (h.addRoot file) := by
  unfold addRoot
  split
  · exact .refl h
  · exact ⟨rfl, rfl, rfl, rfl⟩

theorem alike_foldl_addRoot (h : Host) (files : List String) :
    Alike h (files.foldl addRoot h) := by
  induction files generalizing h with
  | nil => exact .refl h
  | cons file files ih => exact (alike_addRoot h file).trans (ih _)

/-- A module that is looked up may let a file join, and nothing more. -/
theorem alike_resolveModule (h : Host) (s : FileView) (containing name : String) :
    Alike h (h.resolveModule s containing name).2 := by
  unfold resolveModule
  split
  · exact .refl h
  · split
    · exact .refl h
    · split
      · exact .refl h
      · split
        · exact alike_addRoot h _
        · exact .refl h

theorem alike_resolveModules (h : Host) (s : FileView) (containing : String)
    (names : List String) : Alike h (h.resolveModules s containing names).2 := by
  induction names generalizing h with
  | nil => exact .refl h
  | cons name names ih => exact (alike_resolveModule h s containing name).trans (ih _)

/-- A new host has no scripts. -/
theorem stateOf_ofWorkspace (disk : FileTree) (workspace : String) (settings : Settings)
    (factory : TreeFactory) (file : String) :
    (ofWorkspace disk workspace settings factory).stateOf file = {} :=
  stateOf_eq_of_scripts (alike_foldl_addRoot _ _).scripts file

theorem sources_ofWorkspace (disk : FileTree) (workspace : String) (settings : Settings)
    (factory : TreeFactory) : (ofWorkspace disk workspace settings factory).sources = {} :=
  (alike_foldl_addRoot _ _).sources

theorem factory_ofWorkspace (disk : FileTree) (workspace : String) (settings : Settings)
    (factory : TreeFactory) : (ofWorkspace disk workspace settings factory).factory = factory :=
  (alike_foldl_addRoot _ _).factory

/-- `h'` has a state for one script, and of every other script the state that `h` has. -/
structure Rewritten (h : Host) (file : String) (state : ScriptState) (h' : Host) : Prop where
  bridge : h'.bridge = h.bridge
  factory : h'.factory = h.factory
  self : h'.stateOf file = state
  others : ∀ q, q ≠ file → h'.stateOf q = h.stateOf q

theorem rewritten_of_set {h h' : Host} {file : String} {state : ScriptState}
    (hbridge : h'.bridge = h.bridge) (hfactory : h'.factory = h.factory)
    (hscripts : h'.scripts = Table.set h.scripts file state) : h.Rewritten file state h' := by
  refine ⟨hbridge, hfactory, ?_, ?_⟩
  · rw [stateOf, script?, hscripts, Table.get?_set_self]
    rfl
  · intro q hq
    rw [stateOf, stateOf, script?, script?, hscripts, Table.get?_set_of_ne _ _ hq]

/-- **All that writing a document does to scripts.**  The text and the kind that are reported are
those that are kept, and the parsed script is forgotten when a kind gives way to another. -/
theorem updateDocument_spec (h : Host) (s : FileView) (now : Nat) (d : Document) :
    h.Rewritten d.fileName
        (written (h.stateOf d.fileName) (h.updateDocument s now d).1.masked.text
          (h.updateDocument s now d).1.kind)
        (h.updateDocument s now d).2 ∧
      (h.updateDocument s now d).2.sources
        = if (h.stateOf d.fileName).kind.any (· != (h.updateDocument s now d).1.kind)
          then h.sources.reset d.fileName (h.updateDocument s now d).1.kind
          else h.sources := by
  unfold updateDocument
  rcases h.regions.get d.fingerprint now fun _ => DocumentIndex.ofDocument d
    with ⟨index, -, regions⟩
  dsimp only
  -- The host once the files have joined the project: nothing is written yet.
  generalize hj : (importedComponents s d.fileName index.layout.imports).foldl addRoot
    (if Path.isComponent d.fileName then ({ h with regions := regions }).addRoot d.fileName
      else { h with regions := regions }) = joined
  have hjoined : Alike h joined := by
    rw [← hj]
    refine Alike.trans ?_ (alike_foldl_addRoot _ _)
    split
    · exact (show Alike h { h with regions := regions } from ⟨rfl, rfl, rfl, rfl⟩).trans
        (alike_addRoot _ _)
    · exact ⟨rfl, rfl, rfl, rfl⟩
  rw [show (joined.script? d.fileName).getD {} = h.stateOf d.fileName from
    stateOf_eq_of_scripts hjoined.scripts _]
  generalize h.stateOf d.fileName = before
  rw [← hjoined.sources]
  split
  · exact ⟨rewritten_of_set hjoined.bridge hjoined.factory (by rw [hjoined.scripts]), rfl⟩
  · exact ⟨rewritten_of_set hjoined.bridge hjoined.factory (by rw [hjoined.scripts]), rfl⟩

theorem touch_spec (h : Host) (file : String) :
    h.Rewritten (Path.normalize file)
        { h.stateOf (Path.normalize file) with
          version := (h.stateOf (Path.normalize file)).version + 1 }
        (h.touch file) ∧
      (h.touch file).sources = h.sources :=
  ⟨rewritten_of_set rfl rfl rfl, rfl⟩

/-- The record of a script after it was asked for. -/
def servedRecord (h : Host) (s : FileView) (file text : String) : SourceRecord :=
  h.sources.servedRecord h.factory file text (h.scriptVersion file) (h.scriptKind s file)

/-- **All that can come of asking for a parsed script.**  It is refused when there is no such
script, or when there are too many. -/
theorem sourceFile_cases {h : Host} (hs : h.sources.Sound) (s : FileView) (file : String) :
    ((h.sourceFile s file).1 = none ∧ (h.sourceFile s file).2.2 = h ∧
        (h.snapshot? s file = none ∨
          h.sources.record? file = none ∧ maxFiles ≤ h.sources.size)) ∨
      ∃ text id sources, h.snapshot? s file = some text ∧
        (h.sourceFile s file).1 = some (SourceFiles.ofRecord id (h.servedRecord s file text)) ∧
        (h.sourceFile s file).2.2 = { h with sources := sources } ∧
        h.sources.Recorded file (h.servedRecord s file text) sources := by
  unfold sourceFile
  cases htext : h.snapshot? s file with
  | none => exact Or.inl ⟨rfl, rfl, Or.inl rfl⟩
  | some text =>
    rcases SourceFiles.getOrUpdate_cases hs h.factory file text (h.scriptVersion file)
        (h.scriptKind s file) with ⟨hnone, hsame, hnew, hsize⟩ | ⟨id, hsome, hrecorded⟩
    · refine Or.inl ⟨hnone, ?_, Or.inr ⟨hnew, hsize⟩⟩
      show { h with sources := _ } = h
      rw [hsame]
    · exact Or.inr ⟨text, id, _, rfl, hsome, rfl, hrecorded⟩

/-! ## 3. Hosts advance

The relation is between two hosts and does not mention what happened in between.  So it is
transitive, and a step that writes the state of one script is all that has to be looked at. -/

/-- From `h` to `h'` no version fell, and where a version stood still so did its text. -/
structure Advances (h h' : Host) : Prop where
  bridge : h'.bridge = h.bridge
  factory : h'.factory = h.factory
  version_le : ∀ p, (h.stateOf p).version ≤ (h'.stateOf p).version
  text_eq : ∀ p, (h'.stateOf p).version = (h.stateOf p).version →
    (h'.stateOf p).text = (h.stateOf p).text

namespace Advances

theorem of_scripts_eq {h h' : Host} (hbridge : h'.bridge = h.bridge)
    (hfactory : h'.factory = h.factory) (hscripts : h'.scripts = h.scripts) : Advances h h' where
  bridge := hbridge
  factory := hfactory
  version_le p := Nat.le_of_eq (by rw [stateOf_eq_of_scripts hscripts])
  text_eq p _ := by rw [stateOf_eq_of_scripts hscripts]

theorem refl (h : Host) : Advances h h := of_scripts_eq rfl rfl rfl

theorem trans {a b c : Host} (h : Advances a b) (h' : Advances b c) : Advances a c where
  bridge := h'.bridge.trans h.bridge
  factory := h'.factory.trans h.factory
  version_le p := Nat.le_trans (h.version_le p) (h'.version_le p)
  text_eq p heq := by
    -- A version that ends where it began stood still on both legs.
    have hfirst : (b.stateOf p).version = (a.stateOf p).version :=
      Nat.le_antisymm (heq ▸ h'.version_le p) (h.version_le p)
    rw [h'.text_eq p (heq.trans hfirst.symm), h.text_eq p hfirst]

/-- Where one script is written, it is enough to look at that one. -/
theorem of_rewritten {h h' : Host} {file : String} {state : ScriptState}
    (hw : h.Rewritten file state h') (hle : (h.stateOf file).version ≤ state.version)
    (htext : state.version = (h.stateOf file).version → state.text = (h.stateOf file).text) :
    Advances h h' where
  bridge := hw.bridge
  factory := hw.factory
  version_le p := by
    by_cases hp : p = file
    · rw [hp, hw.self]
      exact hle
    · exact Nat.le_of_eq (by rw [hw.others p hp])
  text_eq p heq := by
    by_cases hp : p = file
    · rw [hp, hw.self] at heq ⊢
      exact htext heq
    · rw [hw.others p hp]

/-- The versions that are told grow, as those that are kept do. -/
theorem scriptVersion_le {h h' : Host} (ha : Advances h h') (p : String) :
    h.scriptVersion p ≤ h'.scriptVersion p := by
  by_cases hp : p = Bridge.fileName
  · exact Nat.le_of_eq (by rw [hp, scriptVersion_bridge, scriptVersion_bridge])
  · rw [scriptVersion_eq h hp, scriptVersion_eq h' hp]
    exact ha.version_le p

/-- **A version that stands still has one text.** -/
theorem snapshot?_eq {h h' : Host} (ha : Advances h h') (s : FileView) {p : String}
    (heq : h'.scriptVersion p = h.scriptVersion p) : h'.snapshot? s p = h.snapshot? s p := by
  unfold snapshot?
  split
  · rw [ha.bridge]
  · next hp =>
    rw [scriptVersion_eq h hp, scriptVersion_eq h' hp] at heq
    rw [componentText_eq, componentText_eq, ha.text_eq p heq]

end Advances

/-- A text that is written moves the version, unless it is the text that was there. -/
theorem written_version (state : ScriptState) (text : String) (kind : ScriptKind) :
    (state.text = some text ∧ (written state text kind).version = state.version) ∨
      (written state text kind).version = state.version + 1 := by
  by_cases ht : state.text = some text
  · exact Or.inl ⟨ht, if_pos ht⟩
  · exact Or.inr (if_neg ht)

/-- A parsed script that is asked for is no change to scripts. -/
theorem scripts_sourceFile (h : Host) (s : FileView) (file : String) :
    ∃ sources, (h.sourceFile s file).2.2 = { h with sources := sources } := by
  unfold sourceFile
  split
  · exact ⟨h.sources, rfl⟩
  · exact ⟨_, rfl⟩

/-- A parsed script that is asked for leaves the state of all scripts. -/
theorem stateOf_sourceFile (h : Host) (s : FileView) (path file : String) :
    (h.sourceFile s path).2.2.stateOf file = h.stateOf file := by
  obtain ⟨sources, hafter⟩ := h.scripts_sourceFile s path
  rw [hafter]
  rfl

/-- A change on disk moves at most the version of a script. -/
theorem stateOf_touch (h : Host) (path file : String) :
    ∃ version, (h.touch path).stateOf file = { h.stateOf file with version := version } := by
  have hw := (h.touch_spec path).1
  by_cases hfile : file = Path.normalize path
  · subst hfile
    exact ⟨_, hw.self⟩
  · exact ⟨_, hw.others file hfile⟩

/-- **Every operation advances the host.** -/
theorem advances_perform (s : FileView) (h : Host) (op : Operation) :
    Advances h (h.perform s op) := by
  cases op with
  | update now d =>
    have hw := (h.updateDocument_spec s now d).1
    rcases written_version (h.stateOf d.fileName) (h.updateDocument s now d).1.masked.text
      (h.updateDocument s now d).1.kind with ⟨ht, hv⟩ | hv
    · exact .of_rewritten hw (Nat.le_of_eq hv.symm) fun _ => ht.symm
    · exact .of_rewritten hw (hv ▸ Nat.le_succ _)
        fun heq => absurd (hv.symm.trans heq) (Nat.succ_ne_self _)
  | touch file =>
    exact .of_rewritten (h.touch_spec file).1 (Nat.le_succ _)
      fun heq => absurd heq (Nat.succ_ne_self _)
  | resolve containing names =>
    have ha := h.alike_resolveModules s containing names
    exact .of_scripts_eq ha.bridge ha.factory ha.scripts
  | sourceFile file =>
    obtain ⟨sources, hafter⟩ := h.scripts_sourceFile s file
    show Advances h (h.sourceFile s file).2.2
    rw [hafter]
    exact .of_scripts_eq rfl rfl rfl
  | recache regions => exact .of_scripts_eq rfl rfl rfl

/-- **Every run advances the host.** -/
theorem advances_run (s : FileView) (h : Host) (ops : List Operation) :
    Advances h (h.run s ops) := by
  induction ops generalizing h with
  | nil => exact .refl h
  | cons op ops ih =>
    rw [run_cons]
    exact (advances_perform s h op).trans (ih _)

/-- The later of two moments of a run is reached from the earlier one. -/
theorem advances_take (s : FileView) (h : Host) (ops : List Operation) {i j : Nat} (hij : i ≤ j) :
    Advances (h.run s (ops.take i)) (h.run s (ops.take j)) := by
  obtain ⟨k, rfl⟩ := Nat.exists_eq_add_of_le hij
  rw [List.take_add, run_append]
  exact advances_run s _ _

/-! ## 4. How far versions move

An operation moves the version of at most one script, and by one.  A bound on the number of such
operations is a bound on all versions. -/

/-- How many versions an operation moves. -/
def bumpsOf (s : FileView) (h : Host) : Operation → Nat
  | .update now d =>
    if ((h.updateDocument s now d).2.stateOf d.fileName).version = (h.stateOf d.fileName).version
    then 0 else 1
  | .touch _ => 1
  | _ => 0

/-- How many versions are moved along a run. -/
def bumps (s : FileView) (h : Host) : List Operation → Nat
  | [] => 0
  | op :: ops => h.bumpsOf s op + (h.perform s op).bumps s ops

/-- One operation moves a version as far as it counts. -/
theorem version_perform_le (s : FileView) (h : Host) (op : Operation) (p : String) :
    ((h.perform s op).stateOf p).version ≤ (h.stateOf p).version + h.bumpsOf s op := by
  cases op with
  | update now d =>
    have hw := (h.updateDocument_spec s now d).1
    by_cases hp : p = d.fileName
    · subst hp
      show ((h.updateDocument s now d).2.stateOf d.fileName).version ≤ _
      rw [bumpsOf]
      split
      · next hsame => exact Nat.le_of_eq hsame
      · rw [hw.self]
        rcases written_version (h.stateOf d.fileName) (h.updateDocument s now d).1.masked.text
          (h.updateDocument s now d).1.kind with ⟨-, hv⟩ | hv
        · exact hv ▸ Nat.le_succ _
        · exact Nat.le_of_eq hv
    · exact (hw.others p hp) ▸ Nat.le_add_right _ _
  | touch file =>
    have hw := (h.touch_spec file).1
    by_cases hp : p = Path.normalize file
    · subst hp
      exact Nat.le_of_eq (congrArg ScriptState.version hw.self)
    · exact (hw.others p hp) ▸ Nat.le_add_right _ _
  | resolve containing names =>
    have ha := h.alike_resolveModules s containing names
    exact Nat.le_of_eq (congrArg ScriptState.version (stateOf_eq_of_scripts ha.scripts p))
  | sourceFile file =>
    exact Nat.le_of_eq (congrArg ScriptState.version (h.stateOf_sourceFile s file p))
  | recache regions => exact Nat.le_refl _

/-- At any moment of a run a version is at most as far as versions are moved in all. -/
theorem version_take_le (s : FileView) (h : Host) (ops : List Operation) (i : Nat) (p : String) :
    ((h.run s (ops.take i)).stateOf p).version ≤ (h.stateOf p).version + h.bumps s ops := by
  induction ops generalizing h i with
  | nil =>
    rw [List.take_nil]
    exact Nat.le_add_right _ _
  | cons op ops ih =>
    cases i with
    | zero => exact Nat.le_add_right _ _
    | succ i =>
      calc ((h.run s ((op :: ops).take (i + 1))).stateOf p).version
          = (((h.perform s op).run s (ops.take i)).stateOf p).version := by
            rw [List.take_succ_cons, run_cons]
        _ ≤ ((h.perform s op).stateOf p).version + (h.perform s op).bumps s ops := ih _ i
        _ ≤ (h.stateOf p).version + h.bumpsOf s op + (h.perform s op).bumps s ops :=
            Nat.add_le_add_right (version_perform_le s h op p) _
        _ = (h.stateOf p).version + h.bumps s (op :: ops) := Nat.add_assoc _ _ _

theorem scriptVersion_le_version (h : Host) (p : String) :
    h.scriptVersion p ≤ (h.stateOf p).version := by
  by_cases hp : p = Bridge.fileName
  · rw [hp, scriptVersion_bridge]
    exact Nat.zero_le _
  · exact Nat.le_of_eq (scriptVersion_eq h hp)

/-! ## 5. Parsed scripts stay fresh

A record is made when its script is asked for, and is then right.  What can happen later is that the
version of the script moves on, and then the record is behind; or that the record is forgotten.  In
both cases the next request makes a new tree. -/

/-- The tree of a record is the one that its script is due now. -/
def Due (s : FileView) (h : Host) (p : String) (r : SourceRecord) : Prop :=
  ∃ text, h.snapshot? s p = some text ∧ r.tree = h.factory.create p text r.kind

/-- The record is forgotten, behind its script, or has the tree that is due. -/
inductive Fresh (s : FileView) (h : Host) (p : String) (r : SourceRecord) : Prop
  | forgotten (hv : r.version = forgottenVersion)
  | behind (hv : r.version < h.scriptVersion p)
  | current (hv : r.version = h.scriptVersion p) (hdue : Due s h p r)

/-- **A record stays fresh while the host advances.** -/
theorem Fresh.advance {s : FileView} {h h' : Host} {p : String} {r : SourceRecord}
    (ha : Advances h h') (hf : Fresh s h p r) : Fresh s h' p r := by
  cases hf with
  | forgotten hv => exact .forgotten hv
  | behind hv => exact .behind (Nat.lt_of_lt_of_le hv (ha.scriptVersion_le p))
  | current hv hdue =>
    rcases Nat.lt_or_eq_of_le (ha.scriptVersion_le p) with hlt | heq
    · exact .behind (hv ▸ hlt)
    · obtain ⟨text, htext, htree⟩ := hdue
      refine .current (hv.trans heq) ⟨text, ?_, ?_⟩
      · rw [ha.snapshot?_eq s heq.symm, htext]
      · rw [ha.factory, htree]

/-- Parsed scripts are kept soundly and fresh, and the factory makes no use of earlier trees. -/
structure Coherent (s : FileView) (h : Host) : Prop where
  factory : h.factory = .bridging
  sound : h.sources.Sound
  fresh : ∀ p r, h.sources.record? p = some r → Fresh s h p r

/-- A new host has no records. -/
theorem coherent_ofWorkspace (s : FileView) (disk : FileTree) (workspace : String)
    (settings : Settings) : Coherent s (ofWorkspace disk workspace settings .bridging) := by
  refine ⟨factory_ofWorkspace _ _ _ _, ?_, ?_⟩
  · rw [sources_ofWorkspace]
    exact SourceFiles.sound_empty
  · intro p r hr
    rw [sources_ofWorkspace] at hr
    cases hr

/-- Operations that leave the parsed scripts alone. -/
theorem Coherent.of_sources_eq {s : FileView} {h h' : Host} (hc : Coherent s h)
    (ha : Advances h h') (hsources : h'.sources = h.sources) : Coherent s h' where
  factory := ha.factory.trans hc.factory
  sound := hsources ▸ hc.sound
  fresh p r hr := (hc.fresh p r (hsources ▸ hr)).advance ha

/-- Operations that change the parsed script of one file. -/
theorem Coherent.of_recorded {s : FileView} {h h' : Host} (hc : Coherent s h)
    (ha : Advances h h') {file : String} {r : SourceRecord}
    (hr : h.sources.Recorded file r h'.sources) (hf : Fresh s h' file r) : Coherent s h' where
  factory := ha.factory.trans hc.factory
  sound := hr.sound
  fresh p r' hr' := by
    by_cases hp : p = file
    · subst hp
      rw [hr.self] at hr'
      cases hr'
      exact hf
    · rw [hr.others p hp] at hr'
      exact (hc.fresh p r' hr').advance ha

/-- **The record that is served is fresh**, and never behind its script. -/
theorem Coherent.fresh_servedRecord {s : FileView} {h : Host} (hc : Coherent s h) {p text : String}
    (htext : h.snapshot? s p = some text) : Fresh s h p (h.servedRecord s p text) := by
  unfold servedRecord SourceFiles.servedRecord
  cases hr : h.sources.record? p with
  | none => exact .current rfl ⟨text, htext, rfl⟩
  | some r =>
    show Fresh s h p (SourceFiles.broughtTo h.factory p text (h.scriptVersion p) r)
    unfold SourceFiles.broughtTo
    split
    · exact hc.fresh p r hr
    · refine .current rfl ⟨text, htext, ?_⟩
      show h.factory.update p r.tree text r.kind = h.factory.create p text r.kind
      rw [hc.factory]
      rfl

theorem version_servedRecord (s : FileView) (h : Host) (p text : String) :
    (h.servedRecord s p text).version = h.scriptVersion p :=
  SourceFiles.servedRecord_version ..

/-- **Every operation keeps a host coherent.** -/
theorem Coherent.perform {s : FileView} {h : Host} (hc : Coherent s h) (op : Operation) :
    Coherent s (h.perform s op) := by
  have ha := advances_perform s h op
  cases op with
  | update now d =>
    have hsources := (h.updateDocument_spec s now d).2
    split at hsources
    · rcases SourceFiles.reset_cases hc.sound d.fileName (h.updateDocument s now d).1.kind with
        ⟨hsame, -⟩ | ⟨r, -, hrecorded⟩
      · exact hc.of_sources_eq ha (hsources.trans hsame)
      · exact hc.of_recorded ha (hsources ▸ hrecorded) (.forgotten rfl)
    · exact hc.of_sources_eq ha hsources
  | touch file => exact hc.of_sources_eq ha (h.touch_spec file).2
  | resolve containing names =>
    exact hc.of_sources_eq ha (h.alike_resolveModules s containing names).sources
  | sourceFile file =>
    rcases sourceFile_cases hc.sound s file with
      ⟨-, hsame, -⟩ | ⟨text, id, sources, htext, -, hafter, hrecorded⟩
    · exact hc.of_sources_eq ha (congrArg Host.sources hsame)
    · have hsources : (h.sourceFile s file).2.2.sources = sources := by rw [hafter]
      exact hc.of_recorded ha (hsources.symm ▸ hrecorded)
        ((hc.fresh_servedRecord htext).advance ha)
  | recache regions => exact hc.of_sources_eq ha rfl

/-- **Every run keeps a host coherent.**  -/
theorem Coherent.run {s : FileView} {h : Host} (hc : Coherent s h) (ops : List Operation) :
    Coherent s (h.run s ops) := by
  induction ops generalizing h with
  | nil => exact hc
  | cons op ops ih => exact ih (hc.perform op)

/-- **A coherent host serves the tree that is due**, unless its versions have run out. -/
theorem Coherent.served {s : FileView} {h : Host} (hc : Coherent s h) {p : String}
    (hlt : h.scriptVersion p < forgottenVersion) {f : SourceFile}
    (hf : (h.sourceFile s p).1 = some f) :
    f.file = p ∧ f.version = h.scriptVersion p ∧
      ∃ text, h.snapshot? s p = some text ∧ f.tree = TreeFactory.bridging.create p text f.kind := by
  rcases sourceFile_cases hc.sound s p with
    ⟨hnone, -⟩ | ⟨text, id, sources, htext, hsome, -, hrecorded⟩
  · rw [hf] at hnone
    cases hnone
  · rw [hf] at hsome
    cases hsome
    have hversion := version_servedRecord s h p text
    refine ⟨hrecorded.sound.file_eq hrecorded.self, hversion, ?_⟩
    cases hc.fresh_servedRecord htext with
    | forgotten hv => exact absurd (hversion.symm.trans hv) (Nat.ne_of_lt hlt)
    | behind hv => exact absurd hversion (Nat.ne_of_lt hv)
    | current _ hdue => exact hc.factory ▸ hdue

/-! ## 6. Along a run

A moment of a run is the number of operations before it. -/

/-- **A host serves current scripts.**  At any two moments of a run at which the version of a
file is the same, so is its text.  A parsed script has the version of its file, and the tree of
the text that the file has at that moment.  It is refused only to files without a text, or when
there are too many files. -/
theorem run_serves_current (disk : FileTree) (workspace : String) (settings : Settings)
    (s : FileView) (ops : List Operation)
    (hbumps : (ofWorkspace disk workspace settings .bridging).bumps s ops < forgottenVersion) :
    let host i := (ofWorkspace disk workspace settings .bridging).run s (ops.take i)
    (∀ p i j, (host i).scriptVersion p = (host j).scriptVersion p →
      (host i).snapshot? s p = (host j).snapshot? s p) ∧
    (∀ p i f, ((host i).sourceFile s p).1 = some f →
      f.file = p ∧ f.version = (host i).scriptVersion p ∧
        ∃ text, (host i).snapshot? s p = some text ∧
          f.tree = TreeFactory.bridging.create p text f.kind) ∧
    (∀ p i, ((host i).sourceFile s p).1 = none →
      (host i).snapshot? s p = none ∨ maxFiles ≤ (host i).sources.size) := by
  intro host
  have hcoherent : ∀ i, Coherent s (host i) := fun i =>
    (coherent_ofWorkspace s disk workspace settings).run _
  have hbelow : ∀ p i, (host i).scriptVersion p < forgottenVersion := by
    intro p i
    calc (host i).scriptVersion p
        ≤ ((host i).stateOf p).version := scriptVersion_le_version _ p
      _ ≤ ((ofWorkspace disk workspace settings .bridging).stateOf p).version + _ :=
          version_take_le s _ ops i p
      _ = (ofWorkspace disk workspace settings .bridging).bumps s ops := by
          rw [stateOf_ofWorkspace]
          exact Nat.zero_add _
      _ < forgottenVersion := hbumps
  refine ⟨?_, fun p i f hf => (hcoherent i).served (hbelow p i) hf, ?_⟩
  · intro p i j heq
    rcases Nat.le_total i j with hij | hij
    · exact ((advances_take s _ ops hij).snapshot?_eq s heq.symm).symm
    · exact (advances_take s _ ops hij).snapshot?_eq s heq
  · intro p i hnone
    rcases sourceFile_cases (hcoherent i).sound s p with
      ⟨-, -, htext | ⟨-, hsize⟩⟩ | ⟨text, id, sources, -, hsome, -⟩
    · exact Or.inl htext
    · exact Or.inr hsize
    · rw [hnone] at hsome
      cases hsome

/-- A component that was parsed from its file, opened with another script and then changed on
disk: its version has moved twice, and it is served the tree of the text that was written. -/
theorem run_serves_current_reopened :
    let s := FileView.ofTexts [("/a.vue", "<script lang=ts></script>")]
    let start := ofWorkspace .empty "/" {} .bridging
    let ops := [.sourceFile "/a.vue",
      .update 0 ⟨{ scheme := "file", host := some "", path := "/a.vue" }, 1,
        "<script>let a</script>"⟩,
      .touch "/a.vue"]
    start.bumps s ops < forgottenVersion ∧
      ∃ f text, ((start.run s ops).sourceFile s "/a.vue").1 = some f ∧ f.version = 2 ∧
        (start.run s ops).snapshot? s "/a.vue" = some text ∧
        text = "        let a         " ∧ f.tree = TreeFactory.bridging.create "/a.vue" text f.kind := by
  intro s start ops
  have hbumps : start.bumps s ops < forgottenVersion := by decide +kernel
  obtain ⟨f, hf⟩ : ∃ f, ((start.run s ops).sourceFile s "/a.vue").1 = some f :=
    Option.isSome_iff_exists.mp (by decide +kernel)
  obtain ⟨-, hversion, text, htext, htree⟩ :=
    (run_serves_current .empty "/" {} s ops hbumps).2.1 "/a.vue" 3 f hf
  refine ⟨hbumps, f, text, hf, ?_, htext, ?_, htree⟩
  · rw [hversion]
    decide +kernel
  · have hwritten : (start.run s ops).snapshot? s "/a.vue" = some "        let a         " := by
      decide +kernel
    exact Option.some.inj (htext.symm.trans hwritten)

end ComponentHost.Host
