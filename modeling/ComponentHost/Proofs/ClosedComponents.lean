/-
# Components that are closed

While a component is open its document counts and not the file, which the user may not have saved.
Once it is closed, its file should count again.  Closing a document takes it out of the store and
drops its index.  It does not reach the scripts of the host, and these have the text that was last
taken in: the state of a script has a text from the first document on, and no operation takes it
away again (`text_run`).  A change on disk then moves the version of the script, so that the
compiler asks for it anew, and is answered with the document that was closed.

So the file counts up to the first document of a component and never after it.
-/
import ComponentHost.Proofs.FeatureRuns
import ComponentHost.Proofs.NormalForms

namespace ComponentHost.ScriptFeatures

theorem run_append (m : ScriptFeatures) (ops more : List Operation) :
    m.run (ops ++ more) = (m.run ops).run more :=
  List.foldl_append

/-- **A run that brings no document of a file** leaves the text of its script. -/
theorem text_run {m : ScriptFeatures} {ops : List Operation} {file : String}
    (hops : ∀ d ∈ taken ops, d.fileName ≠ file) :
    ((m.run ops).host.stateOf file).text = (m.host.stateOf file).text := by
  induction ops generalizing m with
  | nil => rfl
  | cons op ops ih =>
    rw [taken_cons] at hops
    have hfirst : ∀ d ∈ op.document?, d.fileName ≠ file := fun d hd =>
      hops d (List.mem_append_left _ (Option.mem_toList.mpr hd))
    exact (ih fun d hd => hops d (List.mem_append_right _ hd)).trans (text_perform hfirst)

theorem WellIndexed.run {ops more : List Operation} {m : ScriptFeatures}
    (h : WellIndexed (ops ++ more) m) : WellIndexed more (m.run ops) := by
  induction ops generalizing m with
  | nil => exact h
  | cons op ops ih => exact ih h.perform

/-- From its first document on a script has a text. -/
theorem exists_text_ask (m : ScriptFeatures) (question : Question) (compiler : Compiler)
    (files : FileView) (now : Nat) (d : Document) :
    ∃ text, ((m.perform (.ask question compiler files now d)).host.stateOf d.fileName).text
      = some text := by
  rw [perform, asked_eq, host_prepare, (m.host.updateDocument_spec files now d).1.self]
  exact ⟨_, rfl⟩

/-- **Every operation advances the host of the features.** -/
theorem advances_perform (m : ScriptFeatures) (op : Operation) :
    Host.Advances m.host (m.perform op).host := by
  cases op with
  | ask question compiler files now d =>
    rw [perform, asked_eq, host_prepare]
    exact m.host.advances_perform files (.update now d)
  | close uri => exact .of_scripts_eq rfl rfl rfl
  | watched uri => exact m.host.advances_perform (.ofTexts []) (.touch uri.fileName)
  | resolve files containing names =>
    exact m.host.advances_perform files (.resolve containing names)
  | sourceFile files file => exact m.host.advances_perform files (.sourceFile file)

theorem advances_run (m : ScriptFeatures) (ops : List Operation) :
    Host.Advances m.host (m.run ops).host := by
  induction ops generalizing m with
  | nil => exact .refl m.host
  | cons op ops ih => exact (m.advances_perform op).trans (ih _)

/-- A change on disk moves the version of a component. -/
theorem scriptVersion_watched (m : ScriptFeatures) {uri : Uri}
    (hfile : Path.isComponent uri.fileName) :
    m.host.scriptVersion uri.fileName
      < (m.perform (.watched uri)).host.scriptVersion uri.fileName := by
  have hne := Host.ne_bridge_of_isComponent hfile
  have hnormal : Path.normalize uri.fileName = uri.fileName :=
    (Path.normal_normalize _).normalize_eq
  have hself := (m.host.touch_spec uri.fileName).1.self
  rw [hnormal] at hself
  rw [Host.scriptVersion_eq _ hne, Host.scriptVersion_eq _ hne]
  show _ < ((m.host.touch uri.fileName).stateOf uri.fileName).version
  rw [hself]
  exact Nat.lt_succ_self _

/-- **Wherever in a run the change is noted, the version has moved at its end.** -/
theorem scriptVersion_run_watched (m : ScriptFeatures) {ops : List Operation} {uri : Uri}
    (hfile : Path.isComponent uri.fileName) (hwatched : .watched uri ∈ ops) :
    m.host.scriptVersion uri.fileName < (m.run ops).host.scriptVersion uri.fileName := by
  obtain ⟨earlier, later, rfl⟩ := List.append_of_mem hwatched
  rw [run_append]
  calc m.host.scriptVersion uri.fileName
      ≤ (m.run earlier).host.scriptVersion uri.fileName :=
        (m.advances_run earlier).scriptVersion_le _
    _ < ((m.run earlier).perform (.watched uri)).host.scriptVersion uri.fileName :=
        scriptVersion_watched _ hfile
    _ ≤ ((m.run earlier).run (.watched uri :: later)).host.scriptVersion uri.fileName :=
        (advances_run _ later).scriptVersion_le _

/-- **The file never counts again.**  After any operations a document of a component is taken in,
and after it no other document of the component; it may be closed, and its file may change and be
watched.  What the host serves then is what it served right after the document, over whatever files,
also if a change of the file has moved the version since.  In a run in which versions have one text
this is the script of the document. -/
theorem snapshot?_after_last_document (disk : FileTree) (workspace : String) (settings : Settings)
    (factory : TreeFactory) (autoImport : Bool) (before : List Operation) (question : Question)
    (compiler : Compiler) (files : FileView) (now : Nat) (d : Document) (after : List Operation)
    (hfile : Path.isComponent d.fileName) (hafter : ∀ d' ∈ taken after, d'.fileName ≠ d.fileName) :
    let opened := (ofWorkspace disk workspace settings factory autoImport).run
      (before ++ [.ask question compiler files now d])
    let m := opened.run after
    (∀ s s', m.host.snapshot? s d.fileName = opened.host.snapshot? s' d.fileName) ∧
    (∀ uri, uri.fileName = d.fileName → .watched uri ∈ after →
      opened.host.scriptVersion d.fileName < m.host.scriptVersion d.fileName) ∧
    (Cache.Consistent (cacheOperations (before ++ [.ask question compiler files now d])) →
      ∀ s, m.host.snapshot? s d.fileName = some (FileView.componentScript d.text)) := by
  intro opened m
  have hopened : opened = ((ofWorkspace disk workspace settings factory autoImport).run
      before).perform (.ask question compiler files now d) := run_append _ _ _
  have hkept : (m.host.stateOf d.fileName).text = (opened.host.stateOf d.fileName).text :=
    text_run hafter
  refine ⟨fun s s' => ?_, fun uri huri hwatched => ?_, fun hconsistent s => ?_⟩
  · obtain ⟨text, htext⟩ := exists_text_ask
      ((ofWorkspace disk workspace settings factory autoImport).run before) question compiler files
      now d
    rw [← hopened] at htext
    rw [Host.snapshot?_of_text hfile (hkept.trans htext), Host.snapshot?_of_text hfile htext]
  · rw [← huri] at hfile ⊢
    exact opened.scriptVersion_run_watched hfile hwatched
  · have hindexed :=
      (wellIndexed_ofWorkspace disk workspace settings factory autoImport hconsistent).run
    have htext : (opened.host.stateOf d.fileName).text
        = some (ScriptView.ofText d.text).text := by
      rw [hopened, perform, asked_eq, host_prepare]
      exact Host.text_updateDocument hindexed.indexed_eq files
    exact Host.snapshot?_of_text hfile (hkept.trans htext) s

/-- A component that is written twice and closed, and whose file is saved with the text that was
written last. -/
theorem snapshot?_after_last_document_saved :
    let a : Uri := { scheme := "file", host := some "", path := "/a.vue" }
    let unsaved := FileView.ofTexts [("/a.vue", "<script>let a</script>")]
    let saved := FileView.ofTexts [("/a.vue", "<script>let b</script>\n")]
    let d : Document := ⟨a, 2, "<script>let b</script>\n"⟩
    let before : List Operation :=
      [.ask .validate silentCompiler unsaved 0 ⟨a, 1, "<script>let a</script>"⟩]
    let after : List Operation := [.close a, .watched a, .sourceFile saved "/a.vue"]
    let m := ((ofWorkspace .empty "/" {} .bridging false).run
      (before ++ [.ask .validate silentCompiler unsaved 1 d])).run after
    Path.isComponent d.fileName ∧ (∀ d' ∈ taken after, d'.fileName ≠ d.fileName) ∧
      m.host.snapshot? saved d.fileName
        = some (FileView.componentScript ((saved.textOf? d.fileName).getD "")) := by
  intro a unsaved saved d before after m
  have hfile : Path.isComponent d.fileName := by decide +kernel
  have hafter : ∀ d' ∈ taken after, d'.fileName ≠ d.fileName := by decide +kernel
  have hregular : Regular (taken (before ++ [.ask .validate silentCompiler unsaved 1 d])) := by
    decide +kernel
  have hsame : FileView.componentScript d.text
      = FileView.componentScript ((saved.textOf? d.fileName).getD "") := by decide +kernel
  obtain ⟨-, -, hserved⟩ :=
    snapshot?_after_last_document .empty "/" {} .bridging false before .validate
      silentCompiler unsaved 1 d after hfile hafter
  exact ⟨hfile, hafter, (hserved hregular.consistent saved).trans (congrArg some hsame)⟩

/-- **A component that was closed is not read again**: it is opened as it is on disk and closed, its
file changes, and the host is told.  The version of its script moves, and the script is the old
one. -/
theorem snapshot?_ne_disk_after_close :
    let a : Uri := { scheme := "file", host := some "", path := "/p/App.vue" }
    let before := FileView.ofTexts [("/p/App.vue", "<script>let a</script>\n")]
    let now := FileView.ofTexts [("/p/App.vue", "<script>let b</script>\n")]
    let closed := (ofWorkspace .empty "/" {} .bridging false).run
      [.ask .validate silentCompiler before 0 ⟨a, 1, "<script>let a</script>\n"⟩, .close a]
    let m := closed.run [.watched a]
    Table.get? m.documents a = none ∧
      closed.host.scriptVersion "/p/App.vue" < m.host.scriptVersion "/p/App.vue" ∧
      m.host.snapshot? now "/p/App.vue" = some "        let a         \n" ∧
      FileView.componentScript ((now.textOf? "/p/App.vue").getD "") = "        let b         \n" := by
  decide +kernel

end ComponentHost.ScriptFeatures
