/-
# Documents that are open in the editor and in the host

Every feature hands its document to two places: the store of open documents, from which places in
other files are counted in lines, and the host, whose scripts the compiler counts its offsets in.
The store refuses a version older than the one it has; the host takes whatever it is given.  So the
two follow a document in different ways, and this file says how far they can be apart.

Along any run, the store holds a version at least as new as the one that came last (`Agrees`), and
the host serves the script of the one that came last.  The latter needs that the index of a document
is its own and not that of an earlier text of the same version, which is what the cache promises
while a version has one text.  At the end the two are of one text if the last version that came is
the one that is kept.  In a run that never goes back to an older version it is (`InOrder`); in one
that does, the host may serve the script of one text while lines are counted in another.
-/
import ComponentHost.Editor.Features
import ComponentHost.Proofs.CacheRuns
import ComponentHost.Proofs.ComponentNames
import ComponentHost.Proofs.HostRuns

namespace ComponentHost

/-! ## 1. The store

The store is asked to open a document each time a feature is called, with whatever version it has.
An older one is not put in its place, and then the answer is the one that is there. -/

namespace DocumentStore

/-- What opening a document leaves in the store: the version that it gives. -/
theorem get?_opened (s : DocumentStore) (d : Document) (uri : Uri) :
    Table.get? (s.opened d).2 uri
      = if uri = d.uri then some (s.opened d).1 else Table.get? s uri := by
  unfold opened
  by_cases huri : uri = d.uri
  · subst huri
    rw [if_pos rfl]
    split
    · split
      · exact Table.get?_set_self _ _ _
      · assumption
    · exact Table.get?_set_self _ _ _
  · rw [if_neg huri]
    split
    · split
      · exact Table.get?_set_of_ne _ _ huri
      · rfl
    · exact Table.get?_set_of_ne _ _ huri

/-- **The version that is kept**: the document, or one that was there and is not older. -/
theorem opened_cases (s : DocumentStore) (d : Document) :
    (s.opened d).1 = d ∨
      Table.get? s d.uri = some (s.opened d).1 ∧ d.version ≤ (s.opened d).1.version := by
  unfold opened
  split
  · next kept hkept =>
    split
    · exact Or.inl rfl
    · next hnot => exact Or.inr ⟨hkept, Int.not_lt.mp hnot⟩
  · exact Or.inl rfl

/-- There is one document for each address. -/
theorem nodup_keys_opened {s : DocumentStore} (h : (Table.keys s).Nodup) (d : Document) :
    (Table.keys (s.opened d).2).Nodup := by
  unfold opened
  split
  · split
    · exact Table.nodup_keys_set h _ _
    · exact h
  · exact Table.nodup_keys_set h _ _

end DocumentStore

/-! ## 2. The cache of a host

The index of a document is taken from a cache, by its address and its version.  What else a host
does leaves the cache alone; only taking in a document is a use of it, and forgetting one a removal.
-/

namespace Host

theorem regions_addRoot (h : Host) (file : String) : (h.addRoot file).regions = h.regions := by
  unfold addRoot
  split <;> rfl

theorem regions_foldl_addRoot (h : Host) (files : List String) :
    (files.foldl addRoot h).regions = h.regions := by
  induction files generalizing h with
  | nil => rfl
  | cons file files ih => exact (ih _).trans (regions_addRoot h file)

/-- A new host has no indexes. -/
theorem regions_ofWorkspace (disk : FileTree) (workspace : String) (settings : Settings)
    (factory : TreeFactory) :
    (ofWorkspace disk workspace settings factory).regions
      = { capacity := settings.cacheCapacity
          timeToLive := settings.cacheSeconds * Cache.second } :=
  regions_foldl_addRoot _ _

theorem regions_resolveModule (h : Host) (s : FileView) (containing name : String) :
    (h.resolveModule s containing name).2.regions = h.regions := by
  unfold resolveModule
  split
  · rfl
  · split
    · rfl
    · split
      · rfl
      · split
        · exact regions_addRoot h _
        · rfl

theorem regions_resolveModules (h : Host) (s : FileView) (containing : String)
    (names : List String) : (h.resolveModules s containing names).2.regions = h.regions := by
  induction names generalizing h with
  | nil => rfl
  | cons name names ih => exact (ih _).trans (regions_resolveModule h s containing name)

/-- The index under which a document is taken in. -/
def indexed (h : Host) (now : Nat) (d : Document) : DocumentIndex × Bool × Cache DocumentIndex :=
  h.regions.get d.fingerprint now fun _ => .ofDocument d

/-- Taking in a document is one use of the cache, and nothing else. -/
theorem regions_updateDocument (h : Host) (s : FileView) (now : Nat) (d : Document) :
    (h.updateDocument s now d).2.regions = (h.indexed now d).2.2 := by
  unfold updateDocument indexed
  rcases h.regions.get d.fingerprint now fun _ => DocumentIndex.ofDocument d
    with ⟨index, derived, regions⟩
  dsimp only
  generalize hj : (importedComponents s d.fileName index.layout.imports).foldl addRoot
    (if Path.isComponent d.fileName then ({ h with regions := regions }).addRoot d.fileName
      else { h with regions := regions }) = joined
  have hjoined : joined.regions = regions := by
    rw [← hj, regions_foldl_addRoot]
    split
    · exact regions_addRoot _ _
    · rfl
  split
  · exact hjoined
  · exact hjoined

theorem masked_updateDocument (h : Host) (s : FileView) (now : Nat) (d : Document) :
    (h.updateDocument s now d).1.masked = (h.indexed now d).1.projection (.kind .script) :=
  rfl

/-- **A document that is taken in under its own index** leaves its script in the host. -/
theorem text_updateDocument {h : Host} {now : Nat} {d : Document}
    (hindex : (h.indexed now d).1 = .ofDocument d) (s : FileView) :
    ((h.updateDocument s now d).2.stateOf d.fileName).text
      = some (ScriptView.ofText d.text).text := by
  rw [(h.updateDocument_spec s now d).1.self, written, masked_updateDocument, hindex]
  rfl

/-- Of a component the script that it has in the host is served, or a placeholder if that is blank.
-/
theorem snapshot?_of_text {h : Host} {file text : String} (hfile : Path.isComponent file)
    (htext : (h.stateOf file).text = some text) (s : FileView) :
    h.snapshot? s file = some (orPlaceholder text) := by
  rw [snapshot?_component h s hfile, componentText_eq, htext]
  rfl

end Host

namespace ScriptFeatures

/-! ## 3. Operations and runs

A run is any sequence of what an editor and a compiler can do to the features.  All questions have
the same effect on the state, that their document is taken in, so what they ask is not looked at any
more. -/

/-- What can be asked about a document. -/
inductive Question where
  | validate
  | complete (position : Position)
  | hover (position : Position)
  | definition (position : Position)
  | references (position : Position)

/-- The features after a question about a document. -/
def asked (m : ScriptFeatures) (compiler : Compiler) (s : FileView) (now : Nat) (d : Document) :
    Question → ScriptFeatures
  | .validate => (m.validate compiler s now d).features
  | .complete p => (m.complete compiler s now d p).features
  | .hover p => (m.hover compiler s now d p).features
  | .definition p => (m.definition compiler s now d p).features
  | .references p => (m.references compiler s now d p).features

/-- What can happen to the features.  Files and compiler may differ from one operation to the
next. -/
inductive Operation where
  | ask (question : Question) (compiler : Compiler) (files : FileView) (now : Nat)
      (document : Document)
  | close (uri : Uri)
  | watched (uri : Uri)
  /-- The compiler looks up modules. -/
  | resolve (files : FileView) (containing : String) (names : List String)
  /-- The compiler takes a parsed script. -/
  | sourceFile (files : FileView) (file : String)

namespace Operation

/-- The document that is taken in. -/
def document? : Operation → Option Document
  | ask _ _ _ _ document => some document
  | _ => none

/-- What the operation is to the cache of indexes. -/
def cacheOperation? : Operation → Option Cache.Operation
  | ask _ _ _ now document => some (.get document now)
  | close uri => some (.removeDocument uri)
  | _ => none

end Operation

/-- The features after an operation. -/
def perform (m : ScriptFeatures) : Operation → ScriptFeatures
  | .ask question compiler files now document => m.asked compiler files now document question
  | .close uri => m.close uri
  | .watched uri => m.watched uri
  | .resolve files containing names =>
    { m with host := (m.host.resolveModules files containing names).2 }
  | .sourceFile files file => { m with host := (m.host.sourceFile files file).2.2 }

/-- The features after some operations, the first of the list first. -/
def run (m : ScriptFeatures) (ops : List Operation) : ScriptFeatures := ops.foldl perform m

/-- The features over the host of a workspace, before anything is asked. -/
def ofWorkspace (disk : FileTree) (workspace : String) (settings : Settings)
    (factory : TreeFactory) (autoImport : Bool) : ScriptFeatures :=
  { host := .ofWorkspace disk workspace settings factory, autoImport := autoImport }

/-- The documents that are taken in along a run. -/
def taken (ops : List Operation) : List Document := ops.filterMap Operation.document?

theorem features_asking {α : Type} (m : ScriptFeatures) (compiler : Compiler) (s : FileView)
    (now : Nat) (d : Document) (nothing : α)
    (feature : ScriptFeatures → String → α × List CompilerCall) :
    (m.asking compiler s now d nothing feature).features = (m.prepare s now d).features := by
  unfold asking
  dsimp only
  split <;> rfl

/-- Whatever is asked, the features only take in the document. -/
theorem asked_eq (m : ScriptFeatures) (compiler : Compiler) (s : FileView) (now : Nat)
    (d : Document) (question : Question) :
    m.asked compiler s now d question = (m.prepare s now d).features := by
  cases question <;> exact features_asking _ _ _ _ _ _ _

theorem documents_prepare (m : ScriptFeatures) (s : FileView) (now : Nat) (d : Document) :
    (m.prepare s now d).features.documents = (m.documents.opened d).2 := rfl

theorem host_prepare (m : ScriptFeatures) (s : FileView) (now : Nat) (d : Document) :
    (m.prepare s now d).features.host = (m.host.updateDocument s now d).2 := rfl

/-- **An operation writes only the script of the document that it brings.** -/
theorem text_perform {m : ScriptFeatures} {op : Operation} {file : String}
    (hop : ∀ d ∈ op.document?, d.fileName ≠ file) :
    ((m.perform op).host.stateOf file).text = (m.host.stateOf file).text := by
  cases op with
  | ask question compiler files now d =>
    have hne : d.fileName ≠ file := hop d rfl
    rw [perform, asked_eq, host_prepare,
      (m.host.updateDocument_spec files now d).1.others file hne.symm]
  | close uri => rfl
  | watched uri =>
    obtain ⟨version, hmoved⟩ := m.host.stateOf_touch uri.fileName file
    exact (congrArg ScriptState.text hmoved).trans rfl
  | resolve files containing names =>
    have ha := m.host.alike_resolveModules files containing names
    exact congrArg ScriptState.text (Host.stateOf_eq_of_scripts ha.scripts file)
  | sourceFile files path =>
    exact congrArg ScriptState.text (m.host.stateOf_sourceFile files path file)

/-! ## 4. Indexes are those of their documents

The cache may give the index of an earlier text if two texts come with one version.  So runs are
restricted to those where that does not happen, and then every index that a use of the cache gives
is that of the document it is given for. -/

/-- A file has one address, and a version has one text. -/
structure Regular (documents : List Document) : Prop where
  uri_eq : ∀ d ∈ documents, ∀ d' ∈ documents, d'.fileName = d.fileName → d'.uri = d.uri
  text_eq : ∀ d ∈ documents, ∀ d' ∈ documents, d'.fingerprint = d.fingerprint → d'.text = d.text

instance (documents : List Document) : Decidable (Regular documents) :=
  decidable_of_iff
    ((∀ d ∈ documents, ∀ d' ∈ documents, d'.fileName = d.fileName → d'.uri = d.uri) ∧
      ∀ d ∈ documents, ∀ d' ∈ documents, d'.fingerprint = d.fingerprint → d'.text = d.text)
    ⟨fun h => ⟨h.1, h.2⟩, fun h => ⟨h.uri_eq, h.text_eq⟩⟩

/-- What a run is to the cache of indexes. -/
def cacheOperations (ops : List Operation) : List Cache.Operation :=
  ops.filterMap Operation.cacheOperation?

theorem mem_taken_of_get {ops : List Operation} {d : Document} {now : Nat}
    (h : .get d now ∈ cacheOperations ops) : d ∈ taken ops := by
  obtain ⟨op, hop, hget⟩ := List.mem_filterMap.mp h
  refine List.mem_filterMap.mpr ⟨op, hop, ?_⟩
  cases op with
  | ask question compiler files now' document =>
    cases hget
    rfl
  | close uri => cases hget
  | watched uri => cases hget
  | resolve files containing names => cases hget
  | sourceFile files file => cases hget

/-- Documents that are regular are consistent for the cache. -/
theorem Regular.consistent {ops : List Operation} (h : Regular (taken ops)) :
    Cache.Consistent (cacheOperations ops) := by
  intro before d now between d' now' after heq hsame _
  have hd : .get d now ∈ cacheOperations ops := by simp [heq]
  have hd' : .get d' now' ∈ cacheOperations ops := by simp [heq]
  exact h.text_eq d (mem_taken_of_get hd) d' (mem_taken_of_get hd') hsame

/-- The cache of indexes is as it should be for what is still to come. -/
structure WellIndexed (ops : List Operation) (m : ScriptFeatures) : Prop where
  wellKept : m.host.regions.WellKept
  sound : Cache.Sound .ofDocument m.host.regions (cacheOperations ops)
  consistent : Cache.Consistent (cacheOperations ops)

/-- What an operation does to the cache of indexes. -/
theorem regions_perform (m : ScriptFeatures) (op : Operation) :
    (m.perform op).host.regions
      = m.host.regions.run .ofDocument op.cacheOperation?.toList := by
  cases op with
  | ask question compiler files now document =>
    rw [perform, asked_eq, host_prepare, Host.regions_updateDocument]
    rfl
  | close uri => rfl
  | watched uri => rfl
  | resolve files containing names => exact Host.regions_resolveModules _ _ _ _
  | sourceFile files file =>
    obtain ⟨sources, hafter⟩ := m.host.scripts_sourceFile files file
    show (m.host.sourceFile files file).2.2.regions = _
    rw [hafter]
    rfl

/-- An operation leaves the cache as it should be for those after it. -/
theorem WellIndexed.perform {op : Operation} {ops : List Operation} {m : ScriptFeatures}
    (h : WellIndexed (op :: ops) m) : WellIndexed ops (m.perform op) := by
  obtain ⟨hkept, hsound, hconsistent⟩ := h
  rw [cacheOperations, List.filterMap_cons] at hsound hconsistent
  cases hop : op.cacheOperation? with
  | none =>
    have hregions : (m.perform op).host.regions = m.host.regions := by
      rw [regions_perform, hop]
      rfl
    rw [hop] at hsound hconsistent
    exact ⟨hregions ▸ hkept, hregions ▸ hsound, hconsistent⟩
  | some operation =>
    have hregions : (m.perform op).host.regions
        = m.host.regions.perform .ofDocument operation := by
      rw [regions_perform, hop]
      rfl
    rw [hop] at hsound hconsistent
    obtain ⟨hkeeps, hrest⟩ := Cache.consistent_cons.mp hconsistent
    exact ⟨hregions ▸ hkept.perform _ operation, hregions ▸ hsound.perform hkept hkeeps, hrest⟩

/-- **A document that is asked about is taken in under its own index.**  -/
theorem WellIndexed.indexed_eq {question : Question} {compiler : Compiler} {files : FileView}
    {now : Nat} {d : Document} {ops : List Operation} {m : ScriptFeatures}
    (h : WellIndexed (.ask question compiler files now d :: ops) m) :
    (m.host.indexed now d).1 = .ofDocument d :=
  h.sound.get_eq h.wellKept

/-! ## 5. What came last and what is kept

`Agrees` compares the state with the documents that came so far.  It is kept by one operation, and
hence along a run: a document that comes is the last one of its address, its script is written, and
the store has it or something newer.  That no other address has the same file name keeps the scripts
apart. -/

/-- The document of an address that was taken in last. -/
def lastOf? (uri : Uri) (documents : List Document) : Option Document :=
  documents.reverse.find? (·.uri = uri)

/-- A document that comes is the last of its address. -/
theorem lastOf?_concat (uri : Uri) (documents : List Document) (d : Document) :
    lastOf? uri (documents ++ [d]) = if d.uri = uri then some d else lastOf? uri documents := by
  rw [lastOf?, List.reverse_append, List.reverse_singleton, List.singleton_append]
  by_cases h : d.uri = uri
  · simp [h]
  · simp [h, lastOf?]

theorem mem_of_lastOf? {uri : Uri} {documents : List Document} {d : Document}
    (h : lastOf? uri documents = some d) : d ∈ documents ∧ d.uri = uri :=
  ⟨List.mem_reverse.mp (List.mem_of_find?_eq_some h), by simpa using List.find?_some h⟩

/-- No document is followed by an older version of itself. -/
def InOrder (documents : List Document) : Prop :=
  documents.Pairwise fun d d' => d'.uri = d.uri → d.version ≤ d'.version

/-- Where versions never go back, what came last is the newest. -/
theorem InOrder.version_le {documents : List Document} {uri : Uri} {d last : Document}
    (h : InOrder documents) (hlast : lastOf? uri documents = some last) (hd : d ∈ documents)
    (huri : d.uri = uri) : d.version ≤ last.version := by
  obtain ⟨-, later, earlier, hsplit, hother⟩ := List.find?_eq_some_iff_append.mp hlast
  have hmem : d ∈ later ++ last :: earlier := hsplit ▸ List.mem_reverse.mpr hd
  have hpairs := List.pairwise_reverse.mpr h
  rw [hsplit] at hpairs
  rcases List.mem_append.mp hmem with hlater | hmem
  · -- what came later has another address
    exact absurd huri (by simpa using hother d hlater)
  rcases List.mem_cons.mp hmem with rfl | hearlier
  · exact Int.le_refl _
  · have hrel := List.rel_of_pairwise_cons (List.pairwise_append.mp hpairs).2.1 hearlier
    exact hrel ((mem_of_lastOf? hlast).2.trans huri.symm)

/-- The host has the script of what came last, and the store has something at least as new. -/
structure Agrees (documents : List Document) (m : ScriptFeatures) : Prop where
  served : ∀ uri last, lastOf? uri documents = some last →
    (m.host.stateOf last.fileName).text = some (ScriptView.ofText last.text).text
  nodup : (Table.keys m.documents).Nodup
  kept : ∀ uri d, Table.get? m.documents uri = some d → d.uri = uri ∧ d ∈ documents ∧
    ∃ last, lastOf? uri documents = some last ∧ last.version ≤ d.version

/-- Operations that bring no document and write no text; a document may be closed. -/
theorem Agrees.of_same {documents : List Document} {m m' : ScriptFeatures} (h : Agrees documents m)
    (htext : ∀ file, (m'.host.stateOf file).text = (m.host.stateOf file).text)
    (hnodup : (Table.keys m'.documents).Nodup)
    (hdocuments : ∀ uri d, Table.get? m'.documents uri = some d →
      Table.get? m.documents uri = some d) : Agrees documents m' where
  served uri last hlast := (htext _).trans (h.served uri last hlast)
  nodup := hnodup
  kept uri d hd := h.kept uri d (hdocuments uri d hd)

/-- **Taking in a document**, under its own index and under a file name of its own. -/
theorem Agrees.prepare {documents : List Document} {m : ScriptFeatures} (h : Agrees documents m)
    {now : Nat} {d : Document} (hindex : (m.host.indexed now d).1 = .ofDocument d)
    (hnames : ∀ d' ∈ documents, d'.fileName = d.fileName → d'.uri = d.uri) (s : FileView) :
    Agrees (documents ++ [d]) (m.prepare s now d).features where
  served uri last hlast := by
    rw [lastOf?_concat] at hlast
    rw [host_prepare]
    split at hlast
    · cases hlast
      exact Host.text_updateDocument hindex s
    · next hne =>
      obtain ⟨hmem, huri⟩ := mem_of_lastOf? hlast
      have hfile : last.fileName ≠ d.fileName := fun hsame =>
        hne ((hnames last hmem hsame).symm.trans huri)
      rw [(m.host.updateDocument_spec s now d).1.others _ hfile]
      exact h.served uri last hlast
  nodup := DocumentStore.nodup_keys_opened h.nodup d
  kept uri d' hd' := by
    rw [documents_prepare, DocumentStore.get?_opened] at hd'
    rw [lastOf?_concat]
    split at hd'
    · next huri =>
      cases hd'
      subst huri
      rw [if_pos rfl]
      rcases m.documents.opened_cases d with hnew | ⟨hold, hle⟩
      · rw [hnew]
        exact ⟨rfl, by simp, d, rfl, Int.le_refl _⟩
      · obtain ⟨hkey, hmem, -⟩ := h.kept _ _ hold
        exact ⟨hkey, List.mem_append_left _ hmem, d, rfl, hle⟩
    · next huri =>
      obtain ⟨hkey, hmem, last, hlast, hle⟩ := h.kept uri d' hd'
      rw [if_neg (Ne.symm huri)]
      exact ⟨hkey, List.mem_append_left _ hmem, last, hlast, hle⟩

/-- **One operation.** -/
theorem Agrees.perform {documents : List Document} {m : ScriptFeatures} {op : Operation}
    {ops : List Operation} (h : Agrees documents m) (hindexed : WellIndexed (op :: ops) m)
    (hnames : ∀ d ∈ op.document?, ∀ d' ∈ documents, d'.fileName = d.fileName → d'.uri = d.uri) :
    Agrees (documents ++ op.document?.toList) (m.perform op) := by
  have htext : op.document? = none →
      ∀ file, ((m.perform op).host.stateOf file).text = (m.host.stateOf file).text := by
    intro hnone file
    refine text_perform fun d hd => ?_
    rw [hnone] at hd
    cases hd
  cases op with
  | ask question compiler files now d =>
    rw [ScriptFeatures.perform, asked_eq]
    exact h.prepare hindexed.indexed_eq (hnames d rfl) files
  | close uri =>
    refine (List.append_nil documents).symm ▸ h.of_same (htext rfl) ?_ ?_
    · exact Table.nodup_keys_filter h.nodup _
    · intro uri' d hd
      have hne : uri' ≠ uri := by
        rintro rfl
        rw [show Table.get? (m.perform (.close uri')).documents uri' = none from
          Table.get?_erase_self _ _] at hd
        cases hd
      exact (Table.get?_erase_of_ne m.documents hne).symm.trans hd
  | watched uri =>
    exact (List.append_nil documents).symm ▸ h.of_same (htext rfl) h.nodup fun _ _ hd => hd
  | resolve files containing names =>
    exact (List.append_nil documents).symm ▸ h.of_same (htext rfl) h.nodup fun _ _ hd => hd
  | sourceFile files file =>
    exact (List.append_nil documents).symm ▸ h.of_same (htext rfl) h.nodup fun _ _ hd => hd

theorem taken_cons (op : Operation) (ops : List Operation) :
    taken (op :: ops) = op.document?.toList ++ taken ops := by
  rw [taken, List.filterMap_cons]
  cases op.document? <;> rfl

/-- **A run.** -/
theorem Agrees.run {documents : List Document} {m : ScriptFeatures} {ops : List Operation}
    (h : Agrees documents m) (hindexed : WellIndexed ops m)
    (hregular : Regular (documents ++ taken ops)) :
    Agrees (documents ++ taken ops) (m.run ops) := by
  induction ops generalizing documents m with
  | nil => exact (List.append_nil documents).symm ▸ h
  | cons op ops ih =>
    rw [taken_cons, ← List.append_assoc] at hregular ⊢
    refine ih (h.perform hindexed ?_) hindexed.perform hregular
    intro d hd d' hd'
    have hmem : d ∈ documents ++ op.document?.toList :=
      List.mem_append_right _ (Option.mem_toList.mpr hd)
    exact hregular.uri_eq d (List.mem_append_left _ hmem) d'
      (List.mem_append_left _ (List.mem_append_left _ hd'))

theorem wellIndexed_ofWorkspace (disk : FileTree) (workspace : String) (settings : Settings)
    (factory : TreeFactory) (autoImport : Bool) {ops : List Operation}
    (hconsistent : Cache.Consistent (cacheOperations ops)) :
    WellIndexed ops (ofWorkspace disk workspace settings factory autoImport) := by
  have hregions := Host.regions_ofWorkspace disk workspace settings factory
  have hentries : (Host.ofWorkspace disk workspace settings factory).regions.entries = [] := by
    rw [hregions]
  refine ⟨.of_nil hentries (by rw [ofWorkspace, hregions]), ?_, hconsistent⟩
  intro key e hfind
  rw [Cache.find?, ofWorkspace, hentries] at hfind
  cases hfind

theorem agrees_ofWorkspace (disk : FileTree) (workspace : String) (settings : Settings)
    (factory : TreeFactory) (autoImport : Bool) :
    Agrees [] (ofWorkspace disk workspace settings factory autoImport) where
  served _ _ hlast := by cases hlast
  nodup := List.nodup_nil
  kept _ _ hd := by cases hd

/-! ## 6. The store and the host

The lines of a file are looked up by its name among the open documents, so here too it matters that
a file has one address. -/

/-- The lines of an open file are those of its document. -/
theorem Agrees.linesOf?_eq {documents : List Document} {m : ScriptFeatures} (h : Agrees documents m)
    (hregular : Regular documents) {uri : Uri} {d : Document}
    (hd : Table.get? m.documents uri = some d) (s : FileView) :
    m.linesOf? s d.fileName = some d.lines := by
  have hfound : m.documents.byFileName? d.fileName = some d := by
    unfold DocumentStore.byFileName?
    have hmem : (uri, d) ∈ m.documents := (Table.mem_iff_get? h.nodup).mpr hd
    cases hfind : m.documents.find? fun e => e.2.fileName == d.fileName with
    | none => exact absurd (List.find?_eq_none.mp hfind _ hmem) (by simp)
    | some e =>
      have hname : e.2.fileName = d.fileName := by simpa using List.find?_some hfind
      have he : Table.get? m.documents e.1 = some e.2 :=
        (Table.mem_iff_get? h.nodup).mp (List.mem_of_find?_eq_some hfind)
      obtain ⟨hkey, hmem, -⟩ := h.kept uri d hd
      obtain ⟨hkey', hmem', -⟩ := h.kept e.1 e.2 he
      have huri : e.1 = uri := hkey'.symm.trans ((hregular.uri_eq d hmem _ hmem' hname).trans hkey)
      rw [huri, hd] at he
      exact he.symm
  rw [linesOf?, hfound]

/-- **What the host serves of a component that is kept open.**  In a run in which files have one
address and versions one text, lines are counted in the version that is kept, and the script is that
of the version that came last.  That one is the version that is kept or an older one.  If versions
never go back, the script too is that of the version that is kept. -/
theorem snapshot?_eq_last_taken (disk : FileTree) (workspace : String) (settings : Settings)
    (factory : TreeFactory) (autoImport : Bool) (ops : List Operation)
    (hregular : Regular (taken ops)) :
    let m := (ofWorkspace disk workspace settings factory autoImport).run ops
    ∀ uri d, Table.get? m.documents uri = some d → d.isComponent → ∀ s : FileView,
      m.linesOf? s d.fileName = some d.lines ∧
      (∃ last, lastOf? d.uri (taken ops) = some last ∧ (last = d ∨ last.version < d.version) ∧
        m.host.snapshot? s d.fileName = some (FileView.componentScript last.text)) ∧
      (InOrder (taken ops) →
        m.host.snapshot? s d.fileName = some (FileView.componentScript d.text)) := by
  intro m uri d hd hcomponent s
  have h : Agrees (taken ops) m :=
    (agrees_ofWorkspace disk workspace settings factory autoImport).run
      (wellIndexed_ofWorkspace disk workspace settings factory autoImport hregular.consistent)
      hregular
  obtain ⟨rfl, hmem, last, hlast, hle⟩ := h.kept uri d hd
  obtain ⟨hmem', huri⟩ := mem_of_lastOf? hlast
  have hfile : last.fileName = d.fileName := congrArg Uri.fileName huri
  have hserved := h.served d.uri last hlast
  rw [hfile] at hserved
  have hsnapshot : m.host.snapshot? s d.fileName = some (FileView.componentScript last.text) :=
    Host.snapshot?_of_text (Uri.isComponent_fileName hcomponent) hserved s
  -- one address and one version make one document
  have hsame : last.version = d.version → last = d := fun heq => by
    have hprint : last.fingerprint = d.fingerprint := by
      rw [Document.fingerprint, Document.fingerprint, huri, heq]
    exact Cache.document_eq hprint (hregular.text_eq d hmem last hmem' hprint)
  refine ⟨h.linesOf?_eq hregular hd s, ⟨last, hlast, ?_, hsnapshot⟩, fun horder => ?_⟩
  · rcases Int.lt_or_eq_of_le hle with hlt | heq
    · exact Or.inr hlt
    · exact Or.inl (hsame heq)
  · rw [← hsame (Int.le_antisymm hle (horder.version_le hlast hmem rfl))]
    rwa [hfile]

/-- A compiler that knows the files of the project and nothing else. -/
def silentCompiler : Compiler where
  programFiles roots := roots
  syntactic _ := []
  semantic _ := []
  completions _ _ _ := []
  nameInfo? _ _ := none
  definitions _ _ := []
  references _ _ := []

/-- A component that is written twice, with another one in between and a change on disk. -/
theorem snapshot?_eq_last_taken_newer :
    let s := FileView.ofTexts []
    let a : Uri := { scheme := "file", host := some "", path := "/a.vue" }
    let b : Uri := { scheme := "file", host := some "", path := "/b.vue" }
    let ops : List Operation := [.ask .validate silentCompiler s 0 ⟨a, 1, "<script>let a</script>"⟩,
      .ask (.hover ⟨0, 0⟩) silentCompiler s 1 ⟨b, 1, "<script>let c</script>"⟩,
      .ask .validate silentCompiler s 2 ⟨a, 3, "<script>let b</script>"⟩, .watched a]
    let m := (ofWorkspace .empty "/" {} .bridging false).run ops
    let d : Document := ⟨a, 3, "<script>let b</script>"⟩
    Regular (taken ops) ∧ Table.get? m.documents a = some d ∧ d.isComponent ∧
      m.host.snapshot? s d.fileName = some (FileView.componentScript d.text) := by
  intro s a b ops m d
  have hregular : Regular (taken ops) := by decide +kernel
  have hd : Table.get? m.documents a = some d := by decide +kernel
  have hcomponent : d.isComponent := by decide +kernel
  have hsame : lastOf? d.uri (taken ops) = some d := by decide +kernel
  refine ⟨hregular, hd, hcomponent, ?_⟩
  obtain ⟨-, ⟨last, hlast, -, hsnapshot⟩, -⟩ :=
    snapshot?_eq_last_taken .empty "/" {} .bridging false ops hregular a d hd hcomponent s
  rw [hsame] at hlast
  rw [← Option.some.inj hlast] at hsnapshot
  exact hsnapshot

/-- **An older version that comes last is served, and not kept**: the store has the second version
of the component, from which lines are counted, and the host has the script of the first. -/
theorem snapshot?_ne_kept_older_last :
    let s := FileView.ofTexts []
    let a : Uri := { scheme := "file", host := some "", path := "/p/App.vue" }
    let kept : Document := ⟨a, 2, "<script>\n\n\nlet a\n</script>\n"⟩
    let ops : List Operation := [.ask .validate silentCompiler s 0 kept,
      .ask .validate silentCompiler s 1 ⟨a, 1, "<script>let b\n</script>\n"⟩]
    let m := (ofWorkspace .empty "/" {} .bridging false).run ops
    Regular (taken ops) ∧ Table.get? m.documents a = some kept ∧
      m.host.snapshot? s "/p/App.vue" = some "        let b\n         \n" ∧
      FileView.componentScript kept.text = "        \n\n\nlet a\n         \n" := by
  decide +kernel

end ScriptFeatures

end ComponentHost
