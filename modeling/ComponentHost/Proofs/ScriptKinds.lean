/-
# The kind that a component is parsed as

The kind of a component's script is kept twice: the host keeps the kind that was last written,
and the parsed script keeps the kind that it was first parsed as.  A kind that is written in
place of another resets the parsed script.  The first kind that is written resets nothing,
because there is none before it; if the script was parsed from its file by then, and the file has
another kind, the two are apart from then on.

Which of the two happens is told by the history of the script alone: when it was parsed and which
kinds were written.  The histories after which the kinds are apart are those that are opened late
(`OpenedLate`), and no others.
-/
import ComponentHost.Proofs.HostRuns
import Mathlib.Data.List.Basic

namespace ComponentHost

/-! ## 1. Histories

A history has only what concerns kinds.  `Leaves` says what both records are after it, and the rest
of the section is that one more event keeps it so.  The interesting case is a kind that is written:
it is the first, or the same as before, or another. -/

/-- What happens to the kind of a script. -/
inductive ScriptEvent where
  | parsed
  | written (kind : ScriptKind)
deriving DecidableEq

namespace ScriptEvent

/-- The kind that is written. -/
def kind? : ScriptEvent → Option ScriptKind
  | parsed => none
  | written kind => some kind

/-- The kinds that were written, one after another. -/
def kinds (history : List ScriptEvent) : List ScriptKind := history.filterMap kind?

/-- The script was parsed before it was ever written, and all that was written since is of one
kind, which is not that of the file. -/
def OpenedLate (onDisk : ScriptKind) (history : List ScriptEvent) : Prop :=
  history.head? = some parsed ∧
    ∃ k ∈ kinds history, k ≠ onDisk ∧ ∀ k' ∈ kinds history, k' = k

instance (onDisk : ScriptKind) (history : List ScriptEvent) :
    Decidable (OpenedLate onDisk history) :=
  inferInstanceAs (Decidable (_ ∧ _))

theorem kinds_concat_parsed (history : List ScriptEvent) :
    kinds (history ++ [parsed]) = kinds history := by
  rw [kinds, List.filterMap_append]
  exact List.append_nil _

theorem kinds_concat_written (history : List ScriptEvent) (k : ScriptKind) :
    kinds (history ++ [written k]) = kinds history ++ [k] :=
  List.filterMap_append

/-- Only the first event and the set of kinds matter. -/
theorem openedLate_congr {onDisk : ScriptKind} {a b : List ScriptEvent}
    (hhead : a.head? = b.head?) (hkinds : ∀ k, k ∈ kinds a ↔ k ∈ kinds b) :
    OpenedLate onDisk a ↔ OpenedLate onDisk b := by
  simp only [OpenedLate, hhead, hkinds]

theorem not_openedLate_of_kinds_nil {onDisk : ScriptKind} {history : List ScriptEvent}
    (h : kinds history = []) : ¬ OpenedLate onDisk history := by
  rintro ⟨-, k, hk, -⟩
  rw [h] at hk
  cases hk

/-- One more parse makes no history late: it is not the first event, or there is nothing else. -/
theorem openedLate_concat_parsed {onDisk : ScriptKind} {history : List ScriptEvent} :
    OpenedLate onDisk (history ++ [parsed]) ↔ OpenedLate onDisk history := by
  have hkinds := kinds_concat_parsed history
  by_cases hne : history = []
  · subst hne
    exact iff_of_false (not_openedLate_of_kinds_nil hkinds) (not_openedLate_of_kinds_nil rfl)
  · exact openedLate_congr (List.head?_append_of_ne_nil _ hne) fun k => by rw [hkinds]

/-- A history without kinds starts with a parse, if at all. -/
theorem head?_of_kinds_nil {history : List ScriptEvent} (h : kinds history = [])
    (hne : history ≠ []) : history.head? = some parsed := by
  cases history with
  | nil => exact absurd rfl hne
  | cons e rest =>
    cases e with
    | parsed => rfl
    | written k => cases h

/-- The kinds that a history leaves behind: the kind last written and the kind parsed as. -/
structure Leaves (onDisk : ScriptKind) (history : List ScriptEvent)
    (last parsedAs : Option ScriptKind) : Prop where
  last_eq : last = (kinds history).getLast?
  isSome_iff : parsedAs.isSome ↔ parsed ∈ history
  kind_eq : ∀ k, parsedAs = some k →
    k = if OpenedLate onDisk history then onDisk else last.getD onDisk

namespace Leaves

variable {onDisk : ScriptKind} {history : List ScriptEvent} {last parsedAs : Option ScriptKind}

theorem nil : Leaves onDisk [] none none :=
  ⟨rfl, by simp, fun _ h => by cases h⟩

theorem kinds_eq_nil (h : Leaves onDisk history none parsedAs) : kinds history = [] :=
  List.getLast?_eq_none_iff.mp h.last_eq.symm

theorem mem_kinds {k : ScriptKind} (h : Leaves onDisk history (some k) parsedAs) :
    k ∈ kinds history :=
  List.mem_of_getLast? h.last_eq.symm

theorem ne_nil {k : ScriptKind} (h : Leaves onDisk history last (some k)) : history ≠ [] :=
  List.ne_nil_of_mem (h.isSome_iff.mp rfl)

/-- The kind that a script is served as: the one it was parsed as, or else the one it has. -/
theorem served_eq (h : Leaves onDisk history last parsedAs) :
    parsedAs.getD (last.getD onDisk)
      = if OpenedLate onDisk history then onDisk else last.getD onDisk := by
  cases parsedAs with
  | none =>
    have hnot : ¬ OpenedLate onDisk history := fun hlate =>
      absurd (h.isSome_iff.mpr (List.mem_of_head? hlate.1)) (by simp)
    rw [if_neg hnot]
    rfl
  | some k => exact h.kind_eq k rfl

/-- **A script that is parsed keeps the kind it was parsed as**, and else takes the kind it has. -/
theorem concat_parsed (h : Leaves onDisk history last parsedAs) :
    Leaves onDisk (history ++ [parsed]) last (some (parsedAs.getD (last.getD onDisk))) := by
  refine ⟨?_, by simp, ?_⟩
  · rw [kinds_concat_parsed]
    exact h.last_eq
  · intro k hk
    cases hk
    simp only [openedLate_concat_parsed]
    exact h.served_eq

/-- A first kind leaves the parsed script as it is: it is the kind of the file, or the script was
opened late. -/
theorem concat_written_first {r : ScriptKind} (h : Leaves onDisk history none (some r))
    (k : ScriptKind) :
    r = if OpenedLate onDisk (history ++ [written k]) then onDisk else k := by
  have hkinds := h.kinds_eq_nil
  have hr : r = onDisk := by
    rw [h.kind_eq r rfl, if_neg (not_openedLate_of_kinds_nil hkinds)]
    rfl
  split
  · exact hr
  · next hnot =>
    by_cases hk : k = onDisk
    · exact hr.trans hk.symm
    · refine absurd ⟨?_, k, ?_, hk, ?_⟩ hnot
      · rw [List.head?_append_of_ne_nil _ h.ne_nil]
        exact head?_of_kinds_nil hkinds h.ne_nil
      · simp [kinds_concat_written]
      · simp [kinds_concat_written, hkinds]

/-- The same kind once more is no news. -/
theorem concat_written_same {r k : ScriptKind} (h : Leaves onDisk history (some k) (some r)) :
    r = if OpenedLate onDisk (history ++ [written k]) then onDisk else k := by
  have hcongr : OpenedLate onDisk (history ++ [written k]) ↔ OpenedLate onDisk history := by
    refine openedLate_congr (List.head?_append_of_ne_nil _ h.ne_nil) fun k' => ?_
    rw [kinds_concat_written, List.mem_append, List.mem_singleton]
    exact ⟨fun hk' => hk'.elim id fun heq => heq ▸ h.mem_kinds, Or.inl⟩
  simp only [hcongr]
  exact h.kind_eq r rfl

/-- Two kinds were written, so the script is not opened late. -/
theorem not_openedLate_concat {k k' : ScriptKind} (h : Leaves onDisk history (some k') parsedAs)
    (hne : k' ≠ k) : ¬ OpenedLate onDisk (history ++ [written k]) := by
  rintro ⟨-, w, -, -, hall⟩
  rw [kinds_concat_written] at hall
  have hk' : k' = w := hall k' (List.mem_append_left _ h.mem_kinds)
  have hk : k = w := hall k (List.mem_append_right _ List.mem_cons_self)
  exact hne (hk'.trans hk.symm)

/-- **A kind that is written in place of another becomes the kind parsed as.** -/
theorem concat_written (h : Leaves onDisk history last parsedAs) (k : ScriptKind) :
    Leaves onDisk (history ++ [written k]) (some k)
      (if last.any (· != k) then parsedAs.map fun _ => k else parsedAs) := by
  refine ⟨?_, ?_, ?_⟩
  · rw [kinds_concat_written, List.getLast?_concat]
  · rw [List.mem_append, ← h.isSome_iff]
    split <;> simp
  · intro r hr
    cases last with
    | none =>
      have hsame : parsedAs = some r := by simpa using hr
      exact (hsame ▸ h).concat_written_first k
    | some k' =>
      by_cases hk : k' = k
      · subst hk
        have hsame : parsedAs = some r := by simpa using hr
        exact (hsame ▸ h).concat_written_same
      · have hchanged : (some k').any (· != k) = true := by simpa using hk
        rw [if_pos hchanged] at hr
        obtain ⟨-, -, rfl⟩ := Option.map_eq_some_iff.mp hr
        rw [if_neg (h.not_openedLate_concat hk)]
        rfl

/-- Opened late, a script has a kind that is not that of its file. -/
theorem getD_ne_of_openedLate (h : Leaves onDisk history last parsedAs)
    (hlate : OpenedLate onDisk history) : last.getD onDisk ≠ onDisk := by
  obtain ⟨-, k, hk, hne, hall⟩ := hlate
  cases last with
  | none =>
    rw [h.kinds_eq_nil] at hk
    cases hk
  | some k' => exact fun heq => hne ((hall k' h.mem_kinds).symm.trans heq)

/-- **The kinds are apart exactly if the script was opened late.** -/
theorem served_eq_iff (h : Leaves onDisk history last parsedAs) :
    parsedAs.getD (last.getD onDisk) = last.getD onDisk ↔ ¬ OpenedLate onDisk history := by
  rw [h.served_eq]
  split
  · next hlate =>
    exact ⟨fun heq => absurd heq.symm (h.getD_ne_of_openedLate hlate), fun h' => absurd hlate h'⟩
  · next hnot => exact ⟨fun _ => hnot, fun _ => rfl⟩

end Leaves

end ScriptEvent

namespace Host

open ScriptEvent

/-! ## 2. The history of a script along a run

Each operation of a run is at most one event for a given script.  Whether it is one may depend on
the host: a script that cannot be served is not parsed. -/

/-- What an operation is to the kind of a script. -/
def eventOf (s : FileView) (p : String) (h : Host) : Operation → Option ScriptEvent
  | .update now d =>
    if d.fileName = p then some (.written (h.updateDocument s now d).1.kind) else none
  | .sourceFile file =>
    if file = p ∧ (h.sourceFile s file).1.isSome then some .parsed else none
  | _ => none

/-- What happens to the kind of a script along a run. -/
def history (s : FileView) (p : String) (h : Host) : List Operation → List ScriptEvent
  | [] => []
  | op :: ops => (h.eventOf s p op).toList ++ (h.perform s op).history s p ops

/-- The kind of a component by its file. -/
def kindOnDisk (s : FileView) (p : String) : ScriptKind :=
  .ofLanguageId (scriptOnDisk s p).language

/-- The kind that a file was parsed as. -/
def parsedKind? (h : Host) (p : String) : Option ScriptKind :=
  (h.sources.record? p).map (·.kind)

theorem scriptKind_eq (h : Host) (s : FileView) {p : String} (hp : Path.isComponent p) :
    h.scriptKind s p = (h.stateOf p).kind.getD (kindOnDisk s p) := by
  rw [scriptKind, if_neg (ne_bridge_of_isComponent hp), if_pos hp, stateOf]
  cases h.script? p <;> rfl

/-- A host that has come to be by a history. -/
structure Tracks (s : FileView) (p : String) (events : List ScriptEvent) (h : Host) : Prop where
  sound : h.sources.Sound
  leaves : Leaves (kindOnDisk s p) events (h.stateOf p).kind (h.parsedKind? p)

theorem tracks_ofWorkspace (s : FileView) (p : String) (disk : FileTree) (workspace : String)
    (settings : Settings) (factory : TreeFactory) :
    Tracks s p [] (ofWorkspace disk workspace settings factory) := by
  refine ⟨?_, ?_⟩
  · rw [sources_ofWorkspace]
    exact SourceFiles.sound_empty
  · rw [stateOf_ofWorkspace, parsedKind?, sources_ofWorkspace]
    exact .nil

theorem kind_servedRecord (h : Host) (s : FileView) (p text : String) :
    (h.servedRecord s p text).kind = (h.parsedKind? p).getD (h.scriptKind s p) :=
  SourceFiles.servedRecord_kind ..

/-- Operations that the history does not list. -/
theorem Tracks.of_same {s : FileView} {p : String} {events : List ScriptEvent} {h h' : Host}
    (ht : Tracks s p events h) (hsound : h'.sources.Sound)
    (hkind : (h'.stateOf p).kind = (h.stateOf p).kind)
    (hrecord : h'.sources.record? p = h.sources.record? p) : Tracks s p (events ++ []) h' := by
  refine ⟨hsound, ?_⟩
  rw [List.append_nil, hkind, parsedKind?, hrecord]
  exact ht.leaves

/-- **Writing a document.**  The reset is due to a kind that was written before. -/
theorem Tracks.update {s : FileView} {p : String} {events : List ScriptEvent} {h : Host}
    (ht : Tracks s p events h) (now : Nat) (d : Document) :
    Tracks s p (events ++ (h.eventOf s p (.update now d)).toList)
      (h.updateDocument s now d).2 := by
  obtain ⟨hw, hsources⟩ := h.updateDocument_spec s now d
  have hsound : (h.updateDocument s now d).2.sources.Sound := by
    rw [hsources]
    split
    · exact SourceFiles.sound_reset ht.sound _ _
    · exact ht.sound
  by_cases hp : d.fileName = p
  · subst hp
    rw [eventOf, if_pos rfl]
    refine ⟨hsound, ?_⟩
    have hleaves := ht.leaves.concat_written (h.updateDocument s now d).1.kind
    rw [hw.self, parsedKind?, hsources]
    split
    · next hchanged =>
      rw [if_pos hchanged, parsedKind?, Option.map_map] at hleaves
      rw [SourceFiles.kind_reset ht.sound]
      exact hleaves
    · next hsame =>
      rw [if_neg hsame] at hleaves
      exact hleaves
  · rw [eventOf, if_neg hp]
    refine ht.of_same hsound ?_ ?_
    · rw [hw.others p (Ne.symm hp)]
    · rw [hsources]
      split
      · exact SourceFiles.record?_reset_of_ne ht.sound _ (Ne.symm hp)
      · rfl

/-- **Asking for the parsed script.** -/
theorem Tracks.sourceFile {s : FileView} {p : String} (hp : Path.isComponent p)
    {events : List ScriptEvent} {h : Host} (ht : Tracks s p events h) (file : String) :
    Tracks s p (events ++ (h.eventOf s p (.sourceFile file)).toList)
      (h.sourceFile s file).2.2 := by
  rcases sourceFile_cases ht.sound s file with
    ⟨hnone, hsame, -⟩ | ⟨text, id, sources, -, hsome, hafter, hrecorded⟩
  · rw [eventOf, if_neg (by simp [hnone]), hsame]
    exact ht.of_same ht.sound rfl rfl
  · rw [hafter]
    by_cases hfile : file = p
    · subst hfile
      rw [eventOf, if_pos ⟨rfl, by rw [hsome]; rfl⟩]
      refine ⟨hrecorded.sound, ?_⟩
      have hparsed : parsedKind? { h with sources := sources } file
          = some ((h.parsedKind? file).getD ((h.stateOf file).kind.getD (kindOnDisk s file))) := by
        rw [parsedKind?, hrecorded.self, Option.map_some, kind_servedRecord, scriptKind_eq h s hp]
      rw [hparsed]
      exact ht.leaves.concat_parsed
    · rw [eventOf, if_neg (fun h' => hfile h'.1)]
      exact ht.of_same hrecorded.sound rfl (hrecorded.others p (Ne.symm hfile))

/-- **One operation is one step of the history.** -/
theorem Tracks.perform {s : FileView} {p : String} (hp : Path.isComponent p)
    {events : List ScriptEvent} {h : Host} (ht : Tracks s p events h) (op : Operation) :
    Tracks s p (events ++ (h.eventOf s p op).toList) (h.perform s op) := by
  cases op with
  | update now d => exact ht.update now d
  | touch file =>
    obtain ⟨hw, hsources⟩ := h.touch_spec file
    refine ht.of_same (hsources ▸ ht.sound) ?_ (congrArg (·.record? p) hsources)
    show ((h.touch file).stateOf p).kind = (h.stateOf p).kind
    by_cases hfile : p = Path.normalize file
    · rw [hfile, hw.self]
    · rw [hw.others p hfile]
  | resolve containing names =>
    have ha := h.alike_resolveModules s containing names
    refine ht.of_same (ha.sources ▸ ht.sound) ?_ (congrArg (·.record? p) ha.sources)
    exact congrArg ScriptState.kind (stateOf_eq_of_scripts ha.scripts p)
  | sourceFile file => exact ht.sourceFile hp file
  | recache regions => exact ht.of_same ht.sound rfl rfl

/-- **A run is its history.** -/
theorem Tracks.run {s : FileView} {p : String} (hp : Path.isComponent p)
    {events : List ScriptEvent} {h : Host} (ht : Tracks s p events h) (ops : List Operation) :
    Tracks s p (events ++ h.history s p ops) (h.run s ops) := by
  induction ops generalizing events h with
  | nil => exact ht.of_same ht.sound rfl rfl
  | cons op ops ih =>
    rw [history, ← List.append_assoc]
    exact ih (ht.perform hp op)

/-! ## 3. The kind that is served

With the kinds of every history known, only the two have to be compared. -/

/-- **When a component is parsed as the kind it has.**  It is, unless it was parsed from its file
before it was ever open, and all that was written since has one kind, which is not that of the
file; then it is still parsed as the kind of the file. -/
theorem sourceFile_kind_eq_iff (disk : FileTree) (workspace : String) (settings : Settings)
    (factory : TreeFactory) (s : FileView) (ops : List Operation) {p : String}
    (hp : Path.isComponent p) :
    let start := ofWorkspace disk workspace settings factory
    let host := start.run s ops
    ∀ f, (host.sourceFile s p).1 = some f →
      (f.kind = host.scriptKind s p ↔ ¬ OpenedLate (kindOnDisk s p) (start.history s p ops)) ∧
        (OpenedLate (kindOnDisk s p) (start.history s p ops) → f.kind = kindOnDisk s p) := by
  intro start host f hf
  have ht : Tracks s p (start.history s p ops) host :=
    (tracks_ofWorkspace s p disk workspace settings factory).run hp ops
  have hkind : f.kind
      = (host.parsedKind? p).getD ((host.stateOf p).kind.getD (kindOnDisk s p)) := by
    rcases sourceFile_cases ht.sound s p with ⟨hnone, -⟩ | ⟨text, id, sources, -, hsome, -⟩
    · rw [hf] at hnone
      cases hnone
    · rw [hf] at hsome
      cases hsome
      rw [← scriptKind_eq host s hp]
      exact kind_servedRecord host s p text
  rw [hkind, scriptKind_eq host s hp]
  refine ⟨ht.leaves.served_eq_iff, fun hlate => ?_⟩
  rw [ht.leaves.served_eq, if_pos hlate]

/-- Parsed from its file, opened as another kind and then written as a third: the change from one
written kind to the next resets what was parsed. -/
theorem sourceFile_kind_eq_switched :
    let s := FileView.ofTexts [("/a.vue", "<script lang=ts></script>")]
    let uri : Uri := { scheme := "file", host := some "", path := "/a.vue" }
    let start := ofWorkspace .empty "/" {} .bridging
    let ops := [.sourceFile "/a.vue", .update 0 ⟨uri, 1, "<script></script>"⟩,
      .sourceFile "/a.vue", .update 0 ⟨uri, 2, "<script lang=tsx></script>"⟩]
    Path.isComponent "/a.vue" ∧
      start.history s "/a.vue" ops = [.parsed, .written .js, .parsed, .written .tsx] ∧
      ∃ f, ((start.run s ops).sourceFile s "/a.vue").1 = some f ∧
        f.kind = (start.run s ops).scriptKind s "/a.vue" := by
  intro s uri start ops
  have hp : Path.isComponent "/a.vue" := by decide +kernel
  have hhistory : start.history s "/a.vue" ops
      = [.parsed, .written .js, .parsed, .written .tsx] := by decide +kernel
  obtain ⟨f, hf⟩ : ∃ f, ((start.run s ops).sourceFile s "/a.vue").1 = some f :=
    Option.isSome_iff_exists.mp (by decide +kernel)
  refine ⟨hp, hhistory, f, hf, ?_⟩
  refine (sourceFile_kind_eq_iff .empty "/" {} .bridging s ops hp f hf).1.mpr ?_
  rw [hhistory]
  decide +kernel

/-- **A component that is opened late is parsed as the wrong kind**: its file is typed, the text
that was written is not, and it is served as typed. -/
theorem sourceFile_kind_ne_opened_late :
    let s := FileView.ofTexts [("/a.vue", "<script lang=ts></script>")]
    let uri : Uri := { scheme := "file", host := some "", path := "/a.vue" }
    let host := (ofWorkspace .empty "/" {} .bridging).run s
      [.sourceFile "/a.vue", .update 0 ⟨uri, 1, "<script></script>"⟩]
    host.scriptKind s "/a.vue" = .js ∧
      (host.sourceFile s "/a.vue").1.map (·.kind) = some .ts := by
  decide +kernel

end Host

end ComponentHost
