/-
# Who the source files are

The compiler knows a source file by its number and holds on to numbers for as long as it runs.  The
files keep a table from names to numbers and a list of records in the order of numbers, and nothing
is ever taken out of either.  The two are inverse to each other (`Numbered`), which is all there is
to say about numbers: asking for a new file writes its name behind the others, everything else
leaves the names alone, and so a number that was given out once is given to the same file for good.

A file is parsed when it is due.  What is due is read from the operations that name the file: the
kind it was first asked for as or last reset to, the version it was last asked for at, and whether
it was reset since (`Standing`).  A record has a field for the first two only.  A reset is noted as
a version that no file is expected to have (`forgottenVersion`), and a file that is asked for at
just this version is taken for one that was never reset (`Standing.isDue`).
-/
import Mathlib.Data.List.Induction
import ComponentHost.Proofs.RootGrowth

namespace ComponentHost.SourceFiles

/-! ## 1. Numbers

The table and the list of names say the same from two sides.  All that is ever done to them together
is to write a new name behind the others, under the number that comes next. -/

/-- The names of the files, by number. -/
def names (a : SourceFiles) : List String := a.records.map (·.file)

theorem length_names (a : SourceFiles) : a.names.length = a.size := List.length_map _

/-- The table and the list are inverse to each other. -/
def Numbered (a : SourceFiles) : Prop :=
  ∀ file n, a.idOf? file = some ⟨n⟩ ↔ a.names[n]? = some file

theorem numbered_empty : Numbered {} := by
  intro file n
  exact iff_of_false nofun nofun

/-- Where the table and the list are inverse, numbers lead to records of their files. -/
theorem Numbered.sound {a : SourceFiles} (h : Numbered a) : a.Sound := by
  rintro file ⟨n⟩ hid
  have hname := (h file n).mp hid
  rw [names, List.getElem?_map] at hname
  exact Option.map_eq_some_iff.mp hname

/-- The files with a number are those with a name in the list. -/
theorem Numbered.mem_names_iff {a : SourceFiles} (h : Numbered a) {file : String} :
    file ∈ a.names ↔ (a.idOf? file).isSome := by
  rw [List.mem_iff_getElem?, Option.isSome_iff_exists]
  constructor
  · rintro ⟨n, hn⟩
    exact ⟨⟨n⟩, (h file n).mpr hn⟩
  · rintro ⟨⟨n⟩, hid⟩
    exact ⟨n, (h file n).mp hid⟩

theorem Numbered.of_same {a b : SourceFiles} (h : Numbered a) (hids : b.ids = a.ids)
    (hnames : b.names = a.names) : Numbered b := by
  intro file n
  rw [idOf?, hids, hnames]
  exact h file n

/-- What comes last stands at the number of the others, and those stand where they stood. -/
theorem getElem?_concat_iff {α : Type} (l : List α) (x y : α) (n : Nat) :
    (l ++ [x])[n]? = some y ↔ l[n]? = some y ∨ n = l.length ∧ x = y := by
  rcases Nat.lt_trichotomy n l.length with hlt | rfl | hgt
  · rw [List.getElem?_append_left hlt]
    exact ⟨Or.inl, fun h => h.resolve_right fun hlast => absurd hlast.1 (Nat.ne_of_lt hlt)⟩
  · simp
  · have hpast : (l ++ [x]).length ≤ n := by
      rw [List.length_append]
      exact hgt
    rw [List.getElem?_eq_none hpast, List.getElem?_eq_none (Nat.le_of_lt hgt)]
    exact ⟨Or.inl, fun h => h.resolve_right fun hlast => absurd hlast.1 (Nat.ne_of_gt hgt)⟩

/-- A new name behind the others. -/
theorem Numbered.appended {a b : SourceFiles} (h : Numbered a) {file : String}
    (hnew : a.idOf? file = none) (hids : b.ids = Table.set a.ids file ⟨a.size⟩)
    (hnames : b.names = a.names ++ [file]) : Numbered b := by
  have hnot : file ∉ a.names := by
    rw [h.mem_names_iff, hnew]
    decide
  intro p n
  rw [hnames, getElem?_concat_iff, length_names, idOf?, hids]
  by_cases hp : p = file
  · subst hp
    rw [Table.get?_set_self, Option.some.injEq, FileId.mk.injEq]
    constructor
    · exact fun hn => Or.inr ⟨hn.symm, rfl⟩
    · rintro (hold | ⟨hn, -⟩)
      · exact absurd (List.mem_of_getElem? hold) hnot
      · exact hn.symm
  · rw [Table.get?_set_of_ne _ _ hp]
    exact (h p n).trans ⟨Or.inl, fun hor => hor.resolve_right fun hlast => hp hlast.2.symm⟩

/-! ## 2. The two operations

Asking for a file may add a name, a reset never does.  In terms of names alone the first is the way
in which files join a list: at the end, and only if they are not in it. -/

section

variable {a : SourceFiles} {factory : TreeFactory} {file text : String} {version : Nat}
  {kind : ScriptKind}

/-- **Asking for a file** writes its name behind the others, unless it is there. -/
theorem Numbered.getOrUpdate (h : Numbered a) (hroom : file ∈ a.names ∨ a.size < maxFiles) :
    Numbered (a.getOrUpdate factory file text version kind).2.2 ∧
      (a.getOrUpdate factory file text version kind).2.2.names = Host.joinedFile a.names file := by
  cases hid : a.idOf? file with
  | none =>
    have hnot : file ∉ a.names := by
      rw [h.mem_names_iff, hid]
      decide
    rw [getOrUpdate_new hid (hroom.resolve_left hnot)]
    refine ⟨h.appended hid rfl List.map_append, List.map_append.trans ?_⟩
    rw [Host.joinedFile, if_neg (by simpa using hnot)]
    rfl
  | some id =>
    obtain ⟨r, hr, hfile⟩ := h.sound file id hid
    obtain ⟨hlt, hget⟩ := List.getElem?_eq_some_iff.mp ((h file id.index).mp hid)
    have hmem : file ∈ a.names := hget ▸ List.getElem_mem hlt
    rw [getOrUpdate_known hid hr]
    have hnames : (a.records.set id.index (broughtTo factory file text version r)).map
        SourceRecord.file = a.names := by
      rw [List.map_set, broughtTo_file, hfile, ← hget]
      exact List.set_getElem_self hlt
    refine ⟨h.of_same rfl hnames, hnames.trans ?_⟩
    rw [Host.joinedFile, if_pos (by simpa using hmem)]

theorem names_reset (a : SourceFiles) (file : String) (kind : ScriptKind) :
    (a.reset file kind).names = a.names := by
  refine List.ext_getElem? fun i => ?_
  rw [names, names, List.getElem?_map, List.getElem?_map, records_reset]
  split
  · rw [Option.map_map]
    rfl
  · rfl

/-- **A reset** leaves all names and numbers. -/
theorem Numbered.reset (h : Numbered a) (file : String) (kind : ScriptKind) :
    Numbered (a.reset file kind) :=
  h.of_same (ids_reset a file kind) (names_reset a file kind)

end

/-! ## 3. Runs

The names after a run are those that were asked for, whatever else the requests said.  Since names
are only added at the end, the list at one moment starts the list at any later one, and so numbers
stay. -/

/-- What is done to source files. -/
inductive Operation where
  | ask (factory : TreeFactory) (file text : String) (version : Nat) (kind : ScriptKind)
  | reset (file : String) (kind : ScriptKind)

/-- The file that is asked for. -/
def Operation.asked? : Operation → Option String
  | .ask _ file _ _ _ => some file
  | .reset _ _ => none

/-- The files after an operation. -/
def perform (a : SourceFiles) : Operation → SourceFiles
  | .ask factory file text version kind => (a.getOrUpdate factory file text version kind).2.2
  | .reset file kind => a.reset file kind

/-- The files after some operations, from none. -/
def run (ops : List Operation) : SourceFiles := ops.foldl perform {}

theorem run_concat (ops : List Operation) (op : Operation) :
    run (ops ++ [op]) = (run ops).perform op :=
  List.foldl_concat ..

/-- The files that are asked for, each once, in the order in which they are first asked for. -/
def askedFor (ops : List Operation) : List String := (ops.filterMap Operation.asked?).eraseDups

theorem askedFor_eq (ops : List Operation) :
    askedFor ops = Host.joinedFiles [] (ops.filterMap Operation.asked?) := by
  rw [Host.joinedFiles_eq, Host.newFiles, List.nil_append, askedFor]
  simp

theorem nodup_askedFor (ops : List Operation) : (askedFor ops).Nodup := by
  rw [askedFor_eq]
  exact Host.nodup_joinedFiles List.nodup_nil _

theorem askedFor_append (ops more : List Operation) :
    askedFor (ops ++ more)
      = Host.joinedFiles (askedFor ops) (more.filterMap Operation.asked?) := by
  rw [askedFor_eq, askedFor_eq, List.filterMap_append]
  exact List.foldl_append

/-- The files of an earlier moment start those of a later one. -/
theorem askedFor_isPrefix (ops more : List Operation) : askedFor ops <+: askedFor (ops ++ more) := by
  rw [askedFor_append, Host.joinedFiles_eq]
  exact List.prefix_append _ _

/-- There is a number for each file that is asked for. -/
def Fits (ops : List Operation) : Prop := (askedFor ops).length ≤ maxFiles

instance (ops : List Operation) : Decidable (Fits ops) := inferInstanceAs (Decidable (_ ≤ _))

theorem Fits.of_append {ops more : List Operation} (h : Fits (ops ++ more)) : Fits ops :=
  Nat.le_trans (askedFor_isPrefix ops more).length_le h

/-- The next file that is asked for is known or has a number left. -/
theorem Fits.room {ops : List Operation} {op : Operation} (h : Fits (ops ++ [op])) {file : String}
    (hop : op.asked? = some file) : file ∈ askedFor ops ∨ (askedFor ops).length < maxFiles := by
  by_cases hmem : file ∈ askedFor ops
  · exact Or.inl hmem
  · refine Or.inr ?_
    have hstep : askedFor (ops ++ [op]) = askedFor ops ++ [file] := by
      rw [askedFor_append, List.filterMap_cons_some hop]
      exact if_neg (by simpa using hmem)
    rw [Fits, hstep, List.length_append] at h
    exact h

/-- **Numbers count the files in the order in which they are first asked for.** -/
theorem numbered_run {ops : List Operation} (hfits : Fits ops) :
    Numbered (run ops) ∧ (run ops).names = askedFor ops := by
  induction ops using List.reverseRecOn with
  | nil => exact ⟨numbered_empty, rfl⟩
  | append_singleton ops op ih =>
    obtain ⟨hnumbered, hnames⟩ := ih hfits.of_append
    rw [run_concat, askedFor_append, ← hnames]
    cases op with
    | ask factory file text version kind =>
      have hroom := hfits.room rfl
      rw [← hnames, length_names] at hroom
      exact hnumbered.getOrUpdate hroom
    | reset file kind => exact ⟨hnumbered.reset file kind, names_reset _ file kind⟩

/-- **A number is given to one file for good.** -/
theorem idOf?_run_append {ops more : List Operation} (hfits : Fits (ops ++ more)) {file : String}
    {id : FileId} (hid : (run ops).idOf? file = some id) :
    (run (ops ++ more)).idOf? file = some id ∧
      ∀ other, (run (ops ++ more)).idOf? other = some id → other = file := by
  obtain ⟨hearly, hnamesEarly⟩ := numbered_run hfits.of_append
  obtain ⟨hlate, hnamesLate⟩ := numbered_run hfits
  have hname : (run (ops ++ more)).names[id.index]? = some file := by
    have hearlier := (hearly file id.index).mp hid
    obtain ⟨more', hmore⟩ := askedFor_isPrefix ops more
    rw [hnamesEarly] at hearlier
    rw [hnamesLate, ← hmore, List.getElem?_append_left (List.getElem?_eq_some_iff.mp hearlier).1]
    exact hearlier
  refine ⟨(hlate file id.index).mpr hname, fun other hother => ?_⟩
  exact Option.some.inj (((hlate other id.index).mp hother).symm.trans hname)

/-! ## 4. What is due

Here the other two fields of a record are followed.  `Standing` is computed from the operations
alone, and the record is shown to agree with it, with one version standing for "reset".  What a
request does is then a matter of comparing two versions. -/

/-- What the operations so far say of a file that was asked for. -/
structure Standing where
  /-- The kind that it was last reset to, or else first asked for as. -/
  kind : ScriptKind
  /-- The version that it was last asked for at. -/
  version : Nat
  /-- Was it reset since? -/
  isReset : Bool
deriving DecidableEq, Repr

/-- What is said of a file after one more operation. -/
def Standing.after (file : String) (standing : Option Standing) : Operation → Option Standing
  | .ask _ asked _ version kind =>
    if asked = file then some ⟨(standing.map (·.kind)).getD kind, version, false⟩ else standing
  | .reset other kind =>
    if other = file then standing.map fun st => ⟨kind, st.version, true⟩ else standing

/-- What some operations say of a file. -/
def standing (file : String) (ops : List Operation) : Option Standing :=
  ops.foldl (Standing.after file) none

theorem standing_concat (file : String) (ops : List Operation) (op : Operation) :
    standing file (ops ++ [op]) = Standing.after file (standing file ops) op :=
  List.foldl_concat ..

/-- Is the file parsed again when it is asked for at a version?  It is if the version has moved.
After a reset it is whatever the version, except one. -/
def Standing.isDue (st : Standing) (version : Nat) : Bool :=
  if st.isReset then version ≠ forgottenVersion else version ≠ st.version

/-- The version that the record of the file has. -/
def Standing.recorded (st : Standing) : Nat := if st.isReset then forgottenVersion else st.version

/-- A file is due if the version of its record is not the one that is asked for. -/
theorem Standing.isDue_iff {st : Standing} {version : Nat} :
    st.isDue version ↔ ¬ st.recorded = version := by
  unfold isDue recorded
  split
  · rw [decide_eq_true_iff]
    exact ne_comm
  · rw [decide_eq_true_iff]
    exact ne_comm

/-- The record of the file, if it has one, is of the kind and version that is said. -/
def Stands (a : SourceFiles) (file : String) (st : Option Standing) : Prop :=
  (a.record? file).map (fun r => (r.kind, r.version)) = st.map fun st => (st.kind, st.recorded)

theorem Stands.record?_of_some {a : SourceFiles} {file : String} {st : Standing}
    (h : Stands a file (some st)) :
    ∃ r, a.record? file = some r ∧ r.kind = st.kind ∧ r.version = st.recorded := by
  obtain ⟨r, hr, hpair⟩ := Option.map_eq_some_iff.mp h
  exact ⟨r, hr, (Prod.mk.inj hpair).1, (Prod.mk.inj hpair).2⟩

theorem Stands.kind_eq {a : SourceFiles} {file : String} {st : Option Standing}
    (h : Stands a file st) : (a.record? file).map (·.kind) = st.map (·.kind) := by
  have hfirst := congrArg (Option.map Prod.fst) h
  rw [Option.map_map, Option.map_map] at hfirst
  exact hfirst

/-- **One operation**, on a file that is known or while there is a number left. -/
theorem Stands.perform {a : SourceFiles} {file : String} {st : Option Standing}
    (h : Stands a file st) (hs : a.Sound) {op : Operation}
    (hroom : ∀ asked, op.asked? = some asked → a.record? asked = none → a.size < maxFiles) :
    Stands (a.perform op) file (Standing.after file st op) := by
  cases op with
  | ask factory asked text version kind =>
    rcases getOrUpdate_cases hs factory asked text version kind with
      ⟨-, -, hnone, hfull⟩ | ⟨id, -, hrecorded⟩
    · exact absurd (hroom asked rfl hnone) (by omega)
    · by_cases hfile : asked = file
      · subst hfile
        rw [Stands, SourceFiles.perform, hrecorded.self, Standing.after, if_pos rfl, ← h.kind_eq,
          Option.map_some, servedRecord_kind, servedRecord_version]
        rfl
      · rw [Stands, SourceFiles.perform, hrecorded.others file (Ne.symm hfile), Standing.after,
          if_neg hfile]
        exact h
  | reset other kind =>
    by_cases hfile : other = file
    · subst hfile
      rw [Stands, SourceFiles.perform, Standing.after, if_pos rfl]
      rcases reset_cases hs other kind with ⟨hsame, hnone⟩ | ⟨r, hr, hrecorded⟩
      · rw [hsame, h]
        rw [Stands, hnone] at h
        rw [Option.map_eq_none_iff.mp h.symm]
        rfl
      · rw [Stands, hr] at h
        obtain ⟨st', rfl, -⟩ := Option.map_eq_some_iff.mp h.symm
        rw [hrecorded.self]
        rfl
    · rw [Stands, SourceFiles.perform, record?_reset_of_ne hs kind (Ne.symm hfile), Standing.after,
        if_neg hfile]
      exact h

/-- **A run.** -/
theorem stands_run {ops : List Operation} (hfits : Fits ops) (file : String) :
    Stands (run ops) file (standing file ops) := by
  induction ops using List.reverseRecOn with
  | nil => rfl
  | append_singleton ops op ih =>
    obtain ⟨hnumbered, hnames⟩ := numbered_run hfits.of_append
    rw [run_concat, standing_concat]
    refine (ih hfits.of_append).perform hnumbered.sound fun asked hop hnone => ?_
    rw [hnumbered.sound.record?_eq_none] at hnone
    rw [← length_names, hnames]
    refine (hfits.room hop).resolve_left fun hmem => ?_
    rw [← hnames, hnumbered.mem_names_iff, hnone] at hmem
    cases hmem

/-- A file stands for something once it was asked for. -/
theorem isSome_standing_iff (file : String) (ops : List Operation) :
    (standing file ops).isSome ↔ file ∈ askedFor ops := by
  induction ops using List.reverseRecOn with
  | nil => exact iff_of_false nofun nofun
  | append_singleton ops op ih =>
    rw [standing_concat, askedFor_append, Host.mem_joinedFiles]
    cases op with
    | ask factory asked text version kind =>
      have hasked : file ∈ [Operation.ask factory asked text version kind].filterMap
          Operation.asked? ↔ file = asked := List.mem_singleton
      rw [hasked, Standing.after]
      split
      · next hfile => exact iff_of_true rfl (Or.inr hfile.symm)
      · next hfile => exact ih.trans ⟨Or.inl, fun h => h.resolve_right (Ne.symm hfile)⟩
    | reset other kind =>
      have hasked : ¬ file ∈ [Operation.reset other kind].filterMap Operation.asked? := nofun
      rw [or_iff_left hasked, ← ih, Standing.after]
      split
      · rw [Option.isSome_map]
      · rfl

/-- What comes of asking for a file after some operations: the file as it was asked for, and the
uses of the factory. -/
structure Answered (before : List Operation) (factory : TreeFactory) (file text : String)
    (version : Nat) (kind : ScriptKind) (answer : SourceFile) (calls : List FactoryCall) :
    Prop where
  file_eq : answer.file = file
  version_eq : answer.version = version
  kind_eq : answer.kind = ((standing file before).map (·.kind)).getD kind
  /-- A new file is parsed as the kind that is asked for. -/
  created : file ∉ askedFor before →
    calls = [.create file kind] ∧ answer.tree = factory.create file text kind
  /-- A file that was asked for before is parsed again if that is due, as the kind it stands for and
  from the tree it had. -/
  updated : ∀ st, standing file before = some st → ∃ r, (run before).record? file = some r ∧
    if st.isDue version then
      calls = [.update file st.kind r.tree] ∧ answer.tree = factory.update file r.tree text st.kind
    else calls = [] ∧ answer.tree = r.tree

/-- **Every request is answered**, by the number of the file. -/
theorem getOrUpdate_run {before : List Operation} {factory : TreeFactory} {file text : String}
    {version : Nat} {kind : ScriptKind}
    (hfits : Fits (before ++ [.ask factory file text version kind])) :
    ∃ answer calls, (run before).getOrUpdate factory file text version kind
        = (some answer, calls, run (before ++ [.ask factory file text version kind])) ∧
      (run (before ++ [.ask factory file text version kind])).idOf? file = some answer.id ∧
      Answered before factory file text version kind answer calls := by
  obtain ⟨hnumbered, hnames⟩ := numbered_run hfits.of_append
  have hstands := stands_run hfits.of_append file
  rw [run_concat, SourceFiles.perform]
  cases hid : (run before).idOf? file with
  | none =>
    have hnot : file ∉ askedFor before := by
      rw [← hnames, hnumbered.mem_names_iff, hid]
      decide
    have hroom := (hfits.room rfl).resolve_left hnot
    rw [← hnames, length_names] at hroom
    have hstanding : standing file before = none := by
      rw [← Option.not_isSome_iff_eq_none, isSome_standing_iff]
      exact hnot
    rw [getOrUpdate_new hid hroom]
    refine ⟨_, _, rfl, Table.get?_set_self _ _ _, rfl, rfl, ?_, fun _ => ⟨rfl, rfl⟩, ?_⟩
    · rw [hstanding]
      rfl
    · intro st hst
      rw [hstanding] at hst
      cases hst
  | some id =>
    obtain ⟨r, hr, hfile⟩ := hnumbered.sound file id hid
    have hrecord : (run before).record? file = some r := by rw [record?_of_idOf? hid, hr]
    rw [getOrUpdate_known hid hr]
    refine ⟨_, _, rfl, hid, ?_, broughtTo_version .., ?_, ?_, ?_⟩
    · exact (broughtTo_file ..).trans hfile
    · rw [← hstands.kind_eq, hrecord]
      exact broughtTo_kind ..
    · intro hnot
      rw [← hnames, hnumbered.mem_names_iff, hid] at hnot
      exact absurd rfl hnot
    · intro st hst
      rw [hst] at hstands
      obtain ⟨r', hr', hkind, hversion⟩ := hstands.record?_of_some
      rw [hrecord] at hr'
      cases hr'
      refine ⟨r, hrecord, ?_⟩
      rw [broughtTo, hversion, ← hkind]
      split
      · next hdue =>
        rw [if_neg (Standing.isDue_iff.mp hdue), if_neg (Standing.isDue_iff.mp hdue)]
        exact ⟨rfl, rfl⟩
      · next hdue =>
        have hsame : st.recorded = version := by rwa [Standing.isDue_iff, not_not] at hdue
        rw [if_pos hsame, if_pos hsame]
        exact ⟨rfl, rfl⟩

/-! ## 5. Identity

The results for a whole run, put together. -/

/-- **Files keep who they are, and are parsed when it is due.**  Take any run of requests and resets
that does not run out of numbers.  The files are those that were asked for, in the order of their
first requests, and the table and the list of names are inverse to each other.  A number that a file
has at any moment is its number at the end, and no other file's.  A reset registers no name and
changes no record but that of its file.  Each request is answered with the number of its file, and
uses the factory exactly if the file is new or `Standing.isDue`. -/
theorem numbered_and_parsed_when_due (ops : List Operation) (hfits : Fits ops) :
    ((run ops).names = askedFor ops ∧ (askedFor ops).Nodup ∧
      ∀ file n, (run ops).idOf? file = some ⟨n⟩ ↔ (askedFor ops)[n]? = some file) ∧
    (∀ k file id, (run (ops.take k)).idOf? file = some id →
      (run ops).idOf? file = some id ∧ ∀ other, (run ops).idOf? other = some id → other = file) ∧
    (∀ before file kind after, ops = before ++ .reset file kind :: after →
      (run (before ++ [.reset file kind])).ids = (run before).ids ∧
      (run (before ++ [.reset file kind])).names = (run before).names ∧
      ∀ n, (run before).idOf? file ≠ some ⟨n⟩ →
        (run (before ++ [.reset file kind])).records[n]? = (run before).records[n]?) ∧
    ∀ before factory file text version kind after,
      ops = before ++ .ask factory file text version kind :: after →
      ∃ answer calls, (run before).getOrUpdate factory file text version kind
          = (some answer, calls, run (before ++ [.ask factory file text version kind])) ∧
        (run ops).idOf? file = some answer.id ∧
        Answered before factory file text version kind answer calls := by
  obtain ⟨hnumbered, hnames⟩ := numbered_run hfits
  refine ⟨⟨hnames, nodup_askedFor ops, hnames ▸ hnumbered⟩, ?_, ?_, ?_⟩
  · intro k file id hid
    rw [← List.take_append_drop k ops] at hfits
    have hlater := idOf?_run_append hfits hid
    rwa [List.take_append_drop] at hlater
  · rintro before file kind after -
    rw [run_concat]
    refine ⟨ids_reset _ file kind, names_reset _ file kind, fun n hn => ?_⟩
    rw [SourceFiles.perform, records_reset, if_neg fun hmap => ?_]
    obtain ⟨⟨m⟩, hid, rfl⟩ := Option.map_eq_some_iff.mp hmap
    exact hn hid
  · rintro before factory file text version kind after rfl
    have hsplit := List.append_cons before (.ask factory file text version kind) after
    rw [hsplit] at hfits ⊢
    obtain ⟨answer, calls, hanswer, hid, hanswered⟩ := getOrUpdate_run hfits.of_append
    exact ⟨answer, calls, hanswer, (idOf?_run_append hfits hid).1, hanswered⟩

/-- Two files, one of which is reset between two requests for the same version. -/
theorem numbered_and_parsed_when_due_reset :
    let ops : List Operation :=
      [.ask .bridging "/a.vue" "let a" 1 .js, .ask .bridging "/b.vue" "let b" 1 .js,
        .reset "/a.vue" .ts, .ask .bridging "/a.vue" "let a" 1 .js]
    Fits ops ∧ (run ops).idOf? "/a.vue" = some ⟨0⟩ ∧ (run ops).idOf? "/b.vue" = some ⟨1⟩ ∧
      standing "/a.vue" (ops.take 3) = some ⟨.ts, 1, true⟩ ∧
      ∃ answer tree, (run (ops.take 3)).getOrUpdate .bridging "/a.vue" "let a" 1 .js
          = (some answer, [.update "/a.vue" .ts tree], run ops) ∧
        answer.id = ⟨0⟩ ∧ answer.kind = .ts := by
  intro ops
  have hfits : Fits ops := by decide
  have hstanding : standing "/a.vue" (ops.take 3) = some ⟨.ts, 1, true⟩ := rfl
  have hdue : Standing.isDue ⟨.ts, 1, true⟩ 1 := rfl
  obtain ⟨⟨-, -, hnumbers⟩, -, -, hanswers⟩ := numbered_and_parsed_when_due ops hfits
  have hfirst : (run ops).idOf? "/a.vue" = some ⟨0⟩ := (hnumbers _ _).mpr rfl
  obtain ⟨answer, calls, hanswer, hid, hanswered⟩ :=
    hanswers (ops.take 3) .bridging "/a.vue" "let a" 1 .js [] rfl
  obtain ⟨r, -, hcalls⟩ := hanswered.updated _ hstanding
  rw [if_pos hdue] at hcalls
  refine ⟨hfits, hfirst, (hnumbers _ _).mpr rfl, hstanding, answer, r.tree, ?_, ?_, ?_⟩
  · rw [hanswer, hcalls.1]
    rfl
  · rw [hfirst] at hid
    exact (Option.some.inj hid).symm
  · rw [hanswered.kind_eq, hstanding]
    rfl

/-- **Asking at the version that notes a reset undoes it.**  The file was reset, and asked for next
it is not parsed: it comes with the tree of its first kind under the name of the other one. -/
theorem reset_forgotten :
    let text := "export default \x7b\x7d"
    let ops : List Operation := [.ask .bridging "/a.vue" text 1 .js, .reset "/a.vue" .ts]
    let next := (run ops).getOrUpdate .bridging "/a.vue" text forgottenVersion .ts
    standing "/a.vue" ops = some ⟨.ts, 1, true⟩ ∧ next.2.1 = [] ∧ next.1.map (·.kind) = some .ts ∧
      next.1.map (·.tree) = some (TreeFactory.bridging.create "/a.vue" text .js) := by
  intro text ops next
  exact ⟨rfl, rfl, rfl, rfl⟩

end ComponentHost.SourceFiles
