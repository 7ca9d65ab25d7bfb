/-
# The records of source files

Source files are kept twice over: a table gives the number of a file, and a list gives the
record of a number.  What matters is the composition of the two, the record of a file
(`SourceFiles.record?`), and this file describes the two operations through it.

The composition is only worth something while the table and the list fit (`SourceFiles.Sound`):
a number that the table gives leads to a record, and that record is of the file asked for.  Two
files then never share a record, which is why an operation on one file leaves the records of all
others alone (`Recorded`).  Each operation has one lemma that says all it can do
(`getOrUpdate_cases`, `reset_cases`).
-/
import ComponentHost.Host.SourceFiles

namespace ComponentHost.SourceFiles

/-! ## 1. The record of a file

The table and the list are changed together, in two ways only: a record is replaced, with the table
as it is, or one is added behind the others under a new number.  For both it is shown once that they
fit afterwards and what records there are. -/

/-- The record of a file. -/
def record? (a : SourceFiles) (file : String) : Option SourceRecord :=
  (a.idOf? file).bind fun id => a.records[id.index]?

/-- Numbers lead to records of their files. -/
def Sound (a : SourceFiles) : Prop :=
  ∀ file id, a.idOf? file = some id → ∃ r, a.records[id.index]? = some r ∧ r.file = file

theorem sound_empty : Sound {} := by
  intro file id h
  cases h

theorem record?_of_idOf? {a : SourceFiles} {file : String} {id : FileId}
    (h : a.idOf? file = some id) : a.record? file = a.records[id.index]? := by
  rw [record?, h]
  rfl

/-- A file without a record has no number. -/
theorem Sound.record?_eq_none {a : SourceFiles} (hs : a.Sound) {file : String} :
    a.record? file = none ↔ a.idOf? file = none := by
  constructor
  · intro h
    cases hid : a.idOf? file with
    | none => rfl
    | some id =>
      obtain ⟨r, hr, -⟩ := hs file id hid
      rw [record?_of_idOf? hid, hr] at h
      cases h
  · intro h
    rw [record?, h]
    rfl

/-- A record tells which file it is of. -/
theorem Sound.file_eq {a : SourceFiles} (hs : a.Sound) {file : String} {r : SourceRecord}
    (h : a.record? file = some r) : r.file = file := by
  obtain ⟨id, hid, hr⟩ := Option.bind_eq_some_iff.mp h
  obtain ⟨r', hr', hfile⟩ := hs file id hid
  rw [hr] at hr'
  cases hr'
  exact hfile

/-- Two files never share a number. -/
theorem Sound.index_ne {a : SourceFiles} (hs : a.Sound) {file other : String} {id id' : FileId}
    (hid : a.idOf? file = some id) (hid' : a.idOf? other = some id') (hne : other ≠ file) :
    id.index ≠ id'.index := by
  intro heq
  obtain ⟨r, hr, hfile⟩ := hs file id hid
  obtain ⟨r', hr', hfile'⟩ := hs other id' hid'
  rw [heq, hr'] at hr
  cases hr
  exact hne (hfile'.symm.trans hfile)

/-- `b` has a record for one file, and of every other file the record that `a` has. -/
structure Recorded (a : SourceFiles) (file : String) (r : SourceRecord) (b : SourceFiles) :
    Prop where
  sound : b.Sound
  self : b.record? file = some r
  others : ∀ q, q ≠ file → b.record? q = a.record? q

/-- Replacing the record of a file by another of the same file. -/
theorem recorded_of_replaced {a b : SourceFiles} (hs : a.Sound) {file : String} {id : FileId}
    {r : SourceRecord} (hids : b.ids = a.ids) (hid : a.idOf? file = some id)
    (hself : b.records[id.index]? = some r) (hr : r.file = file)
    (hother : ∀ i, i ≠ id.index → b.records[i]? = a.records[i]?) : a.Recorded file r b := by
  have hnumber : ∀ q, b.idOf? q = a.idOf? q := fun q => by rw [idOf?, idOf?, hids]
  have hsame : ∀ q, q ≠ file → b.record? q = a.record? q := by
    intro q hq
    rw [record?, record?, hnumber]
    cases hidq : a.idOf? q with
    | none => rfl
    | some idq => exact hother _ (hs.index_ne hid hidq hq).symm
  refine ⟨?_, ?_, hsame⟩
  · intro q idq hidq
    rw [hnumber] at hidq
    by_cases hq : q = file
    · subst hq
      rw [hid] at hidq
      cases hidq
      exact ⟨r, hself, hr⟩
    · rw [hother _ (hs.index_ne hid hidq hq).symm]
      exact hs q idq hidq
  · rw [record?, hnumber, hid]
    exact hself

/-- Adding the record of a new file behind the others: the old numbers lead where they led. -/
theorem recorded_of_appended {a b : SourceFiles} (hs : a.Sound) (r : SourceRecord)
    (hids : b.ids = Table.set a.ids r.file ⟨a.size⟩) (hrecords : b.records = a.records ++ [r]) :
    a.Recorded r.file r b := by
  have hself : b.idOf? r.file = some ⟨a.size⟩ := by rw [idOf?, hids, Table.get?_set_self]
  have hother : ∀ q, q ≠ r.file → b.idOf? q = a.idOf? q := fun q hq => by
    rw [idOf?, idOf?, hids, Table.get?_set_of_ne _ _ hq]
  have hlast : b.records[a.size]? = some r := by
    rw [hrecords, size, List.getElem?_concat_length]
  have hold : ∀ {i : Nat} {x : SourceRecord}, a.records[i]? = some x → b.records[i]? = some x := by
    intro i x hx
    rw [hrecords, List.getElem?_append_left (List.getElem?_eq_some_iff.mp hx).1, hx]
  refine ⟨?_, ?_, ?_⟩
  · intro q idq hidq
    by_cases hq : q = r.file
    · rw [hq, hself] at hidq
      cases hidq
      exact ⟨r, hlast, hq.symm⟩
    · rw [hother q hq] at hidq
      obtain ⟨x, hx, hfile⟩ := hs q idq hidq
      exact ⟨x, hold hx, hfile⟩
  · rw [record?_of_idOf? hself, hlast]
  · intro q hq
    rw [record?, record?, hother q hq]
    cases hidq : a.idOf? q with
    | none => rfl
    | some idq =>
      obtain ⟨x, hx, -⟩ := hs q idq hidq
      show b.records[idq.index]? = a.records[idq.index]?
      rw [hold hx, hx]

/-! ## 2. Files that are asked for

A file that is asked for has a record afterwards, at the version that was asked for.  A tree is made
if there was none, taken over if the version is the same, and otherwise updated from the one that is
there, whose kind it keeps. -/

/-- The record brought up to a version, unless it is there already. -/
def broughtTo (factory : TreeFactory) (file text : String) (version : Nat) (r : SourceRecord) :
    SourceRecord :=
  if r.version = version then r else refreshed factory file text version r

/-- The record of a file after it was asked for at a version. -/
def servedRecord (a : SourceFiles) (factory : TreeFactory) (file text : String) (version : Nat)
    (kind : ScriptKind) : SourceRecord :=
  match a.record? file with
  | none => ⟨file, kind, version, factory.create file text kind⟩
  | some r => broughtTo factory file text version r

theorem broughtTo_version (factory : TreeFactory) (file text : String) (version : Nat)
    (r : SourceRecord) : (broughtTo factory file text version r).version = version := by
  unfold broughtTo
  split
  · next h => exact h
  · rfl

theorem broughtTo_kind (factory : TreeFactory) (file text : String) (version : Nat)
    (r : SourceRecord) : (broughtTo factory file text version r).kind = r.kind := by
  unfold broughtTo
  split
  · rfl
  · rfl

/-- Whatever was there, the record has the version that was asked for. -/
theorem servedRecord_version (a : SourceFiles) (factory : TreeFactory) (file text : String)
    (version : Nat) (kind : ScriptKind) :
    (a.servedRecord factory file text version kind).version = version := by
  unfold servedRecord
  split
  · rfl
  · exact broughtTo_version _ _ _ _ _

/-- The kind is settled by the first request, and what later ones say is not looked at. -/
theorem servedRecord_kind (a : SourceFiles) (factory : TreeFactory) (file text : String)
    (version : Nat) (kind : ScriptKind) :
    (a.servedRecord factory file text version kind).kind
      = ((a.record? file).map (·.kind)).getD kind := by
  unfold servedRecord
  cases a.record? file with
  | none => rfl
  | some r => exact broughtTo_kind _ _ _ _ _

theorem broughtTo_file (factory : TreeFactory) (file text : String) (version : Nat)
    (r : SourceRecord) : (broughtTo factory file text version r).file = r.file := by
  unfold broughtTo
  split
  · rfl
  · rfl

section

variable {a : SourceFiles} {factory : TreeFactory} {file text : String} {version : Nat}
  {kind : ScriptKind}

/-- A file that is asked for the first time. -/
theorem getOrUpdate_new (hid : a.idOf? file = none) (hroom : a.size < maxFiles) :
    a.getOrUpdate factory file text version kind
      = (some ⟨⟨a.size⟩, file, version, kind, factory.create file text kind⟩, [.create file kind],
        { ids := Table.set a.ids file ⟨a.size⟩,
          records := a.records ++ [⟨file, kind, version, factory.create file text kind⟩] }) := by
  rw [getOrUpdate, hid]
  exact if_pos hroom

/-- A file that was asked for before. -/
theorem getOrUpdate_known {id : FileId} {r : SourceRecord} (hid : a.idOf? file = some id)
    (hr : a.records[id.index]? = some r) :
    a.getOrUpdate factory file text version kind
      = (some (ofRecord id (broughtTo factory file text version r)),
        if r.version = version then [] else [.update file r.kind r.tree],
        { a with records := a.records.set id.index (broughtTo factory file text version r) }) := by
  obtain ⟨hlt, hget⟩ := List.getElem?_eq_some_iff.mp hr
  simp only [getOrUpdate, hid, hr, broughtTo]
  split
  · rw [← hget, List.set_getElem_self]
  · rfl

end

/-- **All that can come of asking for a file.**  Either there are too many files and nothing
happens, or the file has the record that is due, and no other file's record has changed. -/
theorem getOrUpdate_cases {a : SourceFiles} (hs : a.Sound) (factory : TreeFactory)
    (file text : String) (version : Nat) (kind : ScriptKind) :
    ((a.getOrUpdate factory file text version kind).1 = none ∧
        (a.getOrUpdate factory file text version kind).2.2 = a ∧ a.record? file = none ∧
        maxFiles ≤ a.size) ∨
      ∃ id, (a.getOrUpdate factory file text version kind).1
          = some (ofRecord id (a.servedRecord factory file text version kind)) ∧
        a.Recorded file (a.servedRecord factory file text version kind)
          (a.getOrUpdate factory file text version kind).2.2 := by
  cases hid : a.idOf? file with
  | none =>
    have hnone : a.record? file = none := hs.record?_eq_none.mpr hid
    by_cases hroom : a.size < maxFiles
    · rw [getOrUpdate_new hid hroom]
      simp only [servedRecord, hnone]
      exact Or.inr ⟨⟨a.size⟩, rfl,
        recorded_of_appended hs ⟨file, kind, version, factory.create file text kind⟩ rfl rfl⟩
    · refine Or.inl ?_
      rw [getOrUpdate, hid]
      dsimp only
      rw [added, if_neg hroom]
      exact ⟨rfl, rfl, hnone, Nat.le_of_not_lt hroom⟩
  | some id =>
    obtain ⟨r, hr, hfile⟩ := hs file id hid
    have hrecord : a.record? file = some r := by rw [record?_of_idOf? hid, hr]
    have hlt := (List.getElem?_eq_some_iff.mp hr).1
    rw [getOrUpdate_known hid hr]
    simp only [servedRecord, hrecord]
    refine Or.inr ⟨id, rfl, recorded_of_replaced hs rfl hid ?_ ?_ ?_⟩
    · exact List.getElem?_set_self hlt
    · exact (broughtTo_file factory file text version r).trans hfile
    · exact fun i hi => List.getElem?_set_ne hi.symm

/-! ## 3. Files that are reset

A reset does not drop the record: it stays in the list, so that numbers stay, and gets the last of
all versions.  Unless the version of the file has come that far, the next request finds another
version and updates the tree. -/

/-- A record whose tree is forgotten. -/
def forgotten (kind : ScriptKind) (r : SourceRecord) : SourceRecord :=
  { r with kind := kind, version := forgottenVersion }

/-- **All that can come of a reset.**  A file without a record stays without one. -/
theorem reset_cases {a : SourceFiles} (hs : a.Sound) (file : String) (kind : ScriptKind) :
    (a.reset file kind = a ∧ a.record? file = none) ∨
      ∃ r, a.record? file = some r ∧ a.Recorded file (forgotten kind r) (a.reset file kind) := by
  cases hid : a.idOf? file with
  | none =>
    refine Or.inl ⟨?_, hs.record?_eq_none.mpr hid⟩
    simp only [reset, hid]
  | some id =>
    obtain ⟨r, hr, hfile⟩ := hs file id hid
    refine Or.inr ⟨r, ?_, ?_⟩
    · rw [record?_of_idOf? hid, hr]
    · simp only [reset, hid]
      refine recorded_of_replaced hs rfl hid ?_ hfile ?_
      · rw [List.getElem?_modify_eq, hr]
        rfl
      · exact fun i hi => List.getElem?_modify_ne _ _ hi.symm

theorem sound_reset {a : SourceFiles} (hs : a.Sound) (file : String) (kind : ScriptKind) :
    (a.reset file kind).Sound := by
  rcases reset_cases hs file kind with ⟨hsame, -⟩ | ⟨r, -, hrecorded⟩
  · rw [hsame]
    exact hs
  · exact hrecorded.sound

theorem record?_reset_of_ne {a : SourceFiles} (hs : a.Sound) {file q : String} (kind : ScriptKind)
    (hq : q ≠ file) : (a.reset file kind).record? q = a.record? q := by
  rcases reset_cases hs file kind with ⟨hsame, -⟩ | ⟨r, -, hrecorded⟩
  · rw [hsame]
  · exact hrecorded.others q hq

/-- A reset is the only way to another kind. -/
theorem kind_reset {a : SourceFiles} (hs : a.Sound) (file : String) (kind : ScriptKind) :
    ((a.reset file kind).record? file).map (·.kind) = (a.record? file).map fun _ => kind := by
  rcases reset_cases hs file kind with ⟨hsame, hnone⟩ | ⟨r, hr, hrecorded⟩
  · rw [hsame, hnone]
    rfl
  · rw [hrecorded.self, hr]
    rfl

end ComponentHost.SourceFiles
