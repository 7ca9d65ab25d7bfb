/-
# Members in order

The members of an object that was read stand in the order of their keys, and each key stands
once, however often and in whatever order the text sets it.  This is what makes the value of a
key unambiguous: the first entry of a key is also the last.

`Table.InOrder` says it of a table, and `Table.insertSorted` keeps it.  The reader of values puts
every object together that way (`Json.Reader.inOrder_value`), no other value has members
(`Json.Reader.members?_scalar`), and the values of a record are read by that reader
(`Json.Reader.record?_spec`).  So the options of a configuration file are in order
(`ConfigFile.inOrder_read`).

A configuration inherits from others, so the options of several files are put together, and a key
may come from each of them.  Which of the values wins is said elsewhere; there it is needed that
within ONE file a key has one value, which no reader of the text would have to know.  This is a fact
about how the file is read, and the reader is the only thing that makes it true.
-/
import ComponentHost.Project.Config

namespace ComponentHost

/-! ## 1. Tables in the order of their keys

A sorted table is a list of entries.  An entry is put in before the first key that is greater, or in
the place of an equal one; so the list stays sorted, and an equal key is replaced and not repeated.
The order is that of the keys alone, hence the section is general in them. -/

namespace Table

section Sorted

variable {κ α : Type} [DecidableEq κ] [LT κ] [DecidableLT κ]

/-- Putting in an entry sets its key and leaves the others, whether the table is in order or not. -/
theorem get?_insertSorted (t : Table κ α) (key : κ) (value : α) (other : κ) :
    (insertSorted key value t).get? other = if key = other then some value else t.get? other := by
  induction t with
  | nil => rfl
  | cons e r ih =>
    obtain ⟨k, v⟩ := e
    rw [insertSorted]
    split
    · rfl
    · split
      · next hkey =>
        subst hkey
        simp only [get?]
        split <;> rfl
      · next hkey =>
        simp only [get?, ih]
        by_cases hother : k = other
        · subst hother
          rw [if_pos rfl, if_neg hkey, if_pos rfl]
        · rw [if_neg hother, if_neg hother]

/-- Each key is less than those behind it. -/
def InOrder (t : Table κ α) : Prop := t.keys.Pairwise (· < ·)

/-- The keys afterwards: the new one and the old ones. -/
theorem mem_keys_insertSorted {t : Table κ α} {key other : κ} {value : α} :
    other ∈ (insertSorted key value t).keys ↔ other = key ∨ other ∈ t.keys := by
  rw [mem_keys_iff, mem_keys_iff, get?_insertSorted]
  by_cases h : key = other
  · simp [h]
  · simp [h, Ne.symm h]

variable [LE κ] [Std.LawfulOrderLT κ] [Std.IsLinearOrder κ]

omit [DecidableEq κ] [DecidableLT κ] [Std.IsLinearOrder κ] in
theorem InOrder.nodup {t : Table κ α} (h : t.InOrder) : t.keys.Nodup :=
  List.Pairwise.imp (fun hlt => Std.ne_of_lt hlt) h

/-- **Putting in an entry keeps the order.** -/
theorem InOrder.insertSorted {t : Table κ α} (h : t.InOrder) (key : κ) (value : α) :
    (insertSorted key value t).InOrder := by
  induction t with
  | nil => exact List.pairwise_singleton _ _
  | cons e r ih =>
    obtain ⟨k, v⟩ := e
    obtain ⟨hk, hr⟩ : (∀ x ∈ keys r, k < x) ∧ InOrder r := List.pairwise_cons.mp h
    rw [Table.insertSorted]
    split
    · next hlt =>
      refine List.pairwise_cons.mpr ⟨fun x hx => ?_, h⟩
      rcases List.mem_cons.mp hx with rfl | hx
      · exact hlt
      · exact Std.lt_trans hlt (hk x hx)
    · next hnot =>
      split
      · next heq =>
        subst heq
        exact h
      · next hne =>
        -- the entry goes further back, where it meets keys that are greater than `k` or is one
        -- itself
        refine List.pairwise_cons.mpr ⟨fun x hx => ?_, ih hr⟩
        rcases mem_keys_insertSorted.mp hx with rfl | hx
        · exact Std.lt_of_le_of_ne (Std.not_lt.mp hnot) (Ne.symm hne)
        · exact hk x hx

theorem inOrder_foldl {entries : List (κ × α)} {t : Table κ α} (h : t.InOrder) :
    InOrder (entries.foldl (fun t e => Table.insertSorted e.1 e.2 t) t) := by
  induction entries generalizing t with
  | nil => exact h
  | cons e rest ih => exact ih (h.insertSorted e.1 e.2)

theorem inOrder_sorted (entries : List (κ × α)) : (sorted entries).InOrder :=
  inOrder_foldl List.Pairwise.nil

omit [LE κ] [Std.LawfulOrderLT κ] [Std.IsLinearOrder κ] in
/-- Entries with different keys, put in one after another, win over what was there. -/
theorem get?_foldl_insertSorted {entries : List (κ × α)} (h : (keys entries).Nodup)
    (t : Table κ α) (key : κ) :
    get? (entries.foldl (fun t e => Table.insertSorted e.1 e.2 t) t) key
      = (get? entries key).or (t.get? key) := by
  induction entries generalizing t with
  | nil => rfl
  | cons e rest ih =>
    obtain ⟨k, v⟩ := e
    obtain ⟨hk, hrest⟩ : k ∉ keys rest ∧ (keys rest).Nodup := List.nodup_cons.mp h
    rw [List.foldl_cons, ih hrest, get?_insertSorted, get?]
    by_cases hkey : k = key
    · subst hkey
      have hnone : get? rest k = none :=
        Option.not_isSome_iff_eq_none.mp fun hsome => hk (mem_keys_iff.mpr hsome)
      rw [hnone, if_pos rfl, if_pos rfl]
      rfl
    · rw [if_neg hkey, if_neg hkey]

end Sorted

end Table

/-! ## 2. Members in order

A value is a scalar, a list or an object, and only the last has members.  The reader gives numbers
in several shapes, as they are written with a sign, a fraction or an exponent; each of its parts is
shown to give no members, so that nothing has to be said about numbers below. -/

namespace Json.Reader

/-- A whole number is an integer, or a float if a minus sign makes it a negative zero or too small
for 64 bits. -/
theorem members?_integer {negative : Bool} {n : Nat} {v : Json} (h : integer negative n = some v) :
    v.members? = none := by
  unfold integer at h
  split at h
  · cases h
    rfl
  · split at h
    · obtain ⟨x, -, rfl⟩ := Option.map_eq_some_iff.mp h
      rfl
    · cases h
      rfl

theorem members?_scaled {negative : Bool} {significand : Nat} {power : Int} {cs r : List Char}
    {v : Json} (h : scaled negative significand power cs = some (v, r)) : v.members? = none := by
  obtain ⟨x, -, heq⟩ := Option.map_eq_some_iff.mp h
  cases heq
  rfl

/-- With an exponent that is out of all range the number is a zero, or is not read. -/
theorem members?_exponent {negative : Bool} {significand : Nat} {power : Int} {cs r : List Char}
    {v : Json} (h : exponent negative significand power cs = some (v, r)) : v.members? = none := by
  simp only [exponent] at h
  -- the sign of the exponent does not matter
  split at h
  all_goals
    split at h
    · cases h
    · split at h
      · split at h
        · cases h
        · cases h
          rfl
      · exact members?_scaled h

/-- Behind the digits of a fraction stands an exponent or nothing more. -/
theorem members?_afterDigits {negative : Bool} {significand : Nat} {power : Int} {cs r : List Char}
    {v : Json} (h : afterDigits negative significand power cs = some (v, r)) :
    v.members? = none := by
  unfold afterDigits at h
  split at h
  · exact members?_exponent h
  · exact members?_exponent h
  · exact members?_scaled h

/-- Behind the point stands at least one digit. -/
theorem members?_fraction {negative : Bool} {significand : Nat} {power : Int} {cs r : List Char}
    {v : Json} (h : fraction negative significand power cs = some (v, r)) : v.members? = none := by
  simp only [fraction] at h
  split at h
  · cases h
  · exact members?_afterDigits h

/-- A number as a whole: its first digits, and then a fraction, an exponent or nothing more. -/
theorem members?_number {negative : Bool} {cs r : List Char} {v : Json}
    (h : number negative cs = some (v, r)) : v.members? = none := by
  have hinteger : ∀ {n : Nat} {rest : List Char},
      ((integer negative n).map fun v => (v, rest)) = some (v, r) → v.members? = none := by
    intro n rest h
    obtain ⟨w, hw, heq⟩ := Option.map_eq_some_iff.mp h
    cases heq
    exact members?_integer hw
  simp only [number] at h
  split at h
  · cases h
  · split at h
    · exact members?_fraction h
    · exact members?_exponent h
    · exact members?_exponent h
    · split at h
      · split at h
        · cases h
        · split at h
          · exact members?_fraction h
          · exact members?_afterDigits h
      · exact hinteger h
    · exact hinteger h

/-- A value that holds no others has no members. -/
theorem members?_scalar {cs r : List Char} {v : Json} (h : scalar cs = some (v, r)) :
    v.members? = none := by
  have hliteral : ∀ {word : List Char} {w : Json}, w.members? = none →
      literal word w cs = some (v, r) → v.members? = none := by
    intro word w hw h
    unfold literal at h
    split at h
    · cases h
      exact hw
    · cases h
  unfold scalar at h
  split at h
  · exact hliteral rfl h
  · exact hliteral rfl h
  · exact hliteral rfl h
  · obtain ⟨s, -, heq⟩ := Option.map_eq_some_iff.mp h
    cases heq
    rfl
  · exact members?_number h
  · exact members?_number h

/-- **The members of a value that is read stand in the order of their keys.**  The reader collects
the members of an object as they come, and sorts them when the object ends.  Only the outermost
object is meant here; those inside it are values that were read in turn, and the same is true of
them. -/
theorem inOrder_value {depth : Nat} {cs r : List Char} {v : Json} {ms : Table String Json}
    (h : value depth cs = some (v, r)) (hms : v.members? = some ms) : ms.InOrder := by
  have hscalar : scalar cs = some (v, r) → ms.InOrder := by
    intro hread
    rw [members?_scalar hread] at hms
    cases hms
  cases depth with
  | zero =>
    unfold value at h
    split at h
    · cases h
    · cases h
    · exact hscalar h
  | succ depth =>
    unfold value at h
    split at h
    · obtain ⟨items, -, heq⟩ := Option.map_eq_some_iff.mp h
      cases heq
      cases hms
    · obtain ⟨members, -, heq⟩ := Option.map_eq_some_iff.mp h
      cases heq
      cases hms
      exact Table.inOrder_sorted _
    · exact hscalar h

/-- Every item of a list is read by the reader of items.  The reader carries along what it has read,
so the statement does as well: an item that is found is one of these or is read now. -/
theorem items_spec {α : Type} {item : Reader α} {fuel : Nat} {read found : List α}
    {cs r : List Char} (h : items item fuel read cs = some (found, r)) :
    ∀ v ∈ found, v ∈ read ∨ ∃ cs r, item cs = some (v, r) := by
  induction fuel generalizing read cs with
  | zero => cases h
  | succ fuel ih =>
    rw [items] at h
    obtain ⟨⟨v, r'⟩, hitem, h⟩ := Option.bind_eq_some_iff.mp h
    intro w hw
    have hhead : w ∈ v :: read → w ∈ read ∨ ∃ cs r, item cs = some (w, r) := by
      intro hmem
      rcases List.mem_cons.mp hmem with rfl | hread
      · exact Or.inr ⟨_, _, hitem⟩
      · exact Or.inl hread
    dsimp only at h
    split at h
    · rcases ih h w hw with hread | hfound
      · exact hhead hread
      · exact Or.inr hfound
    · cases h
      exact hhead hw
    · cases h

/-- A list starts with nothing read, so all of its items are read by the reader of items. -/
theorem array_spec {α : Type} {item : Reader α} {found : List α} {cs r : List Char}
    (h : array item cs = some (found, r)) : ∀ v ∈ found, ∃ cs r, item cs = some (v, r) := by
  unfold array at h
  split at h
  · cases h
    exact nofun
  · obtain ⟨⟨read, r'⟩, hitems, heq⟩ := Option.map_eq_some_iff.mp h
    cases heq
    intro v hv
    exact (items_spec hitems v (List.mem_reverse.mp hv)).resolve_left List.not_mem_nil

/-- Every member of an object is read by the reader of its name, by the same induction as for items.
-/
theorem members_spec {α : Type} {item : String → Reader α} {fuel : Nat}
    {read found : List (String × α)} {cs r : List Char}
    (h : members item fuel read cs = some (found, r)) :
    ∀ e ∈ found, e ∈ read ∨ ∃ cs r, item e.1 cs = some (e.2, r) := by
  induction fuel generalizing read cs with
  | zero => cases h
  | succ fuel ih =>
    rw [members] at h
    split at h
    · obtain ⟨⟨key, r₁⟩, -, h⟩ := Option.bind_eq_some_iff.mp h
      dsimp only at h
      split at h
      · obtain ⟨⟨v, r₂⟩, hitem, h⟩ := Option.bind_eq_some_iff.mp h
        intro e he
        -- a member that is now among those read is the one of this turn, or was there before
        have hhead : e ∈ (key, v) :: read → e ∈ read ∨ ∃ cs r, item e.1 cs = some (e.2, r) := by
          intro hmem
          rcases List.mem_cons.mp hmem with rfl | hread
          · exact Or.inr ⟨_, _, hitem⟩
          · exact Or.inl hread
        dsimp only at h
        split at h
        · rcases ih h e he with hread | hfound
          · exact hhead hread
          · exact Or.inr hfound
        · cases h
          exact hhead he
        · cases h
      · cases h
    · cases h

/-- The members of an object, with nothing read before them. -/
theorem object_spec {α : Type} {item : String → Reader α} {found : List (String × α)}
    {cs r : List Char} (h : object item cs = some (found, r)) :
    ∀ e ∈ found, ∃ cs r, item e.1 cs = some (e.2, r) := by
  unfold object at h
  split at h
  · cases h
    exact nofun
  · obtain ⟨⟨read, r'⟩, hmembers, heq⟩ := Option.map_eq_some_iff.mp h
    cases heq
    intro e he
    exact (members_spec hmembers e (List.mem_reverse.mp he)).resolve_left List.not_mem_nil

/-- The values of a record. -/
def Record.values : Record → List Json
  | .named members => members.map Prod.snd
  | .listed items => items

/-- **Every value of a record is read by the reader of values.**  A record is written as an object,
of which the members with other names are skipped, or as a list of the values alone. -/
theorem record?_spec {known : List String} {text : String} {record : Record}
    (h : record? known text = some record) :
    ∀ v ∈ record.values, ∃ depth cs r, value depth cs = some (v, r) := by
  simp only [record?] at h
  obtain ⟨⟨found, r⟩, hread, h⟩ := Option.bind_eq_some_iff.mp h
  obtain rfl : found = record := by
    split at h
    · exact Option.some.inj h
    · cases h
  intro v hv
  split at hread
  · obtain ⟨⟨members, r'⟩, hobject, heq⟩ := Option.map_eq_some_iff.mp hread
    cases heq
    obtain ⟨⟨key, w⟩, hmem, rfl⟩ := List.mem_map.mp hv
    -- a member that was skipped has no value, so this one has the name of a field
    obtain ⟨⟨key', value?⟩, hmember, hknown⟩ := List.mem_filterMap.mp hmem
    obtain ⟨w', rfl, heq⟩ := Option.map_eq_some_iff.mp hknown
    cases heq
    obtain ⟨cs, r'', hitem⟩ := object_spec hobject _ hmember
    dsimp only at hitem
    split at hitem
    · obtain ⟨⟨w', r'''⟩, hvalue, heq⟩ := Option.map_eq_some_iff.mp hitem
      cases heq
      exact ⟨_, _, _, hvalue⟩
    · obtain ⟨skipped, -, heq⟩ := Option.map_eq_some_iff.mp hitem
      cases heq
  · obtain ⟨⟨items, r'⟩, harray, heq⟩ := Option.map_eq_some_iff.mp hread
    cases heq
    obtain ⟨cs, r'', hitem⟩ := array_spec harray v hv
    exact ⟨_, cs, r'', hitem⟩
  · cases hread

end Json.Reader

/-! ## 3. Configuration files

The fields of a configuration file are set one after another.  Only the field of the options takes
the members of an object, and takes them as they were read. -/

namespace ConfigFile

/-- Setting a field keeps the options in order, if a value with members has them in order. -/
theorem inOrder_set? {c d : ConfigFile} {field : String} {v : Json} (h : c.set? field v = some d)
    (hc : c.options.InOrder) (hv : ∀ ms : Table String Json, v.members? = some ms → ms.InOrder) :
    d.options.InOrder := by
  unfold set? at h
  split at h
  · obtain ⟨bases, -, rfl⟩ := Option.map_eq_some_iff.mp h
    exact hc
  · obtain ⟨options, hoptions, rfl⟩ := Option.map_eq_some_iff.mp h
    exact hv options hoptions
  · obtain ⟨files, -, rfl⟩ := Option.map_eq_some_iff.mp h
    exact hc
  · obtain ⟨patterns, -, rfl⟩ := Option.map_eq_some_iff.mp h
    exact hc
  · obtain ⟨patterns, -, rfl⟩ := Option.map_eq_some_iff.mp h
    exact hc
  · cases h

/-- All fields of a file in turn; a field of the wrong shape ends the reading. -/
theorem inOrder_foldlM {values : List (String × Json)} {c d : ConfigFile}
    (h : values.foldlM (fun c (field, v) => c.set? field v) c = some d) (hc : c.options.InOrder)
    (hvalues : ∀ e ∈ values, ∀ ms : Table String Json, e.2.members? = some ms → ms.InOrder) :
    d.options.InOrder := by
  induction values generalizing c with
  | nil =>
    cases h
    exact hc
  | cons e rest ih =>
    rw [List.foldlM_cons] at h
    obtain ⟨c', hset, h⟩ := Option.bind_eq_some_iff.mp h
    have hc' := inOrder_set? hset hc (hvalues e List.mem_cons_self)
    exact ih h hc' fun e' he' => hvalues e' (List.mem_cons_of_mem e he')

/-- A file that could be read has a text that could be parsed. -/
theorem exists_parse?_of_read {disk : FileTree} {path : String} {file : ConfigFile}
    (h : read disk path = .ok file) : ∃ text, parse? text = some file := by
  unfold read at h
  cases htext : disk.text path with
  | error e =>
    rw [htext] at h
    cases h
  | ok text =>
    rw [htext] at h
    refine ⟨text, ?_⟩
    cases hparse : parse? text with
    | none =>
      simp only [bind, Except.bind, hparse] at h
      cases h
    | some found =>
      simp only [bind, Except.bind, hparse] at h
      cases h
      rfl

/-- **The options of a configuration stand in the order of their keys**, each once. -/
theorem inOrder_read {disk : FileTree} {path : String} {file : ConfigFile}
    (h : read disk path = .ok file) : file.options.InOrder := by
  obtain ⟨text, hparse⟩ := exists_parse?_of_read h
  obtain ⟨record, hrecord, hfile⟩ := Option.bind_eq_some_iff.mp hparse
  have hvalues : ∀ v ∈ record.values, ∀ ms : Table String Json, v.members? = some ms →
      ms.InOrder := by
    intro v hv ms hms
    obtain ⟨depth, cs, r, hvalue⟩ := Json.Reader.record?_spec hrecord v hv
    exact Json.Reader.inOrder_value hvalue hms
  unfold ofRecord? at hfile
  split at hfile
  · split at hfile
    · exact inOrder_foldlM hfile List.Pairwise.nil fun e he => hvalues e.2 (List.mem_map_of_mem he)
    · cases hfile
  · split at hfile
    · exact inOrder_foldlM hfile List.Pairwise.nil fun e he => hvalues e.2 (List.of_mem_zip he).2
    · cases hfile

end ConfigFile

end ComponentHost
