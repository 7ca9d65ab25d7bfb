/- # Tables

A finite map as a list of entries, each key once, in the order in which keys were first set.
`get?` is the view of a table: every operation is described by what it does to `get?`.
-/
namespace ComponentHost

/-- Entries of a finite map. -/
abbrev Table (κ α : Type) := List (κ × α)

namespace Table

variable {κ α : Type} [DecidableEq κ]

/-- The value of a key. -/
def get? (t : Table κ α) (key : κ) : Option α :=
  match t with
  | [] => none
  | (k, v) :: r => if k = key then some v else get? r key

/-- Sets the value of a key, in its place or at the end. -/
def set (t : Table κ α) (key : κ) (value : α) : Table κ α :=
  match t with
  | [] => [(key, value)]
  | (k, v) :: r => if k = key then (key, value) :: r else (k, v) :: set r key value

/-- Forgets a key. -/
def erase (t : Table κ α) (key : κ) : Table κ α := t.filter fun e => !decide (e.1 = key)

/-- Has the key a value? -/
def has (t : Table κ α) (key : κ) : Bool := (t.get? key).isSome

@[simp] theorem get?_nil (key : κ) : get? ([] : Table κ α) key = none := rfl

theorem get?_set_self (t : Table κ α) (key : κ) (value : α) :
    (t.set key value).get? key = some value := by
  induction t with
  | nil => simp [set, get?]
  | cons e r ih =>
    obtain ⟨k, v⟩ := e
    by_cases h : k = key
    · simp [set, get?, h]
    · simp [set, get?, h, ih]

theorem get?_set_of_ne (t : Table κ α) {key other : κ} (value : α) (h : other ≠ key) :
    (t.set key value).get? other = t.get? other := by
  induction t with
  | nil => simp [set, get?, Ne.symm h]
  | cons e r ih =>
    obtain ⟨k, v⟩ := e
    by_cases hk : k = key
    · subst hk
      simp [set, get?, Ne.symm h]
    · simp [set, get?, hk, ih]

theorem get?_erase_self (t : Table κ α) (key : κ) : (t.erase key).get? key = none := by
  induction t with
  | nil => rfl
  | cons e r ih =>
    obtain ⟨k, v⟩ := e
    by_cases h : k = key
    · simpa [erase, h] using ih
    · simpa [erase, get?, h] using ih

theorem get?_erase_of_ne (t : Table κ α) {key other : κ} (h : other ≠ key) :
    (t.erase key).get? other = t.get? other := by
  induction t with
  | nil => rfl
  | cons e r ih =>
    obtain ⟨k, v⟩ := e
    by_cases hk : k = key
    · subst hk
      simpa [erase, get?, Ne.symm h] using ih
    · by_cases ho : k = other
      · simp [erase, get?, ho, h]
      · simpa [erase, get?, hk, ho] using ih

/-! ## Keys -/

/-- The keys that have a value. -/
def keys (t : Table κ α) : List κ := t.map Prod.fst

theorem mem_keys_iff {t : Table κ α} {key : κ} : key ∈ t.keys ↔ (t.get? key).isSome := by
  induction t with
  | nil => simp [keys]
  | cons e r ih =>
    obtain ⟨k, v⟩ := e
    by_cases h : k = key
    · simp [keys, get?, h]
    · simpa [keys, get?, h, Ne.symm h] using ih

theorem mem_keys_set {t : Table κ α} {key other : κ} {value : α} :
    other ∈ (t.set key value).keys ↔ other = key ∨ other ∈ t.keys := by
  rw [mem_keys_iff, mem_keys_iff]
  by_cases h : other = key
  · simp [h, get?_set_self]
  · simp [h, get?_set_of_ne _ _ h]

/-- A key that is set twice stays one key. -/
theorem nodup_keys_set {t : Table κ α} (h : t.keys.Nodup) (key : κ) (value : α) :
    (t.set key value).keys.Nodup := by
  induction t with
  | nil => simp [keys, set]
  | cons e r ih =>
    obtain ⟨k, v⟩ := e
    obtain ⟨hk, hr⟩ : k ∉ keys r ∧ (keys r).Nodup := List.nodup_cons.mp h
    by_cases hkey : k = key
    · subst hkey
      simpa [set, keys] using h
    · have hnot : k ∉ (set r key value).keys := by
        rw [mem_keys_set]
        exact fun h => h.elim hkey hk
      simpa [set, keys, hkey] using And.intro hnot (ih hr)

/-- Where each key stands once, the entries are the values that keys have. -/
theorem mem_iff_get? {t : Table κ α} (h : t.keys.Nodup) {key : κ} {value : α} :
    (key, value) ∈ t ↔ t.get? key = some value := by
  induction t with
  | nil => simp
  | cons e r ih =>
    obtain ⟨k, v⟩ := e
    obtain ⟨hk, hr⟩ : k ∉ keys r ∧ (keys r).Nodup := List.nodup_cons.mp h
    by_cases hkey : k = key
    · subst hkey
      have hnot : (k, value) ∉ r := fun hmem => hk (List.mem_map_of_mem hmem)
      simp [get?, hnot, eq_comm]
    · simp [get?, hkey, Ne.symm hkey, ih hr]

/-- Entries left out by their keys. -/
theorem get?_filter (t : Table κ α) (p : κ → Bool) (key : κ) :
    get? (t.filter fun e => p e.1) key = if p key then t.get? key else none := by
  induction t with
  | nil => simp
  | cons e r ih =>
    obtain ⟨k, v⟩ := e
    by_cases h : k = key
    · subst h
      by_cases hp : p k
      · simp [hp, get?]
      · simpa [hp] using ih
    · by_cases hp : p k
      · simpa [hp, get?, h] using ih
      · simpa [hp, get?, h] using ih

omit [DecidableEq κ] in
theorem nodup_keys_filter {t : Table κ α} (h : t.keys.Nodup) (p : κ × α → Bool) :
    (keys (t.filter p)).Nodup :=
  h.sublist (List.filter_sublist.map Prod.fst)

/-- Several keys forgotten one after another. -/
theorem get?_foldr_erase (t : Table κ α) (gone : List κ) (key : κ) :
    get? (gone.foldr (fun k t => t.erase k) t) key = if key ∈ gone then none else t.get? key := by
  induction gone with
  | nil => simp
  | cons k gone ih =>
    rw [List.foldr_cons]
    by_cases h : key = k
    · simp [h, get?_erase_self]
    · simp [get?_erase_of_ne _ h, ih, h]

theorem nodup_keys_foldr_erase {t : Table κ α} (h : t.keys.Nodup) (gone : List κ) :
    (gone.foldr (fun k t => Table.erase t k) t).keys.Nodup := by
  induction gone with
  | nil => exact h
  | cons k gone ih => exact nodup_keys_filter ih _

/-! ## Tables in the order of their keys -/

section Sorted

variable [LT κ] [DecidableLT κ]

/-- Puts an entry in its place among entries in the order of their keys; one of the same key gives
way. -/
def insertSorted (key : κ) (value : α) : Table κ α → Table κ α
  | [] => [(key, value)]
  | (k, v) :: r =>
    if key < k then (key, value) :: (k, v) :: r
    else if key = k then (key, value) :: r
    else (k, v) :: insertSorted key value r

/-- The entries in the order of their keys; of equal keys the last stays. -/
def sorted (entries : List (κ × α)) : Table κ α :=
  entries.foldl (fun t e => insertSorted e.1 e.2 t) []

end Sorted

end Table

end ComponentHost
