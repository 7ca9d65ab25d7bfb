/-
# What one use of a cache does

A cache keeps its values in a table and the order of their use in a list, and each operation moves
the two by steps of their own: a hit touches the list and rewrites the table, an expired value
leaves both and comes back, a new value is pushed in front and others are pushed out behind.

Two facts say all that the rest needs.  While the list and the table hold the same keys, each once
and not too many (`WellKept`), a use of a key puts it in front of all others and cuts the list at
the capacity, whichever way was taken (`order_get`); and the table then holds exactly what the
list says, the used key at the time of its use and every other key as it was (`find?_get`).
-/
import ComponentHost.Document.Cache
import Mathlib.Data.List.Perm.Basic

namespace ComponentHost.Cache

variable {α : Type}

/-! ## 1. The table and the order together

The table and the order are two records of the same keys, and nothing in a cache forces them to
agree.  What has to hold between them is one predicate, and everything that takes keys out is one
operation on both. -/

/-- The order lists the keys of the table, each once, within the capacity. -/
structure WellKept (c : Cache α) : Prop where
  nodup_keys : (Table.keys c.entries).Nodup
  nodup_order : c.order.Nodup
  mem_order : ∀ key, key ∈ c.order ↔ (c.find? key).isSome
  fits : c.order.length ≤ c.capacity

namespace WellKept

variable {c : Cache α}

/-- A cache with nothing in it, in any state but for that. -/
theorem of_nil (hentries : c.entries = []) (horder : c.order = []) : WellKept c := by
  refine ⟨?_, ?_, ?_, ?_⟩
  · rw [hentries]
    exact List.nodup_nil
  · rw [horder]
    exact List.nodup_nil
  · intro key
    rw [horder, find?, hentries]
    exact iff_of_false List.not_mem_nil Bool.false_ne_true
  · rw [horder]
    exact Nat.zero_le _

/-- The table has the keys of the order in some order of its own. -/
theorem perm (hc : WellKept c) : (Table.keys c.entries).Perm c.order := by
  refine (List.perm_ext_iff_of_nodup hc.nodup_keys hc.nodup_order).mpr fun key => ?_
  rw [hc.mem_order key]
  exact Table.mem_keys_iff

theorem contains_iff (hc : WellKept c) (key : Fingerprint) : c.contains key ↔ key ∈ c.order :=
  (hc.mem_order key).symm

theorem mem_of_find? (hc : WellKept c) {key : Fingerprint} {e : CacheEntry α}
    (h : c.find? key = some e) : key ∈ c.order := by
  rw [hc.mem_order key, h]
  rfl

theorem find?_eq_none_iff (hc : WellKept c) {key : Fingerprint} :
    c.find? key = none ↔ key ∉ c.order := by
  rw [hc.mem_order key, Option.not_isSome_iff_eq_none]

/-- A cache without room holds nothing. -/
theorem order_eq_nil (hc : WellKept c) (hzero : c.capacity = 0) : c.order = [] :=
  List.eq_nil_of_length_eq_zero (Nat.le_zero.mp (hzero ▸ hc.fits))

end WellKept

/-- Keys are left out of the table and of the order alike. -/
theorem WellKept.filter {c : Cache α} (hc : WellKept c) (p : Fingerprint → Bool) :
    WellKept { c with entries := c.entries.filter (p ·.1), order := c.order.filter p } where
  nodup_keys := Table.nodup_keys_filter hc.nodup_keys _
  nodup_order := hc.nodup_order.filter p
  mem_order key := by
    show key ∈ c.order.filter p ↔ (Table.get? (c.entries.filter (p ·.1)) key).isSome
    rw [Table.get?_filter, List.mem_filter, hc.mem_order key]
    cases p key <;> simp [find?]
  fits := Nat.le_trans (List.length_filter_le _ _) hc.fits

theorem WellKept.remove {c : Cache α} (hc : WellKept c) (key : Fingerprint) :
    WellKept (c.remove key) :=
  hc.filter fun k => !decide (k = key)

theorem WellKept.removeDocument {c : Cache α} (hc : WellKept c) (uri : Uri) :
    WellKept (c.removeDocument uri) :=
  hc.filter fun key => !decide (key.uri = uri)

theorem WellKept.clear (c : Cache α) : WellKept c.clear := .of_nil rfl rfl

/-! ## 2. The order after a use

A hit takes the key out of the list and puts it in front; a miss puts it in front of a list that
does not have it.  `inFront` is the same list in both cases, so that the cases need not be told
apart later.  Only the second can make the list too long. -/

/-- The order in which a key is in front of all others. -/
def inFront (key : Fingerprint) (order : List Fingerprint) : List Fingerprint :=
  key :: order.filter fun k => !decide (k = key)

theorem inFront_of_notMem {key : Fingerprint} {order : List Fingerprint} (h : key ∉ order) :
    inFront key order = key :: order := by
  rw [inFront, List.filter_eq_self.mpr]
  intro k hk
  have hne : k ≠ key := fun heq => h (heq ▸ hk)
  simpa using hne

/-- It does not matter whether the key was dropped before. -/
theorem inFront_filter (key : Fingerprint) (order : List Fingerprint) :
    inFront key (order.filter fun k => !decide (k = key)) = inFront key order := by
  rw [inFront, inFront, List.filter_filter]
  simp only [Bool.and_self]

theorem mem_inFront {key k : Fingerprint} {order : List Fingerprint} :
    k ∈ inFront key order ↔ k = key ∨ k ∈ order := by
  by_cases h : k = key <;> simp [inFront, h]

theorem nodup_inFront {order : List Fingerprint} (h : order.Nodup) (key : Fingerprint) :
    (inFront key order).Nodup :=
  List.nodup_cons.mpr ⟨by simp, h.filter _⟩

/-- A key that moves to the front leaves its place. -/
theorem inFront_of_mem {key : Fingerprint} {order : List Fingerprint} (h : order.Nodup) :
    key :: order.erase key = inFront key order := by
  rw [inFront, h.erase_eq_filter]
  rfl

theorem length_inFront_of_mem {key : Fingerprint} {order : List Fingerprint} (h : order.Nodup)
    (hmem : key ∈ order) : (inFront key order).length = order.length := by
  rw [← inFront_of_mem h, List.length_cons, List.length_erase_of_mem hmem]
  exact Nat.sub_add_cancel (List.length_pos_of_mem hmem)

/-- A new value goes in front, and what does not fit any more is pushed out. -/
theorem insert_of_notMem {c : Cache α} (hc : WellKept c) {key : Fingerprint} (hkey : key ∉ c.order)
    (hpos : c.capacity ≠ 0) (e : CacheEntry α) :
    c.insert key e
      = { c with entries := Table.set c.entries key e, order := key :: c.order }.shrink := by
  have hnot : ¬ c.contains key := (hc.contains_iff key).not.mpr hkey
  rw [insert, if_neg hpos, if_neg hnot]

/-- **A new key comes to the front**, and the order is cut at the capacity.  Without any capacity
nothing is put in, which is the same as to cut all of it. -/
theorem order_insert {c : Cache α} (hc : WellKept c) {key : Fingerprint} (hkey : key ∉ c.order)
    (e : CacheEntry α) :
    (c.insert key e).order = (inFront key c.order).take c.capacity := by
  by_cases hzero : c.capacity = 0
  · rw [insert, if_pos hzero, hc.order_eq_nil hzero, hzero, List.take_zero]
  · rw [insert_of_notMem hc hkey hzero, inFront_of_notMem hkey]
    rfl

/-- **The table after a new key**: it holds the keys of the order, the new one with its value and
the others with theirs.  Shrinking drops from the table just the keys that it cuts from the order.
-/
theorem find?_insert {c : Cache α} (hc : WellKept c) {key : Fingerprint} (hkey : key ∉ c.order)
    (e : CacheEntry α) (k : Fingerprint) :
    (c.insert key e).find? k
      = if k ∈ (c.insert key e).order then (if k = key then some e else c.find? k) else none := by
  by_cases hzero : c.capacity = 0
  · have hnil := hc.order_eq_nil hzero
    have hnone : c.find? k = none := hc.find?_eq_none_iff.mpr (hnil ▸ List.not_mem_nil)
    rw [insert, if_pos hzero, hnil, hnone, if_neg List.not_mem_nil]
  · rw [insert_of_notMem hc hkey hzero]
    -- What is pushed out is what the order has behind the cut, and no key is on both sides of it.
    have hnodup : (key :: c.order).Nodup := List.nodup_cons.mpr ⟨hkey, hc.nodup_order⟩
    rw [← List.take_append_drop c.capacity (key :: c.order)] at hnodup
    have hapart := (List.nodup_append.mp hnodup).2.2
    show Table.get? (((key :: c.order).drop c.capacity).foldr (fun key t => Table.erase t key)
        (Table.set c.entries key e)) k
      = if k ∈ (key :: c.order).take c.capacity then _ else none
    rw [Table.get?_foldr_erase]
    by_cases hin : k ∈ (key :: c.order).take c.capacity
    · have hout : k ∉ (key :: c.order).drop c.capacity := fun h => hapart k hin k h rfl
      rw [if_neg hout, if_pos hin]
      by_cases hk : k = key
      · rw [if_pos hk, hk, Table.get?_set_self]
      · rw [if_neg hk, Table.get?_set_of_ne _ _ hk, find?]
    · rw [if_neg hin]
      split
      · rfl
      · next hout =>
        have hnot : k ∉ key :: c.order := by
          rw [← List.take_append_drop c.capacity (key :: c.order), List.mem_append]
          exact fun h => h.elim hin hout
        rw [List.mem_cons, not_or, ← hc.find?_eq_none_iff] at hnot
        rw [Table.get?_set_of_ne _ _ hnot.1]
        exact hnot.2

theorem nodup_keys_insert {c : Cache α} (hc : WellKept c) {key : Fingerprint} (hkey : key ∉ c.order)
    (e : CacheEntry α) : (Table.keys (c.insert key e).entries).Nodup := by
  by_cases hzero : c.capacity = 0
  · rw [insert, if_pos hzero]
    exact hc.nodup_keys
  · rw [insert_of_notMem hc hkey hzero]
    exact Table.nodup_keys_foldr_erase (Table.nodup_keys_set hc.nodup_keys _ _) _

/-! ## 3. All that a use does

A use is a look at the table, and then one of three things.  Two of them end alike: an expired value
is dropped first, and then the key is as new as one that never was there.  This leaves the two cases
of `get_cases`, from which the facts about the order, the table and the value are read off. -/

theorem capacity_insert (c : Cache α) (key : Fingerprint) (e : CacheEntry α) :
    (c.insert key e).capacity = c.capacity ∧ (c.insert key e).timeToLive = c.timeToLive := by
  unfold insert
  split
  · exact ⟨rfl, rfl⟩
  · dsimp only
    split
    · unfold touch
      split <;> exact ⟨rfl, rfl⟩
    · exact ⟨rfl, rfl⟩

/-- To drop what is not there is to do nothing. -/
theorem remove_of_find?_none {c : Cache α} (hc : WellKept c) {key : Fingerprint}
    (h : c.find? key = none) : c.remove key = c := by
  have horder : (c.order.filter fun k => !decide (k = key)) = c.order :=
    (List.cons.inj (inFront_of_notMem (hc.find?_eq_none_iff.mp h))).2
  have hentries : Table.erase c.entries key = c.entries := by
    refine List.filter_eq_self.mpr fun e he => ?_
    have hne : e.1 ≠ key := by
      rintro rfl
      have hmem : e.1 ∈ Table.keys c.entries := List.mem_map_of_mem he
      rw [Table.mem_keys_iff, show Table.get? c.entries e.1 = none from h] at hmem
      cases hmem
    simpa using hne
  rw [remove, horder, hentries]

/-- **The ways a use can go.**  A value that is there and fresh is touched.  In all other cases
nothing is kept of the key when the derived value is put in. -/
theorem get_cases {c : Cache α} (hc : WellKept c) (key : Fingerprint) (now : Nat)
    (derive : Unit → α) :
    (∃ e, c.find? key = some e ∧ c.isExpired now e = false ∧
      c.get key now derive = (e.value, false,
        { c with
          entries := Table.set c.entries key { e with lastAccess := now }
          order := inFront key c.order })) ∨
    ((∀ e, c.find? key = some e → c.isExpired now e = true) ∧
      c.get key now derive
        = (derive (), true, (c.remove key).insert key ⟨derive (), now⟩)) := by
  cases hfind : c.find? key with
  | none =>
    refine Or.inr ⟨fun e h => (by cases h), ?_⟩
    rw [remove_of_find?_none hc hfind]
    simp only [get, hfind, derived]
  | some e =>
    have hkey : key ∈ c.order := hc.mem_of_find? hfind
    cases hexp : c.isExpired now e with
    | true =>
      refine Or.inr ⟨fun e' h => Option.some.inj h ▸ hexp, ?_⟩
      simp only [get, hfind, hexp, derived, if_true]
    | false =>
      refine Or.inl ⟨e, rfl, hexp, ?_⟩
      simp only [get, hfind, hexp, touch, if_pos hkey, inFront_of_mem hc.nodup_order,
        Bool.false_eq_true, if_false]

theorem notMem_order_remove (c : Cache α) (key : Fingerprint) : key ∉ (c.remove key).order := by
  simp [remove]

theorem find?_remove_of_ne (c : Cache α) {key k : Fingerprint} (h : k ≠ key) :
    (c.remove key).find? k = c.find? k :=
  Table.get?_erase_of_ne c.entries h

/-- **A use puts its key in front**, and the order is cut at the capacity. -/
theorem order_get {c : Cache α} (hc : WellKept c) (key : Fingerprint) (now : Nat)
    (derive : Unit → α) :
    (c.get key now derive).2.2.order = (inFront key c.order).take c.capacity := by
  rcases get_cases hc key now derive with ⟨e, hfind, -, hget⟩ | ⟨-, hget⟩
  · rw [hget, List.take_of_length_le]
    rw [length_inFront_of_mem hc.nodup_order (hc.mem_of_find? hfind)]
    exact hc.fits
  · rw [hget, order_insert (hc.remove key) (notMem_order_remove c key)]
    exact congrArg (List.take c.capacity) (inFront_filter key c.order)

/-- **After a use the table holds what the order says**: the key at the time of its use, and the
other keys as they were. -/
theorem find?_get {c : Cache α} (hc : WellKept c) (key : Fingerprint) (now : Nat)
    (derive : Unit → α) (k : Fingerprint) :
    (c.get key now derive).2.2.find? k
      = if k ∈ (c.get key now derive).2.2.order then
          (if k = key then some ⟨(c.get key now derive).1, now⟩ else c.find? k)
        else none := by
  rcases get_cases hc key now derive with ⟨e, hfind, -, hget⟩ | ⟨-, hget⟩
  · rw [hget]
    show Table.get? (Table.set c.entries key _) k = if k ∈ inFront key c.order then _ else none
    by_cases hk : k = key
    · rw [if_pos (mem_inFront.mpr (Or.inl hk)), if_pos hk, hk, Table.get?_set_self]
    · rw [Table.get?_set_of_ne _ _ hk, if_neg hk]
      split
      · rfl
      · next hout =>
        exact hc.find?_eq_none_iff.mpr fun h => hout (mem_inFront.mpr (Or.inr h))
  · rw [hget, find?_insert (hc.remove key) (notMem_order_remove c key)]
    by_cases hk : k = key
    · rw [if_pos hk, if_pos hk]
    · rw [if_neg hk, if_neg hk, find?_remove_of_ne c hk]

/-- The bounds of a cache are set once. -/
theorem capacity_get {c : Cache α} (hc : WellKept c) (key : Fingerprint) (now : Nat)
    (derive : Unit → α) :
    (c.get key now derive).2.2.capacity = c.capacity ∧
      (c.get key now derive).2.2.timeToLive = c.timeToLive := by
  rcases get_cases hc key now derive with ⟨e, -, -, hget⟩ | ⟨-, hget⟩
  · rw [hget]
    exact ⟨rfl, rfl⟩
  · rw [hget]
    exact capacity_insert (c.remove key) key _

/-- **A use keeps the table and the order together.** -/
theorem WellKept.get {c : Cache α} (hc : WellKept c) (key : Fingerprint) (now : Nat)
    (derive : Unit → α) : WellKept (c.get key now derive).2.2 where
  nodup_keys := by
    rcases get_cases hc key now derive with ⟨e, -, -, hget⟩ | ⟨-, hget⟩
    · rw [hget]
      exact Table.nodup_keys_set hc.nodup_keys _ _
    · rw [hget]
      exact nodup_keys_insert (hc.remove key) (notMem_order_remove c key) _
  nodup_order := by
    rw [order_get hc]
    exact (nodup_inFront hc.nodup_order key).sublist (List.take_sublist _ _)
  mem_order k := by
    rw [find?_get hc]
    by_cases hin : k ∈ (c.get key now derive).2.2.order
    · rw [if_pos hin]
      refine iff_of_true hin ?_
      split
      · rfl
      · next hk =>
        rw [order_get hc] at hin
        exact (hc.mem_order k).mp ((mem_inFront.mp (List.mem_of_mem_take hin)).resolve_left hk)
    · rw [if_neg hin]
      exact iff_of_false hin Bool.false_ne_true
  fits := by
    rw [order_get hc, (capacity_get hc key now derive).1]
    exact List.length_take_le _ _

/-- **When a value is derived**: there is none, or it was idle for too long. -/
theorem get_derives_iff {c : Cache α} (hc : WellKept c) (key : Fingerprint) (now : Nat)
    (derive : Unit → α) :
    (c.get key now derive).2.1 = true ↔
      key ∉ c.order ∨ ∃ e, c.find? key = some e ∧ c.timeToLive < now - e.lastAccess := by
  rw [hc.mem_order key]
  rcases get_cases hc key now derive with ⟨e, hfind, hfresh, hget⟩ | ⟨hexp, hget⟩
  · rw [hget, hfind]
    refine iff_of_false Bool.false_ne_true ?_
    rintro (h | ⟨e', heq, hlt⟩)
    · exact h rfl
    · cases heq
      exact absurd hlt (of_decide_eq_false hfresh)
  · rw [hget]
    refine iff_of_true rfl ?_
    cases hfind : c.find? key with
    | none => exact Or.inl Bool.false_ne_true
    | some e => exact Or.inr ⟨e, rfl, of_decide_eq_true (hexp e hfind)⟩

/-- **What a use gives**: the value that was kept, or a derived one. -/
theorem get_value {c : Cache α} (hc : WellKept c) (key : Fingerprint) (now : Nat)
    (derive : Unit → α) :
    (∃ e, c.find? key = some e ∧ (c.get key now derive).1 = e.value) ∨
      (c.get key now derive).1 = derive () := by
  rcases get_cases hc key now derive with ⟨e, hfind, -, hget⟩ | ⟨-, hget⟩
  · exact Or.inl ⟨e, hfind, congrArg Prod.fst hget⟩
  · exact Or.inr (congrArg Prod.fst hget)

end ComponentHost.Cache
