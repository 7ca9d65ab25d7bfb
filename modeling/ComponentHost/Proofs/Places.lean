/-
# Places of a text

A cursor is a pair of numbers that only make sense together: what is left to read, and the
offset of its first byte.  Nothing in the type says that the two fit.  This file says it.

* `c.Passes run d`: reading exactly the characters `run` from `c` leads to `d`, and the offset
  has moved by exactly their bytes.  Every operation of the scanners is of this form, and each
  has one lemma here that names the characters it passes.
* `c.Reaches d`: `d` is `c` or some later place of the same text.
* `c.IsPlaceOf text`: the start of the text reaches `c`.

From the last one follows all that is ever needed about offsets: they are character boundaries
(`IsPlaceOf.isValid`), the bytes from there on are the bytes of what is left
(`IsPlaceOf.drop_bytes`), and the byte before a place is the character that was just passed
(`IsPlaceOf.getElem?_before`).
-/
import ComponentHost.Proofs.Encoding

namespace ComponentHost.Cursor

/-! ## 1. From place to place

The characters that are passed are named, since they are what the next argument needs.  Where only
the direction matters, they are forgotten again. -/

/-- Reading `run` from `c` leads to `d`. -/
structure Passes (c : Cursor) (run : List Char) (d : Cursor) : Prop where
  rest : c.rest = run ++ d.rest
  offset : d.offset = c.offset + byteWidth run

/-- `d` is `c` or a later place of the same text. -/
def Reaches (c d : Cursor) : Prop := ∃ run, c.Passes run d

theorem Passes.refl (c : Cursor) : c.Passes [] c := ⟨rfl, rfl⟩

theorem Passes.trans {c d e : Cursor} {a b : List Char} (h₁ : c.Passes a d) (h₂ : d.Passes b e) :
    c.Passes (a ++ b) e := by
  refine ⟨?_, ?_⟩
  · rw [h₁.rest, h₂.rest, List.append_assoc]
  · rw [h₂.offset, h₁.offset, byteWidth_append, Nat.add_assoc]

/-- What stands between two places is what was passed. -/
theorem Passes.upTo_eq {c d : Cursor} {run : List Char} (h : c.Passes run d) : c.upTo d = run := by
  rw [upTo, h.rest, List.length_append, Nat.add_sub_cancel, List.take_left]

theorem Passes.eq_mk {c d : Cursor} {run more : List Char} (h : c.Passes run d)
    (hrest : c.rest = run ++ more) : d = ⟨c.offset + byteWidth run, more⟩ := by
  have hmore : d.rest = more := List.append_cancel_left (h.rest.symm.trans hrest)
  rw [← h.offset, ← hmore]

theorem Passes.reaches {c d : Cursor} {run : List Char} (h : c.Passes run d) : c.Reaches d :=
  ⟨run, h⟩

/-- Reading a character moves the offset. -/
theorem Passes.offset_lt {c d : Cursor} {run : List Char} (h : c.Passes run d) (hrun : run ≠ []) :
    c.offset < d.offset := by
  obtain ⟨x, r, rfl⟩ := List.exists_cons_of_ne_nil hrun
  have hpos := x.utf8Size_pos
  rw [h.offset, byteWidth_cons]
  omega

theorem Reaches.refl (c : Cursor) : c.Reaches c := (Passes.refl c).reaches

theorem Reaches.trans {c d e : Cursor} (h₁ : c.Reaches d) (h₂ : d.Reaches e) : c.Reaches e := by
  obtain ⟨a, ha⟩ := h₁
  obtain ⟨b, hb⟩ := h₂
  exact (ha.trans hb).reaches

theorem Reaches.offset_le {c d : Cursor} (h : c.Reaches d) : c.offset ≤ d.offset := by
  obtain ⟨run, hrun⟩ := h
  rw [hrun.offset]
  exact Nat.le_add_right _ _

/-! ## 2. What each operation passes

One lemma for each operation of a cursor.  A step at the end of the text passes nothing, so where a
step is to pass a character, there has to be one. -/

theorem passes_step {c : Cursor} {x : Char} {r : List Char} (h : c.rest = x :: r) :
    c.Passes [x] c.step := by
  have hstep : c.step = ⟨c.offset + x.utf8Size, r⟩ := by
    unfold step
    rw [h]
  refine ⟨?_, ?_⟩
  · rw [hstep, h]
    rfl
  · rw [hstep]
    rfl

theorem reaches_step (c : Cursor) : c.Reaches c.step := by
  match h : c.rest with
  | [] =>
    have hstep : c.step = c := by
      unfold step
      rw [h]
    rw [hstep]
    exact Reaches.refl c
  | x :: r => exact (passes_step h).reaches

theorem reaches_skip (n : Nat) (c : Cursor) : c.Reaches (c.skip n) := by
  induction n generalizing c with
  | zero => exact Reaches.refl c
  | succ n ih => exact (reaches_step c).trans (ih c.step)

/-- Skipping passes as many characters as it says, if there are so many. -/
theorem passes_skip {n : Nat} {c : Cursor} {run r : List Char} (h : c.rest = run ++ r)
    (hn : run.length = n) : c.Passes run (c.skip n) := by
  induction run generalizing n c with
  | nil =>
    subst hn
    exact Passes.refl c
  | cons x run ih =>
    subst hn
    have hfirst : c.Passes [x] c.step := passes_step h
    have hrest : c.step.rest = run ++ r := by
      have := hfirst.rest.symm.trans h
      simpa using this
    exact hfirst.trans (ih hrest rfl)

theorem passes_skipWhile (p : Char → Bool) (c : Cursor) : c.Passes (c.run p) (c.skipWhile p) :=
  ⟨List.takeWhile_append_dropWhile.symm, rfl⟩

theorem reaches_skipWhile (p : Char → Bool) (c : Cursor) : c.Reaches (c.skipWhile p) :=
  (passes_skipWhile p c).reaches

/-- The character at which skipping stops does not satisfy the condition. -/
theorem not_of_skipWhile {p : Char → Bool} {c : Cursor} {x : Char} {r : List Char}
    (h : (c.skipWhile p).rest = x :: r) : p x = false := by
  have hd : c.rest.dropWhile p = x :: r := h
  have hne : c.rest.dropWhile p ≠ [] := by rw [hd]; exact List.cons_ne_nil _ _
  have hhead := List.head_dropWhile_not p hne
  simpa [hd] using hhead

/-- Skipping up to a character ends at the character, if not at the end. -/
theorem rest_skipWhile_ne {a : Char} {c : Cursor} (h : (c.skipWhile (· != a)).rest ≠ []) :
    ∃ r, (c.skipWhile (· != a)).rest = a :: r := by
  obtain ⟨x, r, hx⟩ := List.exists_cons_of_ne_nil h
  have hstop := not_of_skipWhile hx
  obtain rfl : x = a := by simpa using hstop
  exact ⟨r, hx⟩

theorem all_run (p : Char → Bool) (c : Cursor) : ∀ x ∈ c.run p, p x = true :=
  fun _ hx => List.all_eq_true.mp List.all_takeWhile _ hx

/-- Characters that are skipped anyway may be taken as passed. -/
theorem skipWhile_append {p : Char → Bool} {run : List Char} (h : ∀ x ∈ run, p x = true)
    (offset : Nat) (more : List Char) :
    (⟨offset, run ++ more⟩ : Cursor).skipWhile p
      = (⟨offset + byteWidth run, more⟩ : Cursor).skipWhile p := by
  simp only [skipWhile, List.takeWhile_append_of_pos h, List.dropWhile_append_of_pos h,
    byteWidth_append, Nat.add_assoc]

theorem skipWhile_of_not {p : Char → Bool} {x : Char} (h : p x = false) (offset : Nat)
    (r : List Char) : (⟨offset, x :: r⟩ : Cursor).skipWhile p = ⟨offset, x :: r⟩ := by
  simp [skipWhile, h]

/-- Skipping twice is skipping once. -/
theorem skipWhile_skipWhile (p : Char → Bool) (c : Cursor) :
    (c.skipWhile p).skipWhile p = c.skipWhile p := by
  match h : c.skipWhile p with
  | ⟨offset, []⟩ => rfl
  | ⟨offset, x :: r⟩ => exact skipWhile_of_not (not_of_skipWhile (congrArg rest h)) offset r

theorem findPast_spec {word : List Char} {offset : Nat} {cs : List Char} {d : Cursor}
    (h : findPast word offset cs = some d) :
    ∃ before, (⟨offset, cs⟩ : Cursor).Passes (before ++ word) d := by
  induction cs generalizing offset with
  | nil =>
    rw [findPast] at h
    split at h
    · next hempty =>
      cases h
      rw [List.isEmpty_iff.mp hempty]
      exact ⟨[], Passes.refl _⟩
    · cases h
  | cons x r ih =>
    rw [findPast] at h
    split at h
    · next hprefix =>
      cases h
      obtain ⟨tail, htail⟩ := List.isPrefixOf_iff_prefix.mp hprefix
      refine ⟨[], ?_, rfl⟩
      rw [← htail]
      simp
    · obtain ⟨before, hbefore⟩ := ih h
      refine ⟨x :: before, ?_, ?_⟩
      · have := hbefore.rest
        simp only at this
        simp [this]
      · rw [hbefore.offset, List.cons_append, byteWidth_cons]
        exact Nat.add_assoc _ _ _

/-- The place past a word is right after it. -/
theorem past?_spec {word : List Char} {c d : Cursor} (h : c.past? word = some d) :
    ∃ before, c.Passes (before ++ word) d := findPast_spec h

theorem reaches_past? {word : List Char} {c d : Cursor} (h : c.past? word = some d) :
    c.Reaches d := by
  obtain ⟨before, hbefore⟩ := past?_spec h
  exact hbefore.reaches

/-! ## 3. Places of a whole text

Everything that a scanner comes to is reached from the start of the text. -/

/-- The cursor is a place of the text. -/
def IsPlaceOf (text : String) (c : Cursor) : Prop := (ofText text).Reaches c

theorem isPlaceOf_ofText (text : String) : (ofText text).IsPlaceOf text := Reaches.refl _

theorem IsPlaceOf.reaches {text : String} {c d : Cursor} (h : c.IsPlaceOf text)
    (hd : c.Reaches d) : d.IsPlaceOf text := Reaches.trans h hd

/-- The text up to a place, and from there on. -/
theorem IsPlaceOf.split {text : String} {c : Cursor} (h : c.IsPlaceOf text) :
    ∃ before, text.toList = before ++ c.rest ∧ c.offset = byteWidth before := by
  obtain ⟨before, hbefore⟩ := h
  refine ⟨before, hbefore.rest, ?_⟩
  rw [hbefore.offset]
  exact Nat.zero_add _

theorem utf8ByteSize_ofList (cs : List Char) : (String.ofList cs).utf8ByteSize = byteWidth cs := by
  rw [← Utf8.length_encode, ← String.size_toByteArray, String.toByteArray_ofList, List.utf8Encode]
  exact List.size_toByteArray

theorem byteWidth_toList (text : String) : byteWidth text.toList = text.utf8ByteSize := by
  rw [← utf8ByteSize_ofList, String.ofList_toList]

/-- **The offset of a place is a character boundary.** -/
theorem IsPlaceOf.isValid {text : String} {c : Cursor} (h : c.IsPlaceOf text) :
    String.Pos.Raw.IsValid text ⟨c.offset⟩ := by
  obtain ⟨before, hchars, hoffset⟩ := h.split
  refine String.Pos.Raw.isValid_iff_exists_take_toList.mpr ⟨before.length, ?_⟩
  rw [hchars, List.take_left, utf8ByteSize_ofList]
  exact hoffset

/-- The bytes from a place on are the bytes of what is left. -/
theorem IsPlaceOf.drop_bytes {text : String} {c : Cursor} (h : c.IsPlaceOf text) :
    (Utf8.bytes text).drop c.offset = Utf8.encode c.rest := by
  obtain ⟨before, hchars, hoffset⟩ := h.split
  rw [Utf8.bytes_eq_encode, hchars, Utf8.encode_append, hoffset, ← Utf8.length_encode,
    List.drop_left]

/-- The byte at some distance from a place. -/
theorem IsPlaceOf.getElem? {text : String} {c : Cursor} (h : c.IsPlaceOf text) (i : Nat) :
    (Utf8.bytes text)[c.offset + i]? = (Utf8.encode c.rest)[i]? := by
  rw [← h.drop_bytes, List.getElem?_drop]

/-- The byte before a place is the narrow character that was passed last. -/
theorem IsPlaceOf.getElem?_before {text : String} {c d : Cursor} {run : List Char} {x : Char}
    (h : c.IsPlaceOf text) (hd : c.Passes (run ++ [x]) d) (hx : x.toNat < 0x80) :
    (Utf8.bytes text)[d.offset - 1]? = some (UInt8.ofNat x.toNat) := by
  have hoffset : d.offset - 1 = c.offset + byteWidth run := by
    rw [hd.offset, byteWidth_append, byteWidth_cons, byteWidth_nil, Utf8.utf8Size_of_narrow hx]
    omega
  rw [hoffset, h.getElem?, hd.rest, List.append_assoc, Utf8.encode_append, ← Utf8.length_encode,
    List.getElem?_append_right (Nat.le_refl _), Nat.sub_self, List.cons_append,
    Utf8.encode_cons, Utf8.encodeChar_of_narrow hx]
  rfl

end ComponentHost.Cursor
