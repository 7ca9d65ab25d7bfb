/-
# Columns of a projection

A projection has the lines of its text, and every byte of it is where it was.  Columns are another
matter: they count UTF-16 units, and a blank character gives a space for each of its BYTES, which is
more than its units unless it is narrow.  So an offset keeps its line, its column can only grow, and
it stays exactly if no such character is blanked before it on its line (`position_mask_spec`).

Both positions are read off one cut of the text.  A cut of a text is a cut of its projection
(`lineCut_mask`), so all that is left is to count through the part of the line before it, where each
character counts at least its units; hence the sums agree only if they agree on every character.  An
offset inside a character needs a cut of its own, since there is one in the projection where there
is none in the text.
-/
import ComponentHost.Proofs.Positions

namespace ComponentHost

/-! ## 1. Cuts of a projection

Masking works on one character after the other and needs only its offset.  So it may be done piece
by piece, and a cut of the text gives a cut of what it becomes: the pieces have the same bytes and
the same line feeds. -/

/-- Spaces have one byte each. -/
theorem byteWidth_replicate_space (n : Nat) : byteWidth (List.replicate n ' ') = n := by
  induction n with
  | zero => rfl
  | succ n ih =>
    rw [List.replicate_succ, byteWidth_cons, ih]
    exact Nat.add_comm 1 n

/-- Spaces have one unit each. -/
theorem unitWidth_replicate_space (n : Nat) : unitWidth (List.replicate n ' ') = n := by
  induction n with
  | zero => rfl
  | succ n ih =>
    rw [List.replicate_succ, unitWidth_cons, ih]
    exact Nat.add_comm 1 n

/-- A cut may be moved along its line. -/
theorem LineCut.moved {text : String} {n : Nat} {before inside run after : List Char}
    (h : LineCut text n before inside (run ++ after)) (hrun : '\n' ∉ run) :
    LineCut text n before (inside ++ run) after where
  chars := by rw [h.chars, List.append_assoc]
  begins := h.begins
  number := h.number
  no_feed hmem := (List.mem_append.mp hmem).elim h.no_feed hrun

/-- A character of a text that is cut stands before the cut or behind it. -/
theorem cons_cases {u v a b : List Char} {c : Char} (h : u ++ v = a ++ c :: b) :
    (∃ k, u = a ++ c :: k ∧ b = k ++ v) ∨ ∃ k, a = u ++ k ∧ v = k ++ c :: b := by
  rcases List.append_eq_append_iff.mp h with ⟨k, ha, hv⟩ | ⟨k, hu, hk⟩
  · exact Or.inr ⟨k, ha, hv⟩
  · cases k with
    | nil => exact Or.inr ⟨[], by rw [hu, List.append_nil, List.append_nil], hk.symm⟩
    | cons x k =>
      obtain ⟨rfl, hb⟩ := List.cons.inj hk
      exact Or.inl ⟨k, hu, hb⟩

/-- A line feed before an offset stands before the line of the last cut there. -/
theorem LineCut.feed_before {text : String} {n : Nat} {before inside after : List Char}
    (h : LineCut text n before inside after) {offset : Nat}
    (hle : byteWidth (before ++ inside) ≤ offset)
    (hlt : ∀ c ∈ after.head?, offset < byteWidth (before ++ inside) + c.utf8Size)
    {x y : List Char} (hfeed : text.toList = x ++ '\n' :: y) (hx : byteWidth x < offset) :
    byteWidth x < byteWidth before := by
  have hsplit : (before ++ inside) ++ after = (x ++ ['\n']) ++ y := by
    rw [List.append_assoc, ← h.chars, hfeed, List.append_assoc]
    rfl
  have hwidth : byteWidth (x ++ ['\n']) ≤ offset := by
    rw [byteWidth_append]
    exact hx
  obtain ⟨t, ht⟩ := (byteWidth_le_iff_isPrefix hsplit hle hlt).mp hwidth
  rw [List.append_assoc] at ht
  -- so the feed is before the cut, and the line has none up to there
  rcases cons_cases ht.symm with ⟨k, hbefore, -⟩ | ⟨k, -, hinside⟩
  · rw [hbefore, byteWidth_append, byteWidth_cons]
    exact Nat.lt_add_of_pos_right (Nat.add_pos_left (Char.utf8Size_pos _) _)
  · exact absurd (hinside ▸ List.mem_append_right k List.mem_cons_self) h.no_feed

/-- What stands before a line ends with a line feed, and so does what follows a character of it. -/
theorem Line.Begins.feed_behind {before a k : List Char} {c : Char} (h : Begins before)
    (hbefore : before = a ++ c :: k) (hc : c ≠ '\n') : ∃ x, k = x ++ ['\n'] := by
  rcases h with hnil | ⟨b, hb⟩
  · exact absurd (hnil.symm.trans hbefore) (by simp)
  · rcases cons_cases (hb.symm.trans hbefore) with ⟨x, -, hx⟩ | ⟨m, -, hm⟩
    · exact ⟨x, hx⟩
    · obtain ⟨-, hlast⟩ := List.append_eq_singleton_iff.mp hm.symm |>.resolve_right (by simp)
      exact absurd (List.cons.inj hlast).1 hc

namespace Projection

variable (keep : List Region)

/-- What becomes of a character at an offset. -/
def maskedChar (offset : Nat) (c : Char) : List Char :=
  if keep.any (·.covers offset) then [c] else blank c

theorem maskedChars_cons (offset : Nat) (c : Char) (r : List Char) :
    maskedChars keep offset (c :: r)
      = maskedChar keep offset c ++ maskedChars keep (offset + c.utf8Size) r := rfl

/-- Pieces of a text are masked one after the other. -/
theorem maskedChars_append (offset : Nat) (a b : List Char) :
    maskedChars keep offset (a ++ b)
      = maskedChars keep offset a ++ maskedChars keep (offset + byteWidth a) b := by
  induction a generalizing offset with
  | nil => rfl
  | cons c a ih =>
    rw [List.cons_append, maskedChars_cons, maskedChars_cons, ih, List.append_assoc, byteWidth_cons,
      Nat.add_assoc]

/-- A character is itself, or as many spaces as it has bytes. -/
theorem maskedChar_cases (offset : Nat) (c : Char) :
    maskedChar keep offset c = [c] ∨
      c ≠ '\n' ∧ maskedChar keep offset c = List.replicate c.utf8Size ' ' := by
  unfold maskedChar blank
  split
  · exact Or.inl rfl
  · split
    · exact Or.inl rfl
    · next hbreak => exact Or.inr ⟨fun hc => hbreak (Or.inl hc), rfl⟩

/-- A line feed stays one, kept or not. -/
theorem count_feed_maskedChar (offset : Nat) (c : Char) :
    (maskedChar keep offset c).count '\n' = [c].count '\n' := by
  rcases maskedChar_cases keep offset c with hsame | ⟨hc, hblank⟩
  · rw [hsame]
  · rw [hblank, List.count_singleton, if_neg (by simpa using hc), List.count_eq_zero]
    intro hmem
    exact absurd (List.eq_of_mem_replicate hmem) (by decide)

/-- Masking keeps the bytes. -/
theorem byteWidth_maskedChars (offset : Nat) (cs : List Char) :
    byteWidth (maskedChars keep offset cs) = byteWidth cs := by
  induction cs generalizing offset with
  | nil => rfl
  | cons c r ih =>
    have hchar : byteWidth (maskedChar keep offset c) = c.utf8Size := by
      rcases maskedChar_cases keep offset c with hsame | ⟨-, hblank⟩
      · rw [hsame, byteWidth_cons, byteWidth_nil, Nat.add_zero]
      · rw [hblank, byteWidth_replicate_space]
    rw [maskedChars_cons, byteWidth_append, hchar, ih, byteWidth_cons]

theorem count_feed_maskedChars (offset : Nat) (cs : List Char) :
    (maskedChars keep offset cs).count '\n' = cs.count '\n' := by
  induction cs generalizing offset with
  | nil => rfl
  | cons c r ih =>
    rw [maskedChars_cons, List.count_append, count_feed_maskedChar, ih, ← List.count_append]
    rfl

/-- Lines begin where they began. -/
theorem begins_maskedChars {before : List Char} (h : Line.Begins before) (offset : Nat) :
    Line.Begins (maskedChars keep offset before) := by
  rcases h with rfl | ⟨b, rfl⟩
  · exact Or.inl rfl
  · refine Or.inr ⟨maskedChars keep offset b, ?_⟩
    rw [maskedChars_append]
    refine congrArg (maskedChars keep offset b ++ ·) ?_
    rw [maskedChars_cons]
    rcases maskedChar_cases keep (offset + byteWidth b) '\n' with hsame | ⟨hne, -⟩
    · rw [hsame]
      rfl
    · exact absurd rfl hne

variable {keep}

/-- **A cut of a text is a cut of its projection.** -/
theorem lineCut_mask {text : String} (halike : KeptAlike keep text.toList)
    {n : Nat} {before inside after : List Char} (h : LineCut text n before inside after) :
    LineCut (mask keep text) n (maskedChars keep 0 before)
      (maskedChars keep (byteWidth before) inside)
      (maskedChars keep (byteWidth (before ++ inside)) after) where
  chars := by
    rw [toList_mask halike, h.chars, maskedChars_append, maskedChars_append, Nat.zero_add,
      byteWidth_append]
  begins := begins_maskedChars keep h.begins 0
  number := by rw [count_feed_maskedChars, h.number]
  no_feed := by
    rw [← List.count_eq_zero, count_feed_maskedChars, List.count_eq_zero]
    exact h.no_feed

/-! ## 2. Counting through a line

Where a column differs, the characters before it on the line are to blame.  Each of them counts no
less than before, so the whole counts the same only if each one does; there is no way for two
differences to make up for each other. -/

/-- A character with more bytes than one has fewer units than bytes. -/
theorem unitSize_lt_utf8Size {c : Char} (h : 0x80 ≤ c.toNat) : unitSize c < c.utf8Size := by
  have hnot : ∀ m : UInt32, m.toNat < c.toNat → ¬ c.val ≤ m := fun m hm hle =>
    absurd (UInt32.le_iff_toNat_le.mp hle) (Nat.not_le.mpr hm)
  have hpos := c.utf8Size_pos
  have hone : c.utf8Size ≠ 1 := fun hsize =>
    hnot 127 (Nat.lt_of_lt_of_le (by decide) h) (Char.utf8Size_eq_one_iff.mp hsize)
  unfold unitSize
  split
  · omega
  · next hlarge =>
    have hlarge := Nat.lt_of_not_le hlarge
    have htwo : c.utf8Size ≠ 2 := fun hsize =>
      hnot 0x7FF (Nat.lt_trans (by decide) hlarge) (Char.utf8Size_eq_two_iff.mp hsize).2
    omega

/-- A character counts at least its units, and just these exactly if it is narrow or kept. -/
theorem unitWidth_maskedChar (keep : List Region) (offset : Nat) (c : Char) :
    unitSize c ≤ unitWidth (maskedChar keep offset c) ∧
      (unitWidth (maskedChar keep offset c) = unitSize c ↔
        (0x80 ≤ c.toNat → keep.any (·.covers offset))) := by
  have hself : unitWidth [c] = unitSize c := Nat.add_zero _
  by_cases hkept : keep.any (·.covers offset)
  · rw [maskedChar, if_pos hkept, hself]
    exact ⟨Nat.le_refl _, iff_of_true rfl fun _ => hkept⟩
  rw [maskedChar, if_neg hkept, blank]
  by_cases hwide : 0x80 ≤ c.toNat
  · have hbreak : ¬ (c = '\n' ∨ c = '\r') := by
      rintro (rfl | rfl) <;> exact absurd hwide (by decide)
    have hlt := unitSize_lt_utf8Size hwide
    rw [if_neg hbreak, unitWidth_replicate_space]
    exact ⟨Nat.le_of_lt hlt, iff_of_false (Nat.ne_of_gt hlt) fun h => hkept (h hwide)⟩
  · have hnarrow := Nat.lt_of_not_le hwide
    have hsame : unitWidth (if c = '\n' ∨ c = '\r' then [c] else List.replicate c.utf8Size ' ')
        = unitSize c := by
      split
      · exact hself
      · rw [unitWidth_replicate_space, Utf8.utf8Size_of_narrow hnarrow]
        exact (if_pos (by omega)).symm
    exact ⟨Nat.le_of_eq hsame.symm, iff_of_true hsame fun h => absurd h hwide⟩

/-- The wide ones of some characters, which start at an offset, are kept. -/
def WideKept (keep : List Region) (offset : Nat) (cs : List Char) : Prop :=
  ∀ p c q, cs = p ++ c :: q → 0x80 ≤ c.toNat → keep.any (·.covers (offset + byteWidth p))

/-- The first character, and the others. -/
theorem wideKept_cons {offset : Nat} {c : Char} {r : List Char} :
    WideKept keep offset (c :: r) ↔
      (0x80 ≤ c.toNat → keep.any (·.covers offset)) ∧ WideKept keep (offset + c.utf8Size) r := by
  constructor
  · intro h
    refine ⟨h [] c r rfl, fun p x q hr hx => ?_⟩
    have := h (c :: p) x q (by rw [hr]; rfl) hx
    rwa [byteWidth_cons, ← Nat.add_assoc] at this
  · rintro ⟨hfirst, hrest⟩ p x q hr hx
    cases p with
    | nil =>
      obtain ⟨rfl, rfl⟩ := List.cons.inj hr
      exact hfirst hx
    | cons y p =>
      obtain ⟨rfl, htail⟩ := List.cons.inj hr
      rw [byteWidth_cons, ← Nat.add_assoc]
      exact hrest p x q htail hx

/-- **Characters count at least their units**, and just these exactly if the wide ones are kept. -/
theorem unitWidth_maskedChars (keep : List Region) (offset : Nat) (cs : List Char) :
    unitWidth cs ≤ unitWidth (maskedChars keep offset cs) ∧
      (unitWidth (maskedChars keep offset cs) = unitWidth cs ↔ WideKept keep offset cs) := by
  induction cs generalizing offset with
  | nil =>
    refine ⟨Nat.le_refl _, iff_of_true rfl fun p c q h => ?_⟩
    cases p <;> cases h
  | cons c r ih =>
    obtain ⟨hchar, hcharIff⟩ := unitWidth_maskedChar keep offset c
    obtain ⟨hrest, hrestIff⟩ := ih (offset + c.utf8Size)
    rw [wideKept_cons, ← hcharIff, ← hrestIff, maskedChars_cons, unitWidth_append, unitWidth_cons]
    constructor
    · exact Nat.add_le_add hchar hrest
    · omega

/-! ## 3. Positions

What the offset sees of its line is put in terms of the whole text by `ColumnKept`, which knows
nothing of cuts: a wide character before the offset is kept, or there is a line feed after it.  Then
the two cases are told apart that the last cut at or before the offset is the same in both texts, or
that the offset lies in a character that is blanked. -/

/-- Every wide character that starts before an offset is kept, unless a line feed stands between the
two. -/
def ColumnKept (keep : List Region) (text : String) (offset : Nat) : Prop :=
  ∀ a c b, text.toList = a ++ c :: b → byteWidth a < offset → 0x80 ≤ c.toNat →
    (∃ r ∈ keep, r.start ≤ byteWidth a ∧ byteWidth a < r.stop) ∨
      ∃ x y, b = x ++ '\n' :: y ∧ byteWidth (a ++ c :: x) < offset

theorem any_covers_iff {offset : Nat} :
    keep.any (·.covers offset) ↔ ∃ r ∈ keep, r.start ≤ offset ∧ offset < r.stop := by
  simp [Region.covers]

/-- If an offset lies in a wide character, which starts the rest of the text, that character is
kept. -/
def InnerKept (keep : List Region) (start offset : Nat) (after : List Char) : Prop :=
  ∀ c ∈ after.head?, start < offset → 0x80 ≤ c.toNat → keep.any (·.covers start)

section

variable {text : String} {n offset : Nat} {before inside after : List Char}

/-- A character of the line of an offset has no line feed between itself and the offset. -/
theorem ColumnKept.covers (hkept : ColumnKept keep text offset)
    (h : LineCut text n before inside after) (hle : byteWidth (before ++ inside) ≤ offset)
    (hlt : ∀ c ∈ after.head?, offset < byteWidth (before ++ inside) + c.utf8Size)
    {a b : List Char} {c : Char} (htext : text.toList = before ++ a ++ c :: b)
    (hoffset : byteWidth (before ++ a) < offset) (hwide : 0x80 ≤ c.toNat) :
    keep.any (·.covers (byteWidth (before ++ a))) := by
  rcases hkept _ c b htext hoffset hwide with hregion | ⟨x, y, rfl, hx⟩
  · exact any_covers_iff.mpr hregion
  · rw [← List.cons_append, ← List.append_assoc] at htext
    have hfeed := h.feed_before hle hlt htext hx
    simp only [byteWidth_append] at hfeed
    omega

/-- What is to be kept for the column of an offset: the wide characters between the start of its
line and the last cut at or before it, and a character that it lies in. -/
theorem columnKept_iff (h : LineCut text n before inside after)
    (hle : byteWidth (before ++ inside) ≤ offset)
    (hlt : ∀ c ∈ after.head?, offset < byteWidth (before ++ inside) + c.utf8Size) :
    ColumnKept keep text offset ↔ WideKept keep (byteWidth before) inside ∧
      InnerKept keep (byteWidth (before ++ inside)) offset after := by
  constructor
  · intro hkept
    refine ⟨fun p c q hinside hwide => ?_, fun c hc hoffset hwide => ?_⟩
    · have htext : text.toList = before ++ p ++ c :: (q ++ after) := by
        rw [h.chars, hinside]
        simp only [List.append_assoc, List.cons_append]
      have hoffset : byteWidth (before ++ p) < offset := by
        have hpos := c.utf8Size_pos
        simp only [hinside, byteWidth_append, byteWidth_cons] at hle ⊢
        omega
      rw [← byteWidth_append]
      exact hkept.covers h hle hlt htext hoffset hwide
    · obtain ⟨rest, rfl⟩ := List.head?_eq_some_iff.mp hc
      have htext : text.toList = before ++ inside ++ c :: rest := by
        rw [h.chars, List.append_assoc]
      exact hkept.covers h hle hlt htext hoffset hwide
  · rintro ⟨hinside, hnext⟩ a c b htext hoffset hwide
    rw [h.chars] at htext
    rcases cons_cases htext with ⟨k, hbefore, hb⟩ | ⟨m, rfl, hline⟩
    · -- the character is in an earlier line
      have hc : c ≠ '\n' := by
        rintro rfl
        exact absurd hwide (by decide)
      obtain ⟨x, rfl⟩ := h.begins.feed_behind hbefore hc
      refine Or.inr ⟨x, inside ++ after, by rw [hb, List.append_assoc]; rfl, ?_⟩
      have hfeed : 0 < byteWidth ['\n'] := by decide
      simp only [hbefore, byteWidth_append, byteWidth_cons] at hle hfeed ⊢
      omega
    · rw [← any_covers_iff]
      refine Or.inl ?_
      rcases cons_cases hline with ⟨k, hk, -⟩ | ⟨k, rfl, hafter⟩
      · rw [byteWidth_append]
        exact hinside m c k hk hwide
      · -- behind the cut it is the first one, since the offset lies in that
        cases k with
        | nil =>
          rw [List.append_nil] at hoffset ⊢
          exact hnext c (by rw [hafter]; rfl) hoffset hwide
        | cons x k =>
          have hx := hlt x (by rw [hafter]; rfl)
          simp only [byteWidth_append, byteWidth_cons] at hoffset hx
          omega

end

theorem byteWidth_masked_cut (keep : List Region) (before inside : List Char) :
    byteWidth (maskedChars keep 0 before ++ maskedChars keep (byteWidth before) inside)
      = byteWidth (before ++ inside) := by
  rw [byteWidth_append, byteWidth_maskedChars, byteWidth_maskedChars, byteWidth_append]

/-- If the offset does not lie in a blank character, the last cut at or before it is the same. -/
theorem position_mask_of_innerKept {text : String} (halike : KeptAlike keep text.toList) {n : Nat}
    {before inside after : List Char} (h : LineCut text n before inside after) {offset : Nat}
    (hle : byteWidth (before ++ inside) ≤ offset)
    (hlt : ∀ c ∈ after.head?, offset < byteWidth (before ++ inside) + c.utf8Size)
    (hinner : InnerKept keep (byteWidth (before ++ inside)) offset after) :
    (LineIndex.ofText (mask keep text)).position offset
      = ⟨n, unitWidth (maskedChars keep (byteWidth before) inside)⟩ := by
  have hwidth := byteWidth_masked_cut keep before inside
  refine LineIndex.position_of_cut (lineCut_mask halike h) (hwidth ▸ hle) fun x hx => ?_
  rw [hwidth]
  have hpos := x.utf8Size_pos
  rcases Nat.eq_or_lt_of_le hle with hat | hpast
  · omega
  · cases after with
    | nil => cases hx
    | cons c r =>
      have hbound := hlt c rfl
      have hwide : 0x80 ≤ c.toNat := Nat.le_of_not_lt fun hnarrow => by
        rw [Utf8.utf8Size_of_narrow hnarrow] at hbound
        omega
      rw [maskedChars_cons, maskedChar, if_pos (hinner c rfl hpast hwide)] at hx
      obtain rfl : c = x := Option.some.inj hx
      exact hbound

/-- Inside a blank character every byte counts: there is a cut of the projection at the offset. -/
theorem position_mask_of_blank {text : String} (halike : KeptAlike keep text.toList) {n : Nat}
    {before inside r : List Char} {c : Char} (h : LineCut text n before inside (c :: r))
    (hwide : 0x80 ≤ c.toNat) (hblank : ¬ keep.any (·.covers (byteWidth (before ++ inside))))
    {j : Nat} (hj : j < c.utf8Size) :
    (LineIndex.ofText (mask keep text)).position (byteWidth (before ++ inside) + j)
      = ⟨n, unitWidth (maskedChars keep (byteWidth before) inside) + j⟩ := by
  have hbreak : ¬ (c = '\n' ∨ c = '\r') := by
    rintro (rfl | rfl) <;> exact absurd hwide (by decide)
  obtain ⟨k, hk⟩ := Nat.exists_eq_add_of_lt hj
  have hmasked := lineCut_mask halike h
  rw [maskedChars_cons, maskedChar, if_neg hblank, blank, if_neg hbreak, hk, Nat.add_assoc,
    ← List.replicate_append_replicate, List.append_assoc] at hmasked
  have hmoved := hmasked.moved fun hfeed => absurd (List.eq_of_mem_replicate hfeed) (by decide)
  have hreach : byteWidth (maskedChars keep 0 before ++
      (maskedChars keep (byteWidth before) inside ++ List.replicate j ' '))
      = byteWidth (before ++ inside) + j := by
    rw [← List.append_assoc, byteWidth_append, byteWidth_masked_cut, byteWidth_replicate_space]
  have hposition := LineIndex.position_of_cut hmoved (Nat.le_of_eq hreach)
    fun x _ => hreach ▸ Nat.lt_add_of_pos_right x.utf8Size_pos
  rwa [unitWidth_append, unitWidth_replicate_space] at hposition

/-- **The position of an offset in a projection.**  The line is that of the text.  The column is not
smaller, and it is the same exactly if every wide character before the offset on its line is
kept. -/
theorem position_mask_spec {text : String} (halike : KeptAlike keep text.toList) (offset : Nat) :
    let p := (LineIndex.ofText text).position offset
    let q := (LineIndex.ofText (mask keep text)).position offset
    q.line = p.line ∧ p.character ≤ q.character ∧ (q = p ↔ ColumnKept keep text offset) := by
  obtain ⟨pre, after, hchars, hle, hlt⟩ := exists_floor text.toList offset
  obtain ⟨before, inside, rfl, hcut⟩ := exists_lineCut hchars
  generalize (before ++ inside).count '\n' = n at hcut
  obtain ⟨hunits, hunitsIff⟩ := unitWidth_maskedChars keep (byteWidth before) inside
  rw [columnKept_iff hcut hle hlt, LineIndex.position_of_cut hcut hle hlt]
  by_cases hinner : InnerKept keep (byteWidth (before ++ inside)) offset after
  · rw [position_mask_of_innerKept halike hcut hle hlt hinner, and_iff_left hinner, ← hunitsIff]
    refine ⟨rfl, hunits, ?_⟩
    simp only [Position.mk.injEq, true_and]
  · unfold InnerKept at hinner
    simp only [Classical.not_forall] at hinner
    obtain ⟨c, hc, hpast, hwide, hblank⟩ := hinner
    obtain ⟨r, rfl⟩ := List.head?_eq_some_iff.mp hc
    obtain ⟨j, rfl⟩ := Nat.exists_eq_add_of_le hle
    rw [position_mask_of_blank halike hcut hwide hblank (Nat.lt_of_add_lt_add_left (hlt c rfl))]
    refine ⟨rfl, Nat.le_trans hunits (Nat.le_add_right _ _), iff_of_false ?_ fun hkept => ?_⟩
    · simp only [Position.mk.injEq, true_and]
      omega
    · exact hblank (hkept.2 c rfl hpast hwide)

end Projection

/-! ## 4. A single line

Without wide characters and without line feeds there is nothing to count. -/

/-- A narrow character has one byte and one unit. -/
theorem width_narrow {cs : List Char} (h : ∀ c ∈ cs, c.toNat < 0x80) :
    byteWidth cs = cs.length ∧ unitWidth cs = cs.length := by
  induction cs with
  | nil => exact ⟨rfl, rfl⟩
  | cons c r ih =>
    have hc := h c List.mem_cons_self
    obtain ⟨hbytes, hunits⟩ := ih fun x hx => h x (List.mem_cons_of_mem c hx)
    have hone : unitSize c = 1 := if_pos (by omega)
    rw [byteWidth_cons, unitWidth_cons, Utf8.utf8Size_of_narrow hc, hone, hbytes, hunits,
      List.length_cons, Nat.add_comm]
    exact ⟨rfl, rfl⟩

/-- In a line of narrow characters columns are offsets, up to its end. -/
theorem LineIndex.position_narrow {text : String} (hnarrow : ∀ c ∈ text.toList, c.toNat < 0x80)
    (hfeed : '\n' ∉ text.toList) (offset : Nat) :
    (ofText text).position offset = ⟨0, min offset text.toList.length⟩ := by
  have hcut : LineCut text 0 [] (text.toList.take offset) (text.toList.drop offset) :=
    ⟨(List.take_append_drop _ _).symm, Or.inl rfl, rfl, fun h => hfeed (List.mem_of_mem_take h)⟩
  obtain ⟨hbytes, hunits⟩ := width_narrow fun c (hc : c ∈ text.toList.take offset) =>
    hnarrow c (List.mem_of_mem_take hc)
  rw [List.length_take] at hbytes hunits
  rw [position_of_cut hcut, hunits]
  · rw [List.nil_append, hbytes]
    exact Nat.min_le_left _ _
  · intro c hc
    -- there is something left only if the offset is before the end
    have hpos := c.utf8Size_pos
    have hlt : offset < text.toList.length := by
      refine Nat.lt_of_not_le fun hle => ?_
      rw [List.drop_of_length_le hle] at hc
      cases hc
    rw [List.nil_append, hbytes]
    omega

end ComponentHost
