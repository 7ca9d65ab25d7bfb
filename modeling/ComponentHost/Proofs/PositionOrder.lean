/-
# Places in the order of the text

The index finds a line by halving and counts through it up to the first character that ends too
late.  This file says what comes out of that in words that know no lines and no search
(`Position.reference`): the line of an offset is the number of line feeds among the BYTES before
it, and the column is made of the characters that belong to that line and end at or before the
offset, picked from ALL characters of the text.

From the cuts of a text follows how places lie to each other.  A later cut is in a later line, or
in the same line with more characters before it (`LineCut.exists_later`).  So offsets in order have
places in order, and two cuts never share a place.
-/
import ComponentHost.Proofs.Positions

namespace ComponentHost

/-! ## 1. The order of places

Places are compared as an editor compares them. -/

/-- Places are in order by line, and in a line by column. -/
instance : LT Position :=
  ⟨fun p q => p.line < q.line ∨ p.line = q.line ∧ p.character < q.character⟩

instance : LE Position :=
  ⟨fun p q => p.line < q.line ∨ p.line = q.line ∧ p.character ≤ q.character⟩

theorem Position.le_refl (p : Position) : p ≤ p := Or.inr ⟨rfl, Nat.le_refl _⟩

theorem Position.le_of_lt {p q : Position} (h : p < q) : p ≤ q := by
  rcases h with hline | ⟨hline, hcolumn⟩
  · exact Or.inl hline
  · exact Or.inr ⟨hline, Nat.le_of_lt hcolumn⟩

/-! ## 2. The characters of a text, each with its line and its end

The reference for a place goes through all characters of the text and knows of each its line and
where it ends.  It is not meant to be fast, only to be plainly right. -/

/-- A character of a text, the number of its line and the offset at which it ends.  A line feed
belongs to the line that it ends. -/
structure PlacedChar where
  line : Nat
  stop : Nat
  char : Char

/-- The characters of a text from a line and an offset on. -/
def placedChars : Nat → Nat → List Char → List PlacedChar
  | _, _, [] => []
  | line, offset, c :: r =>
    ⟨line, offset + c.utf8Size, c⟩ ::
      placedChars (if c = '\n' then line + 1 else line) (offset + c.utf8Size) r

/-- The place of an offset, counted in the whole text. -/
def Position.reference (text : String) (offset : Nat) : Position :=
  let offset := min offset (Utf8.bytes text).length
  let line := ((Utf8.bytes text).take offset).count '\n'.toUInt8
  let passed := (placedChars 0 0 text.toList).filter fun p => p.line = line ∧ p.stop ≤ offset
  ⟨line, unitWidth (passed.map PlacedChar.char)⟩

/-- Two texts one behind the other: the second starts at the line and the offset where the first
ends. -/
theorem placedChars_append (line offset : Nat) (a b : List Char) :
    placedChars line offset (a ++ b) = placedChars line offset a ++
      placedChars (line + a.count '\n') (offset + byteWidth a) b := by
  induction a generalizing line offset with
  | nil => simp [placedChars]
  | cons c a ih =>
    by_cases hc : c = '\n'
    · subst hc
      simp [placedChars, ih, Nat.add_assoc, Nat.add_comm 1]
    · simp [placedChars, ih, hc, Nat.add_assoc]

/-- A character ends behind those before it and not behind the text, and its line is the number of
line feeds before it. -/
theorem mem_placedChars {p : PlacedChar} {line offset : Nat} {cs : List Char}
    (h : p ∈ placedChars line offset cs) :
    ∃ pre post, cs = pre ++ p.char :: post ∧ p.line = line + pre.count '\n' ∧
      p.stop = offset + byteWidth pre + p.char.utf8Size := by
  induction cs generalizing line offset with
  | nil => cases h
  | cons c cs ih =>
    rcases List.mem_cons.mp h with rfl | h
    · exact ⟨[], cs, rfl, rfl, rfl⟩
    · obtain ⟨pre, post, rfl, hline, hstop⟩ := ih h
      refine ⟨c :: pre, post, rfl, ?_, ?_⟩
      · rw [hline, List.count_cons]
        by_cases hc : c = '\n'
        · simp only [hc, if_true, beq_self_eq_true]
          omega
        · simp [hc]
      · rw [hstop, byteWidth_cons]
        omega

theorem map_char_placedChars (line offset : Nat) (cs : List Char) :
    (placedChars line offset cs).map PlacedChar.char = cs := by
  induction cs generalizing line offset with
  | nil => rfl
  | cons c cs ih => simp [placedChars, ih]

/-! ## 3. Which of them make up a column

At a cut the text falls into three parts, and all characters of one part are either counted or not:
those before the line are of earlier lines, those behind the cut end too late. -/

section Cut

variable {text : String} {n : Nat} {before inside after : List Char}

/-- The characters before a line belong to earlier lines. -/
theorem line_lt_of_mem_before (h : Line.Begins before) {p : PlacedChar}
    (hp : p ∈ placedChars 0 0 before) : p.line < before.count '\n' := by
  obtain ⟨pre, post, rfl, hline, -⟩ := mem_placedChars hp
  have hfeed : '\n' ∈ p.char :: post := by
    rcases h with hnil | ⟨b, hb⟩
    · simp at hnil
    · have hlast : (p.char :: post).getLast? = some '\n' := by
        have hwhole := congrArg List.getLast? hb
        rw [List.getLast?_append, List.getLast?_concat, List.getLast?_cons, Option.some_or] at hwhole
        rw [List.getLast?_cons, hwhole]
      exact List.mem_of_getLast? hlast
  have hpos := List.count_pos_iff.mpr hfeed
  rw [hline, List.count_append]
  omega

/-- The characters of the line up to a cut belong to the line and end at or before the cut. -/
theorem of_mem_inside (h : '\n' ∉ inside) {line offset : Nat} {p : PlacedChar}
    (hp : p ∈ placedChars line offset inside) :
    p.line = line ∧ p.stop ≤ offset + byteWidth inside := by
  obtain ⟨pre, post, rfl, hline, hstop⟩ := mem_placedChars hp
  have hfeed : '\n' ∉ pre := fun hmem => h (List.mem_append_left _ hmem)
  constructor
  · rw [hline, List.count_eq_zero_of_not_mem hfeed, Nat.add_zero]
  · rw [hstop, byteWidth_append, byteWidth_cons]
    omega

/-- The characters behind the last cut at or before an offset end behind the offset. -/
theorem lt_stop_of_mem_after {line here offset : Nat}
    (hlt : ∀ c ∈ after.head?, offset < here + c.utf8Size) {p : PlacedChar}
    (hp : p ∈ placedChars line here after) : offset < p.stop := by
  obtain ⟨pre, post, rfl, -, hstop⟩ := mem_placedChars hp
  cases pre with
  | nil =>
    have hfirst := hlt p.char rfl
    rw [hstop, byteWidth_nil]
    exact hfirst
  | cons c pre =>
    have hfirst := hlt c rfl
    rw [hstop, byteWidth_cons]
    omega

/-- **The characters of line `n` that end at or before an offset** are those of the line up to the
last cut there. -/
theorem filter_placedChars (h : LineCut text n before inside after) {offset : Nat}
    (hle : byteWidth (before ++ inside) ≤ offset)
    (hlt : ∀ c ∈ after.head?, offset < byteWidth (before ++ inside) + c.utf8Size) :
    ((placedChars 0 0 text.toList).filter fun p => p.line = n ∧ p.stop ≤ offset).map
      PlacedChar.char = inside := by
  rw [byteWidth_append] at hle hlt
  rw [h.chars, placedChars_append, placedChars_append, List.filter_append, List.filter_append,
    Nat.zero_add, Nat.zero_add, h.number]
  have hbefore : (placedChars 0 0 before).filter
      (fun p => decide (p.line = n ∧ p.stop ≤ offset)) = [] := by
    refine List.filter_eq_nil_iff.mpr fun p hp => ?_
    have hline := line_lt_of_mem_before h.begins hp
    rw [h.number] at hline
    simp only [decide_eq_true_eq]
    omega
  have hinside : (placedChars n (byteWidth before) inside).filter
      (fun p => decide (p.line = n ∧ p.stop ≤ offset)) = placedChars n (byteWidth before) inside := by
    refine List.filter_eq_self.mpr fun p hp => ?_
    obtain ⟨hline, hstop⟩ := of_mem_inside h.no_feed hp
    exact decide_eq_true ⟨hline, Nat.le_trans hstop hle⟩
  have hafter : (placedChars (n + inside.count '\n') (byteWidth before + byteWidth inside) after).filter
      (fun p => decide (p.line = n ∧ p.stop ≤ offset)) = [] := by
    refine List.filter_eq_nil_iff.mpr fun p hp => ?_
    have hstop := lt_stop_of_mem_after hlt hp
    simp only [decide_eq_true_eq]
    omega
  rw [hbefore, hinside, hafter, List.nil_append, List.append_nil, map_char_placedChars]

end Cut

/-! ## 4. Line feeds among the bytes

A line feed is one byte, and no other character has that byte.  So line feeds may be counted in
bytes, even in front of an offset that lies in a character. -/

/-- The only character with the byte of a line feed is the line feed. -/
theorem count_feed_encodeChar (c : Char) :
    (String.utf8EncodeChar c).count '\n'.toUInt8 = if c = '\n' then 1 else 0 := by
  split
  · next hc =>
    subst hc
    decide
  · next hc =>
    refine List.count_eq_zero_of_not_mem fun hmem => hc ?_
    exact Utf8.eq_of_mem_encodeChar (by decide) hmem

/-- Line feeds are counted among bytes as among characters. -/
theorem count_feed_encode (cs : List Char) :
    (Utf8.encode cs).count '\n'.toUInt8 = cs.count '\n' := by
  induction cs with
  | nil => rfl
  | cons c cs ih =>
    rw [Utf8.encode_cons, List.count_append, count_feed_encodeChar, ih, List.count_cons]
    by_cases hc : c = '\n' <;> simp [hc, Nat.add_comm]

/-- Bytes of a character that is not there as a whole hold no line feed. -/
theorem count_feed_take {post : List Char} {k : Nat} (h : ∀ c ∈ post.head?, k < c.utf8Size) :
    ((Utf8.encode post).take k).count '\n'.toUInt8 = 0 := by
  refine List.count_eq_zero_of_not_mem fun hmem => ?_
  cases post with
  | nil => simp at hmem
  | cons c post =>
    have hk := h c rfl
    have hwhole : k ≤ (String.utf8EncodeChar c).length := by
      rw [String.length_utf8EncodeChar]
      exact Nat.le_of_lt hk
    rw [Utf8.encode_cons, List.take_append_of_le_length hwhole] at hmem
    obtain rfl := Utf8.eq_of_mem_encodeChar (by decide) (List.mem_of_mem_take hmem)
    -- a line feed has one byte, so none of it was taken
    obtain rfl : k = 0 := Nat.lt_one_iff.mp hk
    cases hmem

/-- **The line feeds among the bytes before an offset** are those before the last cut there. -/
theorem count_feed_take_bytes {text : String} {pre post : List Char}
    (h : text.toList = pre ++ post) {offset : Nat} (hle : byteWidth pre ≤ offset)
    (hlt : ∀ c ∈ post.head?, offset < byteWidth pre + c.utf8Size) :
    ((Utf8.bytes text).take offset).count '\n'.toUInt8 = pre.count '\n' := by
  have hpart : ∀ c ∈ post.head?, offset - byteWidth pre < c.utf8Size := by
    intro c hc
    have := hlt c hc
    omega
  rw [Utf8.bytes_eq_encode, h, Utf8.encode_append, List.take_append,
    List.take_of_length_le (by rw [Utf8.length_encode]; exact hle), List.count_append,
    count_feed_encode, Utf8.length_encode, count_feed_take hpart, Nat.add_zero]

/-! ## 5. Later cuts

What stands between two cuts either has a line feed, and then the second is in a later line, or it
has none and adds to the column. -/

/-- **A later cut has a later place.** -/
theorem LineCut.exists_later {text : String} {n : Nat} {before inside mid after : List Char}
    (h : LineCut text n before inside (mid ++ after)) (hmid : mid ≠ []) :
    ∃ m before' inside', before' ++ inside' = before ++ inside ++ mid ∧
      LineCut text m before' inside' after ∧
      (⟨n, unitWidth inside⟩ : Position) < ⟨m, unitWidth inside'⟩ := by
  by_cases hfeed : '\n' ∈ mid
  · -- a line feed is passed, so the cut is in a later line
    have hchars : text.toList = (before ++ inside ++ mid) ++ after := by
      rw [h.chars]
      simp only [List.append_assoc]
    obtain ⟨before', inside', heq, hcut⟩ := exists_lineCut hchars
    refine ⟨_, before', inside', heq.symm, hcut, Or.inl ?_⟩
    have hpos := List.count_pos_iff.mpr hfeed
    show n < (before ++ inside ++ mid).count '\n'
    rw [List.count_append, List.count_append, h.number]
    omega
  · -- the same line, and at least one more character of it
    refine ⟨n, before, inside ++ mid, by rw [List.append_assoc], ⟨?_, h.begins, h.number, ?_⟩,
      Or.inr ⟨rfl, ?_⟩⟩
    · rw [h.chars, List.append_assoc]
    · intro hmem
      exact (List.mem_append.mp hmem).elim h.no_feed hfeed
    · obtain ⟨c, r, rfl⟩ := List.exists_cons_of_ne_nil hmid
      have hpos := unitSize_pos c
      show unitWidth inside < unitWidth (inside ++ c :: r)
      rw [unitWidth_append, unitWidth_cons]
      omega

namespace LineIndex

variable {text : String}

theorem position_min (text : String) (offset : Nat) :
    (ofText text).position (min offset (ofText text).size) = (ofText text).position offset := by
  simp only [position, Nat.min_assoc, Nat.min_self]

/-- The place of an offset is the one counted in the whole text. -/
theorem position_eq (text : String) (offset : Nat) :
    (ofText text).position offset = Position.reference text offset := by
  have hsize : (ofText text).size = (Utf8.bytes text).length := (Utf8.length_bytes text).symm
  rw [← position_min, hsize]
  obtain ⟨pre, post, hchars, hle, hlt⟩ :=
    exists_floor text.toList (min offset (Utf8.bytes text).length)
  have hline := count_feed_take_bytes hchars hle hlt
  obtain ⟨before, inside, rfl, hcut⟩ := exists_lineCut hchars
  rw [position_of_cut hcut hle hlt]
  simp only [Position.reference, hline, filter_placedChars hcut hle hlt]

/-- The places of two cuts are in order, and the later cut has the later place. -/
theorem position_lt_of_append {pre mid post : List Char} (h : text.toList = pre ++ (mid ++ post))
    (hmid : mid ≠ []) {o₁ o₂ : Nat} (hle₁ : byteWidth pre ≤ o₁)
    (hlt₁ : ∀ c ∈ (mid ++ post).head?, o₁ < byteWidth pre + c.utf8Size)
    (hle₂ : byteWidth (pre ++ mid) ≤ o₂)
    (hlt₂ : ∀ c ∈ post.head?, o₂ < byteWidth (pre ++ mid) + c.utf8Size) :
    (ofText text).position o₁ < (ofText text).position o₂ := by
  obtain ⟨before, inside, rfl, hcut⟩ := exists_lineCut h
  obtain ⟨m, before', inside', heq, hcut', hless⟩ := hcut.exists_later hmid
  rw [← heq] at hle₂ hlt₂
  rw [position_of_cut hcut hle₁ hlt₁, position_of_cut hcut' hle₂ hlt₂]
  exact hless

/-- Offsets in order have places in order. -/
theorem position_mono {o₁ o₂ : Nat} (h : o₁ ≤ o₂) :
    (ofText text).position o₁ ≤ (ofText text).position o₂ := by
  obtain ⟨pre, post, hchars, hle₁, hlt₁⟩ := exists_floor text.toList o₁
  obtain ⟨pre', post', hchars', hle₂, hlt₂⟩ := exists_floor text.toList o₂
  have hsame : pre' ++ post' = pre ++ post := hchars'.symm.trans hchars
  obtain ⟨mid, rfl⟩ : pre <+: pre' :=
    (byteWidth_le_iff_isPrefix hsame hle₂ hlt₂).mp (Nat.le_trans hle₁ h)
  obtain rfl : mid ++ post' = post := by
    rw [List.append_assoc] at hsame
    exact List.append_cancel_left hsame
  by_cases hmid : mid = []
  · subst hmid
    rw [List.append_nil] at hle₂ hlt₂ hchars'
    obtain ⟨before, inside, rfl, hcut⟩ := exists_lineCut hchars'
    rw [position_of_cut hcut hle₁ hlt₁, position_of_cut hcut hle₂ hlt₂]
    exact Position.le_refl _
  · exact Position.le_of_lt (position_lt_of_append hchars hmid hle₁ hlt₁ hle₂ hlt₂)

/-- Different cuts have different places. -/
theorem position_strictMono {o₁ o₂ : Nat} (h₁ : String.Pos.Raw.IsValid text ⟨o₁⟩)
    (h₂ : String.Pos.Raw.IsValid text ⟨o₂⟩) (h : o₁ < o₂) :
    (ofText text).position o₁ < (ofText text).position o₂ := by
  have hfloor : ∀ {pre post : List Char}, ∀ c ∈ post.head?,
      byteWidth pre < byteWidth pre + c.utf8Size :=
    fun c _ => Nat.lt_add_of_pos_right c.utf8Size_pos
  obtain ⟨pre, post, hchars, rfl⟩ := split_of_isValid h₁
  obtain ⟨pre', post', hchars', rfl⟩ := split_of_isValid h₂
  have hsame : pre' ++ post' = pre ++ post := hchars'.symm.trans hchars
  obtain ⟨mid, rfl⟩ : pre <+: pre' :=
    (byteWidth_le_iff_isPrefix hsame (Nat.le_refl _) hfloor).mp (Nat.le_of_lt h)
  rw [List.append_assoc] at hchars'
  refine position_lt_of_append hchars' ?_ (Nat.le_refl _) hfloor (Nat.le_refl _) hfloor
  rintro rfl
  rw [List.append_nil] at h
  exact absurd h (Nat.lt_irrefl _)

/-- **The place of an offset is what the whole text says it is.**  It is monotone in the offset,
strictly so on character boundaries, and so the two ends of a span are in order.  Its numbers are
bounded by the length of the text. -/
theorem position_reference (text : String) :
    (∀ o, (ofText text).position o = Position.reference text o) ∧
    (∀ o₁ o₂, o₁ ≤ o₂ → (ofText text).position o₁ ≤ (ofText text).position o₂) ∧
    (∀ o₁ o₂, String.Pos.Raw.IsValid text ⟨o₁⟩ → String.Pos.Raw.IsValid text ⟨o₂⟩ → o₁ < o₂ →
      (ofText text).position o₁ < (ofText text).position o₂) ∧
    (∀ start stop, start ≤ stop →
      ((ofText text).range start stop).start ≤ ((ofText text).range start stop).stop) ∧
    ∀ o, ((ofText text).position o).line + ((ofText text).position o).character
      ≤ (Utf8.bytes text).length := by
  refine ⟨position_eq text, fun _ _ => position_mono, fun _ _ => position_strictMono,
    fun _ _ => position_mono, fun o => ?_⟩
  rw [Utf8.length_bytes]
  exact position_le text o

/-- Inside a wide character, at the start of a line and past the end. -/
theorem position_reference_wide :
    Position.reference "é\n😀x" 5 = ⟨1, 0⟩ ∧ Position.reference "é\n😀x" 99 = ⟨1, 3⟩ ∧
      (ofText "é\n😀x").position 5 = ⟨1, 0⟩ ∧
      (ofText "é\n😀x").position 2 < (ofText "é\n😀x").position 3 ∧
      (ofText "é\n😀x").position 5 ≤ (ofText "é\n😀x").position 99 := by
  have hvalid : ∀ i o, (String.ofList ("é\n😀x".toList.take i)).utf8ByteSize = o →
      String.Pos.Raw.IsValid "é\n😀x" ⟨o⟩ := by
    rintro i o rfl
    exact String.Pos.Raw.isValid_iff_exists_take_toList.mpr ⟨i, rfl⟩
  obtain ⟨heq, hmono, hstrict, -⟩ := position_reference "é\n😀x"
  refine ⟨by decide +kernel, by decide +kernel, ?_, ?_, hmono 5 99 (by decide)⟩
  · rw [heq 5]
    decide +kernel
  · exact hstrict 2 3 (hvalid 1 2 (by decide +kernel)) (hvalid 2 3 (by decide +kernel)) (by decide)

end LineIndex

end ComponentHost
