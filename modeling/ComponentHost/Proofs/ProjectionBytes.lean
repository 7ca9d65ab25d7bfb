/-
# Projections, byte for byte

A projection blanks single bytes and then reads the result as text.  Reading could fail: a
region that cut a character in two would leave half of it, the reader would put a replacement
character there, and every offset behind it would be wrong without any error.  This file shows
that it never comes to that.

The bounds of the regions are character boundaries, so the bytes of one character are all kept
or all blank (`keptAlike_ofText`).  Hence blanking bytes is the same as blanking characters
(`maskedBytes_eq_encode`), where a blank character is a line break or as many spaces as it has
bytes; the result is written from characters, and strict reading undoes writing.

From the characters follow the length, every single byte, and the starts of the lines
(`breaks_maskedChars`).  `Projection.IsExact` collects what is known of a projection.
-/
import ComponentHost.Document.Basic
import ComponentHost.Proofs.BlockRegions

namespace ComponentHost

/-! ## 1. Whole characters

A character has up to four bytes, and blanking asks for each byte on its own whether it is kept.
The bounds of a region are boundaries of characters, so the answer is the same for all bytes of one.
-/

/-- A boundary of a text is not inside any of its characters. -/
theorem boundary_cases {a b pre post : List Char} {c : Char} (h : a ++ c :: b = pre ++ post) :
    byteWidth pre ≤ byteWidth a ∨ byteWidth a + c.utf8Size ≤ byteWidth pre := by
  rcases List.append_eq_append_iff.mp h with ⟨m, hpre, hm⟩ | ⟨m, ha, -⟩
  · cases m with
    | nil =>
      rw [hpre, List.append_nil]
      exact Or.inl (Nat.le_refl _)
    | cons x m =>
      obtain ⟨rfl, -⟩ := List.cons.inj hm
      rw [hpre, byteWidth_append, byteWidth_cons]
      exact Or.inr (by omega)
  · rw [ha, byteWidth_append]
    exact Or.inl (Nat.le_add_right _ _)

/-- A boundary in the sense of the text is one in the sense of its characters. -/
theorem split_of_isValid {text : String} {n : Nat} (h : String.Pos.Raw.IsValid text ⟨n⟩) :
    ∃ pre post, text.toList = pre ++ post ∧ byteWidth pre = n := by
  obtain ⟨i, hi⟩ := String.Pos.Raw.isValid_iff_exists_take_toList.mp h
  refine ⟨text.toList.take i, text.toList.drop i, (List.take_append_drop i _).symm, ?_⟩
  rw [Cursor.utf8ByteSize_ofList] at hi
  exact hi.symm

/-- A region between character boundaries covers all bytes of a character or none. -/
theorem Region.covers_within {text : String} {r : Region} {a b : List Char} {c : Char} {i : Nat}
    (hstart : String.Pos.Raw.IsValid text ⟨r.start⟩) (hstop : String.Pos.Raw.IsValid text ⟨r.stop⟩)
    (htext : text.toList = a ++ c :: b) (hi : i < c.utf8Size) :
    r.covers (byteWidth a + i) = r.covers (byteWidth a) := by
  obtain ⟨pre, post, hpre, hpreWidth⟩ := split_of_isValid hstart
  obtain ⟨pre', post', hpre', hpreWidth'⟩ := split_of_isValid hstop
  have h1 := boundary_cases (htext.symm.trans hpre)
  have h2 := boundary_cases (htext.symm.trans hpre')
  rw [hpreWidth] at h1
  rw [hpreWidth'] at h2
  have hlow : (r.start ≤ byteWidth a + i) ↔ r.start ≤ byteWidth a := by omega
  have hhigh : (byteWidth a + i < r.stop) ↔ byteWidth a < r.stop := by omega
  simp only [covers, hlow, hhigh]

namespace Projection

/-- The bytes of each character are all kept or all blank. -/
def KeptAlike (keep : List Region) (cs : List Char) : Prop :=
  ∀ a c b, cs = a ++ c :: b → ∀ i < c.utf8Size,
    keep.any (·.covers (byteWidth a + i)) = keep.any (·.covers (byteWidth a))

/-- **Regions between tags cut no character.**  -/
theorem keptAlike_ofText {text : String} {keep : List Region}
    (h : ∀ r ∈ keep, r.Delimited text) : KeptAlike keep text.toList := by
  intro a c b htext i hi
  have hcovers : ∀ r ∈ keep, r.covers (byteWidth a + i) = r.covers (byteWidth a) := fun r hr =>
    Region.covers_within (h r hr).start_boundary (h r hr).stop_boundary htext hi
  rw [Bool.eq_iff_iff, List.any_eq_true, List.any_eq_true]
  constructor
  · rintro ⟨r, hr, hc⟩
    exact ⟨r, hr, (hcovers r hr).symm.trans hc⟩
  · rintro ⟨r, hr, hc⟩
    exact ⟨r, hr, (hcovers r hr).trans hc⟩

/-! ## 2. Blank characters

The characters of a projection are given first, and then it is shown that their bytes are those that
blanking gives. -/

/-- A blank character: line breaks stay, any other gives a space for each of its bytes. -/
def blank (c : Char) : List Char :=
  if c = '\n' ∨ c = '\r' then [c] else List.replicate c.utf8Size ' '

/-- The characters of a projection, from an offset on. -/
def maskedChars (keep : List Region) : Nat → List Char → List Char
  | _, [] => []
  | offset, c :: r =>
    (if keep.any (·.covers offset) then [c] else blank c) ++
      maskedChars keep (offset + c.utf8Size) r

/-- No byte of a character that is no line break is the byte of a line break. -/
theorem not_break_of_mem {c : Char} (hn : c ≠ '\n') (hr : c ≠ '\r') {b : UInt8}
    (hb : b ∈ String.utf8EncodeChar c) : (b == '\n'.toUInt8 || b == '\r'.toUInt8) = false := by
  have h1 : b ≠ '\n'.toUInt8 := by
    rintro rfl
    exact hn (Utf8.eq_of_mem_encodeChar (by decide) hb)
  have h2 : b ≠ '\r'.toUInt8 := by
    rintro rfl
    exact hr (Utf8.eq_of_mem_encodeChar (by decide) hb)
  simp [h1, h2]

theorem encode_replicate_space (n : Nat) :
    Utf8.encode (List.replicate n ' ') = List.replicate n ' '.toUInt8 := by
  induction n with
  | zero => rfl
  | succ n ih =>
    rw [List.replicate_succ, Utf8.encode_cons, ih, List.replicate_succ]
    rfl

/-- The bytes of a character that is blank are the bytes of the blank character. -/
theorem map_maskByte_blank (c : Char) :
    (String.utf8EncodeChar c).map
        (fun b => if b == '\n'.toUInt8 || b == '\r'.toUInt8 then b else ' '.toUInt8)
      = Utf8.encode (blank c) := by
  unfold blank
  split
  · next hbreak =>
    rcases hbreak with rfl | rfl
    · decide
    · decide
  · next hbreak =>
    have hne : ∀ b ∈ String.utf8EncodeChar c,
        (if b == '\n'.toUInt8 || b == '\r'.toUInt8 then b else ' '.toUInt8) = ' '.toUInt8 := by
      intro b hb
      rw [not_break_of_mem (fun h => hbreak (Or.inl h)) (fun h => hbreak (Or.inr h)) hb]
      rfl
    rw [List.map_congr_left hne, List.map_const', String.length_utf8EncodeChar,
      encode_replicate_space]

/-- **One character of a projection.**  Its bytes are treated alike, so they give the character
itself or the blank one. -/
theorem mapIdx_maskByte_char {keep : List Region} {c : Char} {offset : Nat}
    (h : ∀ i < c.utf8Size,
      keep.any (·.covers (offset + i)) = keep.any (·.covers offset)) :
    (String.utf8EncodeChar c).mapIdx (fun i b => maskByte keep (offset + i) b)
      = Utf8.encode (if keep.any (·.covers offset) then [c] else blank c) := by
  have halike : (String.utf8EncodeChar c).mapIdx (fun i b => maskByte keep (offset + i) b)
      = (String.utf8EncodeChar c).map (fun b =>
          if b == '\n'.toUInt8 || b == '\r'.toUInt8 || keep.any (·.covers offset) then b
          else ' '.toUInt8) := by
    refine List.ext_getElem (by simp) fun i hi _ => ?_
    have hlt : i < c.utf8Size := by simpa using hi
    rw [List.getElem_mapIdx, List.getElem_map, maskByte, h i hlt]
  rw [halike]
  cases hkept : keep.any (·.covers offset) with
  | true =>
    simp only [Bool.or_true, if_true, List.map_id', Utf8.encode_cons, Utf8.encode_nil,
      List.append_nil]
  | false =>
    simp only [Bool.or_false, Bool.false_eq_true, if_false]
    exact map_maskByte_blank c

/-- **Blanking bytes is blanking characters**, if no character is cut. -/
theorem mapIdx_maskByte_encode {keep : List Region} {cs : List Char} (h : KeptAlike keep cs) :
    ∀ (r a : List Char), cs = a ++ r →
      (Utf8.encode r).mapIdx (fun i b => maskByte keep (byteWidth a + i) b)
        = Utf8.encode (maskedChars keep (byteWidth a) r)
  | [], _, _ => rfl
  | c :: r, a, hcs => by
    have hnext : cs = (a ++ [c]) ++ r := by rw [hcs, List.append_assoc]; rfl
    have hwidth : byteWidth (a ++ [c]) = byteWidth a + c.utf8Size := by
      rw [byteWidth_append, byteWidth_cons, byteWidth_nil, Nat.add_zero]
    have ih := mapIdx_maskByte_encode h r (a ++ [c]) hnext
    rw [hwidth] at ih
    rw [Utf8.encode_cons, List.mapIdx_append, maskedChars, Utf8.encode_append,
      mapIdx_maskByte_char (h a c r hcs), ← ih, String.length_utf8EncodeChar]
    simp only [Nat.add_assoc, Nat.add_comm c.utf8Size]

theorem maskedBytes_eq_encode {keep : List Region} {text : String}
    (h : KeptAlike keep text.toList) :
    maskedBytes keep text = Utf8.encode (maskedChars keep 0 text.toList) := by
  have := mapIdx_maskByte_encode h text.toList [] rfl
  simp only [byteWidth_nil, Nat.zero_add] at this
  rw [maskedBytes, Utf8.bytes_eq_encode]
  exact this

/-- **The bytes of a projection are read strictly.** -/
theorem decode?_maskedBytes {keep : List Region} {text : String}
    (h : KeptAlike keep text.toList) :
    Utf8.decode? (maskedBytes keep text) = some (mask keep text).toList := by
  have hread : Utf8.decode? (maskedBytes keep text) = some (maskedChars keep 0 text.toList) := by
    rw [maskedBytes_eq_encode h, Utf8.decode?_encode]
  rw [mask, hread, String.toList_ofList]

theorem toList_mask {keep : List Region} {text : String} (h : KeptAlike keep text.toList) :
    (mask keep text).toList = maskedChars keep 0 text.toList := by
  have := decode?_maskedBytes h
  rw [maskedBytes_eq_encode h, Utf8.decode?_encode] at this
  exact (Option.some.inj this).symm

theorem bytes_mask {keep : List Region} {text : String} (h : KeptAlike keep text.toList) :
    Utf8.bytes (mask keep text) = maskedBytes keep text := by
  rw [Utf8.bytes_eq_encode, toList_mask h, maskedBytes_eq_encode h]

end Projection

/-! ## 3. The starts of the lines

A line starts behind a line feed, and line feeds are never blanked. -/

namespace Line

/-- The offsets behind the line feeds of some characters, which start at an offset. -/
def breaks : Nat → List Char → List Nat
  | _, [] => []
  | offset, c :: r =>
    if c = '\n' then (offset + 1) :: breaks (offset + 1) r else breaks (offset + c.utf8Size) r

/-- **Lines start at the start and behind each line feed.** -/
theorem map_start_place_split : ∀ (cs : List Char) (offset : Nat),
    (place offset (split cs)).map start = offset :: breaks offset cs
  | [], offset => rfl
  | c :: r, offset => by
    by_cases hc : c = '\n'
    · subst hc
      have ih := map_start_place_split r (offset + 1)
      simp only [split, beq_self_eq_true, if_true, place, List.map_cons, breaks]
      exact congrArg (offset :: ·) ih
    · have ih := map_start_place_split r (offset + c.utf8Size)
      have hbeq : (c == '\n') = false := by simpa using hc
      simp only [split, hbeq, Bool.false_eq_true, if_false, breaks, hc]
      -- the first line of the rest is extended to the left; those after it stay where they are
      cases hsplit : split r with
      | nil =>
        rw [hsplit] at ih
        cases ih
      | cons l ls =>
        rw [hsplit] at ih
        simp only [place, List.map_cons, List.cons.injEq, true_and] at ih
        simp only [place, List.map_cons, byteWidth_cons, ← Nat.add_assoc, ih]

end Line

namespace LineIndex

/-- The offsets at which the lines of a text start. -/
def starts (ix : LineIndex) : List Nat := ix.lines.toList.map Line.start

theorem starts_ofText (text : String) : (ofText text).starts = 0 :: Line.breaks 0 text.toList :=
  Line.map_start_place_split text.toList 0

end LineIndex

namespace Projection

theorem breaks_spaces (n offset : Nat) (r : List Char) :
    Line.breaks offset (List.replicate n ' ' ++ r) = Line.breaks (offset + n) r := by
  induction n generalizing offset with
  | zero => rfl
  | succ n ih =>
    rw [List.replicate_succ, List.cons_append, Line.breaks, if_neg (by decide), ih]
    have hsize : Char.utf8Size ' ' = 1 := by decide
    rw [hsize, Nat.add_assoc, Nat.add_comm 1 n]

/-- **Blanking moves no line.**  Line feeds stay where they are, and what is blank is as wide as
what was there. -/
theorem breaks_maskedChars (keep : List Region) : ∀ (cs : List Char) (offset : Nat),
    Line.breaks offset (maskedChars keep offset cs) = Line.breaks offset cs
  | [], _ => rfl
  | c :: r, offset => by
    have ih := breaks_maskedChars keep r (offset + c.utf8Size)
    -- a character that stays
    have hsame : Line.breaks offset ([c] ++ maskedChars keep (offset + c.utf8Size) r)
        = Line.breaks offset (c :: r) := by
      rw [List.cons_append, List.nil_append, Line.breaks, Line.breaks, ih]
      split
      · next hc =>
        have hsize : c.utf8Size = 1 := by rw [hc]; decide
        rw [← hsize, ih]
      · rfl
    rw [maskedChars]
    split
    · exact hsame
    · unfold blank
      split
      · exact hsame
      · next hbreak =>
        rw [breaks_spaces, ih, Line.breaks, if_neg fun h => hbreak (Or.inl h)]

theorem starts_mask {keep : List Region} {text : String} (h : KeptAlike keep text.toList) :
    (LineIndex.ofText (mask keep text)).starts = (LineIndex.ofText text).starts := by
  rw [LineIndex.starts_ofText, LineIndex.starts_ofText, toList_mask h, breaks_maskedChars]

/-! ## 4. Projections of documents

All of it for the regions of a document, which lie between tags. -/

/-- The text is a source with all but some regions blank, byte for byte. -/
structure IsExact (keep : List Region) (source masked : String) : Prop where
  length_eq : (Utf8.bytes masked).length = (Utf8.bytes source).length
  /-- A byte of a region or of a line break is that of the source, any other is a space. -/
  byte_eq : ∀ i b, (Utf8.bytes source)[i]? = some b →
    (Utf8.bytes masked)[i]? = some
      (if (∃ r ∈ keep, r.start ≤ i ∧ i < r.stop) ∨ b = '\n'.toUInt8 ∨ b = '\r'.toUInt8 then b
        else ' '.toUInt8)
  /-- The bytes are characters as they stand, so nothing is ever replaced. -/
  read_eq : Utf8.decode? (maskedBytes keep source) = some masked.toList
  starts_eq : (LineIndex.ofText masked).starts = (LineIndex.ofText source).starts

theorem maskByte_eq (keep : List Region) (i : Nat) (b : UInt8) :
    maskByte keep i b =
      if (∃ r ∈ keep, r.start ≤ i ∧ i < r.stop) ∨ b = '\n'.toUInt8 ∨ b = '\r'.toUInt8 then b
        else ' '.toUInt8 := by
  have hiff : (b == '\n'.toUInt8 || b == '\r'.toUInt8 || keep.any (·.covers i)) = true ↔
      (∃ r ∈ keep, r.start ≤ i ∧ i < r.stop) ∨ b = '\n'.toUInt8 ∨ b = '\r'.toUInt8 := by
    simp only [Bool.or_eq_true, beq_iff_eq, List.any_eq_true, Region.covers, Bool.and_eq_true,
      decide_eq_true_eq]
    exact or_comm
  simp only [maskByte, hiff]

/-- Blanking all but regions that lie between tags is exact. -/
theorem isExact_mask {keep : List Region} {text : String} (h : ∀ r ∈ keep, r.Delimited text) :
    IsExact keep text (mask keep text) := by
  have halike := keptAlike_ofText h
  refine ⟨?_, fun i b hb => ?_, decode?_maskedBytes halike, starts_mask halike⟩
  · rw [bytes_mask halike, maskedBytes, List.length_mapIdx]
  · rw [bytes_mask halike, maskedBytes, List.getElem?_mapIdx, hb, Option.map_some, maskByte_eq]

theorem isExact_ofLayout (s : Selector) (text : String) :
    IsExact ((Layout.ofText text).regions.filter s.selects) text
      (ofLayout s (.ofText text) text) :=
  isExact_mask fun _ hr => Layout.delimited_of_mem (List.mem_filter.mp hr).1

end Projection

/-- **Every projection of every document is exact**, and so is the script view of its text. -/
theorem DocumentIndex.projection_exact (d : Document) (s : Selector) :
    Projection.IsExact ((Layout.ofText d.text).regions.filter s.selects) d.text
        ((ofDocument d).projection s).text ∧
      Projection.IsExact ((Layout.ofText d.text).regions.filter (·.kind = .script)) d.text
        (ScriptView.ofText d.text).text :=
  ⟨Projection.isExact_ofLayout s d.text, Projection.isExact_ofLayout (.kind .script) d.text⟩

end ComponentHost
