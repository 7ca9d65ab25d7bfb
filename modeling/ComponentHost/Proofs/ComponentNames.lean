/-
# The file of a component is a component

A document is a component if the path of its address ends as the names of components do; its file
has another name, read from that path by resolving escapes, reading the bytes as text and bringing
the result to its normal form.  The ending survives each of these.  Its characters are no digits of
an escape, so none that is begun before them reaches into them; they are bytes of their own, so no
character that is begun before them does; and they are part of the last segment, which is neither
empty nor a step, so the normal form keeps it.

Why this is needed: the editor asks about documents and the host about files, and what is said of a
component in the one has to hold of its file in the other.  The three steps are applied to any path,
and most of what they do is not invertible; only the end of the path is followed through them.
-/
import ComponentHost.Document.Basic
import ComponentHost.Proofs.Encoding

namespace ComponentHost

/-! ## 1. Escapes and bytes that end before a given byte

Resolving escapes and reading bytes as text both take a few bytes at a time.  In general neither can
be done in pieces.  Each can at a byte that cannot be the second of anything: a byte that is no
hexadecimal digit for escapes, a byte below 0x80 for characters. -/

namespace Percent

/-- A byte that starts no escape stands for itself. -/
theorem decodeBytes_cons_of_ne {b : UInt8} (h : b ≠ 0x25) (rest : List UInt8) :
    decodeBytes (b :: rest) = b :: decodeBytes rest := by
  rw [decodeBytes]
  intro _ _ _ hb
  exact absurd hb h

/-- A percent sign without two digits after it stands for itself. -/
theorem decodeBytes_percent {rest : List UInt8}
    (h : ∀ a b r, rest = a :: b :: r → digitValue? a = none ∨ digitValue? b = none) :
    decodeBytes (0x25 :: rest) = 0x25 :: decodeBytes rest := by
  rcases rest with _ | ⟨a, _ | ⟨b, r⟩⟩
  · rfl
  · rfl
  · rw [decodeBytes]
    rcases h a b r rfl with ha | hb
    · rw [ha]
    · rw [hb]
      cases digitValue? a <;> rfl

/-- **No escape reaches over a byte that is no digit.**  An escape has its percent sign and two
digits, so one that is begun one or two bytes before the given byte is not an escape, on either
side. -/
theorem decodeBytes_append {b : UInt8} (hb : digitValue? b = none) (before after : List UInt8) :
    decodeBytes (before ++ b :: after) = decodeBytes before ++ decodeBytes (b :: after) := by
  fun_induction decodeBytes before with
  | case1 a c r x y hx hy ih => simp only [List.cons_append, decodeBytes, hx, hy, ih]
  | case2 a c r hnot ih =>
    have hdigits : digitValue? a = none ∨ digitValue? c = none := by
      cases hx : digitValue? a with
      | none => exact Or.inl rfl
      | some x =>
        cases hy : digitValue? c with
        | none => exact Or.inr rfl
        | some y => exact absurd hy (hnot x y hx)
    rw [List.cons_append, decodeBytes_percent, ih]
    · rfl
    · intro a' c' r' heq
      simp only [List.cons_append, List.cons.injEq] at heq
      obtain ⟨rfl, rfl, -⟩ := heq
      exact hdigits
  | case3 b' r hshort ih =>
    rw [List.cons_append]
    by_cases hpercent : b' = 0x25
    · subst hpercent
      rw [decodeBytes_percent, ih]
      · rfl
      · intro a c r' heq
        rcases r with _ | ⟨a', _ | ⟨c', r⟩⟩
        · exact Or.inl ((List.cons.inj heq).1 ▸ hb)
        · exact Or.inr ((List.cons.inj (List.cons.inj heq).2).1 ▸ hb)
        · exact absurd rfl (hshort a' c' r rfl)
    · rw [decodeBytes_cons_of_ne hpercent, ih]
      rfl
  | case4 => rfl

end Percent

namespace Utf8

/-- What stands at the front, with more bytes behind it. -/
def Step.extend (s : Step) (more : List UInt8) : Step :=
  match s with
  | .char c rest => .char c (rest ++ more)
  | .broken rest => .broken (rest ++ more)

/-- The bytes that go on with a character lie in a range, which starts above the narrow bytes. -/
theorem finish_append {b : UInt8} (after : List UInt8) (left value : Nat) {low : UInt8}
    (hlow : b < low) (hb : b < 0x80) (high : UInt8) (before : List UInt8) :
    finish left value low high (before ++ b :: after)
      = (finish left value low high before).extend (b :: after) := by
  induction left generalizing value low high before with
  | zero => rfl
  | succ left ih =>
    cases before with
    | nil =>
      have hnot : ¬ low ≤ b := UInt8.not_le.mpr hlow
      simp [finish, Step.extend, hnot]
    | cons b' before =>
      rw [List.cons_append, finish, finish]
      split
      · exact ih _ hb _ _
      · rfl

/-- A character that is begun breaks off before a narrow byte. -/
theorem step_append {b : UInt8} (hb : b < 0x80) (b' : UInt8) (before after : List UInt8) :
    step b' (before ++ b :: after) = (step b' before).extend (b :: after) := by
  have hwide : b < 0x90 := UInt8.lt_trans hb (by decide)
  have hwider : b < 0xA0 := UInt8.lt_trans hb (by decide)
  unfold step
  dsimp only
  split
  · rfl
  · split
    · rfl
    · split
      · exact finish_append after _ _ hb hb _ _
      · split
        · refine finish_append after _ _ ?_ hb _ _
          split
          · exact hwider
          · exact hb
        · split
          · refine finish_append after _ _ ?_ hb _ _
            split
            · exact hwide
            · exact hb
          · rfl

/-- **Reading starts anew at a narrow byte.**  What is broken off before it gives a sign of
replacement on either side, and the same number of them. -/
theorem decodeLossy_append {b : UInt8} (hb : b < 0x80) (before after : List UInt8) :
    decodeLossy (before ++ b :: after) = decodeLossy before ++ decodeLossy (b :: after) := by
  fun_induction decodeLossy before with
  | case1 => rfl
  | case2 b' r c rest hstep ih =>
    rw [List.cons_append, decodeLossy]
    split
    · next c' rest' hstep' =>
      rw [step_append hb, hstep] at hstep'
      cases hstep'
      rw [ih]
      rfl
    · next rest' hstep' =>
      rw [step_append hb, hstep] at hstep'
      cases hstep'
  | case3 b' r rest hstep ih =>
    rw [List.cons_append, decodeLossy]
    split
    · next c' rest' hstep' =>
      rw [step_append hb, hstep] at hstep'
      cases hstep'
    · next rest' hstep' =>
      rw [step_append hb, hstep] at hstep'
      cases hstep'
      rw [ih]
      rfl

end Utf8

/-! ## 2. The last segment of a path

The ending has a point and letters, and no slash.  So it is at the end of the last segment, and a
segment that ends so is neither empty nor one of `.` and `..`; it is kept, and stays the last. -/

namespace Text

/-! Endings and beginnings of texts are those of their characters. -/

theorem endsWith_iff {text ending : String} :
    text.endsWith ending ↔ ending.toList <:+ text.toList := by
  rw [← String.endsWith_toSlice, String.Slice.endsWith_string_iff, String.copy_toSlice]

theorem startsWith_iff {text start : String} :
    text.startsWith start ↔ start.toList <+: text.toList := by
  rw [← String.startsWith_toSlice, String.Slice.startsWith_string_iff, String.copy_toSlice]

/-- Without a separator there is one part. -/
theorem splitAt_of_notMem {sep : Char} {word : List Char} (h : sep ∉ word) :
    splitAt sep word = [word] := by
  induction word with
  | nil => rfl
  | cons c word ih =>
    rw [List.mem_cons, not_or] at h
    obtain ⟨hc, hword⟩ := h
    have hne : (c == sep) = false := beq_eq_false_iff_ne.mpr (Ne.symm hc)
    simp [splitAt, hne, ih hword]

/-- What stands at the end of a text, without a separator, stands at the end of its last part. -/
theorem splitAt_append {sep : Char} {word : List Char} (h : sep ∉ word) (before : List Char) :
    ∃ parts last, splitAt sep (before ++ word) = parts ++ [last ++ word] := by
  induction before with
  | nil => exact ⟨[], [], splitAt_of_notMem h⟩
  | cons c before ih =>
    obtain ⟨parts, last, hsplit⟩ := ih
    rw [List.cons_append, splitAt, hsplit]
    by_cases hc : c == sep
    · exact ⟨[] :: parts, last, by rw [if_pos hc]; rfl⟩
    · rw [if_neg hc]
      cases parts with
      | nil => exact ⟨[], c :: last, rfl⟩
      | cons p parts => exact ⟨(c :: p) :: parts, last, rfl⟩

end Text

namespace Path

/-- How the names of components end. -/
def ending : List Char := ['.', 'v', 'u', 'e']

theorem isComponent_iff {name : String} : isComponent name ↔ ending <:+ name.toList :=
  Text.endsWith_iff

/-- Segments are the parts between slashes. -/
theorem splitSegments_eq_splitAt (cs : List Char) : splitSegments cs = Text.splitAt '/' cs := by
  induction cs with
  | nil => rfl
  | cons c cs ih =>
    by_cases hc : c = '/'
    · simp [splitSegments, Text.splitAt, hc, ih]
    · cases hs : Text.splitAt '/' cs <;> simp [splitSegments, Text.splitAt, hc, ih, hs]

/-- The last segment stands at the end of the path. -/
theorem joinSegments_concat (parts : List (List Char)) (last : List Char) :
    last <:+ joinSegments (parts ++ [last]) := by
  induction parts with
  | nil => exact List.suffix_rfl
  | cons p parts ih =>
    refine ih.trans ?_
    cases parts with
    | nil => exact ⟨p ++ ['/'], by simp [joinSegments]⟩
    | cons q parts => exact ⟨p ++ ['/'], by simp [joinSegments]⟩

/-- A segment that ends so is no step and stays. -/
theorem push_of_ending (absolute : Bool) (read : List (List Char)) (last : List Char) :
    push absolute read (last ++ ending) = (last ++ ending) :: read := by
  have hlast : ∀ word : List Char, last ++ ending = word → word.getLast? = some 'e' := by
    rintro word rfl
    simp [ending]
  have hempty : ¬ (last ++ ending = [] ∨ last ++ ending = dot) := by
    rintro (h | h)
    · exact absurd (hlast _ h) (by decide)
    · exact absurd (hlast _ h) (by decide)
  have hdots : last ++ ending ≠ dots := fun h => absurd (hlast _ h) (by decide)
  unfold push
  rw [if_neg hempty, if_neg hdots]

/-- **The normal form of a path keeps its ending.** -/
theorem ending_suffix_normalizeChars {cs : List Char} (h : ending <:+ cs) :
    ending <:+ normalizeChars cs := by
  obtain ⟨before, rfl⟩ := h
  have hslashed : slashed (before ++ ending) = slashed before ++ ending :=
    List.map_append
  have hsep : '/' ∉ ending := by decide
  obtain ⟨parts, last, hsplit⟩ := Text.splitAt_append hsep (slashed before)
  have hbody : ∀ absolute, ending <:+ joinSegments
      (resolve absolute (splitSegments (slashed (before ++ ending)))) := by
    intro absolute
    rw [hslashed, splitSegments_eq_splitAt, hsplit, resolve, List.foldl_append, List.foldl_cons,
      List.foldl_nil, push_of_ending, List.reverse_cons]
    exact (List.suffix_append last ending).trans (joinSegments_concat _ _)
  unfold normalizeChars
  dsimp only
  split
  · exact (hbody _).trans (List.suffix_cons _ _)
  · exact hbody _

theorem isComponent_normalize {name : String} (h : ending <:+ name.toList) :
    isComponent (normalize name) := by
  rw [isComponent_iff, normalize, String.toList_ofList]
  exact ending_suffix_normalizeChars h

end Path

/-! ## 3. The file of an address

The path of an address is made a path on disk segment by segment, with escapes resolved in each, and
the bytes of all segments are read as one text.  The point of the ending is the narrow byte at which
both are cut, and the letters behind it are left as they are. -/

namespace Uri

open ComponentHost.Path (ending)

/-- The bytes of the ending. -/
def endingBytes : List UInt8 := [0x76, 0x75, 0x65]

/-- Escapes in a segment stop before the point of its ending. -/
theorem decode_ending (last : List Char) :
    Percent.decode (String.ofList (last ++ ending))
      = Percent.decodeBytes (Utf8.encode last) ++ 0x2E :: endingBytes := by
  have hbytes : Utf8.encode ending = 0x2E :: endingBytes := by decide
  rw [Percent.decode, Utf8.bytes_eq_encode, String.toList_ofList, Utf8.encode_append, hbytes,
    Percent.decodeBytes_append (by decide)]
  rfl

/-- The text of a path, segment by segment. -/
theorem ending_suffix_segments {cs : List Char} (h : ending <:+ cs) :
    ending <:+ Utf8.decodeLossy
      ((Text.splitAt '/' cs).flatMap fun s => 0x2F :: Percent.decode (String.ofList s)) := by
  obtain ⟨before, rfl⟩ := h
  have hsep : '/' ∉ ending := by decide
  obtain ⟨parts, last, hsplit⟩ := Text.splitAt_append hsep before
  rw [hsplit, List.flatMap_append, List.flatMap_singleton, decode_ending, ← List.cons_append,
    ← List.append_assoc, Utf8.decodeLossy_append (by decide)]
  have htext : Utf8.decodeLossy (0x2E :: endingBytes) = ending := by decide +kernel
  rw [htext]
  exact List.suffix_append _ _

/-- A slash is only put behind a path that ends in a colon, as that of a drive does. -/
theorem ending_suffix_diskPath? {u : Uri} {path : String} (hpath : u.diskPath? = some path)
    (h : ending <:+ u.path.toList) : ending <:+ path.toList := by
  unfold diskPath? at hpath
  split at hpath
  · next r hr =>
    rw [hr] at h
    have hrest : ending <:+ r := by
      rcases List.suffix_cons_iff.mp h with hwhole | hrest
      · exact absurd (List.cons.inj hwhole).1 (by decide)
      · exact hrest
    split at hpath
    · rw [← Option.some.inj hpath, String.toList_ofList]
      have htext := ending_suffix_segments hrest
      split
      · next hdrive =>
        -- The last two characters are no drive.
        obtain ⟨before, hbefore⟩ := htext
        rw [← hbefore, Bool.and_eq_true] at hdrive
        exact absurd hdrive.2 (by simp [ending, isDrive, startsWithDrive])
      · exact htext
    · cases hpath
  · cases hpath

/-- **The file of a component is a component.** -/
theorem isComponent_fileName {u : Uri} (h : Path.isComponent u.path) :
    Path.isComponent u.fileName := by
  rw [Path.isComponent_iff] at h
  rw [fileName]
  refine Path.isComponent_normalize ?_
  cases hdisk : u.diskPath? with
  | none => exact h
  | some path => exact ending_suffix_diskPath? hdisk h

end Uri

end ComponentHost
