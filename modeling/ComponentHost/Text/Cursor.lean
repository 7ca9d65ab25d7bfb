/- # Places in a text

Every scanner of this library reads characters and reports BYTE offsets, because that is the
unit in which spans are exchanged.  The two are kept together in a `Cursor`: the characters
that are still to be read, and the offset of the first of them.  Moving a cursor adds the
width of exactly the characters it passes, so an offset taken from a cursor is always a
character boundary of the text the cursor started in, and no slice can fall inside a
character.

`byteWidth` and `unitWidth` are the two measures of a run of characters: bytes of its UTF-8
form, and UTF-16 code units.
-/
namespace ComponentHost

/-! ## 1. Measures of characters -/

/-- Bytes in the UTF-8 form of a run of characters. -/
def byteWidth : List Char → Nat
  | [] => 0
  | c :: cs => c.utf8Size + byteWidth cs

/-- UTF-16 code units of one character: two outside the basic plane. -/
def unitSize (c : Char) : Nat := if c.toNat ≤ 0xFFFF then 1 else 2

/-- UTF-16 code units of a run of characters. -/
def unitWidth : List Char → Nat
  | [] => 0
  | c :: cs => unitSize c + unitWidth cs

@[simp] theorem byteWidth_nil : byteWidth [] = 0 := rfl

@[simp] theorem byteWidth_cons (c : Char) (cs : List Char) :
    byteWidth (c :: cs) = c.utf8Size + byteWidth cs := rfl

@[simp] theorem byteWidth_append (a b : List Char) :
    byteWidth (a ++ b) = byteWidth a + byteWidth b := by
  induction a with
  | nil => simp
  | cons c cs ih => simp [ih, Nat.add_assoc]

theorem length_le_byteWidth (cs : List Char) : cs.length ≤ byteWidth cs := by
  induction cs with
  | nil => exact Nat.le_refl _
  | cons c cs ih =>
    have hpos := c.utf8Size_pos
    rw [List.length_cons, byteWidth_cons]
    omega

/-- Nothing but no characters has no width. -/
theorem byteWidth_eq_zero {cs : List Char} (h : byteWidth cs = 0) : cs = [] := by
  cases cs with
  | nil => rfl
  | cons x r =>
    have := x.utf8Size_pos
    rw [byteWidth_cons] at h
    omega

/-! ## 2. Cursors -/

/-- A place in a text: what is still to be read, and the byte offset it starts at. -/
structure Cursor where
  offset : Nat
  rest : List Char
deriving Repr, DecidableEq

namespace Cursor

/-- The start of a text. -/
def ofText (text : String) : Cursor := ⟨0, text.toList⟩

/-- One character further; the end of the text stays where it is. -/
def step (c : Cursor) : Cursor :=
  match c.rest with
  | [] => c
  | x :: r => ⟨c.offset + x.utf8Size, r⟩

/-- The given number of characters further. -/
def skip : Nat → Cursor → Cursor
  | 0, c => c
  | n + 1, c => skip n c.step

/-- Past the leading characters that satisfy `p`. -/
def skipWhile (p : Char → Bool) (c : Cursor) : Cursor :=
  ⟨c.offset + byteWidth (c.rest.takeWhile p), c.rest.dropWhile p⟩

/-- The leading characters that satisfy `p`. -/
def run (p : Char → Bool) (c : Cursor) : List Char := c.rest.takeWhile p

/-- The characters between this place and a later one of the same text. -/
def upTo (c later : Cursor) : List Char := c.rest.take (c.rest.length - later.rest.length)

/-- Does the text go on with the given characters? -/
def starts (c : Cursor) (word : List Char) : Bool := word.isPrefixOf c.rest

/-- Past the first occurrence of a word, looking from an offset on. -/
def findPast (word : List Char) : Nat → List Char → Option Cursor
  | offset, [] => if word.isEmpty then some ⟨offset, []⟩ else none
  | offset, c :: r =>
    if word.isPrefixOf (c :: r) then some ⟨offset + byteWidth word, (c :: r).drop word.length⟩
    else findPast word (offset + c.utf8Size) r

/-- Past the first occurrence of a word. -/
def past? (word : List Char) (c : Cursor) : Option Cursor := findPast word c.offset c.rest

/-- The offset of the end of the text. -/
def limit (c : Cursor) : Nat := c.offset + byteWidth c.rest

theorem limit_step (c : Cursor) : c.step.limit = c.limit := by
  unfold step limit
  split
  · rfl
  · rename_i x r h
    simp [h, Nat.add_assoc]

theorem limit_skipWhile (p : Char → Bool) (c : Cursor) : (c.skipWhile p).limit = c.limit := by
  have h : byteWidth (c.rest.takeWhile p) + byteWidth (c.rest.dropWhile p) = byteWidth c.rest := by
    rw [← byteWidth_append, List.takeWhile_append_dropWhile]
  simp only [skipWhile, limit]
  omega

theorem length_step_le (c : Cursor) : c.step.rest.length ≤ c.rest.length := by
  unfold step
  split
  · exact Nat.le_refl _
  · rename_i x r h
    simp [h]

theorem length_step_lt {c : Cursor} (h : c.rest ≠ []) : c.step.rest.length < c.rest.length := by
  unfold step
  split
  · contradiction
  · rename_i x r hx
    simp [hx]

theorem length_skip_le (n : Nat) (c : Cursor) : (c.skip n).rest.length ≤ c.rest.length := by
  induction n generalizing c with
  | zero => exact Nat.le_refl _
  | succ n ih => exact Nat.le_trans (ih c.step) (length_step_le c)

theorem length_skip_lt {n : Nat} {c : Cursor} (hn : 0 < n) (h : c.rest ≠ []) :
    (c.skip n).rest.length < c.rest.length := by
  cases n with
  | zero => contradiction
  | succ n => exact Nat.lt_of_le_of_lt (length_skip_le n c.step) (length_step_lt h)

theorem length_findPast_le {word : List Char} {offset : Nat} {cs : List Char} {c : Cursor}
    (h : findPast word offset cs = some c) : c.rest.length ≤ cs.length := by
  induction cs generalizing offset with
  | nil =>
    rw [findPast] at h
    split at h
    · cases h
      exact Nat.le_refl _
    · cases h
  | cons x r ih =>
    rw [findPast] at h
    split at h
    · cases h
      simp only [List.length_drop]
      omega
    · exact Nat.le_trans (ih h) (Nat.le_succ _)

theorem length_past?_le {word : List Char} {c c' : Cursor} (h : c.past? word = some c') :
    c'.rest.length ≤ c.rest.length :=
  length_findPast_le h

theorem length_skipWhile_le (p : Char → Bool) (c : Cursor) :
    (c.skipWhile p).rest.length ≤ c.rest.length :=
  (List.dropWhile_suffix p).length_le

theorem length_skipWhile_lt {p : Char → Bool} {c : Cursor} {x : Char} {r : List Char}
    (h : c.rest = x :: r) (hx : p x = true) : (c.skipWhile p).rest.length < c.rest.length := by
  have hs := (List.dropWhile_suffix (l := r) p).length_le
  simp only [skipWhile, h, List.dropWhile_cons, hx, if_true, List.length_cons]
  omega

end Cursor

end ComponentHost
