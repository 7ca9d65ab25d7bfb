/- # Characters of a run of bytes

`Utf8.step` reads one character from the front of a run of bytes, or says how many bytes there
can belong to no character.  Strict reading refuses such bytes; lossy reading puts one
replacement character for each longest start of a character that breaks off.
-/
namespace ComponentHost.Utf8

/-- What stands at the front of a run of bytes. -/
inductive Step where
  /-- A character and the bytes after it. -/
  | char (c : Char) (rest : List UInt8)
  /-- Bytes that form no character; reading can go on after them. -/
  | broken (rest : List UInt8)

/-- Is the byte one that continues a character? -/
def isContinuation (b : UInt8) : Bool := 0x80 ≤ b && b ≤ 0xBF

/-- The payload of a byte that continues a character. -/
def payload (b : UInt8) : Nat := b.toNat % 0x40

/-- Reads what is left of a character: `left` bytes, of which the first must lie in the given
bounds.  Breaks off before the first byte that does not fit. -/
def finish : Nat → Nat → UInt8 → UInt8 → List UInt8 → Step
  | 0, value, _, _, rest => .char (Char.ofNat value) rest
  | _ + 1, _, _, _, [] => .broken []
  | left + 1, value, low, high, b :: rest =>
    if low ≤ b && b ≤ high then finish left (value * 0x40 + payload b) 0x80 0xBF rest
    else .broken (b :: rest)

/-- Reads one character.  The bounds on the second byte rule out overlong forms, halves of
surrogate pairs and values past the last character. -/
def step (b : UInt8) (rest : List UInt8) : Step :=
  let n := b.toNat
  if n < 0x80 then .char (Char.ofNat n) rest
  else if n < 0xC2 then .broken rest
  else if n < 0xE0 then finish 1 (n % 0x20) 0x80 0xBF rest
  else if n < 0xF0 then
    finish 2 (n % 0x10) (if n == 0xE0 then 0xA0 else 0x80) (if n == 0xED then 0x9F else 0xBF) rest
  else if n < 0xF5 then
    finish 3 (n % 0x08) (if n == 0xF0 then 0x90 else 0x80) (if n == 0xF4 then 0x8F else 0xBF) rest
  else .broken rest

/-- The bytes that a step leaves. -/
def Step.rest : Step → List UInt8
  | .char _ r => r
  | .broken r => r

theorem length_finish_le (left value : Nat) (low high : UInt8) (bs : List UInt8) :
    (finish left value low high bs).rest.length ≤ bs.length := by
  induction left generalizing value low high bs with
  | zero => exact Nat.le_refl _
  | succ left ih =>
    cases bs with
    | nil => exact Nat.le_refl _
    | cons b rest =>
      unfold finish
      split
      · exact Nat.le_trans (ih _ _ _ rest) (Nat.le_succ _)
      · exact Nat.le_refl _

theorem length_step_le (b : UInt8) (bs : List UInt8) : (step b bs).rest.length ≤ bs.length := by
  unfold step
  simp only
  repeat' split
  all_goals first | exact Nat.le_refl _ | exact length_finish_le _ _ _ _ bs

/-- The characters of a run of bytes, with a replacement character for what forms none. -/
def decodeLossy (bs : List UInt8) : List Char :=
  match bs with
  | [] => []
  | b :: r =>
    match _h : step b r with
    | .char c rest => c :: decodeLossy rest
    | .broken rest => Char.ofNat 0xFFFD :: decodeLossy rest
termination_by bs.length
decreasing_by
  · have := length_step_le b r
    rw [_h] at this
    exact Nat.lt_succ_of_le this
  · have := length_step_le b r
    rw [_h] at this
    exact Nat.lt_succ_of_le this

/-- The characters of a run of bytes; `none` if some bytes form none. -/
def decode? (bs : List UInt8) : Option (List Char) :=
  match bs with
  | [] => some []
  | b :: r =>
    match _h : step b r with
    | .char c rest => (decode? rest).map (c :: ·)
    | .broken _ => none
termination_by bs.length
decreasing_by
  have := length_step_le b r
  rw [_h] at this
  exact Nat.lt_succ_of_le this

/-- The bytes of a text. -/
def bytes (s : String) : List UInt8 := s.toUTF8.data.toList

/-- The bytes of one character. -/
def charBytes (c : Char) : List UInt8 := bytes (String.singleton c)

end ComponentHost.Utf8
