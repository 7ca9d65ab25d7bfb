/-
# The bytes of a text

Spans are byte spans, and the scanners read characters.  This file gives the bytes of a run of
characters in a form that can be cut where the run is cut (`encode_append`), and shows two
things that everything about spans rests on:

* a run of characters is as long in bytes as `byteWidth` says (`length_encode`), and the bytes
  of a text are the bytes of its characters (`bytes_eq_encode`);
* strict reading undoes writing (`decode?_encode`).  It fits the second half of a reader that
  falls back on lossy reading: what was written from characters never gets there.

The bytes of one character are either one byte below `0x80`, which is the character itself, or
all at least `0x80`.  So no byte of a wider character can be taken for a delimiter.
-/
import ComponentHost.Text.Cursor
import ComponentHost.Text.Utf8

namespace ComponentHost.Utf8

/-! ## 1. Writing

Bytes are written character by character, so they can be cut where the text is. -/

/-- The bytes of a run of characters. -/
def encode (cs : List Char) : List UInt8 := cs.flatMap String.utf8EncodeChar

@[simp] theorem encode_nil : encode [] = [] := rfl

@[simp] theorem encode_cons (c : Char) (cs : List Char) :
    encode (c :: cs) = String.utf8EncodeChar c ++ encode cs := rfl

@[simp] theorem encode_append (a b : List Char) : encode (a ++ b) = encode a ++ encode b :=
  List.flatMap_append

/-- A run is as long in bytes as its measure says. -/
@[simp] theorem length_encode (cs : List Char) : (encode cs).length = byteWidth cs := by
  induction cs with
  | nil => rfl
  | cons c cs ih => simp [ih]

/-- The bytes of a text are the bytes of its characters. -/
theorem bytes_eq_encode (s : String) : bytes s = encode s.toList := by
  obtain ⟨cs, rfl⟩ := s.exists_eq_ofList
  rw [bytes, String.toUTF8_eq_toByteArray, String.toByteArray_ofList, String.toList_ofList]
  exact List.toList_data_toByteArray

theorem length_bytes (s : String) : (bytes s).length = byteWidth s.toList := by
  rw [bytes_eq_encode, length_encode]

/-! ## 2. The bytes of one character

The first half of what can be said of single bytes: which characters they can belong to. -/

/-- A narrow character is its only byte. -/
theorem encodeChar_of_narrow {c : Char} (h : c.toNat < 0x80) :
    String.utf8EncodeChar c = [UInt8.ofNat c.toNat] := by
  have hle : c.val.toNat ≤ 0x7F := Nat.le_of_lt_succ h
  simp only [String.utf8EncodeChar, hle, if_true]
  rfl

theorem utf8Size_of_narrow {c : Char} (h : c.toNat < 0x80) : c.utf8Size = 1 := by
  rw [← String.length_utf8EncodeChar, encodeChar_of_narrow h]
  rfl

/-- **No byte of a wide character is below `0x80`.** -/
theorem le_of_mem_encodeChar {c : Char} (h : 0x80 ≤ c.toNat) {b : UInt8}
    (hb : b ∈ String.utf8EncodeChar c) : 0x80 ≤ b.toNat := by
  have hnot : ¬ c.val.toNat ≤ 0x7F := Nat.not_le.mpr h
  simp only [String.utf8EncodeChar, hnot, if_false] at hb
  split at hb
  · simp only [List.mem_cons, List.not_mem_nil, or_false] at hb
    rcases hb with rfl | rfl <;> rw [UInt8.toNat_ofNat'] <;> omega
  · split at hb
    · simp only [List.mem_cons, List.not_mem_nil, or_false] at hb
      rcases hb with rfl | rfl | rfl <;> rw [UInt8.toNat_ofNat'] <;> omega
    · simp only [List.mem_cons, List.not_mem_nil, or_false] at hb
      rcases hb with rfl | rfl | rfl | rfl <;> rw [UInt8.toNat_ofNat'] <;> omega

/-- **Only a narrow character has its byte.** -/
theorem eq_of_mem_encodeChar {c k : Char} (hk : k.toNat < 0x80)
    (h : UInt8.ofNat k.toNat ∈ String.utf8EncodeChar c) : c = k := by
  have hbyte : (UInt8.ofNat k.toNat).toNat = k.toNat := by
    rw [UInt8.toNat_ofNat']
    omega
  by_cases hc : c.toNat < 0x80
  · rw [encodeChar_of_narrow hc, List.mem_singleton] at h
    have heq := congrArg UInt8.toNat h
    rw [hbyte, UInt8.toNat_ofNat', Nat.mod_eq_of_lt (by omega)] at heq
    exact Char.toNat_inj.mp heq.symm
  · have hwide := le_of_mem_encodeChar (Nat.le_of_not_lt hc) h
    omega

/-! ## 3. Reading undoes writing

The reader takes the number of further bytes and the bounds on the second one from the first byte,
and adds six bits for each byte.  A character is written in the shortest form, and by its size there
are four cases. -/

/-- One more byte of a character, if it lies in the bounds. -/
theorem finish_cons {left value m : Nat} {low high : UInt8} {rest : List UInt8}
    (hlow : low.toNat ≤ m) (hhigh : m ≤ high.toNat) :
    finish (left + 1) value low high (UInt8.ofNat m :: rest)
      = finish left (value * 0x40 + m % 0x40) 0x80 0xBF rest := by
  have hm : (UInt8.ofNat m).toNat = m := by
    rw [UInt8.toNat_ofNat']
    have := high.toNat_lt
    omega
  have h1 : low ≤ UInt8.ofNat m := by rw [UInt8.le_iff_toNat_le, hm]; exact hlow
  have h2 : UInt8.ofNat m ≤ high := by rw [UInt8.le_iff_toNat_le, hm]; exact hhigh
  simp only [finish, payload, hm, h1, h2, decide_true, Bool.and_self, if_true]

/-- A byte that continues a character adds six bits. -/
theorem finish_continuation {left value m : Nat} {rest : List UInt8} (h : m < 0x40) :
    finish (left + 1) value 0x80 0xBF (UInt8.ofNat (m + 0x80) :: rest)
      = finish left (value * 0x40 + m) 0x80 0xBF rest := by
  have hlow : (0x80 : UInt8).toNat ≤ m + 0x80 := Nat.le_add_left _ _
  have hhigh : m + 0x80 ≤ (0xBF : UInt8).toNat := by
    show m + 0x80 ≤ 0xBF
    omega
  have hpayload : (m + 0x80) % 0x40 = m := by omega
  rw [finish_cons hlow hhigh, hpayload]

/-- The lower bound on a second byte is narrower for one first byte only. -/
theorem toNat_low_le {n k m : Nat} {low : UInt8} (hk : n = k → low.toNat ≤ m) (hm : 0x80 ≤ m) :
    (if n == k then low else 0x80).toNat ≤ m := by
  split
  · next heq => exact hk (eq_of_beq heq)
  · exact hm

theorem le_toNat_high {n k m : Nat} {high : UInt8} (hk : n = k → m ≤ high.toNat) (hm : m ≤ 0xBF) :
    m ≤ (if n == k then high else 0xBF).toNat := by
  split
  · next heq => exact hk (eq_of_beq heq)
  · exact hm

theorem finish_zero {value : Nat} {low high : UInt8} {rest : List UInt8} {c : Char}
    (h : value = c.toNat) : finish 0 value low high rest = .char c rest := by
  rw [finish, h, Char.ofNat_toNat]

/-- The code of a character is no half of a surrogate pair and not past the last character. -/
theorem toNat_cases (c : Char) : c.toNat < 0xD800 ∨ 0xDFFF < c.toNat ∧ c.toNat < 0x110000 := by
  rcases c.valid with h | h
  · exact Or.inl h
  · exact Or.inr h

/-- **One character is read back from its bytes**, whatever follows.  The bounds on the second
byte, which keep out overlong forms and surrogates, are met by what was written. -/
theorem step_encodeChar (c : Char) (rest : List UInt8) :
    ∃ b tail, String.utf8EncodeChar c = b :: tail ∧ step b (tail ++ rest) = .char c rest := by
  have hc := toNat_cases c
  have hv : c.val.toNat = c.toNat := rfl
  unfold String.utf8EncodeChar
  simp only [hv]
  split
  · next h1 =>
    refine ⟨_, _, rfl, ?_⟩
    have hn : (UInt8.ofNat c.toNat).toNat = c.toNat := by rw [UInt8.toNat_ofNat']; omega
    simp only [step, hn, List.nil_append]
    rw [if_pos (by omega), Char.ofNat_toNat]
  · next h1 =>
    split
    · next h2 =>
      refine ⟨_, _, rfl, ?_⟩
      have hn : (UInt8.ofNat (c.toNat / 64 % 0x20 + 0xC0)).toNat = c.toNat / 64 + 0xC0 := by
        rw [UInt8.toNat_ofNat']; omega
      simp only [step, hn, List.cons_append, List.nil_append]
      rw [if_neg (by omega), if_neg (by omega), if_pos (by omega)]
      rw [finish_continuation (by omega)]
      exact finish_zero (by omega)
    · next h2 =>
      split
      · next h3 =>
        refine ⟨_, _, rfl, ?_⟩
        have hn : (UInt8.ofNat (c.toNat / 4096 % 0x10 + 0xE0)).toNat = c.toNat / 4096 + 0xE0 := by
          rw [UInt8.toNat_ofNat']; omega
        simp only [step, hn, List.cons_append, List.nil_append]
        rw [if_neg (by omega), if_neg (by omega), if_neg (by omega), if_pos (by omega)]
        -- not overlong, and no half of a surrogate pair
        have hlow : c.toNat / 4096 + 0xE0 = 0xE0 → 0xA0 ≤ c.toNat / 64 % 0x40 + 0x80 := by omega
        have hhigh : c.toNat / 4096 + 0xE0 = 0xED → c.toNat / 64 % 0x40 + 0x80 ≤ 0x9F := by omega
        rw [finish_cons (toNat_low_le hlow (by omega)) (le_toNat_high hhigh (by omega))]
        rw [finish_continuation (by omega)]
        exact finish_zero (by omega)
      · next h3 =>
        refine ⟨_, _, rfl, ?_⟩
        have hn : (UInt8.ofNat (c.toNat / 262144 % 0x08 + 0xF0)).toNat
            = c.toNat / 262144 + 0xF0 := by
          rw [UInt8.toNat_ofNat']; omega
        simp only [step, hn, List.cons_append, List.nil_append]
        rw [if_neg (by omega), if_neg (by omega), if_neg (by omega), if_neg (by omega),
          if_pos (by omega)]
        -- not overlong, and not past the last character
        have hlow : c.toNat / 262144 + 0xF0 = 0xF0 → 0x90 ≤ c.toNat / 4096 % 0x40 + 0x80 := by
          omega
        have hhigh : c.toNat / 262144 + 0xF0 = 0xF4 → c.toNat / 4096 % 0x40 + 0x80 ≤ 0x8F := by
          omega
        rw [finish_cons (toNat_low_le hlow (by omega)) (le_toNat_high hhigh (by omega))]
        rw [finish_continuation (by omega)]
        rw [finish_continuation (by omega)]
        exact finish_zero (by omega)

/-- **Strict reading undoes writing.** -/
theorem decode?_encode (cs : List Char) : decode? (encode cs) = some cs := by
  induction cs with
  | nil => rw [encode_nil, decode?]
  | cons c cs ih =>
    obtain ⟨b, tail, hbytes, hstep⟩ := step_encodeChar c (encode cs)
    rw [encode_cons, hbytes, List.cons_append, decode?]
    split
    · next c' rest hchar =>
      rw [hstep] at hchar
      cases hchar
      rw [ih]
      rfl
    · next rest hbroken =>
      rw [hstep] at hbroken
      cases hbroken

/-! ## 4. Letters without regard to case, as bytes

Names of tags are compared in lower case.  Only capital letters change, and these are narrow, so it
does not matter whether the bytes are changed or the characters. -/

/-- The byte with a capital letter turned into the small one. -/
def lowerByte (b : UInt8) : UInt8 := if 0x41 ≤ b ∧ b ≤ 0x5A then b + 0x20 else b

theorem toNat_toLower (c : Char) :
    c.toLower.toNat = if 0x41 ≤ c.toNat ∧ c.toNat ≤ 0x5A then c.toNat + 0x20 else c.toNat := by
  unfold Char.toLower
  split
  · next h =>
    have h1 : 0x41 ≤ c.toNat := h.1
    have h2 : c.toNat ≤ 0x5A := h.2
    rw [if_pos ⟨h1, h2⟩]
    show (c.val + 0x20).toNat = c.toNat + 0x20
    rw [UInt32.toNat_add]
    show (c.toNat + 0x20) % 4294967296 = c.toNat + 0x20
    omega
  · next h =>
    have hnot : ¬ (0x41 ≤ c.toNat ∧ c.toNat ≤ 0x5A) := h
    rw [if_neg hnot]

/-- A character that turns into a narrow one is narrow. -/
theorem narrow_of_toLower {c : Char} (h : c.toLower.toNat < 0x80) : c.toNat < 0x80 := by
  rw [toNat_toLower] at h
  split at h <;> omega

theorem toLower_narrow {c : Char} (h : c.toNat < 0x80) : c.toLower.toNat < 0x80 := by
  rw [toNat_toLower]
  split <;> omega

/-- Only a letter turns into a letter. -/
theorem eq_of_toLower_eq {a c : Char} (h : c.toLower = a) (ha : a.toNat < 0x61 ∨ 0x7A < a.toNat) :
    c = a := by
  have hn := toNat_toLower c
  rw [h] at hn
  split at hn
  · omega
  · exact Char.toNat_inj.mp hn.symm

theorem lowerByte_of_narrow {c : Char} (h : c.toNat < 0x80) :
    lowerByte (UInt8.ofNat c.toNat) = UInt8.ofNat c.toLower.toNat := by
  have hb : (UInt8.ofNat c.toNat).toNat = c.toNat := by
    rw [UInt8.toNat_ofNat']
    omega
  unfold lowerByte
  rw [toNat_toLower]
  simp only [UInt8.le_iff_toNat_le, hb, UInt8.reduceToNat]
  split
  · rw [UInt8.ofNat_add]
    rfl
  · rfl

/-- Small letters can be taken before writing or after. -/
theorem map_lowerByte_encode {cs : List Char} (h : ∀ c ∈ cs, c.toNat < 0x80) :
    (encode cs).map lowerByte = encode (cs.map Char.toLower) := by
  induction cs with
  | nil => rfl
  | cons c cs ih =>
    have hc : c.toNat < 0x80 := h c List.mem_cons_self
    rw [encode_cons, List.map_append, ih fun x hx => h x (List.mem_cons_of_mem _ hx),
      List.map_cons, encode_cons, encodeChar_of_narrow hc, encodeChar_of_narrow (toLower_narrow hc)]
    exact congrArg (· :: _) (lowerByte_of_narrow hc)

end ComponentHost.Utf8
