/-
# Tokens of structured texts

A structured text is a sequence of tokens with blanks between them.  This file says what a token is
and reads a text into its tokens, with the reader's own rules for strings, numbers and words.

The other half is a description of strings, numbers and words that knows nothing of reading
(`IsScalar`).  The two meet in `next?_scalar`: what is written as a scalar is read as one token,
exactly as it is written, provided that what follows cannot belong to it.  Only for a number does
that say anything, since a string carries its own end; a number ends where a blank or a mark comes.

Values are not built here.  The configuration files of a compiler are read with comments and
trailing commas taken out, and what has to be known is that the text without them has the same
tokens.  For this a text need only be divided, and a number stays as it is written.
-/
import ComponentHost.Json.Reader

namespace ComponentHost.Json

/-! ## 1. What the reader passes

The reader of values has a second one beside it, which passes over a value without making it.  That
it gets past at least one character is what makes the division into tokens end.  For numbers it is
cut into three parts, each of which can be described by itself. -/

namespace Reader

/-- A string is passed with its closing quote. -/
theorem length_skipString_lt {cs r : List Char} {u : Unit} (h : skipString cs = some (u, r)) :
    r.length < cs.length := by
  fun_induction skipString cs with
  | case1 => cases h
  | case2 r' =>
    cases h
    exact Nat.lt_succ_self _
  | case3 a b c d r' hhex ih =>
    have := ih h
    simp only [List.length_cons]
    omega
  | case4 => cases h
  | case5 e r' _ hletter ih =>
    have := ih h
    simp only [List.length_cons]
    omega
  | case6 => cases h
  | case7 => cases h
  | case8 c r' _ _ _ _ ih => exact Nat.lt_succ_of_lt (ih h)

/-- Digits are passed if there is one. -/
theorem length_skipDigits_lt {cs r : List Char} (h : skipDigits cs = some r) :
    r.length < cs.length := by
  unfold skipDigits at h
  split at h
  · next hdigit =>
    cases h
    cases cs with
    | nil => cases hdigit
    | cons c cs =>
      have hc : c.isDigit = true := hdigit
      rw [List.dropWhile_cons_of_pos hc]
      exact Nat.lt_succ_of_le (List.dropWhile_suffix _).length_le
  · cases h

/-- Past the digits before the point: a zero alone, or digits. -/
def passWhole (cs : List Char) : Option (List Char) :=
  if cs.head? = some '0' then if cs.tail.head?.any Char.isDigit then none else some cs.tail
  else skipDigits cs

/-- Past the point and the digits behind it, if there is a point. -/
def passFraction (cs : List Char) : Option (List Char) :=
  if cs.head? = some '.' then skipDigits cs.tail else some cs

/-- Past the sign of an exponent. -/
def passSign (cs : List Char) : List Char :=
  if cs.head? = some '+' ∨ cs.head? = some '-' then cs.tail else cs

/-- Past the exponent, if there is one. -/
def passExponent (cs : List Char) : Option (List Char) :=
  if cs.head? = some 'e' ∨ cs.head? = some 'E' then skipDigits (passSign cs.tail) else some cs

/-- A text that does not start with a character. -/
theorem head?_ne {cs : List Char} {c : Char} (h : ∀ r, cs = c :: r → False) :
    cs.head? ≠ some c := by
  intro hhead
  obtain ⟨r, hr⟩ := List.head?_eq_some_iff.mp hhead
  exact h r hr

theorem passWhole_zero (r : List Char) :
    passWhole ('0' :: r) = if r.head?.any Char.isDigit then none else some r := if_pos rfl

theorem passExponent_cons {c : Char} (hc : c = 'e' ∨ c = 'E') (r : List Char) :
    passExponent (c :: r) = skipDigits (passSign r) :=
  if_pos (hc.imp (congrArg some) (congrArg some))

/-- **The three parts of a number.**  The reader looks ahead with one match for each of them; the
parts are told apart by their first character, and are passed one after another. -/
theorem skipNumber_eq (cs : List Char) :
    skipNumber cs = (passWhole cs).bind fun r => (passFraction r).bind fun r =>
      (passExponent r).bind fun r => some ((), r) := by
  unfold skipNumber
  extract_lets afterFraction afterWhole
  have hexponent : afterFraction = fun r => (passExponent r).bind fun r => some ((), r) := by
    funext r
    unfold afterFraction
    split
    case h_3 he hE =>
      rw [passExponent, if_neg (not_or.mpr ⟨head?_ne he, head?_ne hE⟩)]
      rfl
    -- the two spellings of the letter
    all_goals
      rw [passExponent_cons (by decide)]
      refine congrArg (fun x => (skipDigits x).bind fun r => some ((), r)) ?_
      unfold passSign
      split
      · rfl
      · rfl
      · next hplus hminus => exact (if_neg (not_or.mpr ⟨head?_ne hplus, head?_ne hminus⟩)).symm
  have hfraction : afterWhole = fun r => (passFraction r).bind afterFraction := by
    funext r
    unfold afterWhole
    split
    · rfl
    · next hpoint =>
      rw [passFraction, if_neg (head?_ne hpoint)]
      rfl
  rw [← hexponent, ← hfraction]
  split
  · rw [passWhole_zero]
    split <;> rfl
  · next hzero =>
    rw [passWhole, if_neg (head?_ne hzero)]
    rfl

theorem length_passWhole_lt {cs r : List Char} (h : passWhole cs = some r) :
    r.length < cs.length := by
  unfold passWhole at h
  split at h
  · next hzero =>
    obtain ⟨r', rfl⟩ := List.head?_eq_some_iff.mp hzero
    split at h
    · cases h
    · cases h
      exact Nat.lt_succ_self _
  · exact length_skipDigits_lt h

theorem length_passFraction_le {cs r : List Char} (h : passFraction cs = some r) :
    r.length ≤ cs.length := by
  unfold passFraction at h
  split at h
  · have := length_skipDigits_lt h
    rw [List.length_tail] at this
    omega
  · cases h
    exact Nat.le_refl _

theorem length_passSign_le (cs : List Char) : (passSign cs).length ≤ cs.length := by
  unfold passSign
  split
  · rw [List.length_tail]
    exact Nat.sub_le _ _
  · exact Nat.le_refl _

theorem length_passExponent_le {cs r : List Char} (h : passExponent cs = some r) :
    r.length ≤ cs.length := by
  unfold passExponent at h
  split at h
  · have hdigits := length_skipDigits_lt h
    have hsign := length_passSign_le cs.tail
    rw [List.length_tail] at hsign
    omega
  · cases h
    exact Nat.le_refl _

/-- Of the three parts of a number the first has a digit, and the others may be empty. -/
theorem length_skipNumber_lt {cs r : List Char} {u : Unit} (h : skipNumber cs = some (u, r)) :
    r.length < cs.length := by
  rw [skipNumber_eq] at h
  obtain ⟨r₁, hwhole, h⟩ := Option.bind_eq_some_iff.mp h
  obtain ⟨r₂, hfraction, h⟩ := Option.bind_eq_some_iff.mp h
  obtain ⟨r₃, hexponent, h⟩ := Option.bind_eq_some_iff.mp h
  cases h
  calc r.length ≤ r₂.length := length_passExponent_le hexponent
    _ ≤ r₁.length := length_passFraction_le hfraction
    _ < cs.length := length_passWhole_lt hwhole

/-- A word is passed as a whole. -/
theorem length_literal_lt {word cs r : List Char} {v v' : Json} (hword : word ≠ [])
    (h : literal word v cs = some (v', r)) : r.length < cs.length := by
  unfold literal at h
  split at h
  · next hstart =>
    cases h
    have hle := (List.isPrefixOf_iff_prefix.mp hstart).length_le
    have hpos := List.length_pos_iff.mpr hword
    rw [List.length_drop]
    omega
  · cases h

/-- **Something is passed of every scalar.** -/
theorem length_skipScalar_lt {cs r : List Char} {u : Unit} (h : skipScalar cs = some (u, r)) :
    r.length < cs.length := by
  unfold skipScalar at h
  split at h
  · exact Nat.lt_succ_of_lt (length_skipString_lt h)
  · exact Nat.lt_succ_of_lt (length_skipNumber_lt h)
  · obtain ⟨⟨v, r'⟩, hscalar, h⟩ := Option.map_eq_some_iff.mp h
    cases h
    exact length_literal_lt (by decide) hscalar
  · obtain ⟨⟨v, r'⟩, hscalar, h⟩ := Option.map_eq_some_iff.mp h
    cases h
    exact length_literal_lt (by decide) hscalar
  · obtain ⟨⟨v, r'⟩, hscalar, h⟩ := Option.map_eq_some_iff.mp h
    cases h
    exact length_literal_lt (by decide) hscalar
  · exact length_skipNumber_lt h

end Reader

/-! ## 2. Tokens

A mark is one character.  Any other token is a scalar, and the text of it is what the reader has
passed.  The division stops at the first thing that is not a token. -/

/-- A mark, or a string, number or word as it is written. -/
inductive Token where
  | openArray | closeArray | openObject | closeObject | colon | comma
  | scalar (text : List Char)
deriving DecidableEq, Repr

namespace Token

/-- The token as it is written. -/
def chars : Token → List Char
  | openArray => ['[']
  | closeArray => [']']
  | openObject => ['\x7b']
  | closeObject => ['\x7d']
  | colon => [':']
  | comma => [',']
  | scalar text => text

/-- The mark that a character is. -/
def mark? : Char → Option Token
  | '[' => some openArray
  | ']' => some closeArray
  | '\x7b' => some openObject
  | '\x7d' => some closeObject
  | ':' => some colon
  | ',' => some comma
  | _ => none

/-- Does the token end an array or an object? -/
def isCloser (t : Token) : Bool := t == closeArray || t == closeObject

/-- Is the token a string, a number or a word? -/
def isScalar : Token → Bool
  | scalar _ => true
  | _ => false

/-- The token at the start of a text, and what follows it. -/
def next? : List Char → Option (Token × List Char)
  | [] => none
  | c :: r =>
    match mark? c with
    | some t => some (t, r)
    | none => (Reader.skipScalar (c :: r)).map fun (_, rest) =>
      (scalar ((c :: r).take ((c :: r).length - rest.length)), rest)

/-- A token is at least one character long. -/
theorem length_next?_lt {cs rest : List Char} {t : Token} (h : next? cs = some (t, rest)) :
    rest.length < cs.length := by
  unfold next? at h
  split at h
  · cases h
  · split at h
    · cases h
      exact Nat.lt_succ_self _
    · obtain ⟨⟨u, r'⟩, hscalar, h⟩ := Option.map_eq_some_iff.mp h
      cases h
      exact Reader.length_skipScalar_lt hscalar

/-- The tokens of a text; `none` if something in it is not a token. -/
def lex (cs : List Char) : Option (List Token) :=
  if Reader.skipBlanks cs = [] then some []
  else
    match _h : next? (Reader.skipBlanks cs) with
    | none => none
    | some (t, rest) => (lex rest).map (t :: ·)
termination_by cs.length
decreasing_by
  exact Nat.lt_of_lt_of_le (length_next?_lt _h) (List.dropWhile_suffix _).length_le

end Token

/-! ## 3. Strings, numbers and words

How scalars are written.  The predicates follow the grammar of the format, not the reader; each
reader is then shown to pass exactly such a piece when what follows cannot be part of it. -/

/-- What may stand between the quotes of a string. -/
inductive IsStringBody : List Char → Prop
  | nil : IsStringBody []
  | plain {c : Char} {r : List Char} : 0x20 ≤ c.toNat → c ≠ '"' → c ≠ '\\' → IsStringBody r →
      IsStringBody (c :: r)
  | escape {c : Char} {r : List Char} : c ∈ ['"', '\\', '/', 'b', 'f', 'n', 'r', 't'] →
      IsStringBody r → IsStringBody ('\\' :: c :: r)
  | unicode {a b c d : Char} {r : List Char} :
      (∀ x ∈ [a, b, c, d], (Reader.hexDigit? x).isSome) → IsStringBody r →
      IsStringBody ('\\' :: 'u' :: a :: b :: c :: d :: r)

def IsString (cs : List Char) : Prop := ∃ body, IsStringBody body ∧ cs = '"' :: body ++ ['"']

/-- At least one digit, and nothing else. -/
def IsDigits (cs : List Char) : Prop := cs ≠ [] ∧ ∀ c ∈ cs, c.isDigit

/-- The digits before the point; a zero stands alone. -/
def IsWhole (cs : List Char) : Prop := cs = ['0'] ∨ IsDigits cs ∧ cs.head? ≠ some '0'

/-- The point and the digits behind it, if there is a point. -/
def IsFraction (cs : List Char) : Prop := cs = [] ∨ ∃ ds, IsDigits ds ∧ cs = '.' :: ds

/-- The exponent, if there is one. -/
def IsExponent (cs : List Char) : Prop :=
  cs = [] ∨ ∃ mark sign ds, mark ∈ ['e', 'E'] ∧ sign ∈ [[], ['+'], ['-']] ∧ IsDigits ds ∧
    cs = mark :: (sign ++ ds)

/-- A number without its sign. -/
inductive IsUnsigned : List Char → Prop
  | mk {whole fraction exponent : List Char} : IsWhole whole → IsFraction fraction →
      IsExponent exponent → IsUnsigned (whole ++ (fraction ++ exponent))

def IsNumber (cs : List Char) : Prop := IsUnsigned cs ∨ ∃ r, IsUnsigned r ∧ cs = '-' :: r

/-- A value that holds no others, as it is written. -/
inductive IsScalar : List Char → Prop
  | string {cs : List Char} : IsString cs → IsScalar cs
  | number {cs : List Char} : IsNumber cs → IsScalar cs
  | null : IsScalar ['n', 'u', 'l', 'l']
  | true : IsScalar ['t', 'r', 'u', 'e']
  | false : IsScalar ['f', 'a', 'l', 's', 'e']

/-- A text whose first character cannot belong to what stands before it. -/
def Breaks (cs : List Char) : Prop := ∀ c ∈ cs.head?, Reader.isBlank c ∨ (Token.mark? c).isSome

theorem Token.mark?_cases {c : Char} (h : (mark? c).isSome) :
    c = '[' ∨ c = ']' ∨ c = '\x7b' ∨ c = '\x7d' ∨ c = ':' ∨ c = ',' := by
  unfold mark? at h
  split at h
  all_goals first | simp | cases h

theorem Reader.isBlank_cases {c : Char} (h : isBlank c) :
    c = ' ' ∨ c = '\n' ∨ c = '\t' ∨ c = '\r' := by
  simpa [isBlank, or_assoc] using h

/-- Blanks and marks are not part of a number. -/
theorem Breaks.not_number {cs : List Char} (h : Breaks cs) {c : Char} (hc : c ∈ cs.head?) :
    c.isDigit = false ∧ c ≠ '.' ∧ c ≠ 'e' ∧ c ≠ 'E' := by
  rcases h c hc with hblank | hmark
  · rcases Reader.isBlank_cases hblank with rfl | rfl | rfl | rfl <;> decide
  · rcases Token.mark?_cases hmark with rfl | rfl | rfl | rfl | rfl | rfl <;> decide

namespace Reader

/-- The body of a string is passed up to the quote behind it.  By induction on how the body is made:
the reader takes an escape, or a plain character, and goes on. -/
theorem skipString_body {body : List Char} (h : IsStringBody body) (rest : List Char) :
    skipString (body ++ '"' :: rest) = some ((), rest) := by
  induction h with
  | nil => rfl
  | @plain c r hlow hquote hslash _ ih =>
    rw [List.cons_append, skipString, if_neg, ih]
    · simpa [hslash] using hlow
    · exact hquote
    · exact fun _ _ _ _ _ hc => absurd hc hslash
    · exact fun _ _ hc => absurd hc hslash
  | @escape c r hc _ ih =>
    simp only [List.mem_cons, List.not_mem_nil, or_false] at hc
    rcases hc with rfl | rfl | rfl | rfl | rfl | rfl | rfl | rfl <;> exact ih
  | @unicode a b c d r hhex _ ih =>
    have hfour : (fourHex [a, b, c, d]).isSome := by
      obtain ⟨ha, hb, hc, hd⟩ : (hexDigit? a).isSome ∧ (hexDigit? b).isSome ∧
          (hexDigit? c).isSome ∧ (hexDigit? d).isSome := by simpa using hhex
      obtain ⟨na, ha⟩ := Option.isSome_iff_exists.mp ha
      obtain ⟨nb, hb⟩ := Option.isSome_iff_exists.mp hb
      obtain ⟨nc, hc⟩ := Option.isSome_iff_exists.mp hc
      obtain ⟨nd, hd⟩ := Option.isSome_iff_exists.mp hd
      simp [fourHex, ha, hb, hc, hd]
    show (if (fourHex [a, b, c, d]).isSome then skipString (r ++ '"' :: rest) else none) = _
    rw [if_pos hfour, ih]

/-- A text whose first character is not a digit. -/
def NoDigit (cs : List Char) : Prop := ∀ c ∈ cs.head?, c.isDigit = false

/-- Digits are passed up to a character that is none. -/
theorem skipDigits_append {ds rest : List Char} (h : IsDigits ds) (hrest : NoDigit rest) :
    skipDigits (ds ++ rest) = some rest := by
  obtain ⟨hne, hdigits⟩ := h
  obtain ⟨c, r, rfl⟩ := List.exists_cons_of_ne_nil hne
  have hstop : rest.dropWhile Char.isDigit = rest := by
    cases rest with
    | nil => rfl
    | cons x rest => exact List.dropWhile_cons_of_neg (by simp [hrest x rfl])
  have hfirst : (c :: r ++ rest).head?.any Char.isDigit := hdigits c List.mem_cons_self
  unfold skipDigits
  rw [if_pos hfirst, List.dropWhile_append_of_pos hdigits, hstop]

/-- The digits before the point. -/
theorem passWhole_append {whole rest : List Char} (h : IsWhole whole) (hrest : NoDigit rest) :
    passWhole (whole ++ rest) = some rest := by
  rcases h with rfl | ⟨hdigits, hzero⟩
  · have hnone : ¬ rest.head?.any Char.isDigit := by
      rw [Option.any_eq_true]
      rintro ⟨c, hc, hdigit⟩
      exact absurd (hrest c hc) (by simp [hdigit])
    rw [List.singleton_append, passWhole_zero, if_neg hnone]
  · have hskip := skipDigits_append hdigits hrest
    have hfirst : (whole ++ rest).head? ≠ some '0' := by
      obtain ⟨c, r, rfl⟩ := List.exists_cons_of_ne_nil hdigits.1
      exact hzero
    rw [passWhole, if_neg hfirst, hskip]

theorem passFraction_append {fraction rest : List Char} (h : IsFraction fraction)
    (hrest : NoDigit rest) (hpoint : rest.head? ≠ some '.') :
    passFraction (fraction ++ rest) = some rest := by
  rcases h with rfl | ⟨ds, hds, rfl⟩
  · exact if_neg hpoint
  · exact skipDigits_append hds hrest

/-- The sign of an exponent is not mistaken for a digit, nor the digit for a sign. -/
theorem passSign_append {sign ds : List Char} (hsign : sign ∈ [[], ['+'], ['-']])
    (hds : IsDigits ds) (rest : List Char) : passSign (sign ++ (ds ++ rest)) = ds ++ rest := by
  simp only [List.mem_cons, List.not_mem_nil, or_false] at hsign
  rcases hsign with rfl | rfl | rfl
  · obtain ⟨c, r, rfl⟩ := List.exists_cons_of_ne_nil hds.1
    have hc := hds.2 c List.mem_cons_self
    refine if_neg ?_
    rintro (h | h)
    · cases h
      exact absurd hc (by decide)
    · cases h
      exact absurd hc (by decide)
  · rfl
  · rfl

/-- The exponent; without one no letter may follow. -/
theorem passExponent_append {exponent rest : List Char} (h : IsExponent exponent)
    (hrest : Breaks rest) : passExponent (exponent ++ rest) = some rest := by
  rcases h with rfl | ⟨mark, sign, ds, hmark, hsign, hds, rfl⟩
  · refine if_neg ?_
    rintro (h | h)
    · exact absurd rfl (hrest.not_number h).2.2.1
    · exact absurd rfl (hrest.not_number h).2.2.2
  · simp only [List.mem_cons, List.not_mem_nil, or_false] at hmark
    rw [List.cons_append, List.append_assoc, passExponent_cons hmark, passSign_append hsign hds]
    exact skipDigits_append hds fun c hc => (hrest.not_number hc).1

/-- **A number is passed up to its end.** -/
theorem skipNumber_append {cs rest : List Char} (h : IsUnsigned cs) (hrest : Breaks rest) :
    skipNumber (cs ++ rest) = some ((), rest) := by
  obtain @⟨whole, fraction, exponent, hwhole, hfraction, hexponent⟩ := h
  -- an exponent starts with its letter, and a fraction with its point
  have hbehind : NoDigit (exponent ++ rest) ∧ (exponent ++ rest).head? ≠ some '.' := by
    rcases hexponent with rfl | ⟨mark, sign, ds, hmark, -, -, rfl⟩
    · refine ⟨fun c hc => (hrest.not_number hc).1, fun hpoint => ?_⟩
      exact absurd rfl (hrest.not_number hpoint).2.1
    · simp only [List.mem_cons, List.not_mem_nil, or_false] at hmark
      rcases hmark with rfl | rfl
      · exact ⟨fun c hc => by cases hc; decide, fun h => by cases h⟩
      · exact ⟨fun c hc => by cases hc; decide, fun h => by cases h⟩
  have hpoint : NoDigit (fraction ++ (exponent ++ rest)) := by
    rcases hfraction with rfl | ⟨ds, -, rfl⟩
    · exact hbehind.1
    · exact fun c hc => by cases hc; decide
  rw [skipNumber_eq, List.append_assoc, List.append_assoc, passWhole_append hwhole hpoint,
    Option.bind_some, passFraction_append hfraction hbehind.1 hbehind.2, Option.bind_some,
    passExponent_append hexponent hrest, Option.bind_some]

/-- Every number starts with a digit, after its sign. -/
theorem exists_digit_of_isUnsigned {cs : List Char} (h : IsUnsigned cs) :
    ∃ c r, cs = c :: r ∧ c.isDigit := by
  obtain @⟨whole, fraction, exponent, hwhole, -, -⟩ := h
  rcases hwhole with rfl | ⟨hdigits, -⟩
  · exact ⟨'0', _, rfl, by decide⟩
  · obtain ⟨c, r, rfl⟩ := List.exists_cons_of_ne_nil hdigits.1
    exact ⟨c, _, rfl, hdigits.2 c List.mem_cons_self⟩

/-- **A scalar is passed up to its end.** -/
theorem skipScalar_append {cs rest : List Char} (h : IsScalar cs) (hrest : Breaks rest) :
    skipScalar (cs ++ rest) = some ((), rest) := by
  cases h with
  | string h =>
    obtain ⟨body, hbody, rfl⟩ := h
    rw [List.cons_append, List.cons_append, List.append_assoc]
    exact skipString_body hbody rest
  | number h =>
    rcases h with hnumber | ⟨r, hnumber, rfl⟩
    · have hskip := skipNumber_append hnumber hrest
      obtain ⟨c, r, rfl, hc⟩ := exists_digit_of_isUnsigned hnumber
      rw [List.cons_append] at hskip ⊢
      unfold skipScalar
      split
      all_goals first
        | exact hskip
        | (next heq => cases heq; exact absurd hc (by decide))
    · exact skipNumber_append hnumber hrest
  | null => rfl
  | true => rfl
  | false => rfl

end Reader

/-! ## 4. Reading what is written

A token is found again behind any text that breaks it off, and so a list of tokens with blanks or
marks between them is divided as it was put together. -/

namespace Token

/-- A scalar that is written as one. -/
def Valid (t : Token) : Prop := ∀ text, t = scalar text → IsScalar text

/-- Can a scalar start with the character? -/
def startsScalar (c : Char) : Bool := c.isDigit || ['"', '-', 'n', 't', 'f'].contains c

/-- What a scalar can start with. -/
theorem exists_head_of_isScalar {cs : List Char} (h : IsScalar cs) :
    ∃ c r, cs = c :: r ∧ startsScalar c := by
  cases h with
  | string h =>
    obtain ⟨body, -, rfl⟩ := h
    exact ⟨'"', _, rfl, by decide⟩
  | number h =>
    rcases h with hnumber | ⟨r, hnumber, rfl⟩
    · obtain ⟨c, r, rfl, hc⟩ := Reader.exists_digit_of_isUnsigned hnumber
      exact ⟨c, r, rfl, by rw [startsScalar, hc, Bool.true_or]⟩
    · exact ⟨'-', r, rfl, by decide⟩
  | null => exact ⟨'n', _, rfl, by decide⟩
  | true => exact ⟨'t', _, rfl, by decide⟩
  | false => exact ⟨'f', _, rfl, by decide⟩

/-- A scalar starts with a character of its own. -/
theorem not_blank_of_startsScalar {c : Char} (h : startsScalar c) :
    mark? c = none ∧ Reader.isBlank c = false := by
  constructor
  · refine Option.not_isSome_iff_eq_none.mp fun hmark => ?_
    rcases mark?_cases hmark with rfl | rfl | rfl | rfl | rfl | rfl <;> exact absurd h (by decide)
  · refine Bool.eq_false_iff.mpr fun hblank => ?_
    rcases Reader.isBlank_cases hblank with rfl | rfl | rfl | rfl <;> exact absurd h (by decide)

/-- A token does not start with a blank. -/
theorem exists_head {t : Token} (h : t.Valid) :
    ∃ c r, t.chars = c :: r ∧ Reader.isBlank c = false := by
  cases t with
  | scalar text =>
    obtain ⟨c, r, htext, hc⟩ := exists_head_of_isScalar (h text rfl)
    exact ⟨c, r, htext, (not_blank_of_startsScalar hc).2⟩
  | _ => exact ⟨_, _, rfl, by decide⟩

/-- **A token is read as it is written**, if what follows cannot belong to it. -/
theorem next?_append {t : Token} (h : t.Valid) {rest : List Char}
    (hrest : t.isScalar → Breaks rest) : next? (t.chars ++ rest) = some (t, rest) := by
  cases t with
  | scalar text =>
    have hskip := Reader.skipScalar_append (h text rfl) (hrest rfl)
    obtain ⟨c, r, rfl, hc⟩ := exists_head_of_isScalar (h text rfl)
    have htake : (c :: (r ++ rest)).take ((c :: (r ++ rest)).length - rest.length) = c :: r := by
      rw [← List.cons_append, List.length_append, Nat.add_sub_cancel, List.take_left]
    rw [List.cons_append] at hskip
    show next? (c :: (r ++ rest)) = some (scalar (c :: r), rest)
    rw [next?, (not_blank_of_startsScalar hc).1]
    dsimp only
    rw [hskip, Option.map_some, htake]
  | _ => rfl

theorem lex_nil : lex [] = some [] := by
  rw [lex]
  exact if_pos rfl

theorem lex_blanks {bs : List Char} (h : ∀ c ∈ bs, Reader.isBlank c) (cs : List Char) :
    lex (bs ++ cs) = lex cs := by
  have hskip : Reader.skipBlanks (bs ++ cs) = Reader.skipBlanks cs :=
    List.dropWhile_append_of_pos h
  rw [lex, lex.eq_def cs, hskip]

/-- **The first token of a text, and the rest.** -/
theorem lex_append {t : Token} (h : t.Valid) {rest : List Char}
    (hrest : t.isScalar → Breaks rest) :
    lex (t.chars ++ rest) = (lex rest).map (t :: ·) := by
  have hnext := next?_append h hrest
  obtain ⟨c, r, hchars, hblank⟩ := exists_head h
  have hskip : Reader.skipBlanks (t.chars ++ rest) = t.chars ++ rest := by
    rw [hchars]
    exact List.dropWhile_cons_of_neg (by simp [hblank])
  have hne : Reader.skipBlanks (t.chars ++ rest) ≠ [] := by
    rw [hskip, hchars]
    exact List.cons_ne_nil _ _
  rw [← hskip] at hnext
  rw [lex, if_neg hne]
  split
  · next hnone => cases hnext.symm.trans hnone
  · next hsome =>
    cases hnext.symm.trans hsome
    rfl

end Token

end ComponentHost.Json
