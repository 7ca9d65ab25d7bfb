/- # Labels in Latin letters

A label with characters beyond ASCII is also written with ASCII ones alone: its ASCII characters,
a hyphen, and digits in base thirty-six that say which characters to insert where.

The characters are inserted in increasing order, so each is given by its distance from the one
before: how many places and code points lie between.  A distance is written with its least digit
first; a digit below its `threshold` is the last one.  Thresholds follow the distances seen so
far (`bias`), so that labels of one script come out short.
-/
namespace ComponentHost.Domain.Punycode

/-! ## 1. Digits and thresholds -/

/-- The base of the digits. -/
def base : Nat := 36

/-- A digit: small letters come before the Latin digits. -/
def digit (d : Nat) : Char := if d < 26 then Char.ofNat (0x61 + d) else Char.ofNat (0x16 + d)

/-- The value of a digit. -/
def digitValue? (c : Char) : Option Nat :=
  if c.isLower then some (c.toNat - 0x61)
  else if c.isDigit then some (c.toNat - 0x16)
  else none

/-- Below this a digit is the last one; `place` is the base times its position, counted from one. -/
def threshold (bias place : Nat) : Nat := max 1 (min 26 (place - bias))

theorem threshold_pos (bias place : Nat) : 1 ≤ threshold bias place := by
  unfold threshold
  omega

/-- How often a distance can be divided before it is small, times the base, and what is left. -/
def shrink (delta steps : Nat) : Nat × Nat :=
  if _h : 455 < delta then shrink (delta / 35) (steps + base) else (steps, delta)
termination_by delta
decreasing_by exact Nat.div_lt_self (Nat.lt_trans (by decide) _h) (by decide)

/-- The bias after a distance, given how many characters are in place.  The first distance is
large for reasons of its own, and is damped. -/
def adapt (delta count : Nat) (first : Bool) : Nat :=
  let delta := if first then delta / 700 else delta / 2
  let (steps, rest) := shrink (delta + delta / count) 0
  steps + base * rest / (rest + 38)

/-! ## 2. Writing -/

/-- The digits of a distance. -/
def digits (bias place delta : Nat) : List Char :=
  let t := threshold bias place
  if delta < t then [digit delta]
  else
    digit (t + (delta - t) % (base - t)) :: digits bias (place + base) ((delta - t) / (base - t))
termination_by delta
decreasing_by
  have := threshold_pos bias place
  exact Nat.lt_of_le_of_lt (Nat.div_le_self _ _) (by omega)

/-- Writing as far as it got. -/
structure Writer where
  bias : Nat := 72
  /-- The distance from the last character that was inserted. -/
  delta : Nat := 0
  /-- How many characters are in place. -/
  count : Nat
  /-- The first distance is still to be written. -/
  first : Bool := true
  /-- The digits so far. -/
  text : List Char := []

/-- Passes one character of the label on the way to insert the code point `n`. -/
def Writer.pass (n : Nat) (w : Writer) (c : Char) : Writer :=
  if c.toNat < n then { w with delta := w.delta + 1 }
  else if c.toNat == n then
    { bias := adapt w.delta (w.count + 1) w.first
      delta := 0
      count := w.count + 1
      first := false
      text := w.text ++ digits w.bias base w.delta }
  else w

/-- Inserts the code points of a label from the smallest on; `least` is the first that is not
passed yet. -/
def Writer.insertAll (label : List Char) (w : Writer) (least : Nat) : List Nat → Writer
  | [] => w
  | n :: r =>
    let w := { w with delta := w.delta + (n - least) * (w.count + 1) }
    let w := label.foldl (Writer.pass n) w
    Writer.insertAll label { w with delta := w.delta + 1 } (n + 1) r

/-- Is the character in ASCII? -/
def isBasic (c : Char) : Bool := c.toNat < 0x80

/-- The label in ASCII, without the mark that says so. -/
def encode (label : List Char) : List Char :=
  let basic := label.filter isBasic
  let points := ((label.filter (!isBasic ·)).map Char.toNat).eraseDups.mergeSort
  let w := Writer.insertAll label { count := basic.length } 0x80 points
  (if basic.isEmpty then [] else basic ++ ['-']) ++ w.text

/-! ## 3. Reading -/

/-- Reads a distance: the distance, and what follows it. -/
def distance? (bias : Nat) : List Char → Nat → Nat → Nat → Option (Nat × List Char)
  | [], _, _, _ => none
  | c :: r, place, weight, sofar =>
    match digitValue? c with
    | none => none
    | some d =>
      let t := threshold bias place
      let sofar := sofar + d * weight
      if d < t then some (sofar, r) else distance? bias r (place + base) (weight * (base - t)) sofar

theorem length_distance?_lt {bias : Nat} {cs : List Char} {place weight sofar : Nat}
    {d : Nat} {r : List Char} (h : distance? bias cs place weight sofar = some (d, r)) :
    r.length < cs.length := by
  induction cs generalizing place weight sofar with
  | nil => simp [distance?] at h
  | cons c cs ih =>
    unfold distance? at h
    split at h
    · simp at h
    · simp only at h
      split at h
      · obtain ⟨_, rfl⟩ := Prod.mk.inj (Option.some.inj h)
        exact Nat.lt_succ_self _
      · exact Nat.lt_succ_of_lt (ih h)

/-- Is the number a code point that a character has? -/
def isPoint (n : Nat) : Bool := n < 0xD800 || (0xDFFF < n && n < 0x110000)

/-- Inserts the characters that the digits name; `sofar` is the distance that is passed. -/
def insertNext (bias least sofar : Nat) (first : Bool) (label cs : List Char) :
    Option (List Char) :=
  if cs.isEmpty then some label
  else
    match _h : distance? bias cs base 1 sofar with
    | none => none
    | some (d, r) =>
      let count := label.length + 1
      let n := least + d / count
      if isPoint n then
        insertNext (adapt (d - sofar) count first) n (d % count + 1) false
          (label.insertIdx (d % count) (Char.ofNat n)) r
      else none
termination_by cs.length
decreasing_by exact length_distance?_lt _h

/-- The label that a text in ASCII stands for; `none` if it stands for none. -/
def decode? (text : List Char) : Option (List Char) :=
  let tail := (text.reverse.takeWhile (· != '-')).reverse
  let basic := (text.take (text.length - tail.length)).dropLast
  insertNext 72 0x80 0 true basic tail

end ComponentHost.Domain.Punycode
