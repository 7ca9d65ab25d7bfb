/- # Binary numbers of double width

A `Double` is a sign, a mantissa of at most 53 bits and a power of two.  The one operation that
rounds is `Double.ofRatio?`: the number nearest to a quotient, and of two equally near ones the
one with an even mantissa.  Products and quotients of doubles are rounded quotients of exact
naturals, so no arithmetic here is approximate.
-/
namespace ComponentHost

/-- A finite binary number `± mantissa · 2 ^ exponent`. -/
structure Double where
  negative : Bool
  mantissa : Nat
  exponent : Int
deriving DecidableEq, Repr

namespace Double

/-! ## 1. Rounding -/

/-- Smallest exponent. -/
def least : Int := -1074

/-- The quotient of two numbers scaled by a power of two, as a pair of naturals. -/
def scaledDown (num den : Nat) (e : Int) : Nat × Nat :=
  match e with
  | .ofNat k => (num, den * Nat.pow 2 k)
  | .negSucc k => (num * Nat.pow 2 (k + 1), den)

/-- The exponent at which the quotient has 53 bits, or the smallest one. -/
def fittingExponent (num den : Nat) : Int :=
  let guess : Int := (num.log2 : Int) - den.log2 - 52
  let (n, d) := scaledDown num den guess
  max least (if n / d < Nat.pow 2 52 then guess - 1 else guess)

/-- The integer nearest to a quotient; a half goes to the even neighbour. -/
def roundedQuotient (n d : Nat) : Nat :=
  let q := n / d
  let twice := 2 * (n % d)
  if twice < d then q else if d < twice then q + 1 else q + q % 2

/-- The number nearest to `± num / den`; `none` if it is too large. -/
def ofRatio? (negative : Bool) (num den : Nat) : Option Double :=
  if num == 0 || den == 0 then some ⟨negative, 0, least⟩
  else
    let e := fittingExponent num den
    let (n, d) := scaledDown num den e
    let q := roundedQuotient n d
    let (m, e) := if q == Nat.pow 2 53 then (Nat.pow 2 52, e + 1) else (q, e)
    if e > 971 then none else some ⟨negative, m, e⟩

/-- The number as a quotient of naturals, without its sign. -/
def ratio (x : Double) : Nat × Nat :=
  match x.exponent with
  | .ofNat k => (x.mantissa * Nat.pow 2 k, 1)
  | .negSucc k => (x.mantissa, Nat.pow 2 (k + 1))

/-- A natural, rounded. -/
def ofNat? (n : Nat) : Option Double := ofRatio? false n 1

/-- Rounded product. -/
def mul? (x y : Double) : Option Double :=
  ofRatio? (x.negative != y.negative) (x.ratio.1 * y.ratio.1) (x.ratio.2 * y.ratio.2)

/-- Rounded quotient. -/
def div? (x y : Double) : Option Double :=
  ofRatio? (x.negative != y.negative) (x.ratio.1 * y.ratio.2) (x.ratio.2 * y.ratio.1)

/-- Is the number zero? -/
def isZero (x : Double) : Bool := x.mantissa == 0

/-! ## 2. Reading -/

/-- A power of ten, rounded. -/
def tenTo? (n : Nat) : Option Double := ofNat? (Nat.pow 10 n)

/-- Divides by the largest power of ten in range until the exponent is in range, then by the
rest of the power.  Each division rounds. -/
def scaledDownByTen? : Nat → Double → Nat → Option Double
  | 0, x, _ => some x
  | fuel + 1, x, n =>
    if n ≤ 308 then (tenTo? n).bind x.div?
    else if x.isZero then some x
    else do scaledDownByTen? fuel (← x.div? (← tenTo? 308)) (n - 308)

/-- The number read from a significand of at most 64 bits and a power of ten: the significand
is rounded, then scaled.  `none` if it is too large. -/
def ofDecimal? (negative : Bool) (significand : Nat) (exponent : Int) : Option Double := do
  let x ← ofNat? significand
  let scaled ← match exponent with
    | .ofNat n =>
      if n ≤ 308 then x.mul? (← tenTo? n)
      else if x.isZero then some x else none
    | .negSucc n => scaledDownByTen? 4 x (n + 1)
  return { scaled with negative := negative }

/-! ## 3. Writing -/

/-- Decimal digits of a natural. -/
def digits (n : Nat) : List Char := Nat.toDigits 10 n

/-- The power of ten of the first digit of a quotient below one. -/
def firstDigitBelow : Nat → Nat → Nat → Nat
  | 0, _, _ => 0
  | fuel + 1, num, den => if den ≤ num * 10 then 1 else 1 + firstDigitBelow fuel (num * 10) den

/-- The power of ten of the first digit. -/
def firstDigit (num den : Nat) : Int :=
  if den ≤ num then (digits (num / den)).length - 1
  else -(firstDigitBelow 400 num den : Int)

/-- A quotient times a power of ten, as a pair of naturals. -/
def timesTen (num den : Nat) (e : Int) : Nat × Nat :=
  match e with
  | .ofNat n => (num * Nat.pow 10 n, den)
  | .negSucc n => (num, den * Nat.pow 10 (n + 1))

/-- The nearest decimal of `n` digits: its significand and its power of ten. -/
def nearest (x : Double) (n : Nat) : Nat × Int :=
  let (num, den) := x.ratio
  let e := firstDigit num den - n + 1
  let (a, b) := timesTen num den (-e)
  (roundedQuotient a b, e)

/-- Does the decimal read back as the number? -/
def readsBack (x : Double) (decimal : Nat × Int) : Bool :=
  let (a, b) := timesTen decimal.1 1 decimal.2
  ofRatio? x.negative a b == some x

/-- The decimal with the fewest digits that reads back; seventeen digits always do. -/
def shortest (x : Double) : Nat × Int :=
  ((List.range 17).map fun n => x.nearest (n + 1)).find? x.readsBack |>.getD (x.nearest 17)

/-- The text of the number: one digit, a point, further digits, and a power of ten. -/
def render (x : Double) : String :=
  let sign := if x.negative then "-" else ""
  if x.isZero then sign ++ "0.0"
  else
    let (significand, e) := x.shortest
    let ds := digits significand
    let rest := ds.drop 1
    let power := e + rest.length
    sign ++ String.ofList (ds.take 1) ++ "." ++
      (if rest.isEmpty then "0" else String.ofList rest) ++ "e" ++ toString power

end Double

end ComponentHost
