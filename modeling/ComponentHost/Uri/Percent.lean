/- # Percent escapes

A byte that may not stand for itself in some part of an address is written as a percent sign
and two hexadecimal digits.  Each part has its own set of such bytes; bytes outside ASCII are
in every set.
-/
import ComponentHost.Text.Utf8

namespace ComponentHost.Percent

/-- A set of ASCII characters that are escaped. -/
abbrev EscapeSet := Char → Bool

/-- Controls. -/
def controls : EscapeSet := fun c => c.toNat < 0x20 || c.toNat == 0x7F

/-- Characters escaped in fragments. -/
def fragment : EscapeSet := fun c => controls c || [' ', '"', '<', '>', '`'].contains c

/-- Characters escaped in queries. -/
def query : EscapeSet := fun c => controls c || [' ', '"', '#', '<', '>'].contains c

/-- Characters escaped in queries of the common schemes. -/
def specialQuery : EscapeSet := fun c => query c || c == '\''

/-- Characters escaped in paths. -/
def path : EscapeSet := fun c => fragment c || ['#', '?', '{', '}'].contains c

/-- Characters escaped in a segment that is taken as it is. -/
def segment : EscapeSet := fun c => path c || ['/', '%', '\\'].contains c

/-- Characters escaped in names and passwords. -/
def userInfo : EscapeSet := fun c =>
  path c || ['/', ':', ';', '=', '@', '[', '\\', ']', '^', '|'].contains c

/-- A hexadecimal digit, upper case. -/
def digit (n : Nat) : Char := if n < 10 then Char.ofNat (48 + n) else Char.ofNat (55 + n)

/-- The escape of a byte. -/
def escape (b : UInt8) : List Char := ['%', digit (b.toNat / 16), digit (b.toNat % 16)]

/-- A character, escaped if it must be. -/
def encodeChar (set : EscapeSet) (c : Char) : List Char :=
  if c.toNat < 0x80 && !set c then [c] else (Utf8.charBytes c).flatMap escape

/-- A text with the characters of a set escaped. -/
def encode (set : EscapeSet) (cs : List Char) : List Char := cs.flatMap (encodeChar set)

/-- Value of a hexadecimal digit. -/
def digitValue? (b : UInt8) : Option Nat :=
  let n := b.toNat
  if 48 ≤ n && n ≤ 57 then some (n - 48)
  else if 65 ≤ n && n ≤ 70 then some (n - 55)
  else if 97 ≤ n && n ≤ 102 then some (n - 87)
  else none

/-- The bytes with every escape resolved; a percent sign without two digits stays. -/
def decodeBytes : List UInt8 → List UInt8
  | 0x25 :: a :: b :: r =>
    match digitValue? a, digitValue? b with
    | some x, some y => UInt8.ofNat (x * 16 + y) :: decodeBytes r
    | _, _ => 0x25 :: decodeBytes (a :: b :: r)
  | b :: r => b :: decodeBytes r
  | [] => []

/-- The bytes of a text with every escape resolved. -/
def decode (s : String) : List UInt8 := decodeBytes (Utf8.bytes s)

end ComponentHost.Percent
