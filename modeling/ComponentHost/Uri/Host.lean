/- # Hosts

The host of an address is a name or a number.  Names are written in ASCII, four-part numbers in
decimal, eight-part numbers in brackets with the longest run of zeros left out.
-/
import ComponentHost.Domain.Name
import ComponentHost.Uri.Percent

namespace ComponentHost

/-- Why an address is refused. -/
inductive UriError where
  | noScheme
  | emptyHost
  | badHostNumber
  | badWideHost
  | badHostName
  | badHostCharacter
  | badPort
deriving DecidableEq, Repr

namespace UriError

/-- The text of an error. -/
def message : UriError → String
  | noScheme => "relative URL without a base"
  | emptyHost => "empty host"
  | badHostNumber => "invalid IPv4 address"
  | badWideHost => "invalid IPv6 address"
  | badHostName => "invalid international domain name"
  | badHostCharacter => "invalid domain character"
  | badPort => "invalid port number"

end UriError

namespace Uri.Host

open ComponentHost.Text (splitAt)

/-! ## 1. Four-part numbers -/

/-- A number in a base; `none` if some character is no digit of it. -/
def inBase? (base : Nat) (cs : List Char) : Option Nat :=
  cs.foldl (fun acc c => acc.bind fun n =>
    match Percent.digitValue? (UInt8.ofNat c.toNat) with
    | some d => if c.toNat < 0x80 && d < base then some (n * base + d) else none
    | none => none) (some 0)

/-- A part of a number: decimal, octal after a zero, hexadecimal after `0x`. -/
def part? (cs : List Char) : Option Nat :=
  match cs with
  | [] => none
  | '0' :: 'x' :: r | '0' :: 'X' :: r => inBase? 16 r
  | '0' :: r => if r.isEmpty then some 0 else inBase? 8 r
  | _ => inBase? 10 cs

/-- The parts of a dotted text, without an empty last one. -/
def parts (cs : List Char) : List (List Char) :=
  let ps := splitAt '.' cs
  match ps.getLast? with
  | some [] => if ps.length > 1 then ps.dropLast else ps
  | _ => ps

/-- Does the last part look like a number? -/
def endsInNumber (cs : List Char) : Bool :=
  match (parts cs).getLast? with
  | some [] => false
  | some p => p.all Char.isDigit ||
    (match p with
      | '0' :: 'x' :: _ | '0' :: 'X' :: _ => (part? p).isSome
      | _ => false)
  | none => false

/-- The number that dotted parts stand for: each but the last is a byte, and the last fills
what is left. -/
def fourPart? (cs : List Char) : Option Nat := do
  let numbers ← (parts cs).mapM part?
  let last ← numbers.getLast?
  let first := numbers.dropLast
  let room := Nat.pow 256 (5 - numbers.length)
  if numbers.length > 4 || first.any (· > 255) || last ≥ room then none
  else some (first.foldl (fun n byte => n * 256 + byte) 0 * room + last)

/-- A number as four decimal parts. -/
def renderFour (n : Nat) : String :=
  ".".intercalate ([3, 2, 1, 0].map fun i => toString (n / Nat.pow 256 i % 256))

/-! ## 2. Eight-part numbers -/

/-- One piece of an eight-part number. -/
def piece? (g : List Char) : Option Nat :=
  if g.isEmpty || g.length > 4 then none else inBase? 16 g

/-- A byte of a dotted number, without zeros before it. -/
def byte? (cs : List Char) : Option Nat :=
  if cs.isEmpty || (cs.length > 1 && cs.head? == some '0') then none
  else (inBase? 10 cs).bind fun n => if n > 255 then none else some n

/-- The last piece of an eight-part number, or two pieces written as a dotted number. -/
def lastPieces? (cs : List Char) : Option (List Nat) :=
  if cs.contains '.' then do
    match ← (splitAt '.' cs).mapM byte? with
    | [a, b, c, d] => return [a * 256 + b, c * 256 + d]
    | _ => none
  else (piece? cs).map ([·])

/-- Pieces of an eight-part number on one side of `::`; a dotted number may end the whole. -/
def pieces? (ends : Bool) (cs : List Char) : Option (List Nat) :=
  let groups := splitAt ':' cs
  if cs.isEmpty then some []
  else
    match ends, groups.getLast? with
    | true, some last => do return (← groups.dropLast.mapM piece?) ++ (← lastPieces? last)
    | _, _ => groups.mapM piece?

/-- Splits at the first `::`. -/
def splitDouble : List Char → List Char → Option (List Char × List Char)
  | _, [] => none
  | before, ':' :: ':' :: r => some (before.reverse, r)
  | before, c :: r => splitDouble (c :: before) r

/-- The eight pieces of a number; `::` stands for as many zeros as are missing. -/
def eightPart? (cs : List Char) : Option (List Nat) :=
  match splitDouble [] cs with
  | some (before, after) => do
    let a ← pieces? false before
    let b ← pieces? true after
    if a.length + b.length > 7 then none
    else some (a ++ List.replicate (8 - a.length - b.length) 0 ++ b)
  | none => do
    let a ← pieces? true cs
    if a.length == 8 then some a else none

/-- Length of the run of zeros at the front. -/
def zeros (ps : List Nat) : Nat := (ps.takeWhile (· == 0)).length

/-- Start and length of the longest run of zeros, the first of several. -/
def longestZeros (ps : List Nat) : Nat × Nat :=
  (List.range ps.length).foldl (fun best i =>
    let n := zeros (ps.drop i)
    if n > best.2 then (i, n) else best) (0, 0)

/-- Eight pieces in brackets. -/
def renderEight (ps : List Nat) : String :=
  let hex (qs : List Nat) := ":".intercalate (qs.map fun n => String.ofList (Nat.toDigits 16 n))
  let (i, n) := longestZeros ps
  let body := if n ≥ 2 then hex (ps.take i) ++ "::" ++ hex (ps.drop (i + n)) else hex ps
  "[" ++ body ++ "]"

/-! ## 3. Hosts -/

/-- Characters that no name of a common scheme holds. -/
def isForbidden (c : Char) : Bool :=
  Percent.controls c || " #/:<>?@[\\]^|%".toList.contains c

/-- Characters that no name of another scheme holds. -/
def isForbiddenOpaque (c : Char) : Bool :=
  c.toNat == 0 || "\t\n\r #/:<>?@[\\]^|".toList.contains c

/-- An eight-part number after its opening bracket. -/
def bracketed? (cs : List Char) : Except UriError String :=
  if cs.getLast? != some ']' then .error .badWideHost
  else
    match eightPart? cs.dropLast with
    | some ps => .ok (renderEight ps)
    | none => .error .badWideHost

/-- A name in ASCII that may write a number. -/
def named? (name : List Char) : Except UriError String :=
  if name.isEmpty then .error .emptyHost
  else if endsInNumber name then
    match fourPart? name with
    | some n => .ok (renderFour n)
    | none => .error .badHostNumber
  else .ok (String.ofList name)

/-- A host of one of the common schemes, in its normal form. -/
def special? (cs : List Char) : Except UriError String :=
  match cs with
  | '[' :: r => bracketed? r
  | _ =>
    match (Utf8.decode? (Percent.decode (String.ofList cs))).bind Domain.ascii? with
    | none => .error .badHostName
    | some name => if name.any isForbidden then .error .badHostName else named? name

/-- A host of any other scheme: its characters, escaped. -/
def opaqueHost? (cs : List Char) : Except UriError String :=
  match cs with
  | '[' :: r => bracketed? r
  | _ =>
    if cs.any isForbiddenOpaque then .error .badHostCharacter
    else .ok (String.ofList (Percent.encode Percent.controls cs))

end Uri.Host

end ComponentHost
