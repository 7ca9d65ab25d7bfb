/- # Reading structured values

A strict reader: no comments, no trailing commas, no half pairs of surrogates, no number out of
range.  Arrays and objects nest at most `Reader.maxDepth` deep.  A value that nobody asked for
is only skipped: its form is checked, but neither its depth nor its numbers.

Readers map the text before a value to the value and the text after it.
-/
import ComponentHost.Json.Value

namespace ComponentHost.Json

/-- Reads a value at the start of a text; `none` if there is none. -/
abbrev Reader (α : Type) := List Char → Option (α × List Char)

namespace Reader

/-! ## 1. Blanks and strings -/

/-- Is the character insignificant between tokens? -/
def isBlank (c : Char) : Bool := c == ' ' || c == '\n' || c == '\t' || c == '\r'

/-- Drops leading blanks. -/
def skipBlanks (cs : List Char) : List Char := cs.dropWhile isBlank

/-- Value of a hexadecimal digit. -/
def hexDigit? (c : Char) : Option Nat :=
  if c.isDigit then some (c.toNat - 48)
  else if 'a' ≤ c && c ≤ 'f' then some (c.toNat - 87)
  else if 'A' ≤ c && c ≤ 'F' then some (c.toNat - 55)
  else none

/-- Four hexadecimal digits. -/
def fourHex : Reader Nat
  | a :: b :: c :: d :: r => do
    return ((((← hexDigit? a) * 16 + (← hexDigit? b)) * 16 + (← hexDigit? c)) * 16 +
      (← hexDigit? d), r)
  | _ => none

/-- The character after `\u`.  Half a pair must be followed by its other half. -/
def unicodeEscape (cs : List Char) : Option (Char × List Char) := do
  let (n, r) ← fourHex cs
  if 0xDC00 ≤ n && n ≤ 0xDFFF then none
  else if 0xD800 ≤ n && n ≤ 0xDBFF then
    match r with
    | '\\' :: 'u' :: r =>
      let (low, r) ← fourHex r
      if 0xDC00 ≤ low && low ≤ 0xDFFF then
        some (Char.ofNat (0x10000 + (n - 0xD800) * 0x400 + (low - 0xDC00)), r)
      else none
    | _ => none
  else some (Char.ofNat n, r)

/-- The character that a letter stands for after a backslash. -/
def letterEscape? (c : Char) : Option Char :=
  match c with
  | '"' => some '"'
  | '\\' => some '\\'
  | '/' => some '/'
  | 'b' => some (Char.ofNat 8)
  | 'f' => some (Char.ofNat 12)
  | 'n' => some '\n'
  | 'r' => some '\r'
  | 't' => some '\t'
  | _ => none

/-- The inside of a string, up to and past its closing quote, backwards. -/
def stringBody : Nat → List Char → List Char → Option (List Char × List Char)
  | 0, _, _ => none
  | fuel + 1, read, cs =>
    match cs with
    | [] => none
    | '"' :: r => some (read, r)
    | '\\' :: 'u' :: r => do
      let (c, r) ← unicodeEscape r
      stringBody fuel (c :: read) r
    | '\\' :: e :: r => do
      let c ← letterEscape? e
      stringBody fuel (c :: read) r
    | '\\' :: [] => none
    | c :: r => if c.toNat < 0x20 then none else stringBody fuel (c :: read) r

/-- A string, after its opening quote. -/
def string (cs : List Char) : Option (String × List Char) :=
  (stringBody (cs.length + 1) [] cs).map fun (read, r) => (String.ofList read.reverse, r)

/-! ## 2. Numbers -/

/-- Largest unsigned integer. -/
def maxWord : Nat := Nat.pow 2 64 - 1

/-- Takes digits into a significand as long as it stays in range; also gives how many were
taken. -/
def takeDigits : Nat → List Char → Nat → Nat × Nat × List Char
  | significand, [], taken => (significand, taken, [])
  | significand, c :: r, taken =>
    let next := significand * 10 + (c.toNat - 48)
    if c.isDigit && next ≤ maxWord then takeDigits next r (taken + 1)
    else (significand, taken, c :: r)

/-- A number whose significand and power of ten are known. -/
def scaled (negative : Bool) (significand : Nat) (exponent : Int) (r : List Char) :
    Option (Json × List Char) :=
  (Double.ofDecimal? negative significand exponent).map fun x => (.float x, r)

/-- The exponent of a number, after its letter. -/
def exponent (negative : Bool) (significand : Nat) (before : Int) (cs : List Char) :
    Option (Json × List Char) :=
  let (down, cs) := match cs with
    | '-' :: r => (true, r)
    | '+' :: r => (false, r)
    | _ => (false, cs)
  let ds := cs.takeWhile Char.isDigit
  let r := cs.drop ds.length
  if ds.isEmpty then none
  else
    let n := ds.foldl (fun (n : Nat) c => n * 10 + (c.toNat - 48)) 0
    if n > 2147483647 then
      if significand != 0 && !down then none
      else some (.float ⟨negative, 0, Double.least⟩, r)
    else scaled negative significand (if down then before - (n : Int) else before + (n : Int)) r

/-- What follows the digits of a number with a point or too many digits. -/
def afterDigits (negative : Bool) (significand : Nat) (power : Int) (cs : List Char) :
    Option (Json × List Char) :=
  match cs with
  | 'e' :: r | 'E' :: r => exponent negative significand power r
  | _ => scaled negative significand power cs

/-- The digits after a point.  Digits past the range of the significand are dropped. -/
def fraction (negative : Bool) (significand : Nat) (power : Int) (cs : List Char) :
    Option (Json × List Char) :=
  if !(cs.head?.any Char.isDigit) then none
  else
    let (s, taken, r) := takeDigits significand cs 0
    afterDigits negative s (power - taken) (r.dropWhile Char.isDigit)

/-- An integer of at most 64 bits; one that does not fit, and negative zero, are not integers. -/
def integer (negative : Bool) (n : Nat) : Option Json :=
  if !negative then some (.int n)
  else if n == 0 || n > Nat.pow 2 63 then (Double.ofRatio? true n 1).map .float
  else some (.int (-(n : Int)))

/-- A number, after its sign. -/
def number (negative : Bool) (cs : List Char) : Option (Json × List Char) :=
  let leadingZero := cs.head? == some '0'
  if !(cs.head?.any Char.isDigit) then none
  else
    let (n, _, r) := if leadingZero then (0, 1, cs.drop 1) else takeDigits 0 cs 0
    match r with
    | '.' :: r => fraction negative n 0 r
    | 'e' :: r | 'E' :: r => exponent negative n 0 r
    | c :: _ =>
      if c.isDigit then
        if leadingZero then none
        else
          -- Digits past the range only count towards the power of ten.
          let more := r.takeWhile Char.isDigit
          match r.drop more.length with
          | '.' :: r' => fraction negative n more.length r'
          | r' => afterDigits negative n more.length r'
      else (integer negative n).map fun v => (v, r)
    | [] => (integer negative n).map fun v => (v, [])

/-! ## 3. Values -/

/-- Items of an array after its opening bracket, backwards, up to and past the closing one. -/
def items {α : Type} (item : Reader α) : Nat → List α → List Char → Option (List α × List Char)
  | 0, _, _ => none
  | fuel + 1, read, cs => do
    let (v, r) ← item (skipBlanks cs)
    match skipBlanks r with
    | ',' :: r => items item fuel (v :: read) r
    | ']' :: r => some (v :: read, r)
    | _ => none

/-- An array after its opening bracket. -/
def array {α : Type} (item : Reader α) (cs : List Char) : Option (List α × List Char) :=
  match skipBlanks cs with
  | ']' :: r => some ([], r)
  | r => (items item r.length [] r).map fun (read, r) => (read.reverse, r)

/-- Members of an object after its opening brace, backwards, up to and past the closing one.
How a member is read depends on its name. -/
def members {α : Type} (item : String → Reader α) :
    Nat → List (String × α) → List Char → Option (List (String × α) × List Char)
  | 0, _, _ => none
  | fuel + 1, read, cs =>
    match skipBlanks cs with
    | '"' :: r => do
      let (key, r) ← string r
      match skipBlanks r with
      | ':' :: r =>
        let (v, r) ← item key (skipBlanks r)
        match skipBlanks r with
        | ',' :: r => members item fuel ((key, v) :: read) r
        | '}' :: r => some ((key, v) :: read, r)
        | _ => none
      | _ => none
    | _ => none

/-- An object after its opening brace. -/
def object {α : Type} (item : String → Reader α) (cs : List Char) :
    Option (List (String × α) × List Char) :=
  match skipBlanks cs with
  | '}' :: r => some ([], r)
  | r => (members item r.length [] r).map fun (read, r) => (read.reverse, r)

/-- Passes the given characters. -/
def literal (word : List Char) (v : Json) (cs : List Char) : Option (Json × List Char) :=
  if word.isPrefixOf cs then some (v, cs.drop word.length) else none

/-- A value that holds no others. -/
def scalar (cs : List Char) : Option (Json × List Char) :=
  match cs with
  | 'n' :: _ => literal "null".toList .null cs
  | 't' :: _ => literal "true".toList (.bool true) cs
  | 'f' :: _ => literal "false".toList (.bool false) cs
  | '"' :: r => (string r).map fun (s, r) => (.string s, r)
  | '-' :: r => number true r
  | _ => number false cs

/-- How deep arrays and objects may nest. -/
def maxDepth : Nat := 127

/-- A value whose arrays and objects nest at most as deep as the given number. -/
def value : Nat → Reader Json
  | 0, cs =>
    match cs with
    | '[' :: _ | '{' :: _ => none
    | _ => scalar cs
  | depth + 1, cs =>
    match cs with
    | '[' :: r => (array (value depth) r).map fun (items, r) => (.array items, r)
    | '{' :: r => (object (fun _ => value depth) r).map fun (ms, r) => (.ofMembers ms, r)
    | _ => scalar cs

/-! ## 4. Skipping -/

/-- The inside of a skipped string: escapes need not stand for characters. -/
def skipString : List Char → Option (Unit × List Char)
  | [] => none
  | '"' :: r => some ((), r)
  | '\\' :: 'u' :: a :: b :: c :: d :: r =>
    if (fourHex [a, b, c, d]).isSome then skipString r else none
  | '\\' :: e :: r => if (letterEscape? e).isSome then skipString r else none
  | c :: r => if c.toNat < 0x20 || c == '\\' then none else skipString r

/-- Drops digits, of which there must be one. -/
def skipDigits (cs : List Char) : Option (List Char) :=
  if cs.head?.any Char.isDigit then some (cs.dropWhile Char.isDigit) else none

/-- A skipped number, after its sign. -/
def skipNumber (cs : List Char) : Option (Unit × List Char) := do
  let r ← match cs with
    | '0' :: r => if r.head?.any Char.isDigit then none else some r
    | _ => skipDigits cs
  let r ← match r with
    | '.' :: r => skipDigits r
    | _ => some r
  match r with
  | 'e' :: r | 'E' :: r =>
    let r := match r with
      | '+' :: r | '-' :: r => r
      | _ => r
    return ((), ← skipDigits r)
  | _ => return ((), r)

/-- A skipped value that holds no others. -/
def skipScalar (cs : List Char) : Option (Unit × List Char) :=
  match cs with
  | '"' :: r => skipString r
  | '-' :: r => skipNumber r
  | 'n' :: _ | 't' :: _ | 'f' :: _ => (scalar cs).map fun (_, r) => ((), r)
  | _ => skipNumber cs

/-- A skipped value; the number bounds its depth. -/
def skip : Nat → Reader Unit
  | 0, _ => none
  | depth + 1, cs =>
    match cs with
    | '[' :: r => (array (skip depth) r).map fun (_, r) => ((), r)
    | '{' :: r => (object (fun _ => skip depth) r).map fun (_, r) => ((), r)
    | _ => skipScalar cs

/-- A record: the members with known names, in the order of the text, with repetitions; the
others are skipped.  A record may also be given as an array of its fields. -/
inductive Record where
  | named (members : List (String × Json))
  | listed (items : List Json)

/-- The members that were read and not skipped. -/
def knownMembers (members : List (String × Option Json)) : List (String × Json) :=
  members.filterMap fun (k, v) => v.map fun v => (k, v)

/-- A record after which only blanks follow. -/
def record? (known : List String) (text : String) : Option Record :=
  let cs := text.toList
  let depth := cs.length
  let member (key : String) : Reader (Option Json) := fun cs =>
    if known.contains key then (value (maxDepth - 1) cs).map fun (v, r) => (some v, r)
    else (skip depth cs).map fun (_, r) => (none, r)
  let read : Option (Record × List Char) := match skipBlanks cs with
    | '{' :: r => (object member r).map fun (ms, r) => (Record.named (knownMembers ms), r)
    | '[' :: r => (array (value (maxDepth - 1)) r).map fun (vs, r) => (Record.listed vs, r)
    | _ => none
  read.bind fun (v, r) => if (skipBlanks r).isEmpty then some v else none

end Reader

/-- The value of a text. -/
def parse? (text : String) : Option Json :=
  (Reader.value Reader.maxDepth (Reader.skipBlanks text.toList)).bind fun (v, r) =>
    if (Reader.skipBlanks r).isEmpty then some v else none

end ComponentHost.Json
