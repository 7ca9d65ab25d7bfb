/- # Reading settings

A settings file is a list of lines: headers `[a.b]` and `[[a.b]]`, entries `key = value`, and
comments.  Values are strings of four kinds, integers in four bases, numbers with a point, moments,
lists over several lines and tables in braces on one line.

Readers map the text before a value to the value and the text after it.
-/
import ComponentHost.Json.Double
import ComponentHost.Text.Digit
import ComponentHost.Toml.Value

namespace ComponentHost.Toml

/-- Reads a value at the start of a text; `none` if there is none. -/
abbrev Reader (α : Type) := List Char → Option (α × List Char)

namespace Reader

/-! ## 1. Blanks, line ends and comments -/

/-- White space within a line. -/
def isBlank (c : Char) : Bool := c == ' ' || c == '\t'

/-- Drops white space within a line. -/
def skipBlanks (cs : List Char) : List Char := cs.dropWhile isBlank

/-- May the character stand in a comment or a string?  Control characters may not, but for tabs. -/
def isPlain (c : Char) : Bool := c == '\t' || (0x20 ≤ c.toNat && c.toNat != 0x7F)

/-- The text after a line end. -/
def pastLineEnd? : List Char → Option (List Char)
  | '\n' :: r => some r
  | '\r' :: '\n' :: r => some r
  | _ => none

/-- The text after the rest of a line on which only a comment may follow. -/
def pastLine? (cs : List Char) : Option (List Char) :=
  let cs := skipBlanks cs
  let cs := if cs.head? == some '#' then cs.dropWhile isPlain else cs
  if cs.isEmpty then some [] else pastLineEnd? cs

/-- Drops white space, line ends and comments between the items of a list. -/
def skipLines : Nat → List Char → List Char
  | 0, cs => cs
  | fuel + 1, cs =>
    match cs with
    | ' ' :: r | '\t' :: r | '\n' :: r | '\r' :: '\n' :: r => skipLines fuel r
    | '#' :: r => skipLines fuel (r.dropWhile isPlain)
    | _ => cs

/-- Drops white space, line ends and comments. -/
def skipSpace (cs : List Char) : List Char := skipLines cs.length cs

/-! ## 2. Strings -/

/-- Value of a hexadecimal digit. -/
def hexDigit? (c : Char) : Option Nat :=
  if c.isDigit then some (c.toNat - 48)
  else if 'a' ≤ c && c ≤ 'f' then some (c.toNat - 87)
  else if 'A' ≤ c && c ≤ 'F' then some (c.toNat - 55)
  else none

/-- The character of a code point in so many hexadecimal digits. -/
def codePoint (digits : Nat) (cs : List Char) : Option (Char × List Char) := do
  let ds := cs.take digits
  if ds.length < digits then none
  else
    let n ← ds.foldlM (fun n c => (hexDigit? c).map fun d => n * 16 + d) 0
    if n < 0xD800 || (0xDFFF < n && n < 0x110000) then some (Char.ofNat n, cs.drop digits) else none

/-- The character after a backslash. -/
def escaped : Reader Char
  | 'b' :: r => some (Char.ofNat 8, r)
  | 't' :: r => some ('\t', r)
  | 'n' :: r => some ('\n', r)
  | 'f' :: r => some (Char.ofNat 12, r)
  | 'r' :: r => some ('\r', r)
  | '"' :: r => some ('"', r)
  | '\\' :: r => some ('\\', r)
  | 'u' :: r => codePoint 4 r
  | 'U' :: r => codePoint 8 r
  | _ => none

/-- The inside of a string on one line, up to and past its closing quote, backwards. -/
def basicBody : Nat → List Char → List Char → Option (List Char × List Char)
  | 0, _, _ => none
  | fuel + 1, read, cs =>
    match cs with
    | [] => none
    | '"' :: r => some (read, r)
    | '\\' :: r => do
      let (c, r) ← escaped r
      basicBody fuel (c :: read) r
    | c :: r => if isPlain c then basicBody fuel (c :: read) r else none

/-- A string on one line, after its opening quote. -/
def basicString (cs : List Char) : Option (String × List Char) :=
  (basicBody (cs.length + 1) [] cs).map fun (read, r) => (String.ofList read.reverse, r)

/-- A string on one line without escapes, after its opening quote. -/
def literalString (cs : List Char) : Option (String × List Char) :=
  let inside := cs.takeWhile fun c => isPlain c && c != '\''
  match cs.drop inside.length with
  | '\'' :: r => some (String.ofList inside, r)
  | _ => none

/-- The text after a line end that follows the opening quotes at once. -/
def skipFirstLineEnd (cs : List Char) : List Char := (pastLineEnd? cs).getD cs

/-- The end of a string over several lines: up to two quotes before the closing ones belong to
it. -/
def closing? (quote : Char) (cs : List Char) : Option (Nat × List Char) :=
  let quotes := (cs.takeWhile (· == quote)).length
  if quotes < 3 then none else some (min (quotes - 3) 2, cs.drop (min quotes 5))

/-- The inside of a string over several lines, up to and past its closing quotes, backwards.  A
line end is a line feed, however it is written. -/
def longBody (quote : Char) : Nat → List Char → List Char → Option (List Char × List Char)
  | 0, _, _ => none
  | fuel + 1, read, cs =>
    match closing? quote cs with
    | some (more, r) => some (List.replicate more quote ++ read, r)
    | none =>
      match cs with
      | [] => none
      | '\r' :: '\n' :: r => longBody quote fuel ('\n' :: read) r
      | '\n' :: r => longBody quote fuel ('\n' :: read) r
      | '\\' :: r =>
        if quote == '\'' then longBody quote fuel ('\\' :: read) r
        else
          match continued fuel r with
          | some r => longBody quote fuel read r
          | none => do
            let (c, r) ← escaped r
            longBody quote fuel (c :: read) r
      | c :: r => if isPlain c then longBody quote fuel (c :: read) r else none
where
  /-- The text after a backslash at the end of a line, and the blank lines after it. -/
  continued (fuel : Nat) (cs : List Char) : Option (List Char) :=
    (pastLineEnd? (skipBlanks cs)).map (blanks fuel)
  /-- Drops white space and line ends. -/
  blanks : Nat → List Char → List Char
    | 0, cs => cs
    | fuel + 1, cs =>
      match cs with
      | ' ' :: r | '\t' :: r | '\n' :: r | '\r' :: '\n' :: r => blanks fuel r
      | _ => cs

/-- A string over several lines, after its opening quotes. -/
def longString (quote : Char) (cs : List Char) : Option (String × List Char) :=
  let cs := skipFirstLineEnd cs
  (longBody quote (cs.length + 1) [] cs).map fun (read, r) => (String.ofList read.reverse, r)

/-! ## 3. Numbers -/

/-- Digits with single underscores between them: their text without underscores. -/
def digitRun (good : Char → Bool) : Nat → List Char → List Char → Option (List Char × List Char)
  | 0, _, _ => none
  | fuel + 1, read, cs =>
    match cs with
    | '_' :: d :: r =>
      if good d && !read.isEmpty then digitRun good fuel (d :: read) r else none
    | d :: r =>
      if good d then digitRun good fuel (d :: read) r
      else if read.isEmpty || d == '_' then none else some (read.reverse, d :: r)
    | [] => if read.isEmpty then none else some (read.reverse, [])

/-- One or more digits. -/
def digits (good : Char → Bool) (cs : List Char) : Option (List Char × List Char) :=
  digitRun good (cs.length + 1) [] cs

/-- A sign, if there is one: is it a minus? -/
def sign : List Char → Bool × List Char
  | '-' :: r => (true, r)
  | '+' :: r => (false, r)
  | cs => (false, cs)

/-- The digits of an integer in base ten: a zero stands alone. -/
def wholeDigits : Reader (List Char)
  | '0' :: r => some (['0'], r)
  | cs => digits Char.isDigit cs

/-- The number that digits of a base write. -/
def number (base : Nat) (ds : List Char) : Nat :=
  ds.foldl (fun n c => n * base + (hexDigit? c).getD 0) 0

/-- Integers have 64 bits. -/
def integer? (negative : Bool) (n : Nat) : Option Toml :=
  if n < Nat.pow 2 63 || (negative && n == Nat.pow 2 63) then
    some (.integer (if negative then -(n : Int) else n))
  else none

/-- An integer in another base, after its mark. -/
def basedInteger (base : Nat) (cs : List Char) : Option (Toml × List Char) := do
  let (ds, r) ← digits (fun c => (hexDigit? c).any (· < base)) cs
  return (← integer? false (number base ds), r)

/-- Is a positive decimal too large for a number with a point? -/
def isTooLarge (ds : List Char) (exponent : Int) : Bool :=
  let ds := ds.dropWhile (· == '0')
  if ds.isEmpty then false
  else if (ds.length : Int) + exponent > 400 then true
  else if (ds.length : Int) + exponent < 0 then false
  else
    let n := number 10 ds
    let ratio := match exponent with
      | .ofNat k => (n * Nat.pow 10 k, 1)
      | .negSucc k => (n, Nat.pow 10 (k + 1))
    (Double.ofRatio? false ratio.1 ratio.2).isNone

/-- An exponent, if there is one. -/
def exponent (cs : List Char) : Option (Int × List Char) :=
  match cs with
  | 'e' :: r | 'E' :: r => do
    let (negative, r) := sign r
    let (ds, r) ← digits Char.isDigit r
    let n : Int := number 10 ds
    return (if negative then -n else n, r)
  | _ => some (0, cs)

/-- A number in base ten, with a point or without one. -/
def decimal (cs : List Char) : Option (Toml × List Char) := do
  let (negative, cs) := sign cs
  let (whole, r) ← wholeDigits cs
  let float (fraction : List Char) (r : List Char) : Option (Toml × List Char) := do
    let (e, r) ← exponent r
    if !negative && isTooLarge (whole ++ fraction) (e - fraction.length) then none
    else some (.float, r)
  match r with
  | '.' :: r =>
    let (fraction, r) ← digits Char.isDigit r
    float fraction r
  | 'e' :: _ | 'E' :: _ => float [] r
  | _ => return (← integer? negative (number 10 whole), r)

/-- A number that is infinite or undefined. -/
def special (cs : List Char) : Option (Toml × List Char) :=
  match (sign cs).2 with
  | 'i' :: 'n' :: 'f' :: r | 'n' :: 'a' :: 'n' :: r => some (.float, r)
  | _ => none

/-! ## 4. Moments -/

/-- A number of exactly so many digits within bounds. -/
def fixed (length low high : Nat) (cs : List Char) : Option (Nat × List Char) := do
  let ds := cs.take length
  let n ← Text.decimal? ds
  if ds.length = length ∧ low ≤ n ∧ n ≤ high then some (n, cs.drop length) else none

/-- Passes one character. -/
def mark (c : Char) : Reader Unit
  | d :: r => if c == d then some ((), r) else none
  | [] => none

/-- The number of days of a month. -/
def daysOf (year month : Nat) : Nat :=
  if month = 2 then
    if year % 4 = 0 ∧ (year % 100 ≠ 0 ∨ year % 400 = 0) then 29 else 28
  else if month = 4 ∨ month = 6 ∨ month = 9 ∨ month = 11 then 30
  else 31

/-- A date. -/
def date (cs : List Char) : Option (Unit × List Char) := do
  let (year, r) ← fixed 4 0 9999 cs
  let (_, r) ← mark '-' r
  let (month, r) ← fixed 2 1 12 r
  let (_, r) ← mark '-' r
  let (_, r) ← fixed 2 1 (daysOf year month) r
  return ((), r)

/-- A time of day. -/
def time (cs : List Char) : Option (Unit × List Char) := do
  let (_, r) ← fixed 2 0 23 cs
  let (_, r) ← mark ':' r
  let (_, r) ← fixed 2 0 59 r
  let (_, r) ← mark ':' r
  let (_, r) ← fixed 2 0 60 r
  match r with
  | '.' :: d :: r => if d.isDigit then return ((), r.dropWhile Char.isDigit) else none
  | '.' :: [] => none
  | _ => return ((), r)

/-- A time zone, if there is one. -/
def zone (cs : List Char) : Option (Unit × List Char) :=
  match cs with
  | 'Z' :: r | 'z' :: r => some ((), r)
  | '+' :: r | '-' :: r => do
    let (_, r) ← fixed 2 0 23 r
    let (_, r) ← mark ':' r
    let (_, r) ← fixed 2 0 59 r
    return ((), r)
  | _ => some ((), cs)

/-- A date, a time, or both. -/
def moment (cs : List Char) : Option (Toml × List Char) :=
  match date cs with
  | some (_, r) =>
    let timed := match r with
      | 'T' :: t | 't' :: t | ' ' :: t => (time t).bind fun (_, t) => zone t
      | _ => none
    match timed with
    | some (_, r) => some (.moment, r)
    | none => some (.moment, r)
  | none => (time cs).map fun (_, r) => (.moment, r)

/-! ## 5. Keys and values -/

/-- Characters of a key without quotes. -/
def isKeyChar (c : Char) : Bool := c.isAlphanum || c == '-' || c == '_'

/-- A key without dots. -/
def simpleKey (cs : List Char) : Option (String × List Char) :=
  match cs with
  | '"' :: r => basicString r
  | '\'' :: r => literalString r
  | _ =>
    let name := cs.takeWhile isKeyChar
    if name.isEmpty then none else some (String.ofList name, cs.drop name.length)

/-- Keys with dots between them, backwards; white space may surround each. -/
def keys : Nat → List String → List Char → Option (List String × List Char)
  | 0, _, _ => none
  | fuel + 1, read, cs => do
    let (key, r) ← simpleKey (skipBlanks cs)
    match skipBlanks r with
    | '.' :: r => keys fuel (key :: read) r
    | r => some (key :: read, r)

/-- Nesting of values and dots in keys are below this bound. -/
def maxDepth : Nat := 80

/-- A dotted key: the keys before the last, and the last. -/
def key (cs : List Char) : Option ((List String × String) × List Char) := do
  match ← keys (cs.length + 1) [] cs with
  | (last :: before, r) =>
    if before.length + 1 < maxDepth then some ((before.reverse, last), r) else none
  | ([], _) => none

/-- A value that holds no others. -/
def scalar (cs : List Char) : Option (Toml × List Char) :=
  let text (read : Option (String × List Char)) := read.map fun (s, r) => (Toml.string s, r)
  match cs with
  | '"' :: '"' :: '"' :: r => text (longString '"' r)
  | '\'' :: '\'' :: '\'' :: r => text (longString '\'' r)
  | '"' :: r => text (basicString r)
  | '\'' :: r => text (literalString r)
  | 't' :: 'r' :: 'u' :: 'e' :: r => some (.bool true, r)
  | 'f' :: 'a' :: 'l' :: 's' :: 'e' :: r => some (.bool false, r)
  | '0' :: 'x' :: r => basedInteger 16 r
  | '0' :: 'o' :: r => basedInteger 8 r
  | '0' :: 'b' :: r => basedInteger 2 r
  | _ => ((moment cs).orElse fun _ => special cs).orElse fun _ => decimal cs

/-- The items of a list after its opening bracket, backwards, up to and past the closing one; a
comma may follow the last. -/
def items (item : Reader Toml) : Nat → List Toml → List Char → Option (List Toml × List Char)
  | 0, _, _ => none
  | fuel + 1, read, cs =>
    match skipSpace cs with
    | ']' :: r => some (read, r)
    | cs => do
      let (v, r) ← item cs
      match skipSpace r with
      | ',' :: r => items item fuel (v :: read) r
      | ']' :: r => some (v :: read, r)
      | _ => none

/-- An entry: a dotted key, an equals sign and a value. -/
def entry (item : Reader Toml) (cs : List Char) :
    Option ((List String × String × Toml) × List Char) := do
  let ((path, last), r) ← key cs
  let (_, r) ← mark '=' r
  let (v, r) ← item (skipBlanks r)
  return ((path, last, v), skipBlanks r)

/-- The entries of a table in braces after the first brace, up to and past the closing one. -/
def entries (item : Reader Toml) : Nat → Entries → List Char → Option (Entries × List Char)
  | 0, _, _ => none
  | fuel + 1, read, cs => do
    let ((path, last, v), r) ← entry item cs
    let read ← addAt? path last v read
    match r with
    | ',' :: r => entries item fuel read r
    | '}' :: r => some (read, r)
    | _ => none

/-- A table in braces after the first brace. -/
def bracedTable (item : Reader Toml) (cs : List Char) : Option (Toml × List Char) :=
  match skipBlanks cs with
  | '}' :: r => some (.table .braces [], r)
  | cs => (entries item cs.length [] cs).map fun (read, r) => (.table .braces read, r)

/-- A value with at most so many lists and tables around its innermost values. -/
def value : Nat → Reader Toml
  | 0, cs => scalar cs
  | depth + 1, cs =>
    match cs with
    | '[' :: r => (items (value depth) (r.length + 1) [] r).map fun (read, r) =>
        (.array read.reverse, r)
    | '{' :: r => bracedTable (value depth) r
    | _ => scalar cs

/-! ## 6. Documents -/

/-- Takes one line that is not empty and no comment. -/
def line (d : Draft) (cs : List Char) : Option (Draft × List Char) := do
  match cs with
  | '[' :: '[' :: r =>
    let ((path, last), r) ← key r
    let (_, r) ← mark ']' r
    let (_, r) ← mark ']' r
    return (← d.nextTable? path last, ← pastLine? r)
  | '[' :: r =>
    let ((path, last), r) ← key r
    let (_, r) ← mark ']' r
    return (← d.table? path last, ← pastLine? r)
  | cs =>
    let ((path, last, v), r) ← entry (value (maxDepth - 1)) cs
    return (← d.line? path last v, ← pastLine? r)

/-- Takes lines up to the end of the text. -/
def lines : Nat → Draft → List Char → Option Draft
  | 0, _, _ => none
  | fuel + 1, d, cs =>
    match pastLine? cs with
    | some [] => some d
    | some r => lines fuel d r
    | none => do
      let (d, r) ← line d (skipBlanks cs)
      lines fuel d r

end Reader

/-- The entries of a document; a mark at its start is dropped. -/
def parse? (text : String) : Option Entries :=
  let cs := text.toList
  let cs := if cs.head? == some (Char.ofNat 0xFEFF) then cs.drop 1 else cs
  (Reader.lines (cs.length + 1) {} cs).bind Draft.finish?

end ComponentHost.Toml
