/- # Reading tokens

`Lexer.next` skips blanks and comments and reads the token that follows.  It never fails: text
that forms no token becomes a `broken` token, which no rule of the grammar accepts, and an
error from which reading can go on (a malformed escape in a string, an unclosed comment, a
markup comment) only marks the lexeme as not `sound`.

Readers that follow escapes go through the text one character at a time.  An escape is read as
a whole at its backslash, which says how many characters after it are only passed.
-/
import ComponentHost.Script.Grammar.Token
import ComponentHost.Text.Identifier
import ComponentHost.Text.Quoted

namespace ComponentHost.Grammar

open ComponentHost.Text (isNameStart isNamePart)

namespace Lexer

/-! ## 1. Blanks and comments -/

/-- Does the character end a line? -/
def isLineBreak (c : Char) : Bool :=
  c == '\n' || c == '\r' || c.toNat == 0x2028 || c.toNat == 0x2029

/-- Does the character separate tokens without ending a line? -/
def isBlank (c : Char) : Bool :=
  let n := c.toNat
  c == ' ' || c == '\t' || n == 0x0B || n == 0x0C || n == 0x85 || n == 0xA0 || n == 0x1680 ||
    (0x2000 ≤ n && n ≤ 0x200B) || n == 0x202F || n == 0x205F || n == 0x3000 || n == 0xFEFF

/-- What the reader of blanks is inside of. -/
inductive Gap where
  | plain
  | line
  | block
deriving DecidableEq

/-- Where a gap between tokens ends, whether it holds a line break, and whether it is sound. -/
structure GapEnd where
  cursor : Cursor
  newline : Bool
  sound : Bool

/-- Skips blanks and comments.  A markup comment `<!--` at the start of a line is skipped like a
line comment, but it is not sound. -/
def skipGap : Gap → List Char → Nat → Bool → Bool → GapEnd
  | gap, [], offset, newline, sound => ⟨⟨offset, []⟩, newline, sound && gap != .block⟩
  | .line, c :: r, offset, newline, sound =>
    if isLineBreak c then skipGap .plain r (offset + c.utf8Size) true sound
    else skipGap .line r (offset + c.utf8Size) newline sound
  | .block, '*' :: '/' :: r, offset, newline, sound => skipGap .plain r (offset + 2) newline sound
  | .block, c :: r, offset, newline, sound =>
    skipGap .block r (offset + c.utf8Size) (newline || isLineBreak c) sound
  | .plain, '/' :: '/' :: r, offset, newline, sound => skipGap .line r (offset + 2) newline sound
  | .plain, '/' :: '*' :: r, offset, newline, sound => skipGap .block r (offset + 2) newline sound
  | .plain, '<' :: '!' :: '-' :: '-' :: r, offset, newline, sound =>
    if newline then skipGap .line r (offset + 4) newline false
    else ⟨⟨offset, '<' :: '!' :: '-' :: '-' :: r⟩, newline, sound⟩
  | .plain, c :: r, offset, newline, sound =>
    if isLineBreak c then skipGap .plain r (offset + c.utf8Size) true sound
    else if isBlank c then skipGap .plain r (offset + c.utf8Size) newline sound
    else ⟨⟨offset, c :: r⟩, newline, sound⟩

/-! ## 2. Escapes -/

/-- A token without its place: what was read, and where reading goes on. -/
structure Lexeme where
  kind : TokenKind
  after : Cursor
  value : String := ""
  escaped : Bool := false
  cooked : Bool := true
  halved : Bool := false
  sound : Bool := true

/-- Value of a digit in base sixteen. -/
def hexValue? (c : Char) : Option Nat :=
  if c.isDigit then some (c.toNat - 48)
  else if 'a' ≤ c && c ≤ 'f' then some (c.toNat - 87)
  else if 'A' ≤ c && c ≤ 'F' then some (c.toNat - 55)
  else none

/-- Value of a run of hexadecimal digits; `none` if one of them is not. -/
def hexNumber? (cs : List Char) : Option Nat :=
  cs.foldl (fun acc c => acc.bind fun n => (hexValue? c).map (n * 16 + ·)) (some 0)

/-- An escape: the code points it stands for, how many characters follow its backslash, and
whether it is well formed.  A malformed escape takes the characters that fit its beginning. -/
structure Escape where
  points : List Nat
  size : Nat
  valid : Bool := true

/-- Goes on with the digits of an escape in braces, of which some were read already. -/
def bracedEscape : List Char → Option Nat → Nat → Escape
  | [], _, size => ⟨[], size, false⟩
  | c :: r, read, size =>
    match hexValue? c with
    | some digit =>
      let n := read.getD 0 * 16 + digit
      if n > 0x10FFFF then ⟨[], size + 1, false⟩ else bracedEscape r (some n) (size + 1)
    | none =>
      match read with
      | some n => if c == '}' then ⟨[n], size + 1, true⟩ else ⟨[], size, false⟩
      | none => ⟨[], size, false⟩

/-- Is the code point one half of a pair? -/
def isSurrogate (n : Nat) : Bool := 0xD800 ≤ n && n ≤ 0xDFFF

/-- Is the code point the first half of a pair? -/
def isHighHalf (n : Nat) : Bool := 0xD800 ≤ n && n ≤ 0xDBFF

/-- Is the code point the second half of a pair? -/
def isLowHalf (n : Nat) : Bool := 0xDC00 ≤ n && n ≤ 0xDFFF

/-- Four digits in base sixteen. -/
def fourDigits (cs : List Char) : Escape :=
  let digits := (cs.take 4).takeWhile fun c => (hexValue? c).isSome
  match hexNumber? digits with
  | some n => if digits.length == 4 then ⟨[n], 4, true⟩ else ⟨[], digits.length, false⟩
  | none => ⟨[], 0, false⟩

/-- A `u` escape after its `u`.  Two escapes that are the halves of a pair are read as one. -/
def pointEscape : List Char → Escape
  | '{' :: r => bracedEscape r none 1
  | cs =>
    let high := fourDigits cs
    match high.points, cs.drop 4 with
    | [h], '\\' :: 'u' :: r =>
      if isHighHalf h then
        let low := fourDigits r
        match low.points with
        | [l] =>
          if isLowHalf l then ⟨[0x10000 + (h - 0xD800) * 0x400 + (l - 0xDC00)], 10, true⟩
          else ⟨[h, l], 10, true⟩
        | _ => ⟨[], 6 + low.size, false⟩
      else high
    | _, _ => high

/-- An octal escape of a string: up to three digits that stay within a byte. -/
def octalEscape (r : List Char) : Escape :=
  let isOctal (c : Char) := '0' ≤ c && c ≤ '7'
  let most := match r with
    | c :: _ => if c ≤ '3' then 3 else 2
    | [] => 0
  let digits := (r.take most).takeWhile isOctal
  ⟨[digits.foldl (fun n c => n * 8 + (c.toNat - 48)) 0], digits.length, true⟩

/-- Reads an escape after its backslash.  Templates refuse the octal forms that strings keep. -/
def readEscape (template : Bool) : List Char → Escape
  | [] => ⟨[], 0, false⟩
  | c :: r =>
    match c with
    | 'n' => ⟨[10], 1, true⟩
    | 't' => ⟨[9], 1, true⟩
    | 'r' => ⟨[13], 1, true⟩
    | 'b' => ⟨[8], 1, true⟩
    | 'v' => ⟨[11], 1, true⟩
    | 'f' => ⟨[12], 1, true⟩
    | '\r' => ⟨[], if r.head? == some '\n' then 2 else 1, true⟩
    | 'x' =>
      match r with
      | a :: b :: _ =>
        match hexNumber? [a, b] with
        | some n => ⟨[n], 3, true⟩
        | none => ⟨[], if (hexValue? a).isSome then 2 else 1, false⟩
      | [a] => ⟨[], if (hexValue? a).isSome then 2 else 1, false⟩
      | [] => ⟨[], 1, false⟩
    | 'u' =>
      let e := pointEscape r
      { e with size := e.size + 1 }
    | _ =>
      if isLineBreak c then ⟨[], 1, true⟩
      else if c == '0' && !(r.head?.any Char.isDigit) then ⟨[0], 1, true⟩
      else if c.isDigit && template then ⟨[], 1, false⟩
      else if '0' ≤ c && c ≤ '7' then octalEscape (c :: r)
      else ⟨[c.toNat], 1, true⟩

/-- Four digits of a half pair, after the replacement character that announces it. -/
def markedPoint (n : Nat) : List Char :=
  let digits := Text.hexDigits n
  Char.ofNat 0xFFFD :: (List.replicate (4 - digits.length) '0' ++ digits)

/-- The text of a list of code points.  Half pairs have no character of their own: a text that
holds one writes it, and every replacement character, as a marked number. -/
def cook (points : List Nat) : String :=
  if points.any isSurrogate then
    String.ofList (points.flatMap fun n =>
      if isSurrogate n || n == 0xFFFD then markedPoint n else [Char.ofNat n])
  else String.ofList (points.map Char.ofNat)

/-! ## 3. Names and strings -/

/-- A name as far as it is read: its characters backwards, where it goes on, and what was met. -/
structure NameReading where
  read : List Char
  after : Cursor
  /-- Nothing of the name was passed yet. -/
  first : Bool := true
  escaped : Bool := false
  sound : Bool := true

namespace NameReading

/-- Can the character stand where the name goes on? -/
def fits (n : NameReading) (x : Char) : Bool := if n.first then isNameStart x else isNamePart x

/-- The character of a name that the text after a backslash stands for, and how many characters
the escape has after its backslash. -/
def escape (n : NameReading) : List Char → Option Char × Nat
  | [] => (none, 0)
  | 'u' :: r =>
    let e := pointEscape r
    let paired := r.head? != some '{' && e.size == 10
    match e.points with
    | [p] =>
      if !paired && !isSurrogate p && n.fits (Char.ofNat p) then (some (Char.ofNat p), e.size + 1)
      else (none, e.size + 1)
    | _ => (none, e.size + 1)
  | _ :: _ => (none, 1)

/-- Takes the backslash of an escape; one that stands for no character of a name is passed over
and leaves the name not sound. -/
def takeEscape (n : NameReading) (x : Option Char) : NameReading :=
  { read := x.toList ++ n.read, after := n.after.step, first := false, escaped := true,
    sound := n.sound && x.isSome }

/-- Reads on to the end of the name, after the characters of an escape that are only passed. -/
def finish : List Char → Nat → NameReading → NameReading
  | [], _, n => n
  | _ :: r, passed + 1, n => finish r passed { n with after := n.after.step }
  | '\\' :: r, 0, n =>
    let (x, size) := n.escape r
    finish r size (n.takeEscape x)
  | x :: r, 0, n =>
    if n.fits x then finish r 0 { n with read := x :: n.read, after := n.after.step, first := false }
    else n

end NameReading

/-- Reads a name as a token of the given kind; `none` if there is none. -/
def name? (kind : TokenKind) (c : Cursor) : Option Lexeme :=
  let n := NameReading.finish c.rest 0 { read := [], after := c }
  if n.first then none
  else
    some {
      kind := kind, after := n.after, value := String.ofList n.read.reverse, escaped := n.escaped,
      sound := n.sound }

/-- Reads the inside of a string up to its quote, after the characters of an escape that are only
passed: its code points, backwards, whether all escapes are well formed, and the end of the
string.  A string ends on its line. -/
def stringBody (quote : Char) :
    List Char → Nat → Nat → List Nat → Bool → Option (List Nat × Bool × Cursor)
  | [], _, _, _, _ => none
  | x :: r, offset, passed + 1, read, valid =>
    stringBody quote r (offset + x.utf8Size) passed read valid
  | '\\' :: r, offset, 0, read, valid =>
    let e := readEscape false r
    stringBody quote r (offset + 1) e.size (e.points.reverse ++ read) (valid && e.valid)
  | x :: r, offset, 0, read, valid =>
    if x == quote then some (read, valid, ⟨offset + x.utf8Size, r⟩)
    else if x == '\n' || x == '\r' then none
    else stringBody quote r (offset + x.utf8Size) 0 (x.toNat :: read) valid

/-- Reads a string whose opening quote is the first character. -/
def string (quote : Char) (c : Cursor) : Lexeme :=
  match stringBody quote c.step.rest c.step.offset 0 [] true with
  | some (read, valid, after) =>
    { kind := .string, after := after, value := cook read.reverse, halved := read.any isSurrogate,
      sound := valid }
  | none => { kind := .broken, after := ⟨c.limit, []⟩, sound := false }

/-- Reads a template up to its end or its next substitution, after the characters of an escape
that are only passed: whether it ended, whether all escapes are well formed, and where reading
goes on. -/
def templateBody : List Char → Nat → Nat → Bool → Option (Bool × Bool × Cursor)
  | [], _, _, _ => none
  | x :: r, offset, passed + 1, valid => templateBody r (offset + x.utf8Size) passed valid
  | '\\' :: r, offset, 0, valid =>
    let e := readEscape true r
    templateBody r (offset + 1) e.size (valid && e.valid)
  | '`' :: r, offset, 0, valid => some (true, valid, ⟨offset + 1, r⟩)
  | '$' :: '{' :: r, offset, 0, valid => some (false, valid, ⟨offset + 2, r⟩)
  | x :: r, offset, 0, valid => templateBody r (offset + x.utf8Size) 0 valid

/-- Reads a piece of a template whose first character opens or resumes it. -/
def template (whole part : TokenKind) (c : Cursor) : Lexeme :=
  match templateBody c.step.rest c.step.offset 0 true with
  | some (ended, valid, after) =>
    { kind := if ended then whole else part, after := after, cooked := valid }
  | none => { kind := .broken, after := ⟨c.limit, []⟩, sound := false }

/-! ## 4. Numbers -/

/-- How many characters a run of digits with separators takes, and whether each separator
stands between digits. -/
def digitRun (isDigit : Char → Bool) : List Char → Nat × Bool
  | '_' :: d :: r =>
    if isDigit d then
      let (n, sound) := digitRun isDigit r
      (n + 2, sound)
    else (1, false)
  | '_' :: [] => (1, false)
  | d :: r =>
    if isDigit d then
      let (n, sound) := digitRun isDigit r
      (n + 1, sound)
    else (0, true)
  | [] => (0, true)

/-- A number must not run into a name or a digit. -/
def finishNumber (kind : TokenKind) (sound : Bool) (c : Cursor) : Lexeme :=
  match c.rest with
  | x :: _ =>
    if x.isDigit || isNameStart x then
      { kind := .broken, after := c.skipWhile isNameStart, sound := false }
    else { kind := kind, after := c, sound := sound }
  | [] => { kind := kind, after := c, sound := sound }

/-- The exponent of a decimal number, if there is one, and the end of the number. -/
def exponent (sound : Bool) (c : Cursor) : Lexeme :=
  match c.rest with
  | 'e' :: r | 'E' :: r =>
    let signed := r.head? == some '+' || r.head? == some '-'
    let c := c.skip (if signed then 2 else 1)
    if c.rest.head?.any Char.isDigit then
      let (n, ok) := digitRun Char.isDigit c.rest
      finishNumber .number (sound && ok) (c.skip n)
    else { kind := .broken, after := c, sound := false }
  | _ => finishNumber .number sound c

/-- The digits after a decimal point, and the rest of the number. -/
def fraction (sound : Bool) (c : Cursor) : Lexeme :=
  if c.rest.head?.any Char.isDigit then
    let (n, ok) := digitRun Char.isDigit c.rest
    exponent (sound && ok) (c.skip n)
  else exponent sound c

/-- A number with a letter for its base. -/
def basedNumber (isDigit : Char → Bool) (c : Cursor) : Lexeme :=
  let c := c.skip 2
  if c.rest.head?.any isDigit then
    let (n, ok) := digitRun isDigit c.rest
    let c := c.skip n
    if !ok then { kind := .broken, after := c, sound := false }
    else if c.rest.head? == some 'n' then finishNumber .bigint true c.step
    else finishNumber .number true c
  else { kind := .broken, after := c, sound := false }

/-- Reads a number whose first character is a digit. -/
def number (c : Cursor) : Lexeme :=
  match c.rest with
  | '0' :: 'x' :: _ | '0' :: 'X' :: _ => basedNumber (fun d => (hexValue? d).isSome) c
  | '0' :: 'o' :: _ | '0' :: 'O' :: _ => basedNumber (fun d => '0' ≤ d && d ≤ '7') c
  | '0' :: 'b' :: _ | '0' :: 'B' :: _ => basedNumber (fun d => d == '0' || d == '1') c
  | '0' :: d :: _ =>
    if d.isDigit then
      -- A leading zero makes an octal number unless a digit is too large for one.
      let digits := c.rest.takeWhile Char.isDigit
      let c := c.skip digits.length
      if digits.all (· ≤ '7') then finishNumber .number true c
      else if c.rest.head? == some '.' then fraction true c.step
      else exponent true c
    else if d == '.' then fraction true (c.skip 2)
    else if d == 'n' then finishNumber .bigint true (c.skip 2)
    else exponent true c.step
  | _ =>
    let (n, ok) := digitRun Char.isDigit c.rest
    let c := c.skip n
    match c.rest with
    | '.' :: _ => fraction ok c.step
    | 'n' :: _ => finishNumber .bigint ok c.step
    | _ => exponent ok c

/-! ## 5. Marks and tokens -/

/-- Every mark, each before the marks that begin it.  A closing angle is read alone: whether it
begins a longer mark depends on the place. -/
def marks : List String :=
  ["...", "===", "!==", "**=", "<<=", "&&=", "||=", "??=",
   "=>", "==", "!=", "<=", "++", "--", "+=", "-=", "**", "*=", "/=", "%=", "<<", "&&", "&=", "||",
   "|=", "^=", "??", "?.",
   "\x7b", "\x7d", "(", ")", "[", "]", ";", ",", "<", ">", "+", "-", "*", "/", "%", "&", "|", "^",
   "!", "~", "?", ":", "=", "@", "."]

/-- Reads a mark. -/
def mark (c : Cursor) : Lexeme :=
  match marks.find? fun m => m.toList.isPrefixOf c.rest with
  | some m =>
    -- `a?.5:b` is a choice between numbers.
    if m == "?." && (c.rest.drop 2).head?.any Char.isDigit then
      { kind := .mark "?", after := c.step }
    else { kind := .mark m, after := c.skip m.length }
  | none => { kind := .broken, after := c.step, sound := false }

/-- Reads the token that starts at the cursor. -/
def lexeme (c : Cursor) : Lexeme :=
  match c.rest with
  | [] => { kind := .finish, after := c }
  | '"' :: _ => string '"' c
  | '\'' :: _ => string '\'' c
  | '`' :: _ => template .templateWhole .templateHead c
  | '#' :: _ =>
    (name? .privateName c.step).getD { kind := .broken, after := c.step, sound := false }
  | '.' :: d :: _ => if d.isDigit then fraction true c.step else mark c
  | x :: _ =>
    if x.isDigit then number c else (name? .name c).getD (mark c)

/-- The token after a place: the token, the text from its start, where reading goes on, and
whether all was sound. -/
structure Reading where
  token : Token
  text : List Char
  after : Cursor
  sound : Bool

/-- Places a lexeme. -/
def place (start : Cursor) (newline : Bool) (l : Lexeme) : Token :=
  ⟨l.kind, start.offset, l.after.offset, newline, l.escaped, l.value, l.cooked, l.halved⟩

/-- Skips blanks and comments and reads a token; `newline` says that a line starts at the cursor. -/
def nextFrom (newline : Bool) (c : Cursor) : Reading :=
  let gap := skipGap .plain c.rest c.offset newline true
  let l := lexeme gap.cursor
  ⟨place gap.cursor gap.newline l, gap.cursor.rest, l.after, gap.sound && l.sound⟩

/-- Skips blanks and comments and reads a token. -/
def next (c : Cursor) : Reading := nextFrom false c

/-- Reads the first token of a script, past a line that names its interpreter. -/
def first (c : Cursor) : Reading :=
  match c.rest with
  | '#' :: '!' :: _ => nextFrom true (c.skipWhile fun x => !isLineBreak x)
  | _ => nextFrom true c

/-! ## 6. Reading a token again -/

/-- Where a regular expression ends, flags apart: classes hide slashes.  `none` if it does not
end on its line. -/
def regexBody : List Char → Nat → Bool → Bool → Option Cursor
  | [], _, _, _ => none
  | c :: r, offset, inClass, escaped =>
    if isLineBreak c then none
    else if escaped then regexBody r (offset + c.utf8Size) inClass false
    else if c == '/' && !inClass then some ⟨offset + 1, r⟩
    else
      regexBody r (offset + c.utf8Size) ((inClass || c == '[') && c != ']') (c == '\\')

/-- Do the flags of a regular expression exist, and each only once? -/
def soundFlags : List Char → Bool
  | [] => true
  | c :: r => "dgimsuvy".toList.contains c && !r.contains c && soundFlags r

/-- Can the character stand among the flags of a regular expression? -/
def isFlag (c : Char) : Bool := c.isAlphanum || c == '$' || c == '_'

/-- Reads a regular expression whose first character is its opening slash. -/
def regex (c : Cursor) : Lexeme :=
  match regexBody c.step.rest c.step.offset false false with
  | some body =>
    { kind := .regex, after := body.skipWhile isFlag, sound := soundFlags (body.run isFlag) }
  | none =>
    { kind := .regex, after := c.skipWhile fun x => !isLineBreak x, sound := false }

/-- Marks that begin with a closing angle. -/
def angleMarks : List String := [">>>=", ">>>", ">>=", ">>", ">=", ">"]

/-- Reads the longest mark that begins with a closing angle. -/
def rightAngle (c : Cursor) : Lexeme :=
  match angleMarks.find? fun m => m.toList.isPrefixOf c.rest with
  | some m => { kind := .mark m, after := c.skip m.length }
  | none => { kind := .broken, after := c, sound := false }

/-- Reads the text between markup tags.  Text runs up to the next tag or substitution; a stray
closing bracket forms no token. -/
def markupChild (c : Cursor) : Lexeme :=
  match c.rest with
  | [] => { kind := .finish, after := c }
  | '<' :: _ => { kind := .mark "<", after := c.step }
  | '{' :: _ => { kind := .mark "\x7b", after := c.step }
  | _ =>
    let after := c.skipWhile fun x => !(x == '<' || x == '{' || x == '>' || x == '}')
    match after.rest with
    | '>' :: _ | '}' :: _ => { kind := .broken, after := after, sound := false }
    | [] => { kind := .finish, after := after }
    | _ => { kind := .markupText, after := after }

/-- Goes on with a name of markup, which may hold hyphens. -/
def markupName (value : String) (c : Cursor) : String × Cursor :=
  let isPart (x : Char) := x == '-' || isNamePart x
  (value ++ String.ofList (c.run isPart), c.skipWhile isPart)

/-- Reads the value of a markup attribute: a string has no escapes and may span lines. -/
def markupValue (c : Cursor) : Reading :=
  let gap := skipGap .plain c.rest c.offset false true
  let here := gap.cursor
  let l : Lexeme := match here.rest with
    | '"' :: _ | '\'' :: _ =>
      let quote := here.rest.head?.getD '"'
      let close := here.step.skipWhile (· != quote)
      if close.rest.isEmpty then { kind := .broken, after := close, sound := false }
      else { kind := .string, after := close.step }
    | _ => lexeme here
  ⟨place here gap.newline l, here.rest, l.after, gap.sound && l.sound⟩

end Lexer

end ComponentHost.Grammar
