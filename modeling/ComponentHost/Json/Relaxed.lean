/- # Configuration texts with comments

Hand-written configuration allows two things that plain data does not: comments, `// ..` to the
end of the line and `/* .. */`, and a comma after the last item before `]` or `}`.  `strict`
removes both and leaves every other character alone; inside quotes nothing is removed.
-/
namespace ComponentHost.Json.Relaxed

/-! ## 1. Comments -/

mutual

/-- The text without comments, read outside quotes. -/
def uncommented : List Char → List Char
  | [] => []
  | '"' :: r => '"' :: quoted r
  | '/' :: '/' :: r => lineComment r
  | '/' :: '*' :: r => blockComment r
  | c :: r => c :: uncommented r

/-- The text without comments, read inside quotes.  A backslash hides the character after it. -/
def quoted : List Char → List Char
  | [] => []
  | '\\' :: c :: r => '\\' :: c :: quoted r
  | '"' :: r => '"' :: uncommented r
  | c :: r => c :: quoted r

/-- The text after a comment that lasts to the end of the line; the line end is kept. -/
def lineComment : List Char → List Char
  | [] => []
  | '\n' :: r => '\n' :: uncommented r
  | _ :: r => lineComment r

/-- The text after a comment that lasts to its closing mark. -/
def blockComment : List Char → List Char
  | [] => []
  | '*' :: '/' :: r => uncommented r
  | _ :: r => blockComment r

end

/-! ## 2. Commas -/

/-- White space between items. -/
def isSpace (c : Char) : Bool :=
  c == ' ' || c == '\t' || c == '\n' || c == '\x0c' || c == '\r'

/-- Is the end of a list or an object next, apart from white space? -/
def closes (cs : List Char) : Bool :=
  match cs.dropWhile isSpace with
  | c :: _ => c == '}' || c == ']'
  | [] => false

mutual

/-- The text without commas before a closing bracket, read outside quotes. -/
def withoutCommas : List Char → List Char
  | [] => []
  | '"' :: r => '"' :: quotedCommas r
  | ',' :: r => if closes r then withoutCommas r else ',' :: withoutCommas r
  | c :: r => c :: withoutCommas r

/-- The text without commas before a closing bracket, read inside quotes. -/
def quotedCommas : List Char → List Char
  | [] => []
  | '\\' :: c :: r => '\\' :: c :: quotedCommas r
  | '"' :: r => '"' :: withoutCommas r
  | c :: r => c :: quotedCommas r

end

/-- The text as plain data: without comments and without commas before a closing bracket. -/
def strict (text : String) : String :=
  String.ofList (withoutCommas (uncommented text.toList))

end ComponentHost.Json.Relaxed
