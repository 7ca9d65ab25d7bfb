/- # Tokens of a script

A script is read as names, literals and marks.  Reserved words are names here: which of them
may serve as an identifier depends on the place, so the grammar asks for it (`Word`), and the
lexer does not.  Some characters can only be read once the grammar says what it expects, a
slash or a closing angle for instance; the lexer then reads the short form and the grammar
asks for the token to be read again.
-/
import ComponentHost.Text.Cursor

namespace ComponentHost.Grammar

/-! ## 1. Tokens -/

/-- What a token is. -/
inductive TokenKind where
  /-- The end of the text. -/
  | finish
  /-- Characters that form no token. -/
  | broken
  /-- An identifier or a reserved word. -/
  | name
  /-- A name with a leading `#`. -/
  | privateName
  | number
  | bigint
  | string
  | regex
  /-- A template without substitutions. -/
  | templateWhole
  /-- A template up to its first substitution. -/
  | templateHead
  /-- A template between two substitutions. -/
  | templateMiddle
  /-- A template after its last substitution. -/
  | templateTail
  /-- Text between markup tags. -/
  | markupText
  /-- An operator or a bracket. -/
  | mark (text : String)
deriving DecidableEq, Repr

/-- A token and where it stands. -/
structure Token where
  kind : TokenKind
  start : Nat
  stop : Nat
  /-- Does a line break stand between the token before and this one? -/
  newline : Bool
  /-- Is the name written with an escape? -/
  escaped : Bool
  /-- The name, or the value of a string. -/
  value : String
  /-- Are all escapes of a template well formed? -/
  cooked : Bool
  /-- Does the string hold a half pair, which no character stands for? -/
  halved : Bool
deriving Repr

/-! ## 2. Words -/

namespace Word

/-- Words that can never be an identifier. -/
def reserved : List String :=
  ["break", "case", "catch", "class", "const", "continue", "debugger", "default", "delete", "do",
   "else", "enum", "export", "extends", "false", "finally", "for", "function", "if", "import",
   "in", "instanceof", "new", "null", "return", "super", "switch", "this", "throw", "true", "try",
   "typeof", "var", "void", "while", "with"]

/-- Words that are identifiers except where the grammar gives them a meaning. -/
def contextual : List String :=
  ["as", "assert", "asserts", "async", "await", "abstract", "accessor", "any", "bigint", "boolean",
   "constructor", "declare", "defer", "from", "get", "global", "implements", "infer", "interface",
   "intrinsic", "is", "keyof", "let", "meta", "module", "namespace", "never", "number", "object",
   "of", "out", "override", "package", "private", "protected", "public", "readonly", "require",
   "satisfies", "set", "source", "static", "string", "symbol", "target", "type", "undefined",
   "unique", "unknown", "using", "yield"]

/-- Words that are kept free for later use. -/
def future : List String :=
  ["implements", "interface", "package", "private", "protected", "public", "static"]

/-- Words that can stand before a declaration or a member to qualify it. -/
def modifiers : List String :=
  ["abstract", "accessor", "async", "const", "declare", "default", "export", "in", "out", "override",
   "private", "protected", "public", "readonly", "static"]

/-- Is the word never an identifier? -/
def isReserved (w : String) : Bool := reserved.contains w

/-- Has the word a meaning somewhere in the grammar? -/
def isKeyword (w : String) : Bool := reserved.contains w || contextual.contains w

/-- Can the word not name a binding of a module? -/
def isUnbindable (w : String) : Bool := reserved.contains w || w == "await" || w == "yield"

/-- Can the word not name a binding that a module exports? -/
def isUnexportable (w : String) : Bool := isUnbindable w || future.contains w

/-- Can the word qualify a declaration or a member? -/
def isModifier (w : String) : Bool := modifiers.contains w

end Word

namespace Token

/-- Is the token the given mark? -/
def isMark (t : Token) (m : String) : Bool := t.kind == .mark m

/-- Is the token the given word? -/
def isWord (t : Token) (w : String) : Bool := t.kind == .name && t.value == w

/-- Is the token a name of any sort, reserved words included? -/
def isName (t : Token) : Bool := t.kind == .name

/-- Can the token be used as an identifier? -/
def isIdentifier (t : Token) : Bool := t.kind == .name && !Word.isReserved t.value

/-- Is the token a plain name, without a meaning anywhere in the grammar? -/
def isPlainName (t : Token) : Bool := t.kind == .name && !Word.isKeyword t.value

/-- Is the token a literal value? -/
def isLiteral (t : Token) : Bool :=
  match t.kind with
  | .number | .bigint | .string | .regex => true
  | .name => t.value == "true" || t.value == "false" || t.value == "null"
  | _ => false

end Token

end ComponentHost.Grammar
