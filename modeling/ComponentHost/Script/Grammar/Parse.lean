/- # Steps of the script grammar

A step reads the current token, moves on, and gives a value.  It can end in three ways:

* it gives a value;
* it gives a value and leaves the state not `sound`: the text has an error, but the rules know
  how to go on;
* it gives nothing: the text cannot be read on, and no statement of it is kept.

What a rule may accept depends on its surroundings (`Context`): inside a generator, before an
`in` that belongs to a loop, in typed scripts.  A step can be tried and taken back, since the
state is a value.  Only one thing outlives a step that is taken back: the places where an arrow
function was tried and not found (`Refuted`), so that no place is tried twice.

Repetition is bounded by the size of the text (`Context.bound`): each round of a rule reads a
token, so the bound is never met.
-/
import ComponentHost.Script.Grammar.Lexer
import ComponentHost.Script.Tree

namespace ComponentHost.Grammar

/-! ## 1. Context and state -/

/-- What the surroundings of a rule allow. -/
structure Context where
  /-- The script is typed. -/
  typed : Bool
  /-- Markup elements are expressions. -/
  markup : Bool
  /-- No rule repeats more often than this. -/
  bound : Nat
  /-- `in` is an operator. -/
  allowIn : Bool := true
  /-- Inside a generator. -/
  inGenerator : Bool := false
  /-- Inside an asynchronous function, or at the top of a module. -/
  inAsync : Bool := true
  /-- Inside a function body. -/
  inFunction : Bool := false
  /-- Inside a declaration without implementation. -/
  ambient : Bool := false
  /-- Inside a decorator, where `[` starts the decorated member. -/
  inDecorator : Bool := false
  /-- `extends` does not start a conditional type. -/
  plainTypes : Bool := false

/-- Where reading stands, and what it has collected. -/
structure State where
  token : Token
  /-- The text from the token on, to read the token again. -/
  text : List Char
  /-- Where the token after the current one is looked for. -/
  after : Cursor
  /-- Where the last token that was passed ends. -/
  lastStop : Nat := 0
  /-- No error so far. -/
  sound : Bool := true
  /-- No error so far in the tokens themselves. -/
  lexed : Bool := true
  /-- Starts of the shorthand members with an initialiser that no pattern has taken up yet. -/
  covers : List Nat := []
  /-- Names exported so far. -/
  exported : List String := []

/-- Starts of parentheses that do not open the parameters of an arrow function. -/
abbrev Refuted := List Nat

/-- A step of the grammar. -/
abbrev Parse := ReaderT Context (StateT State (OptionT (StateM Refuted)))

namespace Parse

variable {α β : Type}

/-- The text cannot be read on. -/
def fail : Parse α := fun _ _ => OptionT.fail

/-- The text has an error, and reading goes on. -/
def flaw : Parse Unit := modify fun s => { s with sound := false }

/-- The text has an error if the condition fails. -/
def check (condition : Bool) : Parse Unit := if condition then pure () else flaw

/-! ## 2. Tokens -/

/-- The current token. -/
def token : Parse Token := do return (← get).token

/-- Where the current token starts. -/
def here : Parse Nat := do return (← get).token.start

/-- The range from a start to the end of the last token passed. -/
def rangeFrom (start : Nat) : Parse TextRange := do return ⟨start, (← get).lastStop⟩

/-- Takes over a token that was just read. -/
def enter (lastStop : Nat) (r : Lexer.Reading) : Parse Unit :=
  modify fun s =>
    { s with
      token := r.token, text := r.text, after := r.after, lastStop := lastStop,
      sound := s.sound && r.sound, lexed := s.lexed && r.sound }

/-- Passes the current token.  A word with a meaning must not be written with an escape. -/
def bump : Parse Unit := do
  let s ← get
  check !(s.token.escaped && s.token.kind == .name && Word.isKeyword s.token.value)
  enter s.token.stop (Lexer.next s.after)

/-- Passes the current token, which is any name. -/
def bumpName : Parse Unit := do
  let s ← get
  enter s.token.stop (Lexer.next s.after)

/-- Reads the current token again. -/
def again (read : Cursor → Lexer.Lexeme) : Parse Unit := do
  let s ← get
  let start : Cursor := ⟨s.token.start, s.text⟩
  let l := read start
  set { s with
    token := Lexer.place start s.token.newline l, after := l.after,
    sound := s.sound && l.sound, lexed := s.lexed && l.sound }

/-- Is the current token the given mark? -/
def sees (m : String) : Parse Bool := do return (← token).isMark m

/-- Is the current token the given word? -/
def seesWord (w : String) : Parse Bool := do return (← token).isWord w

/-- Is the current token one of the given marks? -/
def seesAny (ms : List String) : Parse Bool := do
  match (← token).kind with
  | .mark m => return ms.contains m
  | _ => return false

/-- Passes the given mark if it is there. -/
def eat (m : String) : Parse Bool := do
  if ← sees m then bump; return true else return false

/-- Passes the given word if it is there. -/
def eatWord (w : String) : Parse Bool := do
  if ← seesWord w then bump; return true else return false

/-- Passes the given mark. -/
def expect (m : String) : Parse Unit := do
  if !(← eat m) then fail

/-- Passes the given word. -/
def expectWord (w : String) : Parse Unit := do
  if !(← eatWord w) then fail

/-- Does the current token start a line? -/
def startsLine : Parse Bool := do return (← token).newline

/-- May a statement end before the current token? -/
def mayEnd : Parse Bool := do
  let t ← token
  return t.newline || t.kind == .finish || t.isMark ";" || t.isMark "\x7d"

/-- Ends a statement: at a semicolon, or where one may be left out. -/
def endStatement : Parse Unit := do
  if ← eat ";" then return ()
  if !(← mayEnd) then fail

/-! ## 3. Trying and repeating -/

/-- Runs a step and takes it back; `none` if it fails. -/
def peek? (p : Parse α) : Parse (Option α) := fun c s => OptionT.mk do
  match ← (p c s).run with
  | some (a, _) => return some (some a, s)
  | none => return some (none, s)

/-- Runs a test and takes it back. -/
def ahead (p : Parse Bool) : Parse Bool := do return (← peek? p).getD false

/-- Runs a step; if it fails nothing has happened. -/
def attempt (p : Parse α) : Parse (Option α) := fun c s => OptionT.mk do
  match ← (p c s).run with
  | some (a, s') => return some (some a, s')
  | none => return some (none, s)

/-- Was an arrow function tried here and not found? -/
def isRefuted : Parse Bool := do
  let place ← here
  return (← getThe Refuted).contains place

/-- Remembers that no arrow function starts at a place. -/
def refute (place : Nat) : Parse Unit := modifyThe Refuted (place :: ·)

/-- The token after the current one. -/
def nextToken : Parse Token := do return (Lexer.next (← get).after).token

/-- Repeats a step until it gives its final value. -/
def loopWith (step : α → Parse (α ⊕ β)) : Nat → α → Parse β
  | 0, _ => fail
  | n + 1, a => do
    match ← step a with
    | .inl a => loopWith step n a
    | .inr b => return b

/-- Repeats a step until it gives its final value, at most as often as the text allows. -/
def loop (step : α → Parse (α ⊕ β)) (a : α) : Parse β := do
  loopWith step ((← read).bound + 1) a

/-- Runs items while a test holds. -/
def repeatWhile (test : Parse Bool) (item : Parse α) : Parse (List α) := do
  let items ← loop (fun (read : List α) => do
    if ← test then return .inl ((← item) :: read) else return .inr read) []
  return items.reverse

/-- Items with commas between them, up to a closing token that is not passed.  Also gives
whether a comma stands before the closing token. -/
def commaList (close : Parse Bool) (item : Parse α) : Parse (List α × Bool) := do
  let (items, trailing) ← loop (fun (read : List α) => do
    if ← close then return .inr (read, !read.isEmpty)
    let read := (← item) :: read
    if ← eat "," then return .inl read
    if ← close then return .inr (read, false)
    fail) []
  return (items.reverse, trailing)

/-- Items with a separator between them, at least one. -/
def separated (mark : String) (item : Parse α) : Parse (List α) := do
  let items ← loop (fun (read : List α) => do
    let read := (← item) :: read
    if ← eat mark then return .inl read else return .inr read) []
  return items.reverse

/-! ## 4. Surroundings -/

/-- With `in` as an operator. -/
def withIn (p : Parse α) : Parse α := withReader (fun c => { c with allowIn := true }) p

/-- Without `in` as an operator. -/
def withoutIn (p : Parse α) : Parse α := withReader (fun c => { c with allowIn := false }) p

/-- Inside an expression of its own brackets. -/
def bracketed (p : Parse α) : Parse α :=
  withReader (fun c => { c with allowIn := true, inDecorator := false }) p

/-- Inside a function of the given sort. -/
def inFunctionOf (async generator : Bool) (p : Parse α) : Parse α :=
  withReader (fun c =>
    { c with allowIn := true, inAsync := async, inGenerator := generator, inDecorator := false }) p

/-- Inside a type in which `extends` may start a condition. -/
def freeTypes (p : Parse α) : Parse α := withReader (fun c => { c with plainTypes := false }) p

/-- Is the script typed? -/
def typed : Parse Bool := do return (← read).typed

/-! ## 5. Names -/

/-- Can the current token be used as an identifier? -/
def seesIdentifier : Parse Bool := do return (← token).isIdentifier

/-- Has the word of the token a meaning in the surroundings that keeps it from being a name? -/
def isTaken (t : Token) : Parse Bool := do
  let c ← read
  return (t.value == "await" && c.inAsync) || (t.value == "yield" && c.inGenerator)

/-- `await` and `yield` are no names where they have a meaning. -/
def checkIdentifier : Parse Unit := do
  check !(← isTaken (← token))

/-- An identifier with its range. -/
def identifier : Parse (String × TextRange) := do
  let t ← token
  if !t.isIdentifier then fail
  checkIdentifier
  bumpName
  return (t.value, ⟨t.start, t.stop⟩)

/-- Any name, reserved words included. -/
def anyName : Parse String := do
  let t ← token
  if !t.isName then fail
  bumpName
  return t.value

/-- A string with its range. -/
def stringLiteral : Parse (Node String) := do
  let t ← token
  if t.kind != .string then fail
  bump
  return Node.parsed t.value ⟨t.start, t.stop⟩

end Parse

end ComponentHost.Grammar
