/- # Statements

The statements that are no declarations of modules.  A statement runs from its first token to
its last, a semicolon that ends it included.
-/
import ComponentHost.Script.Grammar.Expressions

namespace ComponentHost.Grammar

open Parse

variable (r : Rules)

/-- A statement of which only the range is kept. -/
def plainItem (p : Parse Unit) : Parse Item := do
  let start ← here
  p
  return { range := ← rangeFrom start }

/-- An expression in parentheses that belongs to a statement. -/
def condition : Parse Unit := do
  expect "("
  discard <| withIn r.expression
  expect ")"

/-! ## 1. Variables -/

/-- The sorts of declarations of variables. -/
inductive VariableKind where
  /-- Variables that can be changed. -/
  | free
  | constant
  /-- Variables that are disposed of at the end of their block. -/
  | resource
deriving DecidableEq, Repr

/-- A variable, as the rules for its declaration ask for it. -/
structure Declarator where
  names : List String
  plain : Bool
  /-- It is given a value. -/
  defined : Bool

/-- One variable.  A mark that promises a value needs a type and excludes a value; what is only
announced has a value only if it is a constant without a type. -/
def declarator (kind : VariableKind) : Parse Declarator := do
  let b ← r.binding
  let mut promised := false
  if ← typed then
    if b.plain && (← sees "!") && !(← startsLine) then
      bump
      promised := true
    if ← eat "?" then flaw
  let annotated ← annotation? r
  let defined ← eat "="
  if defined then
    let value ← r.assignment
    if (← read).ambient then
      check (kind == .constant && !annotated && value.form.isFixed)
  check !(promised && (defined || !annotated))
  if kind == .resource then check b.plain
  return ⟨b.names, b.plain, defined⟩

/-- Where it is not announced or taken from a collection, a constant, a resource or a pattern
needs a value. -/
def checkDefined (kind : VariableKind) (d : Declarator) : Parse Unit := do
  check (d.defined || (← read).ambient || (d.plain && kind == .free))

/-- The variables after `var`, `let`, `const` or `using`, and the sort of the declaration. -/
def declared : Parse (VariableKind × List Declarator) := do
  let t ← token
  let kind : VariableKind :=
    if t.isWord "const" then .constant
    else if t.isWord "var" || t.isWord "let" then .free
    else .resource
  bump
  if t.isWord "await" then bump
  return (kind, ← separated "," (declarator r kind))

/-- A declaration of variables as a statement, and their names. -/
def declaredAlone : Parse (List String) := do
  let (kind, items) ← declared r
  for i in items do checkDefined kind i
  endStatement
  return items.flatMap Declarator.names

/-- A statement that declares variables. -/
def variableStatement (single : Bool) : Parse Unit := do
  check (!single || (← seesWord "var"))
  discard <| declaredAlone r

/-- Does a declaration with `using` start here?  In the head of a loop `using of` does not. -/
def seesUsing (inLoop : Bool) : Parse Bool :=
  ahead do
    if ← seesWord "await" then
      bumpName
      if ← startsLine then return false
    if !(← seesWord "using") then return false
    bumpName
    let t ← token
    return !t.newline && (t.isMark "\x7b" || (t.isIdentifier && !(inLoop && t.isWord "of")))

/-- How a statement that starts with `let` goes on. -/
inductive LetForm where
  | declaration
  /-- An operation on the variable `let`. -/
  | operation
  /-- A member or a call of the variable `let`, which no semicolon ends. -/
  | access
  /-- The variable `let` alone. -/
  | name
deriving DecidableEq, Repr

/-- How the statement that starts with `let` here goes on. -/
def letForm (single : Bool) : Parse LetForm := do
  let n ← nextToken
  if isBinaryOperator n || assignmentMarks.any n.isMark then return .operation
  if n.isMark "." || n.isMark "(" then return .access
  if n.isMark ";" then return .name
  if single && !n.isMark "[" then return .name
  return .declaration

/-- A statement that starts with `let`. -/
def letStatement (single : Bool) : Parse Unit := do
  match ← letForm single with
  | .declaration => variableStatement r single
  | .operation =>
    discard r.assignment
    endStatement
  | .access => discard r.expression
  | .name =>
    discard identifier
    endStatement

/-! ## 2. Loops -/

/-- The rest of a loop over positions, from its first semicolon on. -/
def forRest : Parse Unit := do
  expect ";"
  if !(← sees ";") then discard <| withIn r.expression
  expect ";"
  if !(← sees ")") then discard <| withIn r.expression

/-- The head of a loop over a collection, from `in` or `of` on; false if neither is there. -/
def forEach : Parse Bool := do
  if ← eatWord "in" then
    discard <| withIn r.expression
    return true
  if ← eatWord "of" then
    discard <| withIn r.assignment
    return true
  return false

/-- Does the head of a loop declare variables here? -/
def seesLoopVariables : Parse Bool := do
  let t ← token
  if t.isWord "var" || t.isWord "const" then return true
  if t.isWord "let" then
    let n ← nextToken
    return n.isMark "[" || n.isMark "\x7b" ||
      (n.isIdentifier && !n.isWord "of") || (n.isWord "of" && !n.newline)
  seesUsing true

/-- The head of a loop that declares its variables. -/
def forDeclared (waits : Bool) : Parse Unit := do
  let (kind, items) ← withoutIn (declared r)
  if ← seesWord "in" then check (kind != .resource)
  if (← seesWord "in") || (← seesWord "of") then
    check (!waits || (← seesWord "of"))
    discard <| forEach r
  else
    check !waits
    for i in items do checkDefined kind i
    forRest r

/-- The head of a loop that starts with an expression. -/
def forExpression (waits : Bool) : Parse Unit := do
  let t ← token
  let n ← nextToken
  let unclear := n.isWord "of" && (t.isWord "let" || (t.isWord "async" && !waits))
  let first ← withoutIn r.expression
  if (← seesWord "in") || (← seesWord "of") then
    check !(unclear && (← seesWord "of"))
    check (!waits || (← seesWord "of"))
    takeTarget first.target
    discard <| forEach r
  else
    check !waits
    forRest r

/-- A loop with `for`. -/
def forStatement : Parse Unit := do
  expectWord "for"
  let waits ← eatWord "await"
  check (!waits || (← read).inAsync)
  expect "("
  if ← sees ";" then
    check !waits
    forRest r
  else if ← seesLoopVariables then forDeclared r waits
  else forExpression r waits
  expect ")"
  discard r.body

/-! ## 3. Other statements -/

/-- A statement with `switch`. -/
def switchStatement : Parse Unit := do
  expectWord "switch"
  condition r
  expect "\x7b"
  discard <| repeatWhile (do return !(← sees "\x7d")) do
    if ← eatWord "case" then discard <| withIn r.expression
    else expectWord "default"
    expect ":"
    discard <| repeatWhile (do
      return !((← sees "\x7d") || (← seesWord "case") || (← seesWord "default"))) (do
        -- A case is no block, so nothing is disposed of at its end.
        check !(← seesUsing false)
        r.statement)
  expect "\x7d"

/-- A statement with `try`. -/
def tryStatement : Parse Unit := do
  expectWord "try"
  block r
  let caught ← eatWord "catch"
  if caught then
    if ← eat "(" then
      discard r.binding
      discard <| annotation? r
      expect ")"
    block r
  let finished ← eatWord "finally"
  if finished then block r
  check (caught || finished)

/-- A jump out of a loop or a labelled statement. -/
def jumpStatement : Parse Unit := do
  bump
  if !(← mayEnd) then discard identifier
  endStatement

/-- A statement with `return`. -/
def returnStatement : Parse Unit := do
  check (← read).inFunction
  bump
  if !(← mayEnd) then discard <| withIn r.expression
  endStatement

/-- An expression as a statement, or a label and the statement after it. -/
def expressionStatement : Parse Item := do
  let start ← here
  let e ← r.expression
  if e.form == .name && (← sees ":") then
    bump
    discard r.body
    return { range := ← rangeFrom start }
  endStatement
  return { range := ← rangeFrom start, isText := e.form == .string }

/-- A function as a statement.  Where a declaration may not stand, only plain functions may. -/
def functionStatement (single : Bool) : Parse Unit := do
  let f ← functionDeclaration r false true
  check !(single && (f.async || f.generator))

/-- A class as a statement. -/
def classStatement (single : Bool) : Parse Unit := do
  check !single
  discard <| classRest r

/-- A statement that starts with one of the words of control flow; `none` if the word has no
such meaning. -/
def controlStatement? (w : String) : Option (Parse Unit) :=
  match w with
  | "if" => some do
    bump
    condition r
    discard r.body
    if ← eatWord "else" then discard r.body
  | "do" => some do
    bump
    discard r.body
    expectWord "while"
    condition r
    discard <| eat ";"
  | "while" | "with" => some do
    bump
    condition r
    discard r.body
  | "for" => some (forStatement r)
  | "continue" | "break" => some jumpStatement
  | "switch" => some (switchStatement r)
  | "throw" => some do
    bump
    check !(← startsLine)
    discard <| withIn r.expression
    endStatement
  | "try" => some (tryStatement r)
  | "debugger" => some do
    bump
    endStatement
  | "return" => some (returnStatement r)
  | _ => none

end ComponentHost.Grammar
