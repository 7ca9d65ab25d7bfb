/- # Expressions

From loose to tight: assignments and arrow functions, choices, operators by level, operators
before their operand, calls and members, and single operands.

Whether a parenthesis opens an arrow function shows only after its closing one.  The first
tokens often decide (`Likely`); where they do not, the parameters are tried, and taken back if
no arrow follows.  Types between angles after an expression are tried the same way.
-/
import ComponentHost.Script.Grammar.Members

namespace ComponentHost.Grammar

open Parse

variable (r : Rules)

/-! ## 1. Operators -/

/-- How tightly an operator between two operands binds; the levels count from the loosest. -/
def operatorLevel? (t : Token) : Option Nat :=
  match t.kind with
  | .mark m =>
    match m with
    | "??" => some 1
    | "||" => some 2
    | "&&" => some 3
    | "|" => some 4
    | "^" => some 5
    | "&" => some 6
    | "==" | "!=" | "===" | "!==" => some 7
    | "<" | ">" | "<=" | ">=" => some 8
    | "<<" | ">>" | ">>>" => some 9
    | "+" | "-" => some 10
    | "*" | "/" | "%" => some 11
    | "**" => some 12
    | _ => none
  | .name => if ["in", "instanceof", "as", "satisfies"].contains t.value then some 8 else none
  | _ => none

/-- Marks that assign. -/
def assignmentMarks : List String :=
  ["=", "+=", "-=", "*=", "/=", "%=", "**=", "<<=", ">>=", ">>>=", "&=", "|=", "^=", "&&=", "||=",
   "??="]

/-- Marks and words that stand before their operand. -/
def isUnaryOperator (t : Token) : Bool :=
  match t.kind with
  | .mark m => ["+", "-", "!", "~"].contains m
  | .name => ["typeof", "void", "delete"].contains t.value
  | _ => false

/-- Is the token an operator that computes a value from both of its operands? -/
def isBinaryOperator (t : Token) : Bool :=
  (operatorLevel? t).isSome &&
    !(["??", "||", "&&"].any t.isMark || ["as", "satisfies"].any t.isWord)

/-- Is the current token an operator between two operands? -/
def seesOperator : Parse Bool := do
  let t ← token
  if t.isWord "in" && !(← read).allowIn then return false
  return (operatorLevel? t).isSome

/-- Does an expression start here? -/
def startsExpression : Parse Bool := do
  let t ← token
  match t.kind with
  | .finish | .broken | .templateMiddle | .templateTail | .markupText => return false
  | .mark m =>
    return ["\x7b", "[", "(", "/", "/=", "+", "-", "~", "!", "++", "--", "<", "@"].contains m
  | .name =>
    if t.value == "import" then
      let n ← nextToken
      return n.isMark "(" || n.isMark "<" || n.isMark "."
    return !Word.isReserved t.value ||
      ["this", "super", "null", "true", "false", "function", "class", "new", "delete", "typeof",
       "void"].contains t.value
  | _ => return true

/-- Types between angles after an expression, if it can only be that. -/
def typeArguments? : Parse Bool := do
  return (← attempt (Types.argumentsInExpression r startsExpression seesOperator)).isSome

/-! ## 2. Single operands -/

/-- A template of expressions. -/
def template (tagged : Bool) : Parse Unit :=
  Types.templateOf tagged (discard <| bracketed r.expression)

/-- Is the current token the start of a template? -/
def seesTemplate : Parse Bool := do
  let k := (← token).kind
  return k == .templateWhole || k == .templateHead

/-- Expressions in parentheses. -/
def parenthesized : Parse Operand := do
  let start ← here
  expect "("
  let (items, trailing) ← bracketed <| commaList (sees ")") r.assignment
  if trailing || items.isEmpty then fail
  expect ")"
  let target := match items with
    | [e] => e.target.parenthesized
    | _ => .never
  return { range := ← rangeFrom start, target := target }

/-- A single operand. -/
def primary : Parse Operand := do
  let start ← here
  let t ← token
  let plain (form : Form) : Parse Operand := do
    bump
    return { range := ← rangeFrom start, form := form }
  match t.kind with
  | .number | .bigint => plain .constant
  | .string =>
    bump
    return { range := ← rangeFrom start, form := .string, text := t.value }
  | .templateWhole | .templateHead =>
    template r false
    return {
      range := ← rangeFrom start
      form := if t.kind == .templateWhole then .wholeTemplate else .other }
  | .mark "/" | .mark "/=" =>
    again Lexer.regex
    -- After an error in a token the bounds of the expression are not to be trusted.
    if !(← get).lexed then fail
    plain .other
  | .mark "(" => parenthesized r
  | .mark "[" => arrayLiteral r
  | .mark "\x7b" => objectLiteral r
  | .mark "@" => classExpression r
  | .name =>
    if t.value == "function" || (← seesAsyncFunction) then functionExpression r
    else if t.value == "class" then classExpression r
    else if t.value == "true" || t.value == "false" then plain .constant
    else if t.value == "this" || t.value == "null" then plain .other
    else
      let (name, range) ← identifier
      return { range := range, expression := .identifier name, target := .simple, form := .name }
  | _ => fail

/-! ## 3. Members and calls -/

/-- An expression followed by members and calls, as far as it is read. -/
structure Access where
  whole : Operand
  /-- The expression before the types between angles that end it, if any do. -/
  bare : Operand
  /-- An optional access stands inside. -/
  chained : Bool

/-- An access that ends in no types. -/
def Access.of (whole : Operand) (chained : Bool) : Access := ⟨whole, whole, chained⟩

/-- The arguments of a call, in parentheses. -/
def callArguments : Parse (List Operand) := do
  expect "("
  let (items, _) ← bracketed <| commaList (sees ")") (do
    if ← sees "..." then
      let value ← spread r
      return { range := value.range }
    r.assignment)
  expect ")"
  return items

/-- The range of the arguments of a call: the arguments themselves, or the end of the call. -/
def argumentsRange (call : TextRange) (items : List Operand) : TextRange :=
  match items.head?, items.getLast? with
  | some first, some last => ⟨first.range.start, last.range.stop⟩
  | _, _ => ⟨call.stop, call.stop⟩

/-- A call of an expression. -/
def call (start : Nat) (callee : Operand) : Parse Operand := do
  let items ← callArguments r
  let range ← rangeFrom start
  return {
    range := range
    expression :=
      .call callee.node (Node.parsed (items.map Operand.node) (argumentsRange range items)) }

/-- The name of a member after its dot. -/
def dotName : Parse Unit := do
  let t ← token
  if t.isName || t.kind == .privateName then bumpName else fail

/-- An expression in brackets. -/
def bracketName : Parse Unit := do
  expect "["
  discard <| bracketed r.expression
  expect "]"

/-- Goes on with members.  An optional access is followed only outside `new`. -/
def memberRest (start : Nat) (optional : Bool) : Access → Parse Access :=
  loop fun a => do
    let t ← token
    let reached (target : Target) (chained : Bool) : Parse (Access ⊕ Access) := do
      return .inl (.of { range := ← rangeFrom start, target := target } chained)
    let memberTarget : Target := if a.chained then .never else .simple
    match t.kind with
    | .mark "." =>
      check (a.whole.form != .instantiated)
      bump
      let isPath := a.whole.form.isPath && (← token).isName
      dotName
      let member : Operand := {
        range := ← rangeFrom start, target := memberTarget,
        form := if isPath then .dotted else .other }
      return .inl (.of member a.chained)
    | .mark "?." =>
      let n ← nextToken
      if !optional then return .inr a
      else if n.isName || n.kind == .privateName then
        check (a.whole.form != .instantiated)
        bump
        bumpName
        reached .never true
      else if n.isMark "[" then
        bump
        bracketName r
        reached .never true
      else return .inr a
    | .mark "[" =>
      if (← read).inDecorator then return .inr a
      bracketName r
      reached memberTarget a.chained
    | .mark "!" =>
      if t.newline || !(← typed) then return .inr a
      bump
      reached (if a.whole.target == .simple then .simple else .never) a.chained
    | .templateWhole | .templateHead =>
      check !a.chained
      template r true
      reached .never a.chained
    | .mark "<" | .mark "<<" =>
      if !(← typed) then return .inr a
      if ← typeArguments? r then
        return .inl ⟨{ range := ← rangeFrom start, form := .instantiated }, a.whole, a.chained⟩
      return .inr a
    | _ => return .inr a

/-- Goes on with members and calls. -/
def callRest (start : Nat) : Access → Parse Access :=
  loop fun a => do
    let a ← memberRest r start true a
    if ← eat "?." then
      if ← typed then discard <| typeArguments? r
      if ← seesTemplate then
        flaw
        template r true
        return .inl (.of { range := ← rangeFrom start } true)
      let c ← call r start a.whole
      return .inl (.of c true)
    if ← sees "(" then
      let c ← call r start a.bare
      return .inl (.of c a.chained)
    return .inr a

/-- An import used as an expression: a call, or a member of `import`. -/
def importExpression : Parse Operand := do
  let start ← here
  bump
  if ← eat "." then
    let t ← token
    if !(t.isWord "meta" || t.isWord "source" || t.isWord "defer") then fail
    bumpName
    if t.isWord "meta" then return { range := ← rangeFrom start }
  expect "("
  let (items, _) ← bracketed <| commaList (sees ")") r.assignment
  if items.isEmpty || items.length > 2 then fail
  expect ")"
  return { range := ← rangeFrom start, form := .importCall }

/-- An expression after `new`, with its arguments if it has any. -/
def newExpression : Parse Operand := do
  let start ← here
  bump
  if ← eat "." then
    if !(← seesWord "target") then fail
    bumpName
    return { range := ← rangeFrom start }
  let callee ← r .member
  check (callee.form != .importCall)
  if ← sees "?." then fail
  if ← sees "(" then discard <| callArguments r
  return { range := ← rangeFrom start }

/-- The expression that members and calls follow. -/
def head : Parse Operand := do
  let t ← token
  if t.isWord "super" then
    bump
    check (← seesAny [".", "[", "("])
    return { range := ⟨t.start, t.stop⟩ }
  if t.isWord "import" then importExpression r
  else if t.isWord "new" then newExpression r
  else primary r

/-- An expression followed by members. -/
def memberExpression : Parse Operand := do
  let start ← here
  let a ← memberRest r start false (.of (← head r) false)
  return a.whole

/-- An expression followed by members and calls.  A chain with an optional access is a whole of
its own. -/
def calleeExpression : Parse Operand := do
  let start ← here
  let first ← memberRest r start true (.of (← head r) false)
  let a ← callRest r start first
  if a.chained then return { range := a.whole.range }
  return a.whole

/-! ## 4. Operators before and after an operand -/

/-- `++` and `--`, before or after what they change. -/
def updateExpression : Parse Operand := do
  let start ← here
  if ← seesAny ["++", "--"] then
    bump
    let e ← r .unary
    if e.target != .simple then fail
    return { range := ← rangeFrom start }
  let e ← calleeExpression r
  if (← seesAny ["++", "--"]) && !(← startsLine) then
    if e.target != .simple then fail
    bump
    return { range := ← rangeFrom start }
  return e

/-- Does the word that waits or yields apply here?  Outside its functions it does if an operand
follows on the line, which is an error. -/
def startsOperand : Parse Bool :=
  ahead do
    bumpName
    let t ← token
    return !t.newline && !isBinaryOperator t && (t.isLiteral || t.isName)

/-- An expression with at most operators before it. -/
def unaryExpression : Parse Operand := do
  let start ← here
  let t ← token
  if isUnaryOperator t then
    bump
    let e ← r .unary
    let negates := t.isMark "-" && e.form == .constant
    return { range := ← rangeFrom start, form := if negates then .negated else .unary }
  if t.isMark "<" then
    if (← read).markup then
      bump
      r (.element false)
      return { range := ← rangeFrom start }
    if !(← typed) then fail
    bump
    if !(← eatWord "const") then discard r.type
    Types.closeAngle
    let e ← r .unary
    return {
      range := ← rangeFrom start
      target := if e.target == .simple then .simple else .never }
  if t.isWord "await" then
    let inside := (← read).inAsync
    if inside || (← startsOperand) then
      check inside
      bump
      discard <| withReader (fun c => { c with inAsync := true }) (r .unary)
      return { range := ← rangeFrom start, form := .unary }
  updateExpression r

/-! ## 5. Operators between operands -/

/-- Goes on with the operators that bind tighter than a level. -/
def binaryRest (level start : Nat) : Operand → Parse Operand :=
  loop fun lhs => do
    if ← sees ">" then again Lexer.rightAngle
    let t ← token
    match operatorLevel? t with
    | none => return .inr lhs
    | some own =>
      -- Powers group from the right.
      if if t.isMark "**" then own < level else own ≤ level then return .inr lhs
      if t.isWord "in" && !(← read).allowIn then return .inr lhs
      if t.isWord "as" || t.isWord "satisfies" then
        if t.newline then return .inr lhs
        bump
        if !(← eatWord "const") then discard r.type
        check (← typed)
        return .inl {
          range := ← rangeFrom start
          target := if lhs.target == .simple then .simple else .never }
      bump
      let rhs ← r (.binary own)
      let range ← rangeFrom start
      if t.isMark "??" then
        check (lhs.form != .logical && rhs.form != .logical)
        return .inl { range := range }
      if t.isMark "&&" || t.isMark "||" then return .inl { range := range, form := .logical }
      if t.isMark "**" then check !lhs.form.isUnary
      return .inl { range := range }

/-- An expression of operators that bind tighter than a level. -/
def binaryExpression (level : Nat) : Parse Operand := do
  let start ← here
  let t ← token
  if t.kind == .privateName && (← read).allowIn then
    bumpName
    expectWord "in"
    let object ← r (.binary 8)
    if object.form == .privateTest then fail
    binaryRest r level start { range := ← rangeFrom start, form := .privateTest }
  else
    binaryRest r level start (← unaryExpression r)

/-! ## 6. Arrow functions -/

/-- How sure it is that an arrow function starts. -/
inductive Likely where
  | no
  | maybe
  | yes
deriving DecidableEq, Repr

/-- What the tokens after a closing parenthesis say. -/
def likelyClosed : Parse Likely := do
  if ← seesAny ["=>", "\x7b"] then return .yes
  if (← typed) && (← sees ":") then return .maybe else return .no

/-- What the tokens after three dots say. -/
def likelyRest : Parse Likely := do
  if !(← seesIdentifier) then return .maybe
  bumpName
  if ← eat ")" then likelyClosed
  else if ← seesAny [":", "?"] then return .yes
  else return .no

/-- What the tokens after the opening parenthesis say. -/
def likelyInside : Parse Likely := do
  let t ← token
  match t.kind with
  | .mark ")" =>
    bump
    likelyClosed
  | .mark "[" | .mark "\x7b" => return .maybe
  | .mark "..." =>
    bump
    likelyRest
  | _ =>
    if !t.isName then return .no
    let n ← nextToken
    if Word.isModifier t.value && t.value != "async" && n.isIdentifier then
      return if n.isWord "as" then .no else .yes
    if !(t.isIdentifier || t.isWord "this") then return .no
    bumpName
    match (← token).kind with
    | .mark ":" => return .yes
    | .mark "?" =>
      bump
      if ← seesAny [":", ",", "=", ")"] then return .yes else return .no
    | .mark "," | .mark "=" | .mark ")" => return .maybe
    | _ => return .no

/-- What the tokens after the opening angle say.  Where markup is allowed, a list of type
parameters must not look like an element. -/
def likelyGeneric : Parse Likely := do
  if !((← seesIdentifier) || (← seesWord "const")) then return .no
  if !(← read).markup then return .maybe
  discard <| eatWord "const"
  bumpName
  if ← eatWord "extends" then
    if ← seesAny ["=", ">", "/"] then return .no else return .yes
  if ← seesAny [",", "="] then return .yes else return .no

/-- How sure it is that an arrow function with parameters in parentheses starts here. -/
def likelyArrow : Parse Likely := do
  let found ← peek? do
    if ← seesWord "async" then
      bumpName
      if ← startsLine then return .no
    if ← eat "(" then likelyInside
    else if (← typed) && (← eat "<") then likelyGeneric
    else return Likely.no
  return found.getD .no

/-- Passes the arrow, which must stand on the line of what is before it. -/
def arrow : Parse Unit := do
  check !(← startsLine)
  expect "=>"

/-- Parameters, result type and arrow; gives whether the function is asynchronous and whether
there is a result type. -/
def arrowHead : Parse (Bool × Bool) := do
  let async ← eatWord "async"
  let annotated ← withReader (fun c => { c with inAsync := c.inAsync || async }) do
    discard <| Types.parameters? r
    discard <| parameters r .arrow
    Types.result? r
  arrow
  return (async, annotated)

/-- An arrow function with parameters in parentheses, where one may start.  A result type is
taken back if it would leave a choice without its colon. -/
def possibleArrow? (returnTypes : Bool) : Parse (Option Operand) := do
  if ← isRefuted then return none
  let start ← here
  let found ← attempt do
    let (async, annotated) ← arrowHead r
    arrowBody r async returnTypes
    if annotated && !returnTypes && !(← sees ":") then fail
    return { range := ← rangeFrom start }
  if found.isNone then refute start
  return found

/-- An arrow function with parameters in parentheses; `none` if none starts here. -/
def parenthesizedArrow? (returnTypes : Bool) : Parse (Option Operand) := do
  let start ← here
  match ← likelyArrow with
  | .no => return none
  | .yes =>
    let (async, _) ← arrowHead r
    arrowBody r async true
    return some { range := ← rangeFrom start }
  | .maybe => possibleArrow? r returnTypes

/-- Does `async name =>` start here? -/
def seesAsyncArrow : Parse Bool := do
  if !(← seesWord "async") then return false
  ahead do
    bumpName
    let t ← token
    if t.newline || !t.isIdentifier || (t.isWord "await" && (← isTaken t)) then return false
    bumpName
    sees "=>"

/-! ## 7. Assignments and choices -/

/-- Uses an expression as the target of an assignment. -/
def takeTarget : Target → Parse Unit
  | .simple => pure ()
  | .pattern covers sound => do
    modify fun s => { s with covers := s.covers.filter fun c => !covers.contains c }
    check sound
  | _ => fail

/-- Does an expression that yields start here? -/
def seesYield : Parse Bool := do
  if !(← seesWord "yield") then return false
  if (← read).inGenerator then return true
  startsOperand

/-- An expression that yields. -/
def yieldExpression : Parse Operand := do
  let start ← here
  check (← read).inGenerator
  bump
  if !(← startsLine) then
    let all ← eat "*"
    let t ← token
    let ends := t.kind == .finish || t.isWord "in" ||
      (← seesAny [",", ";", "\x7d", "]", ")", ":"])
    if all || !ends then
      discard <| withReader (fun c => { c with inGenerator := true }) r.assignment
  return { range := ← rangeFrom start }

/-- The rest of a choice between two expressions, if there is one. -/
def choiceRest (start : Nat) (returnTypes : Bool) (condition : Operand) : Parse Operand := do
  if !(← eat "?") then return condition
  discard <| withIn (r (.assignment false))
  expect ":"
  discard <| r (.assignment returnTypes)
  return { range := ← rangeFrom start }

/-- An expression without commas. -/
def assignmentExpression (returnTypes : Bool) : Parse Operand := do
  let start ← here
  if ← seesYield then return ← yieldExpression r
  if let some f ← parenthesizedArrow? r returnTypes then return f
  if ← seesAsyncArrow then
    bump
    discard identifier
    arrow
    arrowBody r true returnTypes
    return { range := ← rangeFrom start }
  let lhs ← r (.binary 0)
  let t ← token
  if lhs.form == .name && t.isMark "=>" then
    arrow
    arrowBody r false returnTypes
    return { range := ← rangeFrom start }
  if ← seesAny assignmentMarks then
    takeTarget lhs.target
    bump
    discard <| r (.assignment returnTypes)
    return { range := ← rangeFrom start, target := .defaulted (t.isMark "=") }
  choiceRest r start returnTypes lhs

end ComponentHost.Grammar
