/- # Types

The host shows nothing of a type, so the rules here say where a type ends, and keep its form
only as far as another rule asks for it (`TypeForm`).
-/
import ComponentHost.Script.Grammar.Bindings

namespace ComponentHost.Grammar

open Parse

namespace Types

variable (r : Rules)

/-! ## 1. Lists of types -/

/-- Splits `<<` in front of the current place, so that two lists can open at once. -/
def splitLeftAngle : Parse Unit := do
  if ← seesAny ["<<", "<<=", "<="] then
    again fun c => { kind := .mark "<", after := c.step }

/-- Splits a mark that starts with a closing angle. -/
def splitRightAngle : Parse Unit := do
  if ← seesAny [">>", ">>>", ">=", ">>=", ">>>="] then
    again fun c => { kind := .mark ">", after := c.step }

/-- Passes a closing angle. -/
def closeAngle : Parse Unit := do
  splitRightAngle
  expect ">"

/-- Is the current token a closing angle, alone or joined with more? -/
def seesRightAngle : Parse Bool := seesAny [">", ">>", ">>>", ">=", ">>=", ">>>="]

/-- Types between angles. -/
def arguments : Parse Unit := do
  splitLeftAngle
  expect "<"
  let (items, _) ← commaList seesRightAngle r.type
  check !items.isEmpty
  closeAngle

/-- Types between angles, if an angle follows on the same line. -/
def argumentsHere? : Parse Unit := do
  if (← seesAny ["<", "<<"]) && !(← startsLine) then arguments r

/-- One parameter of a generic declaration. -/
def typeParameter : Parse Unit := do
  allowOnly (← modifiers true false) ["in", "out", "const"]
  discard identifier
  if ← eatWord "extends" then discard r.type
  if ← eat "=" then discard r.type

/-- Parameters of a generic declaration, if there are any; gives whether there are. -/
def parameters? : Parse Bool := do
  if !(← typed) then return false
  if !(← eat "<") then return false
  let (items, _) ← commaList seesRightAngle (typeParameter r)
  check !items.isEmpty
  closeAngle
  return true

/-! ## 2. Signatures -/

/-- The type of a result: a type, or a statement about a parameter. -/
def result : Parse Unit := do
  let n ← nextToken
  if (← token).isName && n.isWord "is" && !n.newline then
    bumpName
    bump
  discard r.type

/-- The type of a result after its colon, if there is one; gives whether there is. -/
def result? : Parse Bool := do
  if !(← typed) then return false
  if ← eat ":" then
    freeTypes (result r)
    return true
  return false

/-- Passes the start of a parameter; false if none starts here. -/
def skipParameterStart : Parse Bool := do
  discard <| modifiers false false
  if (← seesIdentifier) || (← seesWord "this") then
    bumpName
    return true
  if !(← seesAny ["[", "\x7b"]) then return false
  let before := (← get).sound
  discard r.binding
  return (← get).sound == before

/-- Does a function type start here?  A parenthesis may also open a type in parentheses: what
follows the first parameter tells. -/
def startsFunction : Parse Bool := do
  let t ← token
  if t.isMark "<" then return true
  if t.isWord "new" then return true
  if t.isWord "abstract" then return (← nextToken).isWord "new"
  if !t.isMark "(" then return false
  ahead do
    bump
    if (← sees ")") || (← sees "...") then return true
    if !(← skipParameterStart r) then return false
    if ← seesAny [":", ",", "?", "="] then return true
    if ← eat ")" then sees "=>" else return false

/-- A type of functions or constructors. -/
def functionType : Parse Unit := do
  discard <| eatWord "abstract"
  let constructs ← eatWord "new"
  discard <| parameters? r
  discard <| parameters r (if constructs then .constructorType else .signature)
  expect "=>"
  result r

/-! ## 3. Members -/

/-- A member of a type may end in a separator. -/
def endMember : Parse Unit := do
  if !(← eat ",") then discard <| eat ";"

/-- Does `[name :` follow, the start of an index signature? -/
def startsIndex : Parse Bool := do
  if !(← sees "[") then return false
  ahead do
    bump
    if ← seesAny ["...", "]"] then return true
    let t ← token
    if t.isName && Word.isModifier t.value then
      if ← ahead (do bumpName; seesIdentifier) then return true
    if !(← seesIdentifier) then return false
    bumpName
    if ← seesAny [":", ","] then return true
    if !(← eat "?") then return false
    seesAny [":", ",", "]"]

/-- The parameter of an index signature. -/
def indexParameter : Parse Unit := do
  discard anyName
  if ← eat "?" then flaw
  expect ":"
  r.freeType

/-- An index signature, which has one parameter. -/
def index : Parse Unit := do
  expect "["
  let (items, _) ← commaList (sees "]") (indexParameter r)
  check (items.length == 1)
  expect "]"
  expect ":"
  r.freeType
  endMember

/-- The parameters and the result of a signature. -/
def signature (holder : Holder) : Parse Unit := do
  discard <| parameters? r
  discard <| parameters r holder
  discard <| result? r

/-- An accessor of a type.  A setter has no result. -/
def accessorSignature (kind : AccessorKind) : Parse Unit := do
  discard <| memberKey r
  check !(← parameters? r)
  accessorParameters r kind .signature
  let annotated ← result? r
  check !(annotated && kind == .setter)
  endMember

/-- A property or a method of a type. -/
def memberSignature (words : List String) : Parse Unit := do
  discard <| memberKey r
  discard <| eat "?"
  if (← sees "(") || (← sees "<") then
    check !(words.contains "readonly")
    signature r .signature
  else discard <| annotation? r
  endMember

/-- One member of a type. -/
def member : Parse Unit := do
  if (← sees "(") || (← sees "<") then
    signature r .signature
    endMember
    return ()
  if ← seesWord "new" then
    let n ← nextToken
    if n.isMark "(" || n.isMark "<" then
      bump
      signature r .constructorType
      endMember
      return ()
  let words ← modifiers false false
  allowOnly words ["readonly"]
  if ← accessor? "get" then accessorSignature r .getter
  else if ← accessor? "set" then accessorSignature r .setter
  else if ← startsIndex then index r
  else memberSignature r words

/-- The members of a type, in braces. -/
def members : Parse Unit := do
  expect "\x7b"
  discard <| repeatWhile (do return !(← sees "\x7d")) (member r)
  expect "\x7d"

/-- Does a mapped type start here? -/
def startsMapped : Parse Bool :=
  ahead do
    bump
    if ← seesAny ["+", "-"] then
      bump
      return ← seesWord "readonly"
    discard <| eatWord "readonly"
    if !(← eat "[") then return false
    if !(← seesIdentifier) then return false
    bumpName
    seesWord "in"

/-- A mapped type. -/
def mapped : Parse Unit := do
  expect "\x7b"
  if ← seesAny ["+", "-"] then
    bump
    expectWord "readonly"
  else discard <| eatWord "readonly"
  expect "["
  discard anyName
  expectWord "in"
  r.freeType
  if ← eatWord "as" then r.freeType
  expect "]"
  if ← seesAny ["+", "-"] then
    bump
    expect "?"
  else discard <| eat "?"
  if ← eat ":" then r.freeType
  endStatement
  expect "\x7d"

/-! ## 4. Operands -/

/-- Is the element of a tuple that starts here named? -/
def startsNamedElement : Parse Bool :=
  ahead do
    discard <| eat "..."
    if !(← token).isName then return false
    bumpName
    if ← sees ":" then return true
    if ← eat "?" then sees ":" else return false

/-- An element of a tuple.  One with a name carries its mark on the name, and not on the type. -/
def tupleElement : Parse Unit := do
  if ← startsNamedElement then
    let rest ← eat "..."
    bumpName
    let optional ← eat "?"
    check !(rest && optional)
    expect ":"
    let dots ← eat "..."
    let form ← freeTypes r.type
    check !(dots || form == .optional)
  else
    discard <| eat "..."
    r.freeType

/-- A dotted name. -/
def dottedName : Parse Unit := do
  discard anyName
  discard <| repeatWhile (eat ".") anyName

/-- Goes on with a template from a closing brace. -/
def resumeTemplate : Parse Unit := do
  if ← sees "\x7d" then again (Lexer.template .templateTail .templateMiddle)

/-- The rest of a template after its first part: items, and the parts between them. -/
def templateRest (tagged : Bool) (item : Parse Unit) : Parse Unit := do
  item
  resumeTemplate
  loop (fun (_ : Unit) => do
    let t ← token
    match t.kind with
    | .templateTail =>
      check (tagged || t.cooked)
      bump
      return .inr ()
    | .templateMiddle =>
      check (tagged || t.cooked)
      bump
      return .inl ()
    | .finish => fail
    | _ =>
      item
      resumeTemplate
      return .inl ()) ()

/-- A template.  Only one with a tag may hold malformed escapes. -/
def templateOf (tagged : Bool) (item : Parse Unit) : Parse Unit := do
  let first ← token
  check (tagged || first.cooked)
  bump
  if first.kind == .templateHead then templateRest tagged item

/-- Do the options of an imported type say how to import it, and nothing else? -/
def seesImportOptions : Parse Bool :=
  ahead do
    expect "\x7b"
    if !(← eatWord "with") then expectWord "assert"
    expect ":"
    expect "\x7b"
    discard <| commaList (sees "\x7d") (do
      let k := (← token).kind
      if !(k == .name || k == .string) then fail
      bumpName
      expect ":"
      discard r.assignment)
    expect "\x7d"
    discard <| eat ","
    sees "\x7d"

/-- The name of a module in a type, and what is taken of it. -/
def importType : Parse Unit := do
  expectWord "import"
  expect "("
  check ((← freeTypes r.type) == .string)
  if ← eat "," then
    if !(← sees "\x7b") then fail
    check (← seesImportOptions r)
    discard r.assignment
    discard <| eat ","
  expect ")"
  if ← eat "." then dottedName
  argumentsHere? r

/-- Words that are types by themselves, unless a dot follows. -/
def plainWords : List String :=
  ["any", "unknown", "string", "number", "bigint", "symbol", "boolean", "undefined", "never",
   "object"]

/-- Words that are types by themselves. -/
def fixedWords : List String := ["null", "true", "false", "void"]

/-- Does a statement about a parameter start here? -/
def seesAssertion : Parse Bool := do
  if !(← seesWord "asserts") then return false
  let n ← nextToken
  return n.isName && !n.newline

/-- A type that is named, with its arguments. -/
def reference : Parse Unit := do
  dottedName
  argumentsHere? r

/-- A type that starts with a word. -/
def wordType (word : String) : Parse Unit := do
  if word == "this" then
    bump
    if (← seesWord "is") && !(← startsLine) then
      bump
      discard r.type
  else if word == "typeof" then
    bump
    if ← seesWord "import" then importType r else reference r
  else if word == "import" then importType r
  else if fixedWords.contains word then bump
  else if plainWords.contains word && !(← nextToken).isMark "." then bump
  else if ← seesAssertion then
    bump
    bumpName
    if ← eatWord "is" then discard r.type
  else reference r

/-- Marks after which a question mark is a type of its own. -/
def unknownEnds : List String := [",", "\x7d", ")", ">", "=", "|"]

/-- A type that is no operator, array or member of another. -/
def primary : Parse TypeForm := do
  let t ← token
  match t.kind with
  | .string =>
    bump
    return .string
  | .number | .bigint => bump
  | .templateWhole | .templateHead => templateOf false r.freeType
  | .mark "-" =>
    bump
    let k := (← token).kind
    if k == .number || k == .bigint then bump else fail
  | .mark "\x7b" => if ← startsMapped then mapped r else members r
  | .mark "[" =>
    bump
    discard <| commaList (sees "]") (tupleElement r)
    expect "]"
    return .list
  | .mark "(" =>
    bump
    r.freeType
    expect ")"
  | .mark "?" =>
    bump
    if !(← seesAny unknownEnds) then discard r.type
  | .mark "!" =>
    bump
    discard <| r .typeOperand
  | .name => wordType r t.value
  | _ => fail
  return .other

/-- Does a type start here? -/
def startsType : Parse Bool := do
  let t ← token
  match t.kind with
  | .string | .number | .bigint | .templateWhole | .templateHead => return true
  | .mark m => return ["\x7b", "[", "(", "<", "|", "&", "*", "?", "!", "-", "..."].contains m
  | .name =>
    return !Word.isReserved t.value || fixedWords.contains t.value ||
      ["this", "typeof", "import", "new", "function"].contains t.value
  | _ => return false

/-- What may follow a type: brackets of arrays and members, marks of optional types. -/
def suffixes : TypeForm → Parse TypeForm :=
  loop fun form => do
    if ← startsLine then return .inr form
    if ← eat "!" then return .inl .other
    if ← sees "?" then
      -- Before another type the mark belongs to a condition.
      if ← ahead (do bump; startsType) then return .inr form
      bump
      return .inl .optional
    if ← eat "[" then
      if ← eat "]" then return .inl .list
      r.freeType
      expect "]"
      return .inl .other
    return .inr form

/-- The bound of a type that is to be found, unless `extends` starts the condition around it. -/
def inferredBound : Parse Unit := do
  if ← seesWord "extends" then
    discard <| attempt do
      bump
      discard <| withReader (fun c => { c with plainTypes := true }) r.type
      if !(← read).plainTypes && (← sees "?") then fail

/-- A type without operators between types.  Only arrays and tuples can be read-only. -/
def operand : Parse TypeForm := do
  let t ← token
  if t.isWord "keyof" || t.isWord "unique" then
    bump
    discard <| r .typeOperand
    return .other
  if t.isWord "readonly" then
    bump
    check ((← r .typeOperand) == .list)
    return .other
  if t.isWord "infer" then
    bump
    discard identifier
    inferredBound r
    return .other
  freeTypes do suffixes r (← primary r)

/-- Items joined by a mark, which may also stand before the first. -/
def joined (mark : String) (item : Parse TypeForm) : Parse TypeForm := do
  let leading ← eat mark
  let forms ← separated mark item
  return match leading, forms with
    | false, [form] => form
    | _, _ => .other

/-- A type. -/
def full : Parse TypeForm := do
  if ← startsFunction r then
    functionType r
    return .other
  let form ← joined "|" (joined "&" (r .typeOperand))
  if !(← read).plainTypes && !(← startsLine) && (← seesWord "extends") then
    bump
    discard <| withReader (fun c => { c with plainTypes := true }) r.type
    expect "?"
    r.freeType
    expect ":"
    r.freeType
    return .other
  return form

/-! ## 5. Types after expressions -/

/-- Can the current token follow types between angles in an expression?  If it could go on
with a comparison, the angles are operators. -/
def followsArguments (startsExpression : Parse Bool) (seesOperator : Parse Bool) : Parse Bool := do
  let t ← token
  match t.kind with
  | .templateWhole | .templateHead => return true
  | .mark m =>
    if m == "(" then return true
    if ["<", ">", "+", "-"].contains m then return false
    if ← startsLine then return true
    if ← seesOperator then return true
    return !(← startsExpression)
  | _ =>
    if ← startsLine then return true
    if ← seesOperator then return true
    return !(← startsExpression)

/-- Types between angles after an expression. -/
def argumentsInExpression (startsExpression : Parse Bool) (seesOperator : Parse Bool) :
    Parse Unit := do
  if !(← typed) then fail
  if !(← seesAny ["<", "<<"]) then fail
  splitLeftAngle
  expect "<"
  discard <| commaList seesRightAngle r.type
  again Lexer.rightAngle
  if !(← sees ">") then fail
  bump
  if !(← followsArguments startsExpression seesOperator) then fail

end Types

end ComponentHost.Grammar
