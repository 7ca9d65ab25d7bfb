/- # Object literals and classes

Members of both start with words that may qualify what follows or be its name; which of the two
is decided by the token after them.  A class keeps some names for itself: it has one
constructor, which is no field, accessor or generator, and its static part has no `prototype`.
-/
import ComponentHost.Script.Grammar.Functions

namespace ComponentHost.Grammar

open Parse

variable (r : Rules)

/-! ## 1. Accessors -/

/-- Passes `get` or `set` if it qualifies the member that follows. -/
def accessorWord? : Parse (Option AccessorKind) := do
  if ← accessor? "get" then return some .getter
  if ← accessor? "set" then return some .setter
  return none

/-- An accessor from its parameters on; gives whether it has a body.  Accessors are not generic,
and a setter has no result. -/
def accessorRest (kind : AccessorKind) (holder : Holder) : Parse Bool :=
  inFunctionOf false false do
    check !(← Types.parameters? r)
    accessorParameters r kind holder
    let annotated ← Types.result? r
    check !(annotated && kind == .setter)
    let implemented ← functionBody? r
    if !implemented then endStatement
    return implemented

/-! ## 2. Object literals -/

/-- A member of an object literal. -/
structure Member where
  property : Node Property
  target : Target := .never
  spread : Bool := false

/-- Three dots and an expression. -/
def spread : Parse Operand := do
  let start ← here
  expect "..."
  let value ← r.assignment
  return { range := ← rangeFrom start, target := value.target }

/-- A member of an object literal. -/
def objectMember : Parse Member := do
  let start ← here
  let member (key : Option String) (target : Target) : Parse Member := do
    return { property := Node.parsed ⟨key⟩ (← rangeFrom start), target := target }
  if ← sees "..." then
    let value ← spread r
    return { property := Node.parsed ⟨none⟩ value.range, target := value.target, spread := true }
  let words ← modifiers false false
  if let some kind ← accessorWord? then
    allowOnly words []
    let key ← memberKey r
    discard <| accessorRest r kind .function
    return ← member key.name .never
  let generator ← eat "*"
  let t ← token
  let isReference := t.isIdentifier && !(← isTaken t)
  let key ← memberKey r
  if generator || (← sees "(") || (← sees "<") then
    allowOnly words ["async"]
    if !(← functionRest r .function (words.contains "async") generator) then fail
    return ← member key.name .never
  allowOnly words []
  if isReference && !(← sees ":") then
    if ← default? r then
      modify fun s => { s with covers := start :: s.covers }
      return ← member key.name (.pattern [start] true)
    return ← member key.name .simple
  expect ":"
  let value ← r.assignment
  member key.name value.target

/-- The target that a rest element is: a default is not for it. -/
def restTarget : Target → Target
  | .defaulted _ => .never
  | t => t

/-- The target that the rest of the members is: a pattern is an error there. -/
def restMemberTarget : Target → Target
  | .pattern covers _ => .pattern covers false
  | t => restTarget t

/-- The target that a literal is, given its elements and which of them are spread.  Only the
last may be, and no comma may follow it. -/
def literalTarget (rest : Target → Target) (elements : List (Target × Bool)) (trailing : Bool) :
    Target :=
  match elements.reverse with
  | [] => .pattern [] true
  | (last, spread) :: before =>
    if before.any (·.2) then .never
    else
      let last := if spread then rest last else last
      .all (!(spread && trailing)) ((before.reverse.map (·.1)) ++ [last])

/-- An object literal. -/
def objectLiteral : Parse Operand := do
  let start ← here
  expect "\x7b"
  let (members, trailing) ← bracketed <| commaList (sees "\x7d") (objectMember r)
  expect "\x7d"
  return {
    range := ← rangeFrom start
    expression := .object (members.map Member.property)
    target := literalTarget restMemberTarget (members.map fun m => (m.target, m.spread)) trailing }

/-- An element of an array literal, and whether it is spread; `none` where it is left out. -/
def arrayElement : Parse (Option (Target × Bool)) := do
  if ← sees "," then return none
  if ← sees "..." then return some ((← spread r).target, true)
  return some ((← r.assignment).target, false)

/-- An array literal. -/
def arrayLiteral : Parse Operand := do
  let start ← here
  expect "["
  let (elements, trailing) ← bracketed <| commaList (sees "]") (arrayElement r)
  expect "]"
  -- A position left out at the end still stands after a spread element.
  let targets := elements.map fun e => e.getD (.simple, false)
  return { range := ← rangeFrom start, target := literalTarget restTarget targets trailing }

/-! ## 3. Members of classes -/

/-- The name of a member of a class. -/
def classKey : Parse MemberKey := do
  let t ← token
  if t.kind != .privateName then return ← memberKey r
  bumpName
  check (t.value != "constructor")
  return { name := some t.value, hidden := true }

/-- Checks what a member's name allows of the words before it: a private name is neither opened
nor announced, and the static part of a class has no `prototype`. -/
def checkKey (words : List String) (key : MemberKey) : Parse Unit := do
  if key.hidden then check !(words.any ("declare" :: "abstract" :: Qualifier.access).contains)
  check !(words.contains "static" && key.isNamed "prototype")

/-- Words that may qualify any member but a constructor. -/
def memberQualifiers : List String := "static" :: "override" :: "abstract" :: Qualifier.access

/-- Does a constructor start here?  Its name may be written as a string. -/
def seesConstructor : Parse Bool := do
  let t ← token
  if t.isWord "constructor" then return true
  return t.kind == .string && t.value == "constructor" && (← nextToken).isMark "("

/-- A constructor, which is not generic and has no result. -/
def constructorMember (decorated : Bool) (words : List String) : Parse Unit := do
  check !decorated
  allowOnly words Qualifier.access
  bump
  inFunctionOf false false do
    check !(← Types.parameters? r)
    discard <| parameters r .constructor
    check !(← Types.result? r)
    if !(← functionBody? r) then endStatement

/-- An accessor of a class.  An abstract one has no body. -/
def accessorMember (words : List String) (kind : AccessorKind) : Parse Unit := do
  allowOnly words memberQualifiers
  let key ← classKey r
  checkKey words key
  check !(key.isNamed "constructor" && !words.contains "static")
  let implemented ← accessorRest r kind .method
  check !(implemented && words.contains "abstract")

/-- A method from its parameters on.  An abstract one has no body, and only one with a body is
decorated. -/
def methodMember (decorated generator : Bool) (words : List String) (key : MemberKey) :
    Parse Unit := do
  allowOnly words ("async" :: memberQualifiers)
  check !(key.isNamed "constructor" && !words.contains "static")
  let implemented ← functionRest r .method (words.contains "async") generator
  if !implemented then endStatement
  check !(implemented && words.contains "abstract")
  check (implemented || !decorated)

/-- The value of a field after its `=`.  A field that is only announced has a value only if it
is a constant without a type. -/
def fieldValue (words : List String) (annotated : Bool) : Parse Unit := do
  let value ← withReader (fun c =>
    { c with allowIn := true, inGenerator := false, inAsync := false }) r.expression
  check !(words.contains "abstract")
  if (← read).ambient || words.contains "declare" then
    check (words.contains "readonly" && !annotated && value.form.isFixed)

/-- A field after its name. -/
def fieldMember (optional : Bool) (words : List String) (key : MemberKey) : Parse Unit := do
  allowOnly words ("declare" :: "readonly" :: "accessor" :: memberQualifiers)
  check !(key.isNamed "constructor")
  check !(optional && words.contains "accessor")
  if ← typed then
    if (← sees "!") && !(← startsLine) then
      bump
      check !optional
  let annotated ← annotation? r
  if ← eat "=" then fieldValue r words annotated
  endStatement

/-- A member of a class. -/
def classMember : Parse Unit := do
  if ← eat ";" then return ()
  let decorated ← decorators? r
  let words ← modifiers true true
  if ← seesStaticBlock then
    check (!decorated && words.isEmpty)
    bump
    withReader (fun c => { c with inAsync := true, inGenerator := false, inFunction := false })
      (block r)
    return ()
  if (← seesConstructor) && !words.contains "static" then
    return ← constructorMember r decorated words
  if let some kind ← accessorWord? then return ← accessorMember r words kind
  if (← typed) && (← Types.startsIndex) then
    check !decorated
    allowOnly words ["static", "readonly"]
    Types.index r
    return ()
  let generator ← eat "*"
  let key ← classKey r
  checkKey words key
  let optional ← if ← typed then eat "?" else pure false
  if generator || (← sees "(") || (← sees "<") then methodMember r decorated generator words key
  else fieldMember r optional words key

/-! ## 4. Classes -/

/-- What a class or an interface builds on: an expression, with types between angles. -/
def baseExpression : Parse Operand := do
  let base ← r .callee
  if ← typed then Types.argumentsHere? r
  return base

/-- What a class extends and implements: one class, then any number of interfaces. -/
def heritage : Parse Unit :=
  loop (fun (seen : Bool × Bool) => do
    let (extended, implemented) := seen
    if ← eatWord "extends" then
      check !(extended || implemented)
      let bases ← separated "," (baseExpression r)
      check (bases.length == 1)
      return .inl (true, implemented)
    if ← eatWord "implements" then
      check (← typed)
      check !implemented
      discard <| separated "," (Types.reference r)
      return .inl (extended, true)
    return .inr ()) (false, false)

/-- A class from the word `class` on, and its name. -/
def classRest : Parse (Option String) := do
  expectWord "class"
  let name ← if (← seesIdentifier) && !(← seesWord "implements") then
      let (name, _) ← identifier
      pure (some name)
    else pure none
  discard <| Types.parameters? r
  heritage r
  expect "\x7b"
  discard <| bracketed <| repeatWhile (do return !(← sees "\x7d")) (classMember r)
  expect "\x7d"
  return name

/-- A class as an expression, with the decorators before it. -/
def classExpression : Parse Operand := do
  let start ← here
  discard <| decorators? r
  discard <| classRest r
  return { range := ← rangeFrom start }

end ComponentHost.Grammar
