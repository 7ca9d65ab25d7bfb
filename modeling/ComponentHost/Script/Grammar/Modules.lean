/- # Imports and exports

The statements that tie a script to other modules.  Of an import the host keeps the module it
names and the name bound to its default export; of a re-export the module; of a default export
the expression.
-/
import ComponentHost.Script.Grammar.Declarations

namespace ComponentHost.Grammar

open Parse

variable (r : Rules)

/-- Records names that the module exports. -/
def recordExports (names : List String) : Parse Unit :=
  modify fun s => { s with exported := names ++ s.exported }

/-! ## 1. Names across modules -/

/-- A name as another module sees it: any name, or a string. -/
structure ModuleName where
  text : String
  /-- Written as a string. -/
  quoted : Bool

namespace ModuleName

/-- Can the name bind something in a module? -/
def isBindable (n : ModuleName) : Bool := !(n.quoted || Word.isUnbindable n.text)

/-- Can the name stand for something that a module exports as its own? -/
def isExportable (n : ModuleName) : Bool := !(n.quoted || Word.isUnexportable n.text)

end ModuleName

/-- Can the current token name something across modules? -/
def seesModuleName : Parse Bool := do
  let t ← token
  return t.isName || t.kind == .string

/-- A name across modules.  A string must be text that characters stand for. -/
def moduleName : Parse ModuleName := do
  let t ← token
  match t.kind with
  | .name =>
    bumpName
    return ⟨t.value, false⟩
  | .string =>
    check !t.halved
    bump
    return ⟨t.value, true⟩
  | _ => fail

/-- An item of a list of names: the name on the left of `as`, and the one on its right, which is
the same where there is no `as`. -/
structure ModuleItem where
  own : ModuleName
  other : ModuleName
  /-- Only the type of that name is meant. -/
  typeOnly : Bool := false

/-- An item of a list of names after its first name. -/
def renamed (typeOnly : Bool) (name : ModuleName) : Parse ModuleItem := do
  if ← eatWord "as" then return ⟨name, ← moduleName, typeOnly⟩
  return ⟨name, name, typeOnly⟩

/-- An item of a list of names.  The word `type` may qualify the item or be its name. -/
def moduleItem : Parse ModuleItem := do
  let first ← moduleName
  if first.text == "type" && !first.quoted && (← typed) then
    if ← seesWord "as" then
      let second ← moduleName
      if ← seesWord "as" then
        let third ← moduleName
        if ← seesModuleName then return ⟨second, ← moduleName, true⟩
        return ⟨first, third, false⟩
      if ← seesModuleName then return ⟨first, ← moduleName, false⟩
      return ⟨second, second, true⟩
    if ← seesModuleName then return ← renamed true (← moduleName)
  renamed false first

/-- A list of names in braces.  In a list of types no item says so again. -/
def moduleItems (typeOnly : Bool) : Parse (List ModuleItem) := do
  expect "\x7b"
  let (items, _) ← commaList (sees "\x7d") moduleItem
  expect "\x7d"
  check !(typeOnly && items.any ModuleItem.typeOnly)
  return items

/-- Attributes of an imported module. -/
def attributes? : Parse Unit := do
  if (← seesWord "with") || ((← seesWord "assert") && !(← startsLine)) then
    bump
    expect "\x7b"
    let (keys, _) ← commaList (sees "\x7d") (do
      let key ← moduleName
      expect ":"
      discard stringLiteral
      return key.text)
    check (keys.eraseDups.length == keys.length)
    expect "\x7d"

/-! ## 2. Imports -/

/-- How a module is imported. -/
inductive ImportPhase where
  | full
  /-- Only types are imported. -/
  | types
  /-- The source of the module is imported, as its default. -/
  | source
  /-- The module is run when it is first used; it is imported as a namespace. -/
  | deferred
deriving DecidableEq, Repr

/-- The phase that the word after `import` names, if the tokens after it agree.  The word may also
be the name that is imported: `import type from 'm'`. -/
def importPhase : Parse ImportPhase := do
  let t ← token
  if !t.isName then return .full
  let found ← peek? do
    bumpName
    let n ← token
    let after ← nextToken
    match t.value with
    | "type" =>
      if !(← typed) then return ImportPhase.full
      if n.isMark "\x7b" || n.isMark "*" then return .types
      if n.isIdentifier && (!n.isWord "from" || after.isWord "from" || after.isMark "=") then
        return .types
      return .full
    | "source" | "defer" =>
      let isPhase :=
        if n.isWord "from" then after.kind != .string
        else n.isIdentifier || n.isMark "*" || n.isMark "\x7b"
      if !isPhase then return .full
      return if t.value == "source" then .source else .deferred
    | _ => return .full
  return found.getD .full

/-- Names imported in braces.  The local name must be an identifier. -/
def namedImports (phase : ImportPhase) : Parse Unit := do
  check (phase == .full || phase == .types)
  for item in ← moduleItems (phase == .types) do
    check item.other.isBindable

/-- What is imported besides a default export. -/
def otherImports (phase : ImportPhase) : Parse Unit := do
  if ← eat "*" then
    check (phase != .source)
    expectWord "as"
    discard identifier
  else namedImports phase

/-- What an import statement is, apart from its range. -/
inductive ImportForm where
  | module (declaration : ImportDeclaration)
  /-- `import name = …`, which only typed scripts have. -/
  | alias

/-- An import, after the word `import`. -/
def importForm : Parse ImportForm := do
  let finish (binding : Option (Node String)) : Parse ImportForm := do
    let source ← stringLiteral
    attributes?
    endStatement
    return .module { defaultBinding := binding, source := source }
  if (← token).kind == .string then return ← finish none
  let phase ← importPhase
  if phase != .full then bump
  if ← seesIdentifier then
    let (name, range) ← identifier
    let follows := (← sees ",") || (← seesWord "from")
    if !follows && (phase == .full || phase == .types) then
      check (← typed)
      importAlias
      return .alias
    check (phase != .deferred)
    if ← eat "," then
      check (phase == .full)
      otherImports phase
    expectWord "from"
    finish (some (Node.parsed name range))
  else
    otherImports phase
    expectWord "from"
    finish none

/-- An import. -/
def importDeclaration : Parse Item := do
  let start ← here
  bump
  let statement : Statement := match ← importForm with
    | .module declaration => .importing declaration
    | .alias => .other
  return { range := ← rangeFrom start, statement := statement }

/-! ## 3. Exports -/

/-- A re-export of everything, from its star on. -/
def exportAll (start : Nat) : Parse Item := do
  bump
  if ← eatWord "as" then
    let name ← moduleName
    recordExports [name.text]
  expectWord "from"
  let source ← stringLiteral
  attributes?
  endStatement
  return { range := ← rangeFrom start, statement := .reExport source }

/-- A list of exported names, from this module or another one. -/
def exportNames (start : Nat) (typeOnly : Bool) : Parse Item := do
  let items ← moduleItems typeOnly
  recordExports (items.map fun i => i.other.text)
  if ← eatWord "from" then
    let source ← stringLiteral
    attributes?
    endStatement
    return { range := ← rangeFrom start, statement := .reExport source }
  check (items.all fun i => i.own.isExportable)
  endStatement
  return { range := ← rangeFrom start }

/-- Decorators after `export`; gives whether there are any.  They stand on one side of it only. -/
def innerDecorators (decorated : Bool) : Parse Bool := do
  let inner ← decorators? r
  check !(inner && decorated)
  return inner || decorated

/-- The class, function or expression that is exported by default. -/
def defaultValue (decorated : Bool) : Parse Operand := do
  let start ← here
  let decorated ← innerDecorators r decorated
  let t ← token
  let n ← nextToken
  let ranged (p : Parse Unit) : Parse Operand := do
    p
    return { range := ← rangeFrom start }
  if t.isWord "class" || (t.isWord "abstract" && n.isWord "class") then
    ranged do
      discard <| eatWord "abstract"
      discard <| classRest r
  else
    check !decorated
    if t.isWord "interface" && (← typed) && !n.newline then ranged (interfaceDeclaration r)
    else if t.isWord "function" || (← seesAsyncFunction) then
      ranged (discard <| functionDeclaration r false false)
    else
      let e ← r.assignment
      endStatement
      return e

/-- A default export, from `default` on. -/
def exportDefault (start : Nat) (decorated : Bool) : Parse Item := do
  bump
  recordExports ["default"]
  let value ← defaultValue r decorated
  return { range := ← rangeFrom start, statement := .exportDefault value.node }

/-- An export of something that only typed scripts have; `none` if it is no such export. -/
def typedExport? (start : Nat) : Parse (Option Item) := do
  let t ← token
  let n ← nextToken
  let plain (p : Parse Unit) : Parse (Option Item) := do
    p
    return some { range := ← rangeFrom start }
  if !(← typed) then return none
  if t.isMark "=" then
    plain do
      bump
      discard r.expression
      endStatement
  else if t.isWord "as" && n.isWord "namespace" then
    plain do
      bump
      bump
      discard identifier
      endStatement
  else if t.isWord "type" && n.isMark "\x7b" then
    bump
    return some (← exportNames start true)
  else if t.isWord "type" && n.isMark "*" then
    bump
    return some (← exportAll start)
  else return none

/-- An export; `decorated` if decorators stand before it, which are for a class. -/
def exportDeclaration (decorated : Bool) : Parse Item := do
  let start ← here
  bump
  if let some item ← typedExport? r start then
    check !decorated
    return item
  let t ← token
  if t.isWord "default" then exportDefault r start decorated
  else if t.isMark "*" then
    check !decorated
    exportAll start
  else if t.isMark "\x7b" then
    check !decorated
    exportNames start false
  else if t.isWord "import" then
    check !decorated
    bump
    match ← importForm with
    | .alias => return { range := ← rangeFrom start }
    | .module _ => fail
  else
    let decorated ← innerDecorators r decorated
    recordExports (← declaration r decorated)
    return { range := ← rangeFrom start }

end ComponentHost.Grammar
