/- # Declarations

Functions, classes and variables, and the declarations that only typed scripts have.  Each rule
gives the names it introduces, which matter when the declaration is exported.
-/
import ComponentHost.Script.Grammar.Statements

namespace ComponentHost.Grammar

open Parse

variable (r : Rules)

/-! ## 1. Declarations of typed scripts -/

/-- The type that a name stands for.  `intrinsic` alone is one that the compiler knows by
itself. -/
def aliasedType : Parse Unit := do
  if !(← seesWord "intrinsic") then discard r.type
  else if (← nextToken).isMark "." then Types.reference r
  else bump

/-- A name for a type. -/
def aliasDeclaration : Parse Unit := do
  bump
  discard identifier
  discard <| Types.parameters? r
  expect "="
  aliasedType r
  endStatement

/-- What an interface builds on, which must have a name. -/
def interfaceBases : Parse Unit := do
  for base in ← separated "," (baseExpression r) do
    check base.form.isPath

/-- An interface. -/
def interfaceDeclaration : Parse Unit := do
  bump
  discard identifier
  discard <| Types.parameters? r
  loop (fun (extended : Bool) => do
    if ← eatWord "extends" then
      check !extended
      interfaceBases r
      return .inl true
    if ← eatWord "implements" then
      flaw
      interfaceBases r
      return .inl extended
    return .inr ()) false
  Types.members r

/-- A member of an enumeration: a name or a string, which may stand in brackets. -/
def enumMember : Parse Unit := do
  let t ← token
  match t.kind with
  | .name => bumpName
  | .string => bump
  | .mark "[" =>
    let key ← computedKey r
    if !(key.form == .string || key.form == .wholeTemplate) then fail
  | _ => fail
  discard <| default? r

/-- An enumeration. -/
def enumDeclaration : Parse Unit := do
  expectWord "enum"
  discard identifier
  expect "\x7b"
  discard <| commaList (sees "\x7d") (enumMember r)
  expect "\x7d"

/-- A namespace, a module with a name in quotes, or the global scope.  Only the last two may be
announced without a block. -/
def namespaceDeclaration : Parse Unit := do
  let word := (← token).value
  bump
  if word == "module" && (← token).kind == .string then bump
  else if word != "global" then
    discard <| separated "." identifier
    return ← block r
  if ← sees "\x7b" then block r else endStatement

/-- Does a declaration of a typed script start here?  Qualifying words may stand before it. -/
def startsTypedDeclaration : Parse Bool :=
  ahead do
    loop (fun (_ : Unit) => do
      let t ← token
      if !t.isName then return .inr false
      let n ← nextToken
      match t.value with
      | "var" | "let" | "const" | "function" | "class" | "enum" => return .inr true
      | "interface" | "type" => return .inr (n.isIdentifier && !n.newline)
      | "module" | "namespace" =>
        return .inr (!n.newline && (n.isIdentifier || n.kind == .string))
      | "abstract" | "accessor" | "async" | "declare" | "private" | "protected" | "public"
      | "readonly" =>
        if n.newline then return .inr false
        bumpName
        return .inl ()
      | "global" => return .inr (n.isMark "\x7b" || n.isPlainName || n.isWord "export")
      | "import" =>
        return .inr (n.kind == .string || n.isMark "*" || n.isMark "\x7b" || n.isIdentifier)
      | "export" =>
        bumpName
        if ["=", "*", "\x7b", "@"].any n.isMark || n.isWord "default" || n.isWord "as" then
          return .inr true
        return .inl ()
      | "static" =>
        bumpName
        return .inl ()
      | _ => return .inr false) ()

/-! ## 2. Declarations -/

/-- `import name = …`, from the `=` on. -/
def importAlias : Parse Unit := do
  expect "="
  if ← eatWord "require" then
    expect "("
    discard stringLiteral
    expect ")"
  else
    Types.dottedName
  endStatement

/-- A declaration that only typed scripts have, without the words that qualify it. -/
def typedDeclaration (words : List String) : Parse Unit := do
  if !(← typed) then fail
  let t ← token
  if t.isWord "enum" then
    allowOnly words ["declare", "const"]
    enumDeclaration r
  else
    allowOnly words ["declare"]
    match t.value with
    | "interface" => interfaceDeclaration r
    | "type" => aliasDeclaration r
    | "module" | "namespace" | "global" => namespaceDeclaration r
    | "import" =>
      bump
      discard identifier
      importAlias
    | _ => fail

/-- A declaration without the words that qualify it; gives the names it introduces. -/
def declarationBody (words : List String) : Parse (List String) := do
  let t ← token
  if !t.isName then fail
  match t.value with
  | "function" | "async" =>
    if t.value == "async" && !(← seesAsyncFunction) then fail
    allowOnly words ["declare", "async"]
    let f ← functionDeclaration r (words.contains "async") true
    return f.name.toList
  | "class" =>
    allowOnly words ["declare", "abstract"]
    return (← classRest r).toList
  | "var" | "let" | "const" =>
    allowOnly words ["declare"]
    declaredAlone r
  | _ =>
    typedDeclaration r words
    return []

/-- A declaration, after the words that qualify it.  Only classes have decorators. -/
def declaration (decorated : Bool) : Parse (List String) := do
  let words ← if ← typed then modifiers false false else pure []
  check (!decorated || (← seesWord "class"))
  withReader (fun c => { c with ambient := c.ambient || words.contains "declare" })
    (declarationBody r words)

/-- A declaration of a typed script as a statement. -/
def typedStatement : Parse Unit :=
  withReader (fun c => { c with inAsync := false }) (discard <| declaration r false)

end ComponentHost.Grammar
