/- # Whole scripts

`rules` closes the circle of the grammar: each rule is given the rules with one unit less of
fuel, and every nesting of the text costs a few units, so a multiple of the length of the text
is enough for all of it.

`parse` reads a script.  Strings that stand alone at its start are directives and no
statements.  A script that cannot be read to its end has no statements at all.
-/
import ComponentHost.Script.Grammar.Markup
import ComponentHost.Script.Grammar.Modules
import ComponentHost.Script.Kind

namespace ComponentHost.Grammar

open Parse

/-! ## 1. Statements -/

/-- A class with decorators before it, or before the `export` of it. -/
def decoratedStatement (r : Rules) (single : Bool) : Parse Item := do
  let start ← here
  discard <| decorators? r
  if ← seesWord "export" then exportDeclaration r true
  else
    let words ← modifiers false false
    if !(← seesWord "class") then fail
    allowOnly words ["declare", "abstract"]
    withReader (fun c => { c with ambient := c.ambient || words.contains "declare" })
      (classStatement r single)
    return { range := ← rangeFrom start }

/-- Is the current `import` an expression? -/
def importIsExpression : Parse Bool := do
  let n ← nextToken
  return n.isMark "(" || n.isMark "."

/-- A statement; `single` if a declaration may not stand there. -/
def statement (r : Rules) (single : Bool) : Parse Item := do
  let t ← token
  match t.kind with
  | .mark "\x7b" => plainItem (block r)
  | .mark ";" => plainItem bump
  | .mark "@" => decoratedStatement r single
  | .name =>
    if let some p := controlStatement? r t.value then return ← plainItem p
    match t.value with
    | "class" => plainItem (classStatement r single)
    | "export" => exportDeclaration r false
    | "import" => if ← importIsExpression then expressionStatement r else importDeclaration
    | "var" => plainItem (variableStatement r single)
    | "const" =>
      if (← typed) && (← nextToken).isWord "enum" then plainItem (typedStatement r)
      else plainItem (variableStatement r single)
    | "let" => if t.escaped then expressionStatement r else plainItem (letStatement r single)
    | "function" => plainItem (functionStatement r single)
    | "async" =>
      if ← seesAsyncFunction then plainItem (functionStatement r single)
      else expressionStatement r
    | "using" | "await" =>
      if ← seesUsing false then plainItem (variableStatement r single) else expressionStatement r
    | _ =>
      if (← typed) && (← startsTypedDeclaration) then plainItem (typedStatement r)
      else expressionStatement r
  | _ => expressionStatement r

/-! ## 2. The circle -/

/-- Reaches a goal, given how to reach goals further in. -/
def reach (r : Rules) : Rules
  | .assignment returnTypes => assignmentExpression r returnTypes
  | .binary level => binaryExpression r level
  | .unary => unaryExpression r
  | .member => memberExpression r
  | .callee => calleeExpression r
  | .statement single => statement r single
  | .binding => anyBinding r
  | .type => Types.full r
  | .typeOperand => Types.operand r
  | .element child => Markup.element r child

/-- Reaches a goal within a number of nested goals. -/
def rules : Nat → Rules
  | 0 => fun _ => fail
  | n + 1 => fun g => reach (rules n) g

/-! ## 3. Scripts -/

/-- The statements of a script, without the directives at its start. -/
def withoutDirectives (items : List Item) : List Item := items.dropWhile Item.isText

/-- Does a name occur twice? -/
def hasDuplicates (names : List String) : Bool := names.eraseDups.length != names.length

/-- Reads all statements.  Exported names must be distinct, except in typed scripts, which may
merge declarations. -/
def script (r : Rules) : Parse (List Item) := do
  let items ← repeatWhile (do return (← token).kind != .finish) r.statement
  let s ← get
  check s.covers.isEmpty
  if !(← typed) then check !(hasDuplicates s.exported)
  return items

end ComponentHost.Grammar

namespace ComponentHost.ScriptTree

open Grammar

/-- The tree of a script. -/
def parse (kind : ScriptKind) (source : String) : ScriptTree :=
  let size := source.length
  let context : Context :=
    { typed := kind.isTyped, markup := kind.allowsMarkup, bound := size + 1 }
  let first := Lexer.first (Cursor.ofText source)
  let state : State :=
    { token := first.token, text := first.text, after := first.after, sound := first.sound,
      lexed := first.sound }
  match (Id.run (((script (rules (16 * (size + 2))) context state).run).run [])).1 with
  | some (items, s) =>
    let statements := (withoutDirectives items).map fun i => Node.parsed i.statement i.range
    ⟨statements, source.utf8ByteSize, !s.sound⟩
  | none => ⟨[], source.utf8ByteSize, true⟩

/-- Module names that a script of a block in the given language imports, in source order. -/
def importsOf (source languageId : String) : List String :=
  (parse (.ofLanguageId languageId) source).moduleSpecifiers

end ComponentHost.ScriptTree
