/- # Functions

A function is read from its parameters on by one rule, whatever stands before them.  Typed
scripts may announce a function without its body; where nothing is implemented, a body is an
error from which reading goes on.
-/
import ComponentHost.Script.Grammar.Types

namespace ComponentHost.Grammar

open Parse

variable (r : Rules)

/-! ## 1. Bodies -/

/-- Statements in braces. -/
def block : Parse Unit := do
  expect "\x7b"
  discard <| repeatWhile (do return !(← sees "\x7d")) r.statement
  expect "\x7d"

/-- The body of a function. -/
def functionBody : Parse Unit :=
  withReader (fun c => { c with inFunction := true, inDecorator := false, plainTypes := false })
    (block r)

/-- The body of a function, if there is one; gives whether there is.  Only typed scripts may
leave it out. -/
def functionBody? : Parse Bool := do
  if ← sees "\x7b" then
    check !(← read).ambient
    functionBody r
    return true
  if ← typed then return false else fail

/-- A function from its parameters on; gives whether it has a body. -/
def functionRest (holder : Holder) (async generator : Bool) : Parse Bool :=
  inFunctionOf async generator do
    discard <| Types.parameters? r
    discard <| parameters r holder
    discard <| Types.result? r
    functionBody? r

/-! ## 2. Functions by name -/

/-- Does `async function` start here, on one line? -/
def seesAsyncFunction : Parse Bool := do
  if !(← seesWord "async") then return false
  let n ← nextToken
  return n.isWord "function" && !n.newline

/-- A function expression, from `async` or `function` on. -/
def functionExpression : Parse Operand := do
  let start ← here
  let async ← eatWord "async"
  expectWord "function"
  let generator ← eat "*"
  if ← seesIdentifier then
    discard <| withReader (fun c => { c with inAsync := async, inGenerator := generator }) identifier
  if !(← functionRest r .function async generator) then fail
  return { range := ← rangeFrom start }

/-- What a declaration of a function introduces. -/
structure FunctionHead where
  name : Option String
  async : Bool
  generator : Bool

/-- A function declaration, from `async` or `function` on.  A declaration without a body ends
like a statement. -/
def functionDeclaration (async needsName : Bool) : Parse FunctionHead := do
  let async ← if async then pure true else eatWord "async"
  expectWord "function"
  let generator ← eat "*"
  let name ← if ← seesIdentifier then
      let (name, _) ← identifier
      pure (some name)
    else
      if needsName then
        if !(← sees "(") then fail
        flaw
      pure none
  if !(← functionRest r .function async generator) then endStatement
  return ⟨name, async, generator⟩

/-! ## 3. Arrow functions -/

/-- The body of an arrow function: an expression or a block. -/
def arrowBody (async returnTypes : Bool) : Parse Unit :=
  withReader (fun c => { c with inAsync := async, inGenerator := false }) do
    if ← sees "\x7b" then functionBody r else discard <| r (.assignment returnTypes)

end ComponentHost.Grammar
