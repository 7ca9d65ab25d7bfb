/- # Qualifying words

Words such as `static`, `readonly` or `declare` qualify the declaration, member or parameter
after them; each can also be a plain name, and the tokens after it decide.  The words have an
order and exclude each other (`Qualifier.excludes`), and each place admits only some of them.
A word out of order or out of place is an error from which reading goes on.
-/
import ComponentHost.Script.Grammar.Rules

namespace ComponentHost.Grammar

open Parse

/-! ## 1. Order of the words -/

namespace Qualifier

/-- Words that say who may use a member. -/
def access : List String := ["public", "private", "protected"]

/-- Words that must not stand before the given one. -/
def excludes (word : String) : List String :=
  match word with
  | "public" | "private" | "protected" =>
    access ++ ["override", "static", "accessor", "readonly", "async", "abstract"]
  | "static" => ["static", "readonly", "async", "accessor", "abstract", "override"]
  | "override" => ["override", "declare", "readonly", "accessor", "async"]
  | "accessor" => ["accessor", "readonly", "declare"]
  | "readonly" => ["readonly", "accessor"]
  | "export" => ["export", "declare", "abstract", "async"]
  | "declare" => ["declare", "async", "override", "accessor"]
  | "abstract" => ["abstract", "static", "private", "async", "override", "accessor"]
  | "async" => ["async", "declare", "abstract"]
  | "in" => ["in", "out"]
  | w => [w]

end Qualifier

/-! ## 2. Reading them -/

/-- Can the token name a member? -/
def isMemberName (t : Token) : Bool :=
  match t.kind with
  | .name | .string | .number | .bigint | .privateName => true
  | _ => false

/-- Can the current token follow a qualifying word? -/
def followsModifier : Parse Bool := do
  let t ← token
  return isMemberName t || t.isMark "[" || t.isMark "\x7b" || t.isMark "*" || t.isMark "..."

/-- Can the current token follow `default` as a qualifying word? -/
def followsDefault : Parse Bool := do
  let t ← token
  let n ← nextToken
  return t.isWord "class" || t.isWord "function" || t.isWord "interface" || t.isMark "@" ||
    (t.isWord "abstract" && n.isWord "class" && !n.newline) ||
    (t.isWord "async" && n.isWord "function" && !n.newline)

/-- Can the current token follow `export` as a qualifying word? -/
def followsExport : Parse Bool := do
  let t ← token
  if t.isMark "@" then return true
  if t.isMark "*" || t.isMark "\x7b" || t.isWord "as" then return false
  followsModifier

/-- Does the current word qualify what follows?  Where it may stand alone, `const` does so only
before `enum`. -/
def qualifies (constAlone : Bool) : Parse Bool := do
  let t ← token
  if !(t.isName && Word.isModifier t.value) then return false
  ahead do
    bumpName
    match t.value with
    | "const" =>
      if constAlone then return !(← startsLine) && (← followsModifier) else seesWord "enum"
    | "export" =>
      if ← eatWord "default" then followsDefault
      else if ← seesWord "type" then
        bumpName
        followsExport
      else followsExport
    | "default" => followsDefault
    | "static" => followsModifier
    | _ => return !(← startsLine) && (← followsModifier)

/-- Does `static` open a block of statements here? -/
def seesStaticBlock : Parse Bool := do
  return (← seesWord "static") && (← nextToken).isMark "\x7b"

/-- Passes qualifying words.  In a class `static` may also open a block of statements. -/
def modifiers (constAlone inClass : Bool) : Parse (List String) := do
  let words ← loop (fun (read : List String) => do
    if inClass && (← seesStaticBlock) then return .inr read
    if read.contains "static" && (← seesWord "static") then return .inr read
    if !(← qualifies constAlone) then return .inr read
    let t ← token
    check (read.all fun w => !(Qualifier.excludes t.value).contains w)
    bump
    return .inl (t.value :: read)) []
  return words.reverse

/-- The words are among those that the place admits. -/
def allowOnly (words admitted : List String) : Parse Unit := check (words.all admitted.contains)

/-- Passes `get` or `set` if it qualifies the member that follows. -/
def accessor? (w : String) : Parse Bool := do
  if !(← seesWord w) then return false
  if ← ahead (do bumpName; followsModifier) then
    bump
    return true
  return false

end ComponentHost.Grammar
