/- # Markup elements

Between the tags of an element the text is read by other rules: it runs up to the next tag or
brace, and a bare closing bracket in it is no token.  So the last token of a tag is passed in
one of two ways, by whether text or script follows it.
-/
import ComponentHost.Script.Grammar.Expressions

namespace ComponentHost.Grammar

open Parse

namespace Markup

variable (r : Rules)

/-- Passes the current token; text follows it. -/
def bumpIntoText : Parse Unit := do
  let s ← get
  let l := Lexer.markupChild s.after
  enter s.token.stop ⟨Lexer.place s.after false l, s.after.rest, l.after, l.sound⟩

/-- Passes the given mark, which ends a tag or a brace. -/
def close (m : String) (child : Bool) : Parse Unit := do
  if !(← sees m) then fail
  if child then bumpIntoText else bump

/-- A name, which may hold hyphens. -/
def name : Parse String := do
  let s ← get
  if !s.token.isName then fail
  let (value, after) := Lexer.markupName s.token.value s.after
  set { s with token := { s.token with value := value, stop := after.offset }, after := after }
  bumpName
  return value

/-- The name of an element: a name, a dotted name, or a name in a namespace.  Names after a dot
have no hyphens. -/
def elementName : Parse String := do
  let first ← name
  if ← eat ":" then return first ++ ":" ++ (← name)
  let members ← repeatWhile (eat ".") (do
    let member ← name
    if member.contains '-' then fail
    return member)
  return ".".intercalate (first :: members)

/-- The name of an element; a fragment has none. -/
def elementName? : Parse (Option String) := do
  if ← sees ">" then return none else return some (← elementName)

/-- An expression of markup, which has no commas and belongs to no generator. -/
def value : Parse Unit := do
  let e ← withReader (fun c =>
    { c with allowIn := true, inDecorator := false, inGenerator := false, inFunction := false })
    r.expression
  check (e.form != .sequence)

/-- An expression in braces; gives whether there is one.  Only content is spread. -/
def braces (child : Bool) : Parse Bool := do
  expect "\x7b"
  if ← sees "\x7d" then
    close "\x7d" child
    return false
  if child then discard <| eat "..."
  value r
  close "\x7d" child
  return true

/-- One attribute. -/
def attributeItem : Parse Unit := do
  if ← eat "\x7b" then
    expect "..."
    value r
    expect "\x7d"
    return ()
  discard name
  if ← eat ":" then discard name
  if ← sees "=" then
    let s ← get
    enter s.token.stop (Lexer.markupValue s.after)
    let t ← token
    if t.kind == .string then bump
    else if t.isMark "\x7b" then check (← braces r false)
    else if ← eat "<" then r (.element false)
    else fail

/-- The content of an element, up to the slash of the tag that closes it. -/
def children : Parse Unit :=
  loop (fun (_ : Unit) => do
    let t ← token
    match t.kind with
    | .markupText =>
      bumpIntoText
      return .inl ()
    | .mark "\x7b" =>
      discard <| braces r true
      return .inl ()
    | .mark "<" =>
      bump
      if ← sees "/" then return .inr ()
      r (.element true)
      return .inl ()
    | _ => fail) ()

/-- An element or a fragment, after its opening angle.  A closing tag that names another element
is an error from which reading goes on. -/
def element (child : Bool) : Parse Unit := do
  let opened ← elementName?
  if opened.isSome then
    if ← typed then Types.argumentsHere? r
    discard <| repeatWhile (do return !(← seesAny ["/", ">"])) (attributeItem r)
    if ← eat "/" then return ← close ">" child
  close ">" true
  children r
  bump
  check ((← elementName?) == opened)
  close ">" child

end Markup

end ComponentHost.Grammar
