/- # Bindings and parameters

A binding is a name or a pattern of names.  A list of bindings may end in a rest binding; one
that stands elsewhere, or is followed by a comma, is an error from which reading goes on.

Parameters are bindings with decorations.  What a parameter may carry depends on the `Holder` of
the list: only constructors turn parameters into members, and only classes decorate them.
-/
import ComponentHost.Script.Grammar.Qualifiers

namespace ComponentHost.Grammar

open Parse

variable (r : Rules)

/-! ## 1. Names of members -/

/-- The name of a member of an object, a class or a pattern. -/
structure MemberKey where
  /-- The name, where the text shows it. -/
  name : Option String
  /-- The name is the value of an expression in brackets. -/
  computed : Bool := false
  /-- The name starts with `#`. -/
  hidden : Bool := false

namespace MemberKey

/-- Is the key written as the given name? -/
def isNamed (k : MemberKey) (name : String) : Bool :=
  k.name == some name && !k.computed && !k.hidden

end MemberKey

/-- An expression in brackets as the name of a member. -/
def computedKey : Parse Operand := do
  expect "["
  let key ← bracketed r.assignment
  expect "]"
  return key

/-- The name of a member: a name, a string, a number, or an expression in brackets. -/
def memberKey : Parse MemberKey := do
  let t ← token
  match t.kind with
  | .name =>
    bumpName
    return { name := some t.value }
  | .privateName =>
    -- Only members of classes are private.
    flaw
    bumpName
    return { name := some t.value, hidden := true }
  | .string =>
    bump
    return { name := some t.value }
  | .number | .bigint =>
    bump
    return { name := none }
  | .mark "[" =>
    let key ← computedKey r
    return { name := if key.form == .string then some key.text else none, computed := true }
  | _ => fail

/-! ## 2. Bindings -/

/-- Items with commas between them, of which the last may be a rest item. -/
def restList {α : Type} (close : Parse Bool) (item rest : Parse α) : Parse (List α) := do
  let items ← loop (fun (state : List α × Bool × Bool) => do
    let (items, seenRest, first) := state
    if ← close then return .inr items
    if !first then
      expect ","
      if ← close then
        check (!seenRest || (← read).ambient)
        return .inr items
    check !seenRest
    if ← sees "..." then return .inl ((← rest) :: items, true, false)
    return .inl ((← item) :: items, seenRest, false)) ([], false, true)
  return items.reverse

/-- A value after `=`, if there is one; gives whether there is. -/
def default? : Parse Bool := do
  if ← eat "=" then
    discard <| withIn r.assignment
    return true
  return false

/-- A binding with a default. -/
def bindingWithDefault : Parse (List String) := do
  let b ← r.binding
  discard <| default? r
  return b.names

/-- The binding after three dots, which takes no default. -/
def restBinding : Parse Binding := do
  expect "..."
  let b ← r.binding
  check !(← default? r)
  return b

/-- A pattern in brackets; positions may be left out. -/
def arrayPattern : Parse (List String) := do
  expect "["
  let names ← restList (sees "]")
    (do if ← sees "," then return [] else bindingWithDefault r) (do return (← restBinding r).names)
  expect "]"
  return names.flatten

/-- A member of a pattern in braces. -/
def memberPattern : Parse (List String) := do
  let isIdentifier ← seesIdentifier
  let key ← memberKey r
  if isIdentifier && !(← sees ":") then
    discard <| default? r
    return key.name.toList
  expect ":"
  bindingWithDefault r

/-- The rest of the members of a pattern, which must be a name. -/
def restMembers : Parse (List String) := do
  let b ← restBinding r
  if !b.plain then fail
  return b.names

/-- A pattern in braces. -/
def objectPattern : Parse (List String) := do
  expect "\x7b"
  let names ← restList (sees "\x7d") (memberPattern r) (restMembers r)
  expect "\x7d"
  return names.flatten

/-- A name or pattern that is bound. -/
def anyBinding : Parse Binding := do
  if ← sees "[" then return ⟨← arrayPattern r, false⟩
  if ← sees "\x7b" then return ⟨← objectPattern r, false⟩
  let (name, _) ← identifier
  return ⟨[name], true⟩

/-! ## 3. Decorations -/

/-- One decorator. -/
def decorator : Parse Unit := do
  expect "@"
  discard <| withReader (fun c => { c with inDecorator := true }) (r .callee)

/-- Decorators, if there are any; gives whether there are. -/
def decorators? : Parse Bool := do
  return !(← repeatWhile (sees "@") (decorator r)).isEmpty

/-- A type after its colon, if there is one; gives whether there is. -/
def annotation? : Parse Bool := do
  if !(← typed) then return false
  if ← eat ":" then
    r.freeType
    return true
  return false

/-! ## 4. Parameters -/

/-- What a list of parameters belongs to. -/
inductive Holder where
  | function
  | arrow
  /-- A member of a class. -/
  | method
  | constructor
  /-- A type of functions, or a member of a type. -/
  | signature
  /-- A type of constructors. -/
  | constructorType
deriving DecidableEq, Repr

namespace Holder

/-- May parameters have decorators? -/
def decorates (h : Holder) : Bool := h == .method || h == .constructor

/-- May the list start with the type of `this`? -/
def takesThis (h : Holder) : Bool :=
  !(h == .arrow || h == .constructor || h == .constructorType)

/-- Words that may qualify a parameter in a typed script. -/
def qualifiers (h : Holder) : List String :=
  if h == .constructor then "readonly" :: "override" :: Qualifier.access else ["readonly"]

end Holder

/-- One parameter of a function; gives whether it has a default. -/
def parameter (holder : Holder) : Parse Bool := do
  let decorated ← decorators? r
  check (!decorated || holder.decorates)
  let words ← modifiers false false
  allowOnly words (if ← typed then holder.qualifiers else [])
  let b ← r.binding
  check (b.plain || words.isEmpty)
  let optional ← if ← typed then eat "?" else pure false
  discard <| annotation? r
  let defaulted ← default? r
  check !(optional && defaulted)
  return defaulted

/-- The parameter after three dots, which takes no default. -/
def restParameter : Parse Unit := do
  expect "..."
  discard r.binding
  if ← typed then
    if ← eat "?" then flaw
  discard <| annotation? r
  check !(← default? r)

/-- A parameter as its list keeps it. -/
structure Parameter where
  defaulted : Bool
  rest : Bool

/-- The parameters of a function, in parentheses. -/
def parameters (holder : Holder) : Parse (List Parameter) := do
  expect "("
  if (← typed) && (← seesWord "this") then
    check holder.takesThis
    bump
    discard <| annotation? r
    if !(← sees ")") then expect ","
  let items ← restList (sees ")") (do return ⟨← parameter r holder, false⟩) (do
    restParameter r
    return ⟨false, true⟩)
  expect ")"
  return items

/-- The two sorts of accessors. -/
inductive AccessorKind where
  | getter
  | setter
deriving DecidableEq, Repr

/-- The parameters that accessors take: none, or one that is no rest parameter and, in typed
scripts, has no default. -/
def accessorParameters (kind : AccessorKind) (holder : Holder) : Parse Unit := do
  let items ← parameters r holder
  match kind, items with
  | .getter, items => check items.isEmpty
  | .setter, [p] => check !(p.rest || (p.defaulted && (← typed)))
  | .setter, _ => flaw

end ComponentHost.Grammar
