/- # Script trees

What the host keeps of a script: its top-level statements, of which only imports, re-exports
and the default export are told apart.  Each node carries the byte range it covers and whether
it was read from the text or made by the host (`Origin`); both are fixed when the node is
built.

The outline prints one node a line, indented by depth, and is the form in which trees are
compared by eye.
-/
import ComponentHost.Text.Quoted

namespace ComponentHost

/-! ## 1. Ranges -/

/-- Half-open byte range of a script. -/
structure TextRange where
  start : Nat
  stop : Nat
deriving DecidableEq, Repr, Inhabited

namespace TextRange

/-- The empty range at the start of the text. -/
def empty : TextRange := ⟨0, 0⟩

/-- Bytes covered; a range that ends before it starts covers none. -/
def length (r : TextRange) : Nat := r.stop - r.start

/-- Does the range cover no byte? -/
def isEmpty (r : TextRange) : Bool := r.length == 0

/-- The text form `start..stop`. -/
def render (r : TextRange) : String := s!"{r.start}..{r.stop}"

end TextRange

/-! ## 2. Nodes -/

/-- Where a node comes from. -/
inductive Origin where
  | parsed
  | synthetic
deriving DecidableEq, Repr

/-- A value with the range it covers and its origin. -/
structure Node (α : Type) where
  value : α
  range : TextRange
  origin : Origin
deriving Repr, DecidableEq

namespace Node

variable {α β : Type}

/-- A node read from the text. -/
def parsed (value : α) (range : TextRange) : Node α := ⟨value, range, .parsed⟩

/-- A node made by the host. -/
def synthetic (value : α) (range : TextRange) : Node α := ⟨value, range, .synthetic⟩

/-- Was the node made by the host? -/
def isSynthetic (n : Node α) : Bool := n.origin == .synthetic

/-- The same place with another value. -/
def map (f : α → β) (n : Node α) : Node β := ⟨f n.value, n.range, n.origin⟩

/-- Suffix that marks made nodes in an outline. -/
def marker (n : Node α) : String := if n.isSynthetic then " (synthetic)" else ""

end Node

/-- A member of an object literal; no key for spreads, computed and numeric keys. -/
structure Property where
  key : Option String
deriving Repr, DecidableEq

/-- Expressions, as far as the host tells them apart. -/
inductive Expression where
  | object (properties : List (Node Property))
  | call (callee : Node Expression) (arguments : Node (List (Node Expression)))
  | identifier (name : String)
  | other

/-- Name of the called function when the expression is a call of a plain name. -/
def Expression.calleeName? : Expression → Option String
  | .call callee _ =>
    match callee.value with
    | .identifier name => some name
    | _ => none
  | _ => none

/-- An import: its default binding, if any, and the module it names. -/
structure ImportDeclaration where
  defaultBinding : Option (Node String)
  source : Node String
deriving Repr, DecidableEq

/-- Top-level statements. -/
inductive Statement where
  | importing (declaration : ImportDeclaration)
  | reExport (source : Node String)
  | exportDefault (expression : Node Expression)
  | other

/-- The top-level statements of one script. -/
structure ScriptTree where
  statements : List (Node Statement)
  sourceLength : Nat
  hadErrors : Bool

namespace ScriptTree

/-- Expression of the first default export. -/
def defaultExport? (tree : ScriptTree) : Option (Node Expression) :=
  tree.statements.findSome? fun s =>
    match s.value with
    | .exportDefault expression => some expression
    | _ => none

/-- Module names of imports and re-exports, in source order. -/
def moduleSpecifiers (tree : ScriptTree) : List String :=
  tree.statements.filterMap fun s =>
    match s.value with
    | .importing declaration => some declaration.source.value
    | .reExport source => some source.value
    | _ => none

end ScriptTree

/-! ## 3. Outlines -/

/-- Two spaces a level. -/
def indentation (depth : Nat) : String := String.join (List.replicate depth "  ")

/-- Keys of an object literal, `<computed>` where there is none. -/
def Property.listing (properties : List (Node Property)) : String :=
  ", ".intercalate (properties.map fun p => p.value.key.getD "<computed>")

mutual

/-- Outline of an expression, one line a node. -/
def Expression.outline (depth : Nat) (range : TextRange) (marker : String) : Expression → String
  | .object properties =>
    s!"{indentation depth}Object @{range.render}{marker} \x7b{Property.listing properties}\x7d\n"
  | .call callee arguments =>
    s!"{indentation depth}Call @{range.render}{marker}\n" ++
    s!"{indentation depth}  callee:\n" ++
    callee.outlineExpression (depth + 2) ++
    s!"{indentation depth}  arguments @{arguments.range.render}{arguments.marker}:\n" ++
    Expression.outlineAll (depth + 2) arguments.value
  | .identifier name => s!"{indentation depth}Identifier {name} @{range.render}{marker}\n"
  | .other => s!"{indentation depth}Other @{range.render}\n"

/-- Outline of an expression node. -/
def Node.outlineExpression (depth : Nat) : Node Expression → String
  | ⟨value, range, origin⟩ =>
    value.outline depth range (if origin == .synthetic then " (synthetic)" else "")

/-- Outlines of the arguments of a call. -/
def Expression.outlineAll (depth : Nat) : List (Node Expression) → String
  | [] => ""
  | n :: ns => n.outlineExpression depth ++ Expression.outlineAll depth ns

end

/-- Outline of a statement. -/
def Statement.outline (s : Node Statement) : String :=
  match s.value with
  | .importing declaration =>
    let binding := match declaration.defaultBinding with
      | some b => s!" default {b.value}@{b.range.render}"
      | none => ""
    s!"Import @{s.range.render}{s.marker}{binding}" ++
    s!" from {Text.quoted declaration.source.value}@{declaration.source.range.render}\n"
  | .reExport source => s!"ReExport @{s.range.render} from {Text.quoted source.value}\n"
  | .exportDefault expression =>
    s!"ExportDefault @{s.range.render}{s.marker}\n" ++ expression.outlineExpression 1
  | .other => s!"Other @{s.range.render}\n"

/-- Outline of a script, one node a line. -/
def ScriptTree.outline (tree : ScriptTree) : String :=
  String.join (tree.statements.map Statement.outline)

end ComponentHost
