/- # Values and goals of the script grammar

The grammar does not build a full tree.  Of an expression it keeps what the host shows of it
(`Expression`), the range it covers, and what is needed to decide later whether it can be the
target of an assignment.  The last point matters because `{ a = 1 }` and `[a, b]` are read as
literals before the `=` that would make them patterns is seen; `Target` records, for each
literal, what reading it as a pattern would meet.

The rules of the grammar call each other in circles.  A circle always passes through one of
the `Goal`s, so every rule is an ordinary function of the rules for goals (`Rules`), and the
circle is closed once, by counting down, where a whole script is read.
-/
import ComponentHost.Script.Grammar.Parse

namespace ComponentHost.Grammar

/-! ## 1. Targets of assignments -/

/-- How an expression can stand on the left of an assignment. -/
inductive Target where
  /-- It cannot. -/
  | never
  /-- A name or a member. -/
  | simple
  /-- An assignment: an element of a pattern with a default; `plain` if it is written `=`. -/
  | defaulted (plain : Bool)
  /-- A literal that is also a pattern.  It takes up the shorthand initialisers `covers`; a
  pattern that is not `sound` has an error of its own. -/
  | pattern (covers : List Nat) (sound : Bool)
deriving DecidableEq, Repr

namespace Target

/-- What an element of a literal contributes to the pattern that the literal may be. -/
def element : Target → Target
  | .defaulted plain => .pattern [] plain
  | .simple => .pattern [] true
  | t => t

/-- The target that a literal is, given those of its elements. -/
def all (sound : Bool) (elements : List Target) : Target :=
  elements.foldl (fun whole e =>
    match whole, e.element with
    | .pattern covers ok, .pattern covers' ok' => .pattern (covers ++ covers') (ok && ok')
    | _, _ => .never) (.pattern [] sound)

/-- The target that an expression in parentheses is. -/
def parenthesized : Target → Target
  | .simple => .simple
  | _ => .never

end Target

/-! ## 2. Expressions -/

/-- Forms of expressions that some rule asks about; `other` is every form that none does. -/
inductive Form where
  | name
  /-- Names with dots between them. -/
  | dotted
  | string
  /-- A template without substitutions. -/
  | wholeTemplate
  /-- A number or a truth value. -/
  | constant
  /-- A number with a sign. -/
  | negated
  /-- A choice by `&&` or `||`. -/
  | logical
  /-- An operator before its operand. -/
  | unary
  /-- An expression with types between angles after it. -/
  | instantiated
  /-- A call of `import`. -/
  | importCall
  /-- A test whether a private name is a member. -/
  | privateTest
  /-- Expressions with commas between them. -/
  | sequence
  | other
deriving DecidableEq, Repr

namespace Form

/-- Is the expression an operator applied to one operand? -/
def isUnary (f : Form) : Bool := f == .unary || f == .negated

/-- Is the expression a path of names? -/
def isPath (f : Form) : Bool := f == .name || f == .dotted

/-- May the expression stand for the value of a constant that is only announced? -/
def isFixed (f : Form) : Bool :=
  [.string, .wholeTemplate, .constant, .negated, .dotted].contains f

end Form

/-- An expression, as far as the grammar keeps it. -/
structure Operand where
  range : TextRange
  expression : Expression := .other
  target : Target := .never
  form : Form := .other
  /-- The value, if the expression is a string. -/
  text : String := ""

namespace Operand

/-- The expression as a node of the tree. -/
def node (o : Operand) : Node Expression := Node.parsed o.expression o.range

end Operand

/-! ## 3. Statements and bindings -/

/-- A statement with its range. -/
structure Item where
  range : TextRange
  statement : Statement := .other
  /-- The statement is a string alone. -/
  isText : Bool := false

/-- Forms of types that some rule asks about; `other` is every form that none does. -/
inductive TypeForm where
  /-- An array or a tuple. -/
  | list
  /-- A type with a question mark after it. -/
  | optional
  | string
  | other
deriving DecidableEq, Repr

/-- What a binding introduces. -/
structure Binding where
  names : List String
  /-- A single name, and no pattern. -/
  plain : Bool

/-! ## 4. Goals -/

/-- The rules through which every circle of the grammar passes. -/
inductive Goal where
  /-- An expression without commas.  A function `(a) : T => b` between `?` and `:` must not
  take the colon for itself, unless `returnTypes`. -/
  | assignment (returnTypes : Bool)
  /-- An expression of operators that bind tighter than a level. -/
  | binary (level : Nat)
  /-- An expression with at most operators before it. -/
  | unary
  /-- An expression followed by members, without calls. -/
  | member
  /-- An expression followed by members and calls. -/
  | callee
  /-- A statement; `single` if a declaration may not stand there. -/
  | statement (single : Bool)
  /-- A name or pattern that is bound. -/
  | binding
  /-- A type. -/
  | type
  /-- A type without operators between types. -/
  | typeOperand
  /-- A markup element after its `<`; inside another one the text after it is text again. -/
  | element (child : Bool)

/-- What reaching a goal gives. -/
@[reducible] def Goal.Value : Goal → Type
  | .assignment _ | .binary _ | .unary | .member | .callee => Operand
  | .statement _ => Item
  | .binding => Binding
  | .type | .typeOperand => TypeForm
  | .element _ => Unit

/-- A way to reach every goal. -/
def Rules := (g : Goal) → Parse g.Value

namespace Rules

variable (r : Rules)

/-- An expression without commas. -/
def assignment : Parse Operand := r (.assignment true)

/-- A statement. -/
def statement : Parse Item := r (.statement false)

/-- A statement that is no declaration. -/
def body : Parse Item := r (.statement true)

/-- A name or pattern that is bound. -/
def binding : Parse Binding := r .binding

/-- A type. -/
def type : Parse TypeForm := r .type

/-- A type in which `extends` may start a condition. -/
def freeType : Parse Unit := discard <| Parse.freeTypes r.type

/-- An expression. -/
def expression : Parse Operand := do
  let start ← Parse.here
  let first ← r.assignment
  if !(← Parse.sees ",") then return first
  Parse.bump
  discard <| Parse.separated "," r.assignment
  return { range := ← Parse.rangeFrom start, form := .sequence }

end Rules

end ComponentHost.Grammar
