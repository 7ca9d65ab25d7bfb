/- # Bridged default exports

A component exports its options as an object literal.  For the compiler the literal is wrapped,
in the tree and not in the text, in a call of the bridge function, so that what is exported
reads `__vueEditorBridge({ … })`, and an import of that function from the bridge module is put
in front of all statements.

The call covers the literal's range, so what the compiler reports about the call points at the
literal; the import covers nothing.
-/
import ComponentHost.Script.Tree

namespace ComponentHost

namespace Bridge

/-- Name that the made import binds. -/
def identifier : String := "__vueEditorBridge"

/-- Reserved module name of the bridge. -/
def moduleName : String := "vue-editor-bridge"

/-- File that the module name stands for; it never exists on disk. -/
def fileName : String := "vue-temp/vue-editor-bridge.ts"

/-- The import of the bridge function. -/
def importing : Node Statement :=
  .synthetic
    (.importing
      { defaultBinding := some (.synthetic identifier .empty)
        source := .synthetic moduleName .empty })
    .empty

/-- A literal wrapped in a call of the bridge function. -/
def wrapped (literal : Node Expression) : Node Expression :=
  let range := literal.range
  .synthetic
    (.call (.synthetic (.identifier identifier) ⟨range.start, range.start + 1⟩)
      (.synthetic [literal] range))
    range

end Bridge

namespace Expression

/-- Is the expression an object literal? -/
def isObject : Expression → Bool
  | .object _ => true
  | _ => false

end Expression

namespace ScriptTree

/-- Wraps the first default export of an object literal; `none` if there is none. -/
def wrapFirst? : List (Node Statement) → Option (List (Node Statement))
  | [] => none
  | s :: rest =>
    match s.value with
    | .exportDefault e =>
      if e.value.isObject then
        some (⟨.exportDefault (Bridge.wrapped e), s.range, s.origin⟩ :: rest)
      else (wrapFirst? rest).map (s :: ·)
    | _ => (wrapFirst? rest).map (s :: ·)

/-- The tree with its default export bridged; `none` if it exports no object literal. -/
def bridged? (tree : ScriptTree) : Option ScriptTree :=
  (wrapFirst? tree.statements).map fun statements =>
    { tree with statements := Bridge.importing :: statements }

/-- The tree with its default export bridged, or the tree itself. -/
def bridged (tree : ScriptTree) : ScriptTree := tree.bridged?.getD tree

/-- Does the first default export go through the bridge? -/
def isBridged (tree : ScriptTree) : Bool :=
  match tree.defaultExport? with
  | some e => e.value.calleeName? == some Bridge.identifier
  | none => false

end ScriptTree

end ComponentHost
