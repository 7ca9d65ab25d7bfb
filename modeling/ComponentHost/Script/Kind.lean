/- # Script languages and module extensions

A script is analysed in one of six flavours.  The flavour of a script block comes from its
language id, that of a plain file from the longest known suffix of its name; a component file
is reported to the compiler under the extension that fits the flavour of its script.
-/
namespace ComponentHost

/-- Flavour in which a script is analysed. -/
inductive ScriptKind where
  | js
  | jsx
  | ts
  | tsx
  | json
  | unknown
deriving DecidableEq, Repr, Inhabited

/-- Extension of a resolved module. -/
inductive Extension where
  | ts
  | tsx
  | dts
  | js
  | jsx
  | json
deriving DecidableEq, Repr

namespace Extension

/-- The suffix that carries the extension. -/
def suffix : Extension → String
  | ts => ".ts"
  | tsx => ".tsx"
  | dts => ".d.ts"
  | js => ".js"
  | jsx => ".jsx"
  | json => ".json"

/-- Every extension, with the declaration suffix before the plain suffix that it ends in. -/
def all : List Extension := [dts, ts, tsx, js, jsx, json]

/-- The extension of a file name: the first of `all` whose suffix the name ends in. -/
def ofFileName? (name : String) : Option Extension :=
  all.find? fun e => name.endsWith e.suffix

/-- Extension under which a component with a script of this kind is reported. -/
def forComponent : ScriptKind → Extension
  | .ts => ts
  | .tsx => tsx
  | .jsx => jsx
  | _ => js

/-- Does the extension hold typed source? -/
def isTyped : Extension → Bool
  | ts | tsx | dts => true
  | _ => false

end Extension

namespace ScriptKind

/-- Kind implied by the language id of a script block; every unknown id means plain script. -/
def ofLanguageId : String → ScriptKind
  | "typescript" => ts
  | "tsx" => tsx
  | "jsx" => jsx
  | _ => js

/-- Kind implied by the name of a plain file. -/
def ofFileName (name : String) : ScriptKind :=
  match Extension.ofFileName? name with
  | some .ts | some .dts => ts
  | some .tsx => tsx
  | some .js => js
  | some .jsx => jsx
  | some .json => json
  | none => unknown

/-- Is the script typed source? -/
def isTyped : ScriptKind → Bool
  | ts | tsx => true
  | _ => false

/-- Does the flavour admit markup elements as expressions? -/
def allowsMarkup : ScriptKind → Bool
  | jsx | tsx => true
  | _ => false

end ScriptKind

end ComponentHost
