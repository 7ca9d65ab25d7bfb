/- # Compiler options

What a project tells the compiler.  Options that this program acts on have fields of their own;
every other option is passed through as it was written.
-/
import ComponentHost.Json.Value
import ComponentHost.Text.Ascii

namespace ComponentHost

/-! ## 1. The kinds of options -/

/-- The language level of the output. -/
inductive ScriptTarget where
  | es3 | es5 | es2015 | es2016 | es2017 | es2018 | es2019 | es2020 | es2021 | es2022
  | esNext | latest
deriving DecidableEq, Repr

namespace ScriptTarget

/-- The target of a name in small letters. -/
def ofName? : String → Option ScriptTarget
  | "es3" => some .es3
  | "es5" => some .es5
  | "es6" | "es2015" => some .es2015
  | "es2016" => some .es2016
  | "es2017" => some .es2017
  | "es2018" => some .es2018
  | "es2019" => some .es2019
  | "es2020" => some .es2020
  | "es2021" => some .es2021
  | "es2022" => some .es2022
  | "esnext" => some .esNext
  | "latest" => some .latest
  | _ => none

/-- The library file that a target implies. -/
def defaultLibrary : ScriptTarget → String
  | .es3 | .es5 => "lib.d.ts"
  | .es2015 => "lib.es6.d.ts"
  | .es2016 => "lib.es2016.full.d.ts"
  | .es2017 => "lib.es2017.full.d.ts"
  | .es2018 => "lib.es2018.full.d.ts"
  | .es2019 => "lib.es2019.full.d.ts"
  | .es2020 => "lib.es2020.full.d.ts"
  | .es2021 => "lib.es2021.full.d.ts"
  | .es2022 => "lib.es2022.full.d.ts"
  | .esNext | .latest => "lib.esnext.full.d.ts"

end ScriptTarget

/-- The form in which modules are written. -/
inductive ModuleFormat where
  | none | commonJs | amd | umd | system | es2015 | es2020 | esNext | node16 | nodeNext
deriving DecidableEq, Repr

/-- The module format of a name in small letters. -/
def ModuleFormat.ofName? : String → Option ModuleFormat
  | "none" => some .none
  | "commonjs" => some .commonJs
  | "amd" => some .amd
  | "umd" => some .umd
  | "system" => some .system
  | "es6" | "es2015" => some .es2015
  | "es2020" => some .es2020
  | "esnext" => some .esNext
  | "node16" => some .node16
  | "nodenext" => some .nodeNext
  | _ => Option.none

/-- The rules by which module names are looked up. -/
inductive ResolutionRules where
  | classic | nodeJs | node16 | nodeNext | bundler
deriving DecidableEq, Repr

/-- The look-up rules of a name in small letters. -/
def ResolutionRules.ofName? : String → Option ResolutionRules
  | "classic" => some .classic
  | "node" | "node10" => some .nodeJs
  | "node16" => some .node16
  | "nodenext" => some .nodeNext
  | "bundler" => some .bundler
  | _ => none

/-- What becomes of markup in scripts. -/
inductive MarkupEmit where
  | none | preserve | react | reactNative | reactJsx
deriving DecidableEq, Repr

/-- The treatment of markup of a name in small letters. -/
def MarkupEmit.ofName? : String → Option MarkupEmit
  | "none" => some .none
  | "preserve" => some .preserve
  | "react" => some .react
  | "react-native" => some .reactNative
  | "react-jsx" => some .reactJsx
  | _ => Option.none

/-! ## 2. Options of a project -/

/-- The options handed to the compiler. -/
structure CompilerOptions where
  /-- Files with other extensions may be part of a program. -/
  allowOtherExtensions : Bool := true
  /-- Untyped scripts may be part of a program. -/
  allowUntyped : Bool := true
  /-- File names of the libraries. -/
  libraries : List String := ["lib.dom.d.ts", "lib.es2017.d.ts"]
  target : ScriptTarget := .latest
  resolution : ResolutionRules := .nodeJs
  format : ModuleFormat := .commonJs
  markup : MarkupEmit := .preserve
  /-- A module without a default export may be imported as if it had one. -/
  allowSyntheticDefaults : Bool := true
  /-- All other options, in the order of their names. -/
  other : List (String × Json) := []

namespace CompilerOptions

/-- The file of a library; a name that already is one is kept. -/
def libraryFile (name : String) : String :=
  let name := Text.lowercase name
  if name.startsWith "lib." && name.endsWith ".d.ts" then name else "lib." ++ name ++ ".d.ts"

/-- The options with one option set; `none` if the option is none of those this program acts on,
or its value is not of the right kind.  Other extensions stay allowed whatever is written. -/
def applied? (o : CompilerOptions) (key : String) (value : Json) : Option CompilerOptions :=
  match key, value with
  | "allowJs", .bool b => some { o with allowUntyped := b }
  | "allowSyntheticDefaultImports", .bool b => some { o with allowSyntheticDefaults := b }
  | "target", .string s =>
    (ScriptTarget.ofName? (Text.lowercase s)).map fun t => { o with target := t }
  | "module", .string s =>
    (ModuleFormat.ofName? (Text.lowercase s)).map fun m => { o with format := m }
  | "moduleResolution", .string s =>
    (ResolutionRules.ofName? (Text.lowercase s)).map fun m => { o with resolution := m }
  | "jsx", .string s => (MarkupEmit.ofName? (Text.lowercase s)).map fun m => { o with markup := m }
  | "lib", .array items => some { o with libraries := (items.filterMap Json.text?).map libraryFile }
  | "allowNonTsExtensions", _ => some o
  | _, _ => none

/-- The options with one option set or passed through. -/
def apply (o : CompilerOptions) (key : String) (value : Json) : CompilerOptions :=
  (o.applied? key value).getD { o with other := Table.insertSorted key value o.other }

/-- The options that the members of a configuration give, over the defaults. -/
def ofMembers (members : List (String × Json)) : CompilerOptions :=
  members.foldl (fun o (key, value) => o.apply key value) {}

/-- The library file that the options imply. -/
def defaultLibrary (o : CompilerOptions) : String := o.target.defaultLibrary

end CompilerOptions

end ComponentHost
