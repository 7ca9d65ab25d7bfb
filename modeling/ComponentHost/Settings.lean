/- # Settings

Settings come from a file in the workspace or above it.  Every setting has a default, so that a
missing file, a missing table and a missing key mean the same.
-/
import ComponentHost.Script.BridgeDeclaration
import ComponentHost.Toml.Reader

namespace ComponentHost

/-- The formatter of a language. -/
inductive Formatter where
  | builtin
  | prettier
  | prettierEslint
  | none
deriving DecidableEq, Repr

namespace Formatter

/-- The name of a formatter. -/
def name : Formatter → String
  | .builtin => "builtin"
  | .prettier => "prettier"
  | .prettierEslint => "prettier-eslint"
  | .none => "none"

/-- The formatter of a name. -/
def ofName? (name : String) : Option Formatter :=
  [builtin, prettier, prettierEslint, none].find? (·.name = name)

end Formatter

/-- Settings of the server. -/
structure Settings where
  /-- Offer completions from modules that are not imported yet. -/
  autoImport : Bool := true
  /-- Indent the top level of scripts. -/
  indentScripts : Bool := false
  scriptFormatter : Formatter := .prettier
  styleFormatter : Formatter := .prettier
  markupFormatter : Formatter := .none
  /-- The dependency whose version decides about the bridge. -/
  dependency : String := "vue"
  /-- Versions below this one get the legacy bridge. -/
  legacyThreshold : String := "2.5"
  /-- How many documents the cache holds. -/
  cacheCapacity : Nat := 10
  /-- For how many seconds the cache holds a document. -/
  cacheSeconds : Nat := 60
  /-- The directory of the library files. -/
  libraryDirectory : Option String := none
deriving DecidableEq, Repr

namespace Settings

/-- The threshold as a version; the default one if it is none. -/
def threshold (s : Settings) : Version := (Version.parse? s.legacyThreshold).getD Version.threshold

/-! ## 1. Reading -/

/-- A field of a record, or its default if it is missing; `none` if it is of the wrong kind. -/
def field? {α : Type} (record : Toml.Entries) (name : String) (read : Toml → Option α)
    (default : α) : Option α :=
  match Table.get? record name with
  | none => some default
  | some v => read v

/-- A record inside a record; one that is missing has no fields. -/
def record? (record : Toml.Entries) (name : String) (fields : List String) :
    Option Toml.Entries :=
  field? record name (Toml.fields? fields) []

/-- The formatter that a value names. -/
def formatter? (v : Toml) : Option Formatter := v.choice?.bind Formatter.ofName?

/-- The settings of a document; unknown fields are ignored. -/
def ofEntries? (root : Toml.Entries) : Option Settings := do
  let completion ← record? root "completion" ["auto_import"]
  let format ← record? root "format" ["initial_script_indent", "default_formatter"]
  let formatters ← record? format "default_formatter" ["script", "style", "markup"]
  let bridge ← record? root "bridge" ["dependency", "legacy_threshold"]
  let cache ← record? root "cache" ["max_entries", "ttl_secs"]
  let typescript ← record? root "typescript" ["lib_dir"]
  let defaults : Settings := {}
  return {
    autoImport := ← field? completion "auto_import" Toml.bool? defaults.autoImport
    indentScripts := ← field? format "initial_script_indent" Toml.bool? defaults.indentScripts
    scriptFormatter := ← field? formatters "script" formatter? defaults.scriptFormatter
    styleFormatter := ← field? formatters "style" formatter? defaults.styleFormatter
    markupFormatter := ← field? formatters "markup" formatter? defaults.markupFormatter
    dependency := ← field? bridge "dependency" Toml.text? defaults.dependency
    legacyThreshold := ← field? bridge "legacy_threshold" Toml.text? defaults.legacyThreshold
    cacheCapacity := ← field? cache "max_entries" Toml.nat? defaults.cacheCapacity
    cacheSeconds := ← field? cache "ttl_secs" Toml.nat? defaults.cacheSeconds
    libraryDirectory := ← field? typescript "lib_dir" (fun v => v.text?.map some) none
  }

/-- The settings of a text. -/
def parse? (text : String) : Option Settings := (Toml.parse? text).bind ofEntries?

/-- Reads a settings file. -/
def read (disk : FileTree) (path : String) : Except ProjectError Settings := do
  match parse? (← disk.text path) with
  | some s => return s
  | none => throw (.badSettings path)

/-- Reads a settings file; the defaults if that fails. -/
def load (disk : FileTree) (path : String) : Settings := (read disk path).toOption.getD {}

/-! ## 2. Finding -/

/-- The name of settings files. -/
def fileName : String := "vuels.toml"

/-- Does the directory hold a settings file? -/
def inDirectory (disk : FileTree) (dir : String) : Bool := disk.isFile (Path.child dir fileName)

/-- The directory whose settings apply: the nearest one at or above the given one, or else one
right below it. -/
def findDirectory? (disk : FileTree) (dir : String) : Option String :=
  ((Path.ancestors dir).find? (inDirectory disk)).orElse fun _ =>
    ((disk.directoryNames dir).map (Path.child dir)).find? (inDirectory disk)

/-- The settings for a directory, and the directory they are from. -/
def discover (disk : FileTree) (dir : String) : Settings × String :=
  match findDirectory? disk dir with
  | some found => (load disk (Path.child found fileName), found)
  | none => ({}, dir)

end Settings

end ComponentHost
