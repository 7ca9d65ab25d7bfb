/- # Module names

A module name is looked up as a file, with and without each extension, and then as a directory
with a manifest or an index file.  Relative and absolute names are paths; every other name is
looked up in the installed packages of the importing file's directory and those above it, and
there also among the packages that only declare types.
-/
import ComponentHost.Json.Reader
import ComponentHost.Script.Kind
import ComponentHost.FileView

namespace ComponentHost

/-- Where a module name leads. -/
structure ModuleTarget where
  file : String
  extension : Extension
  /-- Found among installed packages. -/
  isExternal : Bool
deriving DecidableEq, Repr

/-! ## 1. Manifests -/

/-- The fields of a manifest that lead to a file. -/
structure ManifestEntry where
  types : Option String := none
  typings : Option String := none
  main : Option String := none
deriving Repr

namespace ManifestEntry

/-- The names of the fields, in order. -/
def fields : List String := ["types", "typings", "main"]

/-- A text, or null for none. -/
def optionalText? (v : Json) : Option (Option String) :=
  if v.isNull then some none else v.text?.map some

/-- Sets one field; none if the value is of the wrong kind. -/
def set? (e : ManifestEntry) (field : String) (v : Json) : Option ManifestEntry :=
  match field with
  | "types" => (optionalText? v).map fun t => { e with types := t }
  | "typings" => (optionalText? v).map fun t => { e with typings := t }
  | "main" => (optionalText? v).map fun t => { e with main := t }
  | _ => none

/-- The entry of some fields. -/
def ofFields? (values : List (String × Json)) : Option ManifestEntry :=
  values.foldlM (fun e (field, v) => e.set? field v) {}

/-- The entry of a record: no field may come twice, and a list holds exactly the fields in
order. -/
def ofRecord? : Json.Reader.Record → Option ManifestEntry
  | .named members => if (members.map Prod.fst).Nodup then ofFields? members else none
  | .listed items => if items.length = fields.length then ofFields? (fields.zip items) else none

/-- The entry of a manifest. -/
def parse? (text : String) : Option ManifestEntry :=
  (Json.Reader.record? fields text).bind ofRecord?

end ManifestEntry

/-! ## 2. Directories above a directory -/

namespace Path

/-- A normal directory and those above it, nearest first. -/
def directoriesAbove (dir : String) : List String :=
  dir :: if _h : directoryOf dir = dir ∨ directoryOf dir = "." then []
    else directoriesAbove (directoryOf dir)
termination_by dir.length
decreasing_by exact length_directoryOf_lt (fun e => _h (.inl e)) (fun e => _h (.inr e))

end Path

/-! ## 3. Resolution -/

/-- Looks up module names. -/
structure Resolver where
  /-- Untyped scripts can be modules. -/
  allowUntyped : Bool
deriving DecidableEq, Repr

namespace Resolver

/-- The extensions to try, in order. -/
def extensions (r : Resolver) (typesOnly : Bool) : List Extension :=
  if r.allowUntyped && !typesOnly then [.ts, .tsx, .dts, .js, .jsx] else [.ts, .tsx, .dts]

/-- A path as a file: under its own name if that has a known extension, or with one appended. -/
def asFile? (r : Resolver) (s : FileView) (typesOnly : Bool) (path : String) :
    Option (String × Extension) :=
  let extensions := r.extensions typesOnly
  let itself := (Extension.ofFileName? path).filter fun e => extensions.contains e && s.fileExists path
  match itself with
  | some e => some (path, e)
  | none => (extensions.find? fun e => s.fileExists (path ++ e.suffix)).map fun e => (path ++ e.suffix, e)

/-- The index file of a directory. -/
def asIndex? (r : Resolver) (s : FileView) (typesOnly : Bool) (dir : String) :
    Option (String × Extension) :=
  r.asFile? s typesOnly (Path.join dir "index")

/-- The paths that the manifest of a directory names, in order.  What a program runs counts only
where untyped scripts do. -/
def manifestTargets (r : Resolver) (s : FileView) (typesOnly : Bool) (dir : String) :
    List String :=
  match (s.textOf? (Path.join dir "package.json")).bind ManifestEntry.parse? with
  | none => []
  | some e =>
    let main := if typesOnly || !r.allowUntyped then none else e.main
    ([e.types, e.typings, main].filterMap id).map (Path.join dir)

/-- A path as a directory: what its manifest names, as a file or by its index, or else its own
index file. -/
def asDirectory? (r : Resolver) (s : FileView) (typesOnly : Bool) (dir : String) :
    Option (String × Extension) :=
  if s.directoryExists dir then
    ((r.manifestTargets s typesOnly dir).findSome? fun target =>
      (r.asFile? s typesOnly target).orElse fun _ => r.asIndex? s typesOnly target).orElse
        fun _ => r.asIndex? s typesOnly dir
  else none

/-- A path as a file or as a directory. -/
def asPath? (r : Resolver) (s : FileView) (typesOnly : Bool) (path : String) :
    Option (String × Extension) :=
  (r.asFile? s typesOnly path).orElse fun _ => r.asDirectory? s typesOnly path

/-- A name in the installed packages of one directory. -/
def asPackage? (r : Resolver) (s : FileView) (name dir : String) :
    Option (String × Extension) :=
  let packages := Path.join dir "node_modules"
  if s.directoryExists packages then
    (r.asPath? s false (Path.join packages name)).orElse fun _ =>
      r.asPath? s true (Path.join packages ("@types/" ++ name))
  else none

/-- Looks up the name of a module that a file imports. -/
def resolve (r : Resolver) (s : FileView) (name containing : String) : Option ModuleTarget :=
  let dir := Path.directoryOf containing
  if Path.isRelativeName name || Path.isAbsolute name then
    (r.asPath? s false (Path.join dir name)).map fun (file, e) => ⟨file, e, false⟩
  else
    ((Path.directoriesAbove dir).findSome? (r.asPackage? s name)).map fun (file, e) => ⟨file, e, true⟩

end Resolver

end ComponentHost
