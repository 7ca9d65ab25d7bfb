/- # Views of the files

What the compiler and the module resolver can ask about files.  There is a view of the files on
disk, a view of texts held in memory, and, over any of them, the view in which every component
outside of installed packages also appears as a script.
-/
import ComponentHost.Document.Projection
import ComponentHost.FileTree

namespace ComponentHost

/-- Questions about files.  Paths are normal. -/
structure FileView where
  fileExists : String → Bool
  textOf? : String → Option String
  directoryExists : String → Bool
  /-- Names of the directories in a directory. -/
  directories : String → List String
  /-- Files below a directory with one of some suffixes, or with any if none is given, and at most
  so many levels below it. -/
  filesBelow : String → List String → Option Nat → List String
  /-- The path without links. -/
  realPath : String → String

/-- The script of a component without one. -/
def placeholderScript : String := "export default \x7b\x7d;"

/-- A script as the compiler sees it: never blank. -/
def orPlaceholder (text : String) : String :=
  if Text.isBlankText text then placeholderScript else text

namespace FileView

/-- Has the name one of the suffixes?  Without suffixes every name passes. -/
def hasSuffix (suffixes : List String) (name : String) : Bool :=
  suffixes.isEmpty || suffixes.any (name.endsWith ·)

/-! ## 1. Files on disk -/

/-- The files on disk. -/
def ofDisk (disk : FileTree) : FileView where
  fileExists := disk.isFile
  textOf? path := (disk.readText path).toOption
  directoryExists := disk.isDirectory
  directories := disk.directoryNames
  filesBelow path suffixes depth :=
    ((disk.filesWithin depth path).map Path.normalize).filter (hasSuffix suffixes)
  realPath path := ((disk.canonical? path).map Path.normalize).getD path

/-! ## 2. Texts in memory -/

/-- How the paths below a directory start. -/
def below (path : String) : List Char := (path.toList.reverse.dropWhile (· == '/')).reverse ++ ['/']

/-- The part of a path below a directory. -/
def relativeTo? (dir : List Char) (path : String) : Option (List Char) :=
  if dir.isPrefixOf path.toList then some (path.toList.drop dir.length) else none

/-- Texts in memory, in the order of their paths.  A directory exists if something is below it. -/
def ofTexts (files : Table String String) : FileView where
  fileExists path := Table.has files path
  textOf? path := Table.get? files path
  directoryExists path := files.any fun e => (relativeTo? (below path) e.1).isSome
  directories path :=
    let inside := files.filterMap fun e => relativeTo? (below path) e.1
    let names := (inside.filter (·.contains '/')).map fun r => String.ofList (r.takeWhile (· != '/'))
    (Table.sorted (names.map fun name => (name, ()))).map Prod.fst
  filesBelow path suffixes _ :=
    (files.map Prod.fst).filter fun name =>
      (relativeTo? (below path) name).isSome && hasSuffix suffixes name
  realPath path := path

/-! ## 3. Components as scripts -/

/-- The script of a component, as a file of its own. -/
def componentScript (text : String) : String := orPlaceholder (ScriptView.ofText text).text

/-- The view in which each component `X.vue` outside of installed packages is also a script
`X.vue.ts`. -/
def withScripts (inner : FileView) : FileView where
  fileExists path :=
    if Path.isViewName path then inner.fileExists (Path.ofViewName path) else inner.fileExists path
  textOf? path :=
    if Path.isViewName path then (inner.textOf? (Path.ofViewName path)).map componentScript
    else inner.textOf? path
  directoryExists := inner.directoryExists
  directories := inner.directories
  filesBelow path suffixes depth :=
    let files := inner.filesBelow path suffixes depth
    if suffixes.contains Path.viewSuffix then
      files ++ ((inner.filesBelow path [".vue"] depth).filter (!Path.inPackages ·)).map Path.viewName
    else files
  realPath path :=
    if Path.isViewName path then Path.viewName (inner.realPath (Path.ofViewName path))
    else inner.realPath path

end FileView

end ComponentHost
