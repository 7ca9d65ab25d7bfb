/- # The project host

What the compiler knows of a project.  Components appear to it as scripts: the script of an open
component is the one last written, that of any other component is read from its file, and a blank
script is a placeholder.  The version of a script moves only when its text does, or when its file
is said to have changed.

The host is a value; each operation that changes it gives the host after it.  Files are asked of
the system that is handed in, which may change between operations.
-/
import ComponentHost.Document.Cache
import ComponentHost.Host.SourceFiles
import ComponentHost.Project.Basic
import ComponentHost.Resolve
import ComponentHost.Settings
import ComponentHost.Text.Quoted

namespace ComponentHost

/-! ## 1. The state -/

/-- What is known of a script. -/
structure ScriptState where
  version : Nat := 0
  /-- The text last written, if the component was ever open. -/
  text : Option String := none
  kind : Option ScriptKind := none
deriving Repr

/-- The files of a project: in the order in which they came, and once more as a set, which is asked
whether a file is among them. -/
structure RootFiles where
  names : List String
  members : Table String Unit
  mem_keys_iff : ∀ file, file ∈ members.keys ↔ file ∈ names

namespace RootFiles

/-- No files. -/
def empty : RootFiles := ⟨[], [], fun _ => Iff.rfl⟩

/-- Is the file among them? -/
def has (r : RootFiles) (file : String) : Bool := Table.has r.members file

/-- One more file, behind the others. -/
def add (r : RootFiles) (file : String) : RootFiles where
  names := r.names ++ [file]
  members := Table.set r.members file ()
  mem_keys_iff p := by
    rw [Table.mem_keys_set, r.mem_keys_iff, List.mem_append, List.mem_singleton, or_comm]

theorem has_iff {r : RootFiles} {file : String} : r.has file ↔ file ∈ r.names := by
  rw [← r.mem_keys_iff, Table.mem_keys_iff]
  rfl

end RootFiles

/-- A host. -/
structure Host where
  workspace : String
  options : CompilerOptions
  /-- The directory of the library files. -/
  libraryDirectory : String
  bridge : BridgeDeclaration
  factory : TreeFactory
  /-- The indexes of documents. -/
  regions : Cache DocumentIndex
  /-- The files of the project. -/
  rootFiles : RootFiles := .empty
  /-- Moves whenever a file joins the project. -/
  projectVersion : Nat := 0
  scripts : Table String ScriptState := []
  sources : SourceFiles := {}

/-- What came of a document that was written. -/
structure ScriptChange where
  file : String
  masked : MaskedDocument
  version : Nat
  kind : ScriptKind
  /-- The script was of another kind before. -/
  kindChanged : Bool

namespace Host

/-- The files of the project, in the order in which they came. -/
def roots (h : Host) : List String := h.rootFiles.names

/-- Is the file part of the project? -/
def isRoot (h : Host) (file : String) : Bool := h.rootFiles.has file

/-- A file joins the project, unless it is part of it already. -/
def addRoot (h : Host) (file : String) : Host :=
  if h.isRoot file then h
  else { h with rootFiles := h.rootFiles.add file, projectVersion := h.projectVersion + 1 }

/-- The directory of the library files: as the settings say, or that of the installed compiler. -/
def libraryDirectoryOf (workspace : String) (s : Settings) : String :=
  Path.child workspace (s.libraryDirectory.getD "node_modules/typescript/lib")

/-- The host of a workspace.  The project and the bridge are those of the files on disk. -/
def ofWorkspace (disk : FileTree) (workspace : String) (s : Settings) (factory : TreeFactory) :
    Host :=
  let project := Project.load disk workspace
  let start : Host :=
    { workspace := workspace
      options := project.options
      libraryDirectory := libraryDirectoryOf workspace s
      bridge := .detect disk workspace s.dependency s.threshold
      factory := factory
      regions := { capacity := s.cacheCapacity, timeToLive := s.cacheSeconds * Cache.second } }
  project.files.foldl addRoot start

/-- What is known of a script. -/
def script? (h : Host) (file : String) : Option ScriptState := Table.get? h.scripts file

/-! ## 2. Scripts -/

/-- The version of a script. -/
def scriptVersion (h : Host) (file : String) : Nat :=
  if file = Bridge.fileName then 0 else ((h.script? file).map (·.version)).getD 0

/-- The script of a component that is not open. -/
def scriptOnDisk (s : FileView) (file : String) : ScriptView :=
  .ofText ((s.textOf? file).getD "")

/-- The text of a component's script. -/
def componentText (h : Host) (s : FileView) (file : String) : String :=
  ((h.script? file).bind (·.text)).getD (scriptOnDisk s file).text

/-- The text of a script. -/
def snapshot? (h : Host) (s : FileView) (file : String) : Option String :=
  if file = Bridge.fileName then some h.bridge.content
  else if Path.isComponent file then some (orPlaceholder (h.componentText s file))
  else s.withScripts.textOf? file

/-- The kind of a script. -/
def scriptKind (h : Host) (s : FileView) (file : String) : ScriptKind :=
  if file = Bridge.fileName then .ts
  else if Path.isComponent file then
    ((h.script? file).bind (·.kind)).getD (.ofLanguageId (scriptOnDisk s file).language)
  else .ofFileName file

/-- The parsed script of a file; also the uses of the factory. -/
def sourceFile (h : Host) (s : FileView) (file : String) :
    Option SourceFile × List FactoryCall × Host :=
  match h.snapshot? s file with
  | none => (none, [], h)
  | some text =>
    let (found, calls, sources) :=
      h.sources.getOrUpdate h.factory file text (h.scriptVersion file) (h.scriptKind s file)
    (found, calls, { h with sources := sources })

/-! ## 3. Changes -/

/-- The components that a document imports by relative names and that exist. -/
def importedComponents (s : FileView) (file : String) (imports : List String) : List String :=
  let names := imports.filter fun m => Path.isRelativeName m && Path.isComponent m
  (names.map (Path.join (Path.directoryOf file))).filter s.fileExists

/-- A script with a text and a kind; the version moves if the text does. -/
def written (state : ScriptState) (text : String) (kind : ScriptKind) : ScriptState :=
  { version := if state.text = some text then state.version else state.version + 1
    text := some text
    kind := some kind }

/-- Takes in the text of an open document.  A component joins the project, and so do the components
that it imports. -/
def updateDocument (h : Host) (s : FileView) (now : Nat) (d : Document) : ScriptChange × Host :=
  let file := d.fileName
  let (index, _, regions) := h.regions.get d.fingerprint now fun _ => .ofDocument d
  let masked := index.projection (.kind .script)
  let kind := ScriptKind.ofLanguageId
    ((index.layout.scriptRegion?.map (·.language)).getD RegionKind.script.defaultLanguage)
  let h := { h with regions := regions }
  let h := if Path.isComponent file then h.addRoot file else h
  let h := (importedComponents s file index.layout.imports).foldl addRoot h
  let before := (h.script? file).getD {}
  let after := written before masked.text kind
  let kindChanged := before.kind.any (· != kind)
  let h := { h with scripts := Table.set h.scripts file after }
  let h := if kindChanged then { h with sources := h.sources.reset file kind } else h
  (⟨file, masked, after.version, kind, kindChanged⟩, h)

/-- Notes that a file has changed outside of the editor. -/
def touch (h : Host) (file : String) : Host :=
  let file := Path.normalize file
  let state := (h.script? file).getD {}
  { h with scripts := Table.set h.scripts file { state with version := state.version + 1 } }

/-! ## 4. Modules -/

/-- The resolver of the project. -/
def resolver (h : Host) : Resolver := ⟨h.options.allowUntyped⟩

/-- Looks up the name of a module that a file imports.  A component that is found joins the project
and is reported under the extension of its script. -/
def resolveModule (h : Host) (s : FileView) (containing name : String) :
    Option ModuleTarget × Host :=
  if name = Bridge.moduleName then (some ⟨Bridge.fileName, .ts, false⟩, h)
  else if Path.isAbsolute name || !Path.isComponent name then
    (h.resolver.resolve s name containing, h)
  else
    match h.resolver.resolve s.withScripts name containing with
    | none => (none, h)
    | some found =>
      if Path.isViewName found.file then
        let file := Path.ofViewName found.file
        let extension := Extension.forComponent (h.scriptKind s file)
        (some ⟨file, extension, found.isExternal⟩, h.addRoot file)
      else (some found, h)

/-- Looks up several names, one after another. -/
def resolveModules (h : Host) (s : FileView) (containing : String) :
    List String → List (Option ModuleTarget) × Host
  | [] => ([], h)
  | name :: rest =>
    let (found, h) := h.resolveModule s containing name
    let (more, h) := h.resolveModules s containing rest
    (found :: more, h)

/-! ## 5. The rest of what the compiler asks -/

/-- The library file that some options imply. -/
def libraryFile (h : Host) (o : CompilerOptions) : String :=
  Path.normalize (Path.child h.libraryDirectory o.defaultLibrary)

/-- The directory of the project. -/
def currentDirectory (h : Host) : String := Path.normalize h.workspace

/-- A line about the host. -/
def describe (h : Host) : String :=
  let workspace := Text.quoted h.workspace
  s!"VirtualProjectHost \x7b workspace: {workspace}, bridge: {h.bridge.name}, roots: {h.roots.length}, .. \x7d"

end Host

end ComponentHost
