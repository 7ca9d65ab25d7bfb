/- # Source files

The parsed scripts that the compiler works on.  Each file has a number that it keeps for good.
A script is parsed when its file is first asked for, and again when its version has moved; a file
keeps the kind it was first parsed as until it is reset.

Parsing is a parameter: a factory makes the tree of a script, and may use the tree before it.
-/
import ComponentHost.Path
import ComponentHost.Script.Bridging
import ComponentHost.Script.Grammar.Script
import ComponentHost.Table
import ComponentHost.Text.Utf8

namespace ComponentHost

/-! ## 1. Factories -/

/-- Makes the trees of scripts. -/
structure TreeFactory where
  /-- The tree of a file, its text and its kind. -/
  create : String → String → ScriptKind → ScriptTree
  /-- The tree of a file after a change, given the tree before it. -/
  update : String → ScriptTree → String → ScriptKind → ScriptTree

namespace TreeFactory

/-- The tree of a script.  The default export of an untyped component is bridged. -/
def bridgedTree (file text : String) (kind : ScriptKind) : ScriptTree :=
  let tree := ScriptTree.parse kind text
  if Path.isComponent file && !kind.isTyped then tree.bridged else tree

/-- Parses every text anew and bridges untyped components. -/
def bridging : TreeFactory where
  create := bridgedTree
  update file _ text kind := bridgedTree file text kind

end TreeFactory

/-- A use of the factory. -/
inductive FactoryCall where
  | create (file : String) (kind : ScriptKind)
  | update (file : String) (kind : ScriptKind) (before : ScriptTree)

/-! ## 2. Files -/

/-- The text from one offset to another, within the bounds of the text; empty if an offset is
inside a character. -/
def textBetween (text : String) (start stop : Nat) : String :=
  let bytes := Utf8.bytes text
  let stop := min stop bytes.length
  let start := min start stop
  ((Utf8.decode? ((bytes.drop start).take (stop - start))).map String.ofList).getD ""

/-- The number of a file. -/
structure FileId where
  index : Nat
deriving DecidableEq, Repr

/-- The number as text. -/
def FileId.render (id : FileId) : String := s!"#{id.index}"

/-- A parsed script. -/
structure SourceFile where
  id : FileId
  file : String
  version : Nat
  /-- The kind that the file was first parsed as. -/
  kind : ScriptKind
  tree : ScriptTree

/-- What is kept of a file. -/
structure SourceRecord where
  file : String
  kind : ScriptKind
  version : Nat
  tree : ScriptTree

/-- The version that a file has once its tree is forgotten. -/
def forgottenVersion : Nat := Nat.pow 2 64 - 1

/-- Numbers of files are below this bound. -/
def maxFiles : Nat := Nat.pow 2 32

/-! ## 3. All files -/

/-- All files, by name and by number. -/
structure SourceFiles where
  ids : Table String FileId := []
  records : List SourceRecord := []

namespace SourceFiles

/-- The number of a file. -/
def idOf? (a : SourceFiles) (file : String) : Option FileId := Table.get? a.ids file

/-- How many files there are. -/
def size (a : SourceFiles) : Nat := a.records.length

/-- The record as a file. -/
def ofRecord (id : FileId) (r : SourceRecord) : SourceFile := ⟨id, r.file, r.version, r.kind, r.tree⟩

/-- A file that is asked for the first time; `none` if there are too many. -/
def added (a : SourceFiles) (factory : TreeFactory) (file text : String) (version : Nat)
    (kind : ScriptKind) : Option SourceFile × List FactoryCall × SourceFiles :=
  if a.size < maxFiles then
    let id : FileId := ⟨a.size⟩
    let record : SourceRecord := ⟨file, kind, version, factory.create file text kind⟩
    (some (ofRecord id record), [.create file kind],
      { ids := Table.set a.ids file id, records := a.records ++ [record] })
  else (none, [], a)

/-- The record brought up to a version. -/
def refreshed (factory : TreeFactory) (file text : String) (version : Nat) (r : SourceRecord) :
    SourceRecord :=
  { r with version := version, tree := factory.update file r.tree text r.kind }

/-- The file at a version, parsed if it is new or the version has moved; also the uses of the
factory. -/
def getOrUpdate (a : SourceFiles) (factory : TreeFactory) (file text : String) (version : Nat)
    (kind : ScriptKind) : Option SourceFile × List FactoryCall × SourceFiles :=
  match a.idOf? file with
  | none => a.added factory file text version kind
  | some id =>
    match a.records[id.index]? with
    | none => (none, [], a)
    | some r =>
      if r.version = version then (some (ofRecord id r), [], a)
      else
        let new := refreshed factory file text version r
        (some (ofRecord id new), [.update file r.kind r.tree],
          { a with records := a.records.set id.index new })

/-- Forgets the tree of a file, so that it is parsed as another kind when it is next asked for.
The file keeps its number. -/
def reset (a : SourceFiles) (file : String) (kind : ScriptKind) : SourceFiles :=
  match a.idOf? file with
  | none => a
  | some id =>
    { a with records := a.records.modify id.index fun r =>
        { r with kind := kind, version := forgottenVersion } }

end SourceFiles

end ComponentHost
