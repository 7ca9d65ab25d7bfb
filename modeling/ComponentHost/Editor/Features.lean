/- # Features for scripts

Every feature first takes in the document: the store and the host learn of it, and if its script
has changed its language, the compiler is told to start anew.  A document that is not part of the
compiler's program has no features.

Each operation gives its result, the requests to the compiler in order, and the features after it.
-/
import ComponentHost.Document.Store
import ComponentHost.Host.Basic
import ComponentHost.Editor.Messages

namespace ComponentHost

/-- The features over one host. -/
structure ScriptFeatures where
  host : Host
  documents : DocumentStore := .empty
  /-- Offer completions from modules that are not imported yet. -/
  autoImport : Bool

/-- A place in a file, as editors name it. -/
structure Location where
  uri : Uri
  range : PositionRange
deriving DecidableEq, Repr

/-- The outcome of a feature. -/
structure FeatureResult (α : Type) where
  value : α
  calls : List CompilerCall
  features : ScriptFeatures

namespace ScriptFeatures

/-! ## 1. Documents come and go -/

/-- Takes in a document. -/
def prepare (m : ScriptFeatures) (s : FileView) (now : Nat) (d : Document) : FeatureResult ScriptChange :=
  let (_, documents) := m.documents.opened d
  let (update, host) := m.host.updateDocument s now d
  ⟨update, if update.kindChanged then [.restart] else [],
    { m with documents := documents, host := host }⟩

/-- The document is closed in the editor. -/
def close (m : ScriptFeatures) (uri : Uri) : ScriptFeatures :=
  { m with
    host := { m.host with regions := m.host.regions.removeDocument uri }
    documents := (m.documents.closed uri).2 }

/-- The file has changed outside of the editor. -/
def watched (m : ScriptFeatures) (uri : Uri) : ScriptFeatures :=
  { m with host := m.host.touch uri.fileName }

/-! ## 2. Features -/

/-- Takes in a document and, if it is part of the program, asks for a feature of its file. -/
def asking {α : Type} (m : ScriptFeatures) (compiler : Compiler) (s : FileView) (now : Nat)
    (d : Document) (nothing : α) (feature : ScriptFeatures → String → α × List CompilerCall) :
    FeatureResult α :=
  let prepared := m.prepare s now d
  let file := prepared.value.file
  if (compiler.programFiles prepared.features.host.roots).contains file then
    let (value, calls) := feature prepared.features file
    ⟨value, prepared.calls ++ calls, prepared.features⟩
  else ⟨nothing, prepared.calls, prepared.features⟩

/-- Problems of a document. -/
def validate (m : ScriptFeatures) (compiler : Compiler) (s : FileView) (now : Nat) (d : Document) :
    FeatureResult (List EditorDiagnostic) :=
  m.asking compiler s now d [] fun _ file =>
    (EditorDiagnostic.ofAll d.lines (compiler.syntactic file) (compiler.semantic file),
      [.syntactic file, .semantic file])

/-- Proposals at a position. -/
def complete (m : ScriptFeatures) (compiler : Compiler) (s : FileView) (now : Nat) (d : Document)
    (p : Position) : FeatureResult (List CompletionItem) :=
  m.asking compiler s now d [] fun m file =>
    match d.lines.offset? p with
    | none => ([], [])
    | some offset =>
      if afterNonScriptTrigger d.text offset then ([], [])
      else
        (CompletionItem.ofProposals d.lines (compiler.completions file offset m.autoImport),
          [.completions file offset m.autoImport])

/-- What is known about the name at a position. -/
def hover (m : ScriptFeatures) (compiler : Compiler) (s : FileView) (now : Nat) (d : Document)
    (p : Position) : FeatureResult (Option Hover) :=
  m.asking compiler s now d none fun _ file =>
    match d.lines.offset? p with
    | none => (none, [])
    | some offset =>
      ((compiler.nameInfo? file offset).map (.ofInfo d.lines), [.nameInfo file offset])

/-! ## 3. Places in other files -/

/-- The lines of a file: those of the open document, or else those of the script that the host
serves. -/
def linesOf? (m : ScriptFeatures) (s : FileView) (file : String) : Option LineIndex :=
  match m.documents.byFileName? file with
  | some d => some d.lines
  | none => (m.host.snapshot? s file).map .ofText

/-- A place as the editor names it; none for the bridge, which is no file on disk. -/
def location? (m : ScriptFeatures) (s : FileView) (d : Document) (target : FileSpan) : Option Location := do
  if target.file = Bridge.fileName then none
  else
    let lines ← if target.file = d.fileName then some d.lines else m.linesOf? s target.file
    return ⟨← Uri.ofFile? target.file, lines.spanRange target.span⟩

/-- Where the name at a position is defined. -/
def definition (m : ScriptFeatures) (compiler : Compiler) (s : FileView) (now : Nat) (d : Document)
    (p : Position) : FeatureResult (List Location) :=
  m.asking compiler s now d [] fun m file =>
    match d.lines.offset? p with
    | none => ([], [])
    | some offset =>
      ((compiler.definitions file offset).filterMap (m.location? s d), [.definitions file offset])

/-- Where the name at a position is used. -/
def references (m : ScriptFeatures) (compiler : Compiler) (s : FileView) (now : Nat) (d : Document)
    (p : Position) : FeatureResult (List Location) :=
  m.asking compiler s now d [] fun m file =>
    match d.lines.offset? p with
    | none => ([], [])
    | some offset =>
      ((compiler.references file offset).filterMap (m.location? s d), [.references file offset])

end ScriptFeatures

end ComponentHost
