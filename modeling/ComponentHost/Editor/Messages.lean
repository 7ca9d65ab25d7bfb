/- # What the editor is told

The compiler's answers in the terms of the editor: lines and columns of the document in place of
offsets, and the numbers by which editors know kinds of things.
-/
import ComponentHost.Script.Bridging
import ComponentHost.Compiler
import ComponentHost.Text.LineIndex
import ComponentHost.Text.Utf8

namespace ComponentHost

/-- A stretch of text as lines and columns. -/
def LineIndex.spanRange (ix : LineIndex) (s : Span) : PositionRange := ix.range s.start s.stop

/-! ## 1. Diagnostics -/

/-- A problem as the editor shows it. -/
structure EditorDiagnostic where
  range : PositionRange
  /-- Errors are the most severe. -/
  severity : Nat := 1
  code : Int
  source : String := "vuels"
  message : String
deriving DecidableEq, Repr

namespace EditorDiagnostic

/-- A problem of the whole file is shown at its start.  Codes are signed words. -/
def ofProblem (ix : LineIndex) (d : Problem) : EditorDiagnostic :=
  { range := ix.spanRange (d.span.getD ⟨0, 0⟩)
    code := Int.bmod d.code (Nat.pow 2 32)
    message := d.message }

/-- The problems of a script: first those of its form, then those of its meaning. -/
def ofAll (ix : LineIndex) (syntactic semantic : List Problem) : List EditorDiagnostic :=
  (syntactic ++ semantic).map (ofProblem ix)

end EditorDiagnostic

/-! ## 2. Completions -/

/-- Kinds of proposals, as editors tell them apart. -/
inductive CompletionKind where
  | method | function | constructor | field | variable_ | class_ | interface | module | property | enum
  | keyword | file | enumMember | constant | typeParameter
deriving DecidableEq, Repr

/-- The number of a kind. -/
def CompletionKind.number : CompletionKind → Nat
  | .method => 2
  | .function => 3
  | .constructor => 4
  | .field => 5
  | .variable_ => 6
  | .class_ => 7
  | .interface => 8
  | .module => 9
  | .property => 10
  | .enum => 13
  | .keyword => 14
  | .file => 17
  | .enumMember => 20
  | .constant => 21
  | .typeParameter => 25

/-- The kind under which a sort of thing is proposed. -/
def ElementKind.completionKind : ElementKind → CompletionKind
  | .primitive | .keyword => .keyword
  | .variable_ | .localVariable | .let_ | .const | .alias | .parameter => .variable_
  | .property | .getter | .setter => .field
  | .function | .localFunction => .function
  | .method | .constructSignature | .callSignature | .indexSignature => .method
  | .enum => .enum
  | .enumMember => .enumMember
  | .module | .externalModuleName => .module
  | .class_ | .localClass | .type => .class_
  | .interface => .interface
  | .typeParameter => .typeParameter
  | .constructor => .constructor
  | .script | .directory => .file
  | .string => .constant
  | .label | .unknown => .property

/-- A change of text. -/
structure TextEdit where
  range : PositionRange
  newText : String
deriving DecidableEq, Repr

/-- A proposal as the editor shows it. -/
structure CompletionItem where
  label : String
  kind : CompletionKind
  sortText : String
  detail : Option String
  edit : Option TextEdit
deriving DecidableEq, Repr

namespace CompletionItem

/-- A proposal at its place in the list.  The place is appended to the text by which proposals are
sorted, to keep the order of those with equal texts. -/
def ofEntry (ix : LineIndex) (e : Proposal) (place : Nat) : CompletionItem :=
  { label := e.name
    kind := e.kind.completionKind
    sortText := e.sortText ++ toString place
    detail := e.source
    edit := e.replacement.map fun span => ⟨ix.spanRange span, e.name⟩ }

/-- The proposals for the editor; the name of the bridge is not one. -/
def ofProposals (ix : LineIndex) (entries : List Proposal) : List CompletionItem :=
  ((entries.filter fun e => e.name != Bridge.identifier).zipIdx).map fun (e, place) =>
    ofEntry ix e place

end CompletionItem

/-- Characters of markup and comments, after which nothing is proposed. -/
def nonScriptTriggers : List Char := ['<', '/', '*', ':']

/-- Is the character before an offset one of markup or comments?  An offset that is not between
characters has none before it. -/
def afterNonScriptTrigger (text : String) (offset : Nat) : Bool :=
  let bytes := Utf8.bytes text
  if bytes.length < offset then false
  else
    match (Utf8.decode? (bytes.take offset)).bind List.getLast? with
    | some c => nonScriptTriggers.contains c
    | none => false

/-! ## 3. Hovers -/

/-- A part of a hover. -/
inductive MarkedText where
  | plain (text : String)
  | code (language text : String)
deriving DecidableEq, Repr

/-- What is shown about a name. -/
structure Hover where
  contents : List MarkedText
  range : PositionRange
deriving DecidableEq, Repr

/-- The hover of a name: its documentation, if there is any, and its signature. -/
def Hover.ofInfo (ix : LineIndex) (info : NameInfo) : Hover :=
  let signature := MarkedText.code "ts" info.display
  { contents := if info.documentation.isEmpty then [signature]
      else [.plain info.documentation, .plain "\n", signature]
    range := ix.spanRange info.span }

end ComponentHost
