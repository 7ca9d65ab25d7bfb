/- # Documents and what is asked about them

A document is one version of an open file.  `DocumentIndex` holds what is computed once for a
version, its lines and its layout, and answers the questions of an editor: which language is
at a place, where the blocks of a sort are, what a language's projection is.
-/
import ComponentHost.Document.Projection
import ComponentHost.Text.LineIndex
import ComponentHost.Uri.Basic

namespace ComponentHost

/-- One version of an open file. -/
structure Document where
  uri : Uri
  version : Int
  text : String
deriving DecidableEq, Repr

namespace Document

/-- Normal name of the file. -/
def fileName (d : Document) : String := d.uri.fileName

/-- Is the document a component? -/
def isComponent (d : Document) : Bool := Path.isComponent d.uri.path

/-- The lines of the document. -/
def lines (d : Document) : LineIndex := .ofText d.text

end Document

/-- A projection of a document. -/
structure MaskedDocument where
  uri : Uri
  language : String
  version : Int
  text : String
deriving DecidableEq, Repr

/-- Has the projection no content? -/
def MaskedDocument.isBlank (m : MaskedDocument) : Bool := Text.isBlankText m.text

/-- A region as editors name it. -/
structure LanguageRange where
  language : String
  range : PositionRange
deriving DecidableEq, Repr

/-- A document with its lines and its layout. -/
structure DocumentIndex where
  document : Document
  lines : LineIndex
  layout : Layout

namespace DocumentIndex

/-- The index of a document. -/
def ofDocument (d : Document) : DocumentIndex := ⟨d, d.lines, .ofText d.text⟩

/-- The projection that a selector asks for. -/
def projection (ix : DocumentIndex) (s : Selector) : MaskedDocument :=
  { uri := ix.document.uri
    language := s.languageId
    version := ix.document.version
    text := Projection.ofLayout s ix.layout ix.document.text }

/-- Language of the first of some regions, in order, that contains an offset.  A region that
starts later ends the search. -/
def languageIn (offset : Nat) : List Region → String
  | [] => documentLanguage
  | r :: rest =>
    if offset < r.start then documentLanguage
    else if offset ≤ r.stop then r.language
    else languageIn offset rest

/-- Language at an offset. -/
def languageAt (ix : DocumentIndex) (offset : Nat) : String := languageIn offset ix.layout.regions

/-- Language at a place. -/
def languageAtPosition (ix : DocumentIndex) (p : Position) : String :=
  match ix.lines.offset? p with
  | some offset => ix.languageAt offset
  | none => documentLanguage

/-- The language of the document and those of its regions, in the order of their appearance. -/
def languages (ix : DocumentIndex) : List String :=
  ix.layout.regions.foldl (fun seen r =>
    if seen.contains r.language then seen else seen ++ [r.language]) [documentLanguage]

/-- The regions of a sort. -/
def regionsOfKind (ix : DocumentIndex) (kind : RegionKind) : List LanguageRange :=
  (ix.layout.regions.filter (·.kind = kind)).map fun r =>
    ⟨r.language, ix.lines.range r.start r.stop⟩

end DocumentIndex

end ComponentHost
