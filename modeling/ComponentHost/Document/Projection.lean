/- # Projections

A projection of a document has the same length as the document, holds the regions of one
language or one sort of block, and is blank elsewhere.  Line breaks stay and every other byte
outside turns into a space, so offsets, lines and the lines' starts are those of the document.
-/
import ComponentHost.Document.Blocks
import ComponentHost.Text.Utf8

namespace ComponentHost

/-- Which regions a projection keeps. -/
inductive Selector where
  /-- Blocks in a language. -/
  | language (name : String)
  /-- Blocks of a sort, in any language. -/
  | kind (kind : RegionKind)
deriving DecidableEq, Repr

namespace Selector

/-- Is the region kept? -/
def selects (s : Selector) (r : Region) : Bool :=
  match s with
  | .language name => r.language == name
  | .kind k => r.kind = k

/-- Language of what is kept. -/
def languageId : Selector → String
  | .language name => name
  | .kind k => k.defaultLanguage

end Selector

namespace Projection

/-- A byte of a projection: a byte of a kept region and a line break stay, any other turns into a
space. -/
def maskByte (keep : List Region) (offset : Nat) (b : UInt8) : UInt8 :=
  if b == '\n'.toUInt8 || b == '\r'.toUInt8 || keep.any (·.covers offset) then b else ' '.toUInt8

/-- The bytes of a text with all but the given regions blank. -/
def maskedBytes (keep : List Region) (text : String) : List UInt8 :=
  (Utf8.bytes text).mapIdx (maskByte keep)

/-- The text with all but the given regions blank.  If a region cuts a character in two, what is
left of it is replaced. -/
def mask (keep : List Region) (text : String) : String :=
  match Utf8.decode? (maskedBytes keep text) with
  | some cs => String.ofList cs
  | none => String.ofList (Utf8.decodeLossy (maskedBytes keep text))

/-- The projection of a text with a known layout. -/
def ofLayout (s : Selector) (l : Layout) (text : String) : String :=
  mask (l.regions.filter s.selects) text

end Projection

/-- The scripts of a component, as a script of its own. -/
structure ScriptView where
  text : String
  /-- Language of the first script block, or the default one. -/
  language : String
deriving DecidableEq, Repr

/-- The script view of a text. -/
def ScriptView.ofText (text : String) : ScriptView :=
  let layout := Layout.ofText text
  { text := Projection.ofLayout (.kind .script) layout text
    language := (layout.scriptRegion?.map Region.language).getD RegionKind.script.defaultLanguage }

end ComponentHost
