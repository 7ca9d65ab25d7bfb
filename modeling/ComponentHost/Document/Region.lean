/- # Regions

A component document mixes languages.  A region is a byte span of it that belongs to one of
them: the content of a top-level block, or the value of a directive inside the markup block.
-/
import ComponentHost.Text.Ascii
import ComponentHost.Text.Blank

namespace ComponentHost

/-- Language of the places outside every region. -/
def documentLanguage : String := "vue"

/-- Sort of block a region was found in. -/
inductive RegionKind where
  | markup
  | script
  | style
  /-- Any other top-level block. -/
  | custom
deriving DecidableEq, Repr

namespace RegionKind

/-- Language of a block that declares none. -/
def defaultLanguage : RegionKind → String
  | markup => "component-markup"
  | script => "script"
  | style => "stylesheet"
  | custom => "custom"

/-- The sort of block that a tag opens. -/
def ofTag (tag : String) : RegionKind :=
  if Text.sameWord tag "template" then markup
  else if Text.sameWord tag "script" then script
  else if Text.sameWord tag "style" then style
  else custom

/-- The long form of the short names of script languages. -/
def scriptLanguage : String → String
  | "ts" => "typescript"
  | "js" => "javascript"
  | other => other

/-- The language that a block declares, in small letters; blank declarations count for none. -/
def declaredLanguage? (kind : RegionKind) (declared : Option String) : Option String :=
  match declared with
  | none => none
  | some text =>
    let name := Text.trimmed text
    if name.isEmpty then none
    else if kind = script then some (scriptLanguage (Text.lowercase name))
    else some (Text.lowercase name)

/-- The language of a block: the declared one, else the default of its sort, which for a custom
block is the name of its tag. -/
def languageOf (kind : RegionKind) (tag : String) (declared : Option String) : String :=
  match kind.declaredLanguage? declared with
  | some language => language
  | none => if kind = custom then Text.lowercase tag else kind.defaultLanguage

end RegionKind

/-- A span of a document that belongs to one language. -/
structure Region where
  kind : RegionKind
  language : String
  /-- Byte offset of the content. -/
  start : Nat
  /-- Byte offset of what follows the content. -/
  stop : Nat
  /-- Taken from the value of an attribute. -/
  isAttributeValue : Bool
deriving DecidableEq, Repr

namespace Region

/-- The content of a block. -/
def block (kind : RegionKind) (language : String) (start stop : Nat) : Region :=
  ⟨kind, language, start, stop, false⟩

/-- The value of a directive. -/
def attributeValue (language : String) (start stop : Nat) : Region :=
  ⟨.script, language, start, stop, true⟩

/-- Has the region no content? -/
def isEmpty (r : Region) : Bool := r.start == r.stop

/-- Does the offset belong to the region?  The place right before the closing tag does. -/
def contains (r : Region) (offset : Nat) : Bool := r.start ≤ offset && offset ≤ r.stop

/-- Does the region hold the byte at an offset? -/
def covers (r : Region) (offset : Nat) : Bool := r.start ≤ offset && offset < r.stop

end Region

end ComponentHost
