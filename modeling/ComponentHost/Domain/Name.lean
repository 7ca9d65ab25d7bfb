/- # Names of hosts

A name is a row of labels with dots between them.  It is known by its form in ASCII: characters
are spelled in one way, letters are joined with their marks, and a label with characters beyond
ASCII is written in Latin letters behind `xn--`.

A label is refused if it could not be told from another one by the form it has: it starts with a
mark, holds a joiner that changes nothing, or mixes directions of writing.
-/
import ComponentHost.Domain.Direction
import ComponentHost.Domain.Joining
import ComponentHost.Domain.Mapping
import ComponentHost.Domain.Punycode

namespace ComponentHost.Domain

open ComponentHost.Text (splitAt joinWith)

/-! ## 1. Labels -/

/-- The mark of a label that is written in Latin letters. -/
def latinMark : List Char := "xn--".toList

/-- A label of more characters is refused. -/
def maxLabel : Nat := 1000

/-- A label in Latin letters of more characters is refused. -/
def maxLatinLabel : Nat := 2000

/-- Is a label with characters beyond ASCII well formed? -/
def isWellFormed (label : List Char) : Bool :=
  !label.head?.any isMark && joinersFit [] label

/-- The label that one in Latin letters stands for; `none` if it stands for none.  It must need to
be written so, and must be spelled as labels are. -/
def fromLatin? (text : List Char) : Option (List Char) :=
  if text.length > maxLatinLabel then none
  else
    match Punycode.decode? text with
    | none => none
    | some label =>
      let isNeeded := label.any (!Punycode.isBasic ·)
      let isSpelled := label.all isOwnSpelling && composed label == label
      if isNeeded && isSpelled && isWellFormed label then some label else none

/-- A label as it is shown, and as it is written in ASCII. -/
structure Label where
  shown : List Char
  ascii : List Char
deriving DecidableEq, Repr

/-- The label that a text is, once its characters are spelled; `none` if it is refused. -/
def label? (text : List Char) : Option Label :=
  if latinMark.isPrefixOf text then
    (fromLatin? (text.drop latinMark.length)).map (⟨·, text⟩)
  else if text.all Punycode.isBasic then some ⟨text, text⟩
  else if text.length > maxLabel || !isWellFormed text then none
  else some ⟨text, latinMark ++ Punycode.encode text⟩

/-! ## 2. Names -/

/-- The characters that a text is spelled by; `none` if one is refused. -/
def spelled? (text : List Char) : Option (List Char) :=
  (text.mapM fun c =>
    match spelling c with
    | .own => some [c]
    | .other cs => some cs
    | .nothing => none).map List.flatten

/-- The form of a name in ASCII; `none` if the name is refused. -/
def ascii? (name : List Char) : Option (List Char) := do
  let text ← spelled? name
  let labels ← (splitAt '.' (composed text)).mapM label?
  let runsLeft := labels.any fun l => l.shown.any runsLeft
  if runsLeft && !(labels.all fun l => runsOneWay l.shown) then none
  else some (joinWith '.' (labels.map Label.ascii))

end ComponentHost.Domain
