/- # Blocks of a component document

A document is read once, from tag to tag.  Between blocks only opening tags and comments
matter; inside a block only its closing tag does, except in a markup block, where elements of
the same name nest and comments hide tags.  A document whose tags, comments or blocks do not
close has no blocks at all.

The scan has no accumulator: the blocks of a document are its first block followed by the
blocks of what comes after it.
-/
import ComponentHost.Document.Region
import ComponentHost.Document.Tag
import ComponentHost.Script.Grammar.Script

namespace ComponentHost

/-- A top-level block and what is found in it. -/
structure Block where
  region : Region
  /-- Values of directives, in a markup block. -/
  directives : List Region
  /-- Modules that a script block names, its own source file first. -/
  imports : List String
deriving DecidableEq, Repr

namespace Block

/-! ## 1. Comments and tags -/

/-- The characters that open a comment. -/
def commentOpen : List Char := ['<', '!', '-', '-']

/-- The characters that close a comment. -/
def commentClose : List Char := ['-', '-', '>']

/-- The place after a comment that starts here; `none` if it never closes. -/
def pastComment? (c : Cursor) : Option Cursor := (c.skip 4).past? commentClose

/-- Does the text go on with the given start of a tag, and with no more of a name? -/
def startsTag (start : List Char) (c : Cursor) : Bool :=
  Text.startsWithWord start c.rest && !((c.rest.drop start.length).head?.any Tag.isNameChar)

/-- Does a letter follow the first character? -/
def letterFollows (c : Cursor) : Bool := c.step.rest.head?.any Char.isAlpha

/-- The next `<`. -/
def nextAngle (c : Cursor) : Cursor := c.skipWhile (· != '<')

theorem length_nextAngle_le (c : Cursor) : (nextAngle c).rest.length ≤ c.rest.length :=
  Cursor.length_skipWhile_le _ c

theorem length_pastComment?_lt {c c' : Cursor} (h : pastComment? c = some c')
    (hc : c.rest ≠ []) : c'.rest.length < c.rest.length :=
  Nat.lt_of_le_of_lt (Cursor.length_past?_le h) (Cursor.length_skip_lt (by decide) hc)

/-! ## 2. The end of a block -/

/-- The closing tag of the block whose content starts here.  In markup, `depth` elements of the
same name are open. -/
def close? (name : List Char) (kind : RegionKind) (depth : Nat) (c : Cursor) : Option Cursor :=
  let here := nextAngle c
  if _hr : here.rest = [] then none
  else if kind = .markup ∧ here.starts commentOpen then
    match _hp : pastComment? here with
    | none => none
    | some next => close? name kind depth next
  else if startsTag ('<' :: '/' :: name) here then
    match depth with
    | 0 => some here
    | depth + 1 => close? name kind depth (here.skip (name.length + 2))
  else if kind = .markup ∧ startsTag ('<' :: name) here then
    match _ht : Tag.parse? here with
    | none => none
    | some tag => close? name kind (if tag.selfClosing then depth else depth + 1) tag.after
  else close? name kind depth here.step
termination_by c.rest.length
decreasing_by
  · exact Nat.lt_of_lt_of_le (length_pastComment?_lt _hp _hr) (length_nextAngle_le c)
  · exact Nat.lt_of_lt_of_le (Cursor.length_skip_lt (Nat.succ_pos _) _hr) (length_nextAngle_le c)
  · exact Nat.lt_of_lt_of_le (Tag.length_after_lt _ht) (length_nextAngle_le c)
  · exact Nat.lt_of_lt_of_le (Cursor.length_step_lt _hr) (length_nextAngle_le c)

/-! ## 3. Directives -/

/-- Does the name of an attribute announce an expression? -/
def isDirective (name : String) : Bool :=
  match name.toList with
  | 'v' :: '-' :: _ | ':' :: _ | '@' :: _ | '#' :: _ => true
  | _ => false

/-- The values of the directives of a tag. -/
def directivesOf (tag : Tag) : List Region :=
  tag.attributes.filterMap fun a =>
    if isDirective a.name then
      a.value.map fun v => .attributeValue RegionKind.script.defaultLanguage v.start v.stop
    else none

/-- The values of the directives of all tags that end at or before an offset. -/
def directivesUpTo (stop : Nat) (c : Cursor) : List Region :=
  let here := nextAngle c
  if _hr : here.rest = [] then []
  else if stop ≤ here.offset then []
  else if here.starts commentOpen then
    match _hp : pastComment? here with
    | none => []
    | some next => directivesUpTo stop next
  else if letterFollows here then
    match _ht : Tag.parse? here with
    | none => []
    | some tag =>
      if stop < tag.after.offset then [] else directivesOf tag ++ directivesUpTo stop tag.after
  else directivesUpTo stop here.step
termination_by c.rest.length
decreasing_by
  · exact Nat.lt_of_lt_of_le (length_pastComment?_lt _hp _hr) (length_nextAngle_le c)
  · exact Nat.lt_of_lt_of_le (Tag.length_after_lt _ht) (length_nextAngle_le c)
  · exact Nat.lt_of_lt_of_le (Cursor.length_step_lt _hr) (length_nextAngle_le c)

/-! ## 4. Blocks -/

/-- The modules that a script block names: its source file, and what its script imports. -/
def importsOf (tag : Tag) (language : String) (content : List Char) : List String :=
  let source := match tag.attribute? (Text.sameWord "src") with
    | some s => if s.isEmpty then [] else [s]
    | none => []
  source ++ ScriptTree.importsOf (String.ofList content) language

/-- The block between an opening tag and the closing tag that was found for it. -/
def ofTag (tag : Tag) (close : Cursor) : Block :=
  let kind := RegionKind.ofTag tag.name
  let language := kind.languageOf tag.name (tag.attribute? (Text.sameWord "lang"))
  { region := .block kind language tag.after.offset close.offset
    directives := if kind = .markup then directivesUpTo close.offset tag.after else []
    imports := if kind = .script then importsOf tag language (tag.after.upTo close) else [] }

theorem length_close?_le {name : List Char} {kind : RegionKind} {depth : Nat} {c c' : Cursor}
    (h : close? name kind depth c = some c') : c'.rest.length ≤ c.rest.length := by
  fun_induction close? name kind depth c
  · cases h
  · cases h
  · rename_i c here hr _ next hp ih
    have h1 : here.rest.length ≤ c.rest.length := length_nextAngle_le c
    have h2 := length_pastComment?_lt hp hr
    have h3 := ih h
    omega
  · rename_i c here _ _ _
    have h1 : here = c' := Option.some.inj h
    exact h1 ▸ length_nextAngle_le c
  · rename_i c here _ _ _ _ ih
    have h1 : here.rest.length ≤ c.rest.length := length_nextAngle_le c
    have h2 := Cursor.length_skip_le (name.length + 2) here
    have h3 := ih h
    omega
  · cases h
  · rename_i c here _ _ _ _ tag ht ih
    have h1 : here.rest.length ≤ c.rest.length := length_nextAngle_le c
    have h2 := Tag.length_after_lt ht
    have h3 := ih h
    omega
  · rename_i c here _ _ _ _ ih
    have h1 : here.rest.length ≤ c.rest.length := length_nextAngle_le c
    have h2 := Cursor.length_step_le here
    have h3 := ih h
    omega

/-- The blocks from a place on; `none` if something does not close. -/
def scan? (c : Cursor) : Option (List Block) :=
  let here := nextAngle c
  if _hr : here.rest = [] then some []
  else if here.starts commentOpen then
    match _hp : pastComment? here with
    | none => none
    | some next => scan? next
  else if letterFollows here then
    match _ht : Tag.parse? here with
    | none => none
    | some tag =>
      if tag.selfClosing then scan? tag.after
      else
        match _hc : close? tag.name.toList (.ofTag tag.name) 0 tag.after with
        | none => none
        | some close =>
          let ending := close.skipWhile (· != '>')
          if ending.rest.isEmpty then none
          else (scan? ending.step).map (ofTag tag close :: ·)
  else scan? here.step
termination_by c.rest.length
decreasing_by
  · exact Nat.lt_of_lt_of_le (length_pastComment?_lt _hp _hr) (length_nextAngle_le c)
  · exact Nat.lt_of_lt_of_le (Tag.length_after_lt _ht) (length_nextAngle_le c)
  · have h1 : here.rest.length ≤ c.rest.length := length_nextAngle_le c
    have h2 := Tag.length_after_lt _ht
    have h3 := length_close?_le _hc
    have h4 : ending.rest.length ≤ close.rest.length := Cursor.length_skipWhile_le _ close
    have h5 : ending.step.rest.length ≤ ending.rest.length := Cursor.length_step_le ending
    exact Nat.lt_of_le_of_lt (Nat.le_trans h5 (Nat.le_trans h4 h3)) (Nat.lt_of_lt_of_le h2 h1)
  · exact Nat.lt_of_lt_of_le (Cursor.length_step_lt _hr) (length_nextAngle_le c)

end Block

/-! ## 5. Documents -/

/-- What is found in a document. -/
structure Layout where
  /-- Contents of the blocks, in document order. -/
  regions : List Region
  /-- Values of directives inside markup blocks. -/
  attributeRegions : List Region
  /-- Modules that script blocks name. -/
  imports : List String
deriving DecidableEq, Repr

namespace Layout

/-- The layout with the given blocks. -/
def ofBlocks (blocks : List Block) : Layout :=
  ⟨blocks.map Block.region, blocks.flatMap Block.directives, blocks.flatMap Block.imports⟩

/-- The layout of a document; one that does not close has no regions. -/
def ofText (text : String) : Layout := ofBlocks ((Block.scan? (Cursor.ofText text)).getD [])

/-- The first script block. -/
def scriptRegion? (l : Layout) : Option Region := l.regions.find? (·.kind = .script)

end Layout

end ComponentHost
