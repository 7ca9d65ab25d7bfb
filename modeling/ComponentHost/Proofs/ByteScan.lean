/-
# A document read by byte offsets

The scanners of `Document/Tag.lean` and `Document/Blocks.lean` move cursors, and a cursor cannot
leave its text.  A scanner that counts bytes can: it may look at a byte past the end, take a slice
whose ends are out of order or inside a character, count below zero, or turn in a loop without
moving on.

This file reads a document that way.  Its state is an offset, its text is a run of bytes, and
nothing about the offset is known.  So every access is CHECKED, and what must not happen is a
`Fault`:

* `byteAt` looks at one byte, `bytesBetween` and `textBetween` take slices, the latter only from
  one character boundary to another;
* `decrement` counts down;
* `loop` is the only loop.  A turn of it ends the loop or names the next offset, which has to be
  greater than the offset of this turn and not past the text.  That is also why the loop ends.

The scanners themselves follow: attributes and tags, comments, the end of a block, directives, and
the blocks of a whole document (`blocks`).
-/
import ComponentHost.Proofs.BlockRegions
import ComponentHost.Proofs.ScanSteps

namespace ComponentHost.ByteScan

/-- What must not happen. -/
inductive Fault where
  /-- There is no such byte. -/
  | index (place : Nat)
  /-- The ends of a slice are out of order, or past the text. -/
  | slice (start stop : Nat)
  /-- A slice of text begins or ends inside a character. -/
  | cut (start stop : Nat)
  /-- A count goes below zero. -/
  | underflow
  /-- A turn of a loop does not move on, or moves past the text. -/
  | stuck (here next : Nat)
deriving DecidableEq, Repr

/-- What one turn of a loop decides. -/
inductive Turn (σ β : Type) where
  /-- The loop ends. -/
  | done (result : β)
  /-- The loop goes on at another place. -/
  | next (state : σ) (place : Nat)

/-! ## 1. Checked access -/

section Access

variable (text : String)

/-- Number of bytes. -/
def size : Nat := (Utf8.bytes text).length

/-- The byte at an offset, if there is one. -/
def byteAt? (place : Nat) : Option UInt8 := (Utf8.bytes text)[place]?

/-- The byte at an offset, which has to be there. -/
def byteAt (place : Nat) : Except Fault UInt8 :=
  (byteAt? text place).elim (.error (.index place)) .ok

/-- The bytes between two offsets. -/
def bytesBetween (start stop : Nat) : Except Fault (List UInt8) :=
  if start ≤ stop ∧ stop ≤ size text then .ok (((Utf8.bytes text).take stop).drop start)
  else .error (.slice start stop)

/-- The characters between two offsets, which have to be character boundaries. -/
def textBetween (start stop : Nat) : Except Fault (List Char) := do
  let bytes ← bytesBetween text start stop
  if String.Pos.Raw.IsValid text ⟨start⟩ ∧ String.Pos.Raw.IsValid text ⟨stop⟩ then
    return (Utf8.decode? bytes).getD []
  else throw (.cut start stop)

/-- One less. -/
def decrement (count : Nat) : Except Fault Nat :=
  if count = 0 then .error .underflow else .ok (count - 1)

/-- Turns from an offset on, each at a later offset than the one before. -/
def loop {σ β : Type} (turn : σ → Nat → Except Fault (Turn σ β)) (state : σ) (here : Nat) :
    Except Fault β :=
  match turn state here with
  | .error fault => .error fault
  | .ok (.done result) => .ok result
  | .ok (.next state next) =>
    if _h : here < next ∧ next ≤ size text then loop turn state next else .error (.stuck here next)
termination_by size text - here
decreasing_by omega

/-- A turn that is done ends the loop with its result. -/
theorem loop_done {σ β : Type} {turn : σ → Nat → Except Fault (Turn σ β)} {state : σ} {here : Nat}
    {result : β} (h : turn state here = .ok (.done result)) :
    loop text turn state here = .ok result := by
  rw [loop, h]

/-- A turn that goes on leads to the next one, if that is at a later offset and within the text. -/
theorem loop_next {σ β : Type} {turn : σ → Nat → Except Fault (Turn σ β)} {state state' : σ}
    {here next : Nat} (h : turn state here = .ok (.next state' next)) (hlt : here < next)
    (hle : next ≤ size text) : loop text turn state here = loop text turn state' next := by
  rw [loop, h]
  exact dif_pos ⟨hlt, hle⟩

end Access

/-! ## 2. Searching -/

/-- The distance to the first such byte. -/
def findByte (byte : UInt8) (bytes : List UInt8) : Option Nat :=
  let distance := (bytes.takeWhile (· != byte)).length
  if distance < bytes.length then some distance else none

/-- The distance in bytes to the first occurrence of a word. -/
def findText (word : List Char) : List Char → Option Nat
  | [] => if word.isEmpty then some 0 else none
  | c :: r => if word.isPrefixOf (c :: r) then some 0 else (findText word r).map (c.utf8Size + ·)

section Scan

variable (text : String)

/-- One turn of the search for the end of a run of bytes. -/
def skipTurn (p : UInt8 → Bool) (_ : Unit) (here : Nat) : Except Fault (Turn Unit Nat) :=
  if here < size text then do
    let b ← byteAt text here
    return if p b then .next () (here + 1) else .done here
  else .ok (.done here)

/-- The first offset at which no byte of the sort stands. -/
def skipBytes (p : UInt8 → Bool) (here : Nat) : Except Fault Nat := loop text (skipTurn text p) () here

/-- Does a comment start here? -/
def startsComment (here : Nat) : Except Fault Bool := do
  return (Utf8.encode Block.commentOpen).isPrefixOf (← bytesBetween text here (size text))

/-- The offset behind the comment that starts here, if it ends. -/
def pastComment? (here : Nat) : Except Fault (Option Nat) := do
  let rest ← textBetween text (here + 4) (size text)
  return (findText Block.commentClose rest).map fun n => here + 4 + n + 3

/-- Does the word start here, up to case, with no more of a name behind it? -/
def startsTag (here : Nat) (word : List UInt8) : Except Fault Bool :=
  let stop := here + word.length
  if stop ≤ size text then do
    let found ← bytesBetween text here stop
    return found.map Utf8.lowerByte == word.map Utf8.lowerByte &&
      !(byteAt? text stop).any Tag.isNameByte
  else .ok false

/-- Does a letter stand behind the sign that is here? -/
def letterFollows (here : Nat) : Bool := (byteAt? text (here + 1)).any fun b => (Char.ofUInt8 b).isAlpha

/-! ## 3. Tags -/

/-- Does the byte separate the parts of a tag? -/
def isSpaceByte (b : UInt8) : Bool := Tag.isSpace (Char.ofUInt8 b)

/-- Can the byte stand in the name of an attribute? -/
def isAttributeByte (b : UInt8) : Bool := Tag.isAttributeChar (Char.ofUInt8 b)

/-- Can the byte stand in a value without quotes? -/
def isBareByte (b : UInt8) : Bool := Tag.isBareValueChar (Char.ofUInt8 b)

/-- A tag and the offset behind it. -/
structure ByteTag where
  name : String
  attributes : List TagAttribute
  selfClosing : Bool
  stop : Nat

/-- The tag, without what follows it. -/
def ByteTag.tag (t : ByteTag) : Tag := ⟨t.name, t.attributes, t.selfClosing, ⟨t.stop, []⟩⟩

/-- A value and the offset behind it. -/
abbrev FoundValue := Option Excerpt × Nat

/-- The value in quotes that starts here, if it ends. -/
def quotedValue? (quote : UInt8) (here : Nat) : Except Fault (Option FoundValue) := do
  let start := here + 1
  let rest ← bytesBetween text start (size text)
  match findByte quote rest with
  | none => return none
  | some n =>
    let value ← textBetween text start (start + n)
    return some (some ⟨String.ofList value, start, start + n⟩, start + n + 1)

/-- The value without quotes that starts here. -/
def bareValue (here : Nat) : Except Fault (Option FoundValue) := do
  let stop ← skipBytes text isBareByte here
  let value ← textBetween text here stop
  return some (some ⟨String.ofList value, here, stop⟩, stop)

/-- The value behind an equals sign and blanks. -/
def announcedValue? (here : Nat) : Except Fault (Option FoundValue) :=
  if here < size text then do
    let b ← byteAt text here
    if b = '"'.toUInt8 ∨ b = '\''.toUInt8 then quotedValue? text b here else bareValue text here
  else bareValue text here

/-- The value behind the name of an attribute and blanks, if an equals sign announces one. -/
def attributeValue? (here : Nat) : Except Fault (Option FoundValue) :=
  if here < size text then do
    let b ← byteAt text here
    if b = '='.toUInt8 then announcedValue? text (← skipBytes text isSpaceByte (here + 1))
    else return some (none, here)
  else .ok (some (none, here))

/-- What reading a tag ends with: its attributes, whether it closes itself, and the offset behind
it. -/
abbrev TagEnd := List TagAttribute × Bool × Nat

/-- The attribute whose name starts here. -/
def attributeAt (found : List TagAttribute) (here : Nat) :
    Except Fault (Turn (List TagAttribute) (Option TagEnd)) := do
  let nameEnd ← skipBytes text isAttributeByte here
  if nameEnd = here then return .next found (here + 1)
  else
    let name ← textBetween text here nameEnd
    let value ← attributeValue? text (← skipBytes text isSpaceByte nameEnd)
    return value.elim (.done none) fun v => .next (found ++ [⟨String.ofList name, v.1⟩]) v.2

/-- One turn of the reading of attributes. -/
def attributeTurn (found : List TagAttribute) (place : Nat) :
    Except Fault (Turn (List TagAttribute) (Option TagEnd)) := do
  let here ← skipBytes text isSpaceByte place
  if size text ≤ here then return .done none
  else
    let b ← byteAt text here
    if b = '>'.toUInt8 then return .done (some (found, false, here + 1))
    else if b = '/'.toUInt8 then
      if byteAt? text (here + 1) = some '>'.toUInt8 then return .done (some (found, true, here + 2))
      else return .next found (here + 1)
    else attributeAt text found here

/-- The tag that starts here, if it ends. -/
def parseTag? (here : Nat) : Except Fault (Option ByteTag) := do
  let start := here + 1
  let stop ← skipBytes text Tag.isNameByte start
  if stop = start then return none
  else
    let name ← textBetween text start stop
    let ending ← loop text (attributeTurn text) [] stop
    return ending.map fun e => ⟨String.ofList name, e.1, e.2.1, e.2.2⟩

/-! ## 4. The end of a block -/

/-- What is looked at in markup only. -/
def inMarkup {α : Type} (kind : RegionKind) (asked : Except Fault α) (otherwise : α) : Except Fault α :=
  if kind = .markup then asked else .ok otherwise

/-- The bytes that close a block. -/
def closing (name : String) : List UInt8 := '<'.toUInt8 :: '/'.toUInt8 :: Utf8.bytes name

/-- The bytes that open an element. -/
def opening (name : String) : List UInt8 := '<'.toUInt8 :: Utf8.bytes name

/-- The search for a closing tag at a `<`.  Comments and inner elements count in markup only. -/
def closeAt (name : String) (kind : RegionKind) (depth here : Nat) :
    Except Fault (Turn Nat (Option Nat)) := do
  let comment ← inMarkup kind (startsComment text here) false
  if comment then
    let next ← pastComment? text here
    return next.elim (.done none) (.next depth)
  else
    let closes ← startsTag text here (closing name)
    if closes then
      if depth = 0 then return .done (some here)
      else return .next (← decrement depth) (here + (closing name).length)
    else
      let opens ← inMarkup kind (startsTag text here (opening name)) false
      if opens then
        let tag ← parseTag? text here
        return tag.elim (.done none) fun t =>
          .next (if t.selfClosing then depth else depth + 1) t.stop
      else return .next depth (here + 1)

/-- One turn of the search for a closing tag. -/
def closeTurn (name : String) (kind : RegionKind) (depth place : Nat) :
    Except Fault (Turn Nat (Option Nat)) := do
  let rest ← bytesBetween text place (size text)
  match findByte '<'.toUInt8 rest with
  | none => return .done none
  | some n => closeAt text name kind depth (place + n)

/-- The offset of the closing tag of a block whose content starts here. -/
def blockEnd? (name : String) (kind : RegionKind) (start : Nat) : Except Fault (Option Nat) :=
  loop text (closeTurn text name kind) 0 start

/-! ## 5. Directives -/

/-- The collection of directives at a `<`. -/
def directiveAt (stop : Nat) (found : List Region) (here : Nat) :
    Except Fault (Turn (List Region) (List Region)) := do
  let comment ← startsComment text here
  if comment then
    let next ← pastComment? text here
    return next.elim (.done found) (.next found)
  else if letterFollows text here then
    let tag ← parseTag? text here
    return tag.elim (.done found) fun t =>
      if stop < t.stop then .done found else .next (found ++ Block.directivesOf t.tag) t.stop
  else return .next found (here + 1)

/-- One turn of the collection of directives up to an offset. -/
def directiveTurn (stop : Nat) (found : List Region) (place : Nat) :
    Except Fault (Turn (List Region) (List Region)) :=
  if place < stop then do
    let rest ← bytesBetween text place stop
    match findByte '<'.toUInt8 rest with
    | none => return .done found
    | some n => directiveAt text stop found (place + n)
  else .ok (.done found)

/-- The directives in the content of a markup block. -/
def directives (start stop : Nat) : Except Fault (List Region) :=
  loop text (directiveTurn text stop) [] start

/-! ## 6. Blocks -/

/-- The block between an opening tag and the closing tag that was found for it. -/
def block (t : ByteTag) (close : Nat) : Except Fault Block := do
  let kind := RegionKind.ofTag t.name
  let content ← textBetween text t.stop close
  let language := kind.languageOf t.name (t.tag.attribute? (Text.sameWord "lang"))
  let found ← inMarkup kind (directives text t.stop close) []
  return ⟨.block kind language t.stop close, found,
    if kind = .script then Block.importsOf t.tag language content else []⟩

/-- The scan behind an opening tag. -/
def blockAt (found : List Block) (t : ByteTag) : Except Fault (Turn (List Block) (Option (List Block))) :=
  if t.selfClosing then .ok (.next found t.stop)
  else do
    let close ← blockEnd? text t.name (.ofTag t.name) t.stop
    match close with
    | none => return .done none
    | some close =>
      let rest ← bytesBetween text close (size text)
      match findByte '>'.toUInt8 rest with
      | none => return .done none
      | some n => return .next (found ++ [← block text t close]) (close + n + 1)

/-- The scan at a `<`. -/
def scanAt (found : List Block) (here : Nat) : Except Fault (Turn (List Block) (Option (List Block))) := do
  let comment ← startsComment text here
  if comment then
    let next ← pastComment? text here
    return next.elim (.done none) (.next found)
  else if letterFollows text here then
    let tag ← parseTag? text here
    match tag with
    | none => return .done none
    | some t => blockAt text found t
  else return .next found (here + 1)

/-- One turn of the scan of a document. -/
def scanTurn (found : List Block) (place : Nat) :
    Except Fault (Turn (List Block) (Option (List Block))) := do
  let rest ← bytesBetween text place (size text)
  match findByte '<'.toUInt8 rest with
  | none => return .done (some found)
  | some n => scanAt text found (place + n)

/-- The blocks of a document; `none` if something in it does not close. -/
def blocks : Except Fault (Option (List Block)) := loop text (scanTurn text) [] 0

/-- The layout of a document; one that does not close has no regions. -/
def layout : Except Fault Layout := do
  return Layout.ofBlocks ((← blocks text).getD [])

end Scan

end ComponentHost.ByteScan
