/-
# The same text at another offset

What stands before a place is of no concern to a scanner: it reads what is left, and adds widths
to the offset it was given.  So the same characters with `k` bytes more before them give the same
findings, `k` bytes later.  This file says so for each scanner, from single characters up to the
blocks of a document (`Block.scan?_shift`).  Nothing is assumed: the equations hold as well where
a scanner finds nothing.

The scanners are recursive, so no equation about them can be had by unfolding.  Each is taken apart
into its steps instead (`attributeStep`, `closeStep`, `directiveStep`, `scanStep`): a step reads a
bounded number of things, and what it gives is data with places in it, for which `shift` is defined
case by case.  That a step commutes with `shift` is then a case split, and that the scanner does is
an induction on the characters that are left, the same four times.
-/
import ComponentHost.Proofs.ScanSteps

namespace ComponentHost

/-! ## 1. Places

A place is an offset and the characters from there on.  To shift it is to add to the offset; what is
left does not change, so all that is decided by looking ahead is decided alike.  These equations are
simp lemmas, each with the shift moved outwards, and the scanners below are rewritten by them. -/

namespace Cursor

/-- The place, with `k` bytes more before it. -/
def shift (k : Nat) (c : Cursor) : Cursor := ⟨c.offset + k, c.rest⟩

@[simp] theorem rest_shift (k : Nat) (c : Cursor) : (c.shift k).rest = c.rest := rfl

@[simp] theorem offset_shift (k : Nat) (c : Cursor) : (c.shift k).offset = c.offset + k := rfl

@[simp] theorem step_shift (k : Nat) (c : Cursor) : (c.shift k).step = c.step.shift k := by
  unfold step
  rw [rest_shift]
  split
  · rfl
  · rw [offset_shift, shift, Nat.add_right_comm]

@[simp] theorem skip_shift (k n : Nat) (c : Cursor) : (c.shift k).skip n = (c.skip n).shift k := by
  induction n generalizing c with
  | zero => rfl
  | succ n ih => rw [skip, step_shift, ih, skip]

@[simp] theorem skipWhile_shift (k : Nat) (p : Char → Bool) (c : Cursor) :
    (c.shift k).skipWhile p = (c.skipWhile p).shift k := by
  rw [skipWhile, offset_shift, rest_shift, Nat.add_right_comm]
  rfl

@[simp] theorem run_shift (k : Nat) (p : Char → Bool) (c : Cursor) :
    (c.shift k).run p = c.run p := rfl

@[simp] theorem starts_shift (k : Nat) (c : Cursor) (word : List Char) :
    (c.shift k).starts word = c.starts word := rfl

@[simp] theorem upTo_shift (k : Nat) (c later : Cursor) :
    (c.shift k).upTo (later.shift k) = c.upTo later := rfl

/-- The search for a word counts the widths of what it passes, from the offset that it is given. -/
theorem findPast_shift (k : Nat) (word : List Char) (offset : Nat) (cs : List Char) :
    findPast word (offset + k) cs = (findPast word offset cs).map (shift k) := by
  induction cs generalizing offset with
  | nil =>
    unfold findPast
    split <;> rfl
  | cons c r ih =>
    unfold findPast
    split
    · rw [Nat.add_right_comm]
      rfl
    · rw [Nat.add_right_comm, ih]

@[simp] theorem past?_shift (k : Nat) (word : List Char) (c : Cursor) :
    (c.shift k).past? word = (c.past? word).map (shift k) :=
  findPast_shift k word c.offset c.rest

end Cursor

/-! ## 2. Tags

The values of attributes are excerpts with a start and a stop, and both move.  The names and the
texts stay. -/

/-- The excerpt, `k` bytes later. -/
def Excerpt.shift (k : Nat) (e : Excerpt) : Excerpt := ⟨e.text, e.start + k, e.stop + k⟩

/-- The attribute, `k` bytes later. -/
def TagAttribute.shift (k : Nat) (a : TagAttribute) : TagAttribute :=
  ⟨a.name, a.value.map (Excerpt.shift k)⟩

namespace Tag

/-- The tag, `k` bytes later. -/
def shift (k : Nat) (t : Tag) : Tag :=
  ⟨t.name, t.attributes.map (TagAttribute.shift k), t.selfClosing, t.after.shift k⟩

@[simp] theorem name_shift (k : Nat) (t : Tag) : (t.shift k).name = t.name := rfl

@[simp] theorem selfClosing_shift (k : Nat) (t : Tag) :
    (t.shift k).selfClosing = t.selfClosing := rfl

@[simp] theorem after_shift (k : Nat) (t : Tag) : (t.shift k).after = t.after.shift k := rfl

/-- A value that is not closed is none at any offset. -/
theorem quotedValue?_shift (k : Nat) (quote : Char) (c : Cursor) :
    quotedValue? quote (c.shift k)
      = (quotedValue? quote c).map fun (v, d) => (v.shift k, d.shift k) := by
  simp only [quotedValue?, Cursor.step_shift, Cursor.skipWhile_shift, Cursor.rest_shift]
  split <;> rfl

/-- Behind the `=` stands a value in quotes of either sort or a bare one, told apart by the
character that comes next. -/
theorem announcedValue?_shift (k : Nat) (c : Cursor) :
    announcedValue? (c.shift k)
      = (announcedValue? c).map fun (v, d) => (v.shift k, d.shift k) := by
  simp only [announcedValue?, Cursor.starts_shift, quotedValue?_shift, bareValue,
    Cursor.skipWhile_shift]
  split
  · rfl
  · split <;> rfl

/-- An attribute may have no value, and then nothing but the place moves. -/
theorem attributeValue?_shift (k : Nat) (c : Cursor) :
    attributeValue? (c.shift k)
      = (attributeValue? c).map fun (v, d) => (v.map (Excerpt.shift k), d.shift k) := by
  simp only [attributeValue?_eq, Cursor.starts_shift, Cursor.step_shift, Cursor.skipWhile_shift,
    announcedValue?_shift]
  split
  · rw [Option.map_map, Option.map_map]
    rfl
  · rfl

/-- The step, `k` bytes later. -/
def AttributeStep.shift (k : Nat) : AttributeStep → AttributeStep
  | .fail => .fail
  | .done selfClosing after => .done selfClosing (after.shift k)
  | .next found after => .next (found.map (TagAttribute.shift k)) (after.shift k)

/-- **One attribute of a tag.**  After rewriting, both sides ask the same questions in the same
order, so the cases of the one are those of the other. -/
theorem attributeStep_shift (k : Nat) (c : Cursor) :
    attributeStep (c.shift k) = (attributeStep c).shift k := by
  unfold attributeStep attributeAt
  simp only [Cursor.skipWhile_shift, Cursor.rest_shift, Cursor.starts_shift, Cursor.step_shift,
    Cursor.skip_shift, Cursor.run_shift, attributeValue?_shift]
  split
  · rfl
  · split
    · rfl
    · split
      · rfl
      · split
        · cases attributeValue?
            (((c.skipWhile isSpace).skipWhile isAttributeChar).skipWhile isSpace) <;> rfl
        · rfl

/-- The attributes up to the end of the tag, by induction on what is left: a step that goes on
leaves less. -/
theorem attributes?_shift (k : Nat) (c : Cursor) :
    attributes? (c.shift k) = (attributes? c).map fun (as, selfClosing, d) =>
      (as.map (TagAttribute.shift k), selfClosing, d.shift k) := by
  induction c using Cursor.induction_on_rest with
  | step c ih =>
    rw [attributes?_eq, attributes?_eq c, attributeStep_shift]
    cases h : attributeStep c with
    | fail => rfl
    | done selfClosing after => rfl
    | next found after =>
      show (attributes? (after.shift k)).map _ = ((attributes? after).map _).map _
      rw [ih after (length_attributeStep_lt h), Option.map_map, Option.map_map]
      -- the attributes of this step stand before the others on both sides
      refine congrArg (fun f => Option.map f _) ?_
      funext ⟨others, selfClosing, d⟩
      exact congrArg (fun l => (l, selfClosing, d.shift k)) List.map_append.symm

/-- **A tag**, with its name, its attributes and the place behind it. -/
theorem parse?_shift (k : Nat) (c : Cursor) : parse? (c.shift k) = (parse? c).map (shift k) := by
  unfold parse?
  simp only [Cursor.step_shift, Cursor.run_shift, Cursor.skipWhile_shift]
  split
  · rfl
  · rw [attributes?_shift, Option.map_map, Option.map_map]
    rfl

/-- The text of an attribute is the same at any offset. -/
theorem attribute?_shift (k : Nat) (t : Tag) (matching : String → Bool) :
    (t.shift k).attribute? matching = t.attribute? matching := by
  unfold attribute? shift
  rw [List.find?_map, Option.map_map]
  refine congrArg (fun f => Option.map f _) ?_
  funext a
  show ((a.value.map (Excerpt.shift k)).map Excerpt.text).getD "" = _
  rw [Option.map_map]
  rfl

end Tag

/-! ## 3. Blocks

The region of a block moves with its tags, and so do the directives in it.  Its imports are names of
modules, read from the content, and have no place. -/

/-- The region, `k` bytes later. -/
def Region.shift (k : Nat) (r : Region) : Region :=
  { r with start := r.start + k, stop := r.stop + k }

namespace Block

/-- The block, `k` bytes later. -/
def shift (k : Nat) (b : Block) : Block :=
  ⟨b.region.shift k, b.directives.map (Region.shift k), b.imports⟩

@[simp] theorem nextAngle_shift (k : Nat) (c : Cursor) :
    nextAngle (c.shift k) = (nextAngle c).shift k := Cursor.skipWhile_shift k _ c

@[simp] theorem startsTag_shift (k : Nat) (start : List Char) (c : Cursor) :
    startsTag start (c.shift k) = startsTag start c := rfl

@[simp] theorem letterFollows_shift (k : Nat) (c : Cursor) :
    letterFollows (c.shift k) = letterFollows c := by
  rw [letterFollows, Cursor.step_shift]
  rfl

@[simp] theorem pastComment?_shift (k : Nat) (c : Cursor) :
    pastComment? (c.shift k) = (pastComment? c).map (Cursor.shift k) := by
  rw [pastComment?, Cursor.skip_shift, Cursor.past?_shift]
  rfl

/-- The step, `k` bytes later. -/
def CloseStep.shift (k : Nat) : CloseStep → CloseStep
  | .fail => .fail
  | .found close => .found (close.shift k)
  | .next depth after => .next depth (after.shift k)

/-- One step of the search for a closing tag.  It counts elements that are open, and no bytes, so
the depth is the same. -/
theorem closeStep_shift (k : Nat) (name : List Char) (kind : RegionKind) (depth : Nat)
    (c : Cursor) :
    closeStep name kind depth (c.shift k) = (closeStep name kind depth c).shift k := by
  unfold closeStep
  simp only [nextAngle_shift, Cursor.rest_shift, Cursor.starts_shift, startsTag_shift,
    Cursor.step_shift, Cursor.skip_shift, pastComment?_shift, Tag.parse?_shift]
  split
  · rfl
  · split
    · cases pastComment? (nextAngle c) <;> rfl
    · split
      · cases depth <;> rfl
      · split
        · cases Tag.parse? (nextAngle c) <;> rfl
        · rfl

/-- **The closing tag of a block.**  The depth changes from step to step, hence it is general in the
induction. -/
theorem close?_shift (k : Nat) (name : List Char) (kind : RegionKind) (depth : Nat) (c : Cursor) :
    close? name kind depth (c.shift k) = (close? name kind depth c).map (Cursor.shift k) := by
  induction c using Cursor.induction_on_rest generalizing depth with
  | step c ih =>
    rw [close?_eq, close?_eq name kind depth c, closeStep_shift]
    cases h : closeStep name kind depth c with
    | fail => rfl
    | found close => rfl
    | next depth after => exact ih after (length_closeStep_lt h) depth

/-- The directives of an element are the values of those of its attributes that have the name of a
directive; the name decides, and it does not move. -/
theorem directivesOf_shift (k : Nat) (t : Tag) :
    directivesOf (t.shift k) = (directivesOf t).map (Region.shift k) := by
  unfold directivesOf Tag.shift
  rw [List.filterMap_map, List.map_filterMap]
  refine congrArg (fun f => List.filterMap f t.attributes) ?_
  funext ⟨name, value⟩
  show (if isDirective name then _ else _) = Option.map _ (if isDirective name then _ else _)
  split
  · cases value <;> rfl
  · rfl

/-- The step, `k` bytes later. -/
def DirectiveStep.shift (k : Nat) : DirectiveStep → DirectiveStep
  | .done => .done
  | .next found after => .next (found.map (Region.shift k)) (after.shift k)

/-- The search for directives ends at an offset, the end of the block.  This is the only scanner
that compares offsets, so its bound has to move as well. -/
theorem directiveStep_shift (k stop : Nat) (c : Cursor) :
    directiveStep (stop + k) (c.shift k) = (directiveStep stop c).shift k := by
  unfold directiveStep
  simp only [nextAngle_shift, Cursor.rest_shift, Cursor.offset_shift, Cursor.starts_shift,
    letterFollows_shift, Cursor.step_shift, pastComment?_shift, Tag.parse?_shift,
    Nat.add_le_add_iff_right]
  split
  · rfl
  · split
    · cases pastComment? (nextAngle c) <;> rfl
    · split
      · cases Tag.parse? (nextAngle c) with
        | none => rfl
        | some tag =>
          -- a tag that reaches past the end of the block is not taken: both sides of this
          -- comparison move
          simp only [Option.map_some, Tag.after_shift, Cursor.offset_shift, directivesOf_shift,
            Nat.add_lt_add_iff_right]
          split <;> rfl
      · rfl

/-- **The directives of a block**, up to its end. -/
theorem directivesUpTo_shift (k stop : Nat) (c : Cursor) :
    directivesUpTo (stop + k) (c.shift k) = (directivesUpTo stop c).map (Region.shift k) := by
  induction c using Cursor.induction_on_rest with
  | step c ih =>
    rw [directivesUpTo_eq, directivesUpTo_eq stop c, directiveStep_shift]
    cases h : directiveStep stop c with
    | done => rfl
    | next found after =>
      dsimp only [DirectiveStep.shift]
      rw [ih after (length_directiveStep_lt h), List.map_append]

/-- What a script brings in is read from its text, which is the same. -/
theorem importsOf_shift (k : Nat) (t : Tag) (language : String) (content : List Char) :
    importsOf (t.shift k) language content = importsOf t language content := by
  rw [importsOf, Tag.attribute?_shift]
  rfl

/-- **A block**, put together from its opening tag and the place of its closing tag. -/
theorem ofTag_shift (k : Nat) (t : Tag) (close : Cursor) :
    ofTag (t.shift k) (close.shift k) = (ofTag t close).shift k := by
  have hdirectives := directivesUpTo_shift k close.offset t.after
  simp only [ofTag, shift, Tag.name_shift, Tag.after_shift, Tag.attribute?_shift, importsOf_shift,
    Cursor.offset_shift, hdirectives, Cursor.upTo_shift]
  split <;> rfl

/-- The step, `k` bytes later. -/
def ScanStep.shift (k : Nat) : ScanStep → ScanStep
  | .fail => .fail
  | .done => .done
  | .next found after => .next (found.map (Block.shift k)) (after.shift k)

/-- What the outer scan does behind an opening tag: a block, none if the tag closes itself, or a
failure if there is no closing tag. -/
theorem blockStep_shift (k : Nat) (t : Tag) : blockStep (t.shift k) = (blockStep t).shift k := by
  simp only [blockStep, Tag.selfClosing_shift, Tag.name_shift, Tag.after_shift, close?_shift]
  split
  · rfl
  · cases close? t.name.toList (.ofTag t.name) 0 t.after with
    | none => rfl
    | some close =>
      simp only [Option.map_some, Cursor.skipWhile_shift, Cursor.rest_shift, ofTag_shift,
        Cursor.step_shift]
      split <;> rfl

/-- One step of the outer scan, from one place where it looks for a block to the next. -/
theorem scanStep_shift (k : Nat) (c : Cursor) : scanStep (c.shift k) = (scanStep c).shift k := by
  unfold scanStep
  simp only [nextAngle_shift, Cursor.rest_shift, Cursor.starts_shift, letterFollows_shift,
    Cursor.step_shift, pastComment?_shift, Tag.parse?_shift]
  split
  · rfl
  · split
    · cases pastComment? (nextAngle c) <;> rfl
    · split
      · cases Tag.parse? (nextAngle c) with
        | none => rfl
        | some tag => exact blockStep_shift k tag
      · rfl

/-- **The blocks of a text are those of the same text at another offset.** -/
theorem scan?_shift (k : Nat) (c : Cursor) :
    scan? (c.shift k) = (scan? c).map (List.map (shift k)) := by
  induction c using Cursor.induction_on_rest with
  | step c ih =>
    rw [scan?_eq, scan?_eq c, scanStep_shift]
    cases h : scanStep c with
    | fail => rfl
    | done => rfl
    | next found after =>
      dsimp only [ScanStep.shift]
      rw [ih after (length_scanStep_lt h), Option.map_map, Option.map_map]
      refine congrArg (fun f => Option.map f _) ?_
      funext others
      exact List.map_append.symm

end Block

end ComponentHost
