/-
# Reading by byte offsets is safe

`ByteScan.lean` reads a document with an offset that might be anything, and checks every access.
This file shows that no check ever fails, for any text: the reading by offsets ends without a
fault, and with the blocks that the scanner on cursors finds (`ByteScan.blocks_ok`).

The offset is always that of a place of the text.  So each piece of the byte scanner is compared
with the piece of the cursor scanner at the same place.  For the four loops this is the comparison
of one turn with one step (`attributeTurn_place`, `closeTurn_place`, `directiveTurn_place`,
`scanTurn_place`).

That the answers agree matters as much as that there is no fault: a scanner that gave up at the
first doubt would have none either.  So every statement is an equation with `.ok` of what the cursor
scanner gives at that place, and the absence of faults is read off it.

The byte scanner goes on by a loop that is checked to move forward at each turn, where the cursor
scanner recurses on what is left of the text.  A `…Follow` function says for each loop which
turn a step of the other asks for; once a turn is known to be the one that the step asks for, the
lemma about loops gives the rest.
-/
import ComponentHost.Proofs.BytePlaces

namespace ComponentHost.ByteScan

variable {text : String} {c d : Cursor}

/-! ## 1. Values of attributes

The reading of a value looks at one byte, and the characters that matter here are all of one byte.
So a byte is compared with `"` or `'` exactly when the character is. -/

theorem starts_singleton {x k : Char} {r : List Char} (hr : c.rest = x :: r) :
    c.starts [k] = true ↔ x = k := by
  simp only [Cursor.starts, hr, List.isPrefixOf, Bool.and_true, beq_iff_eq]
  exact eq_comm

theorem starts_nil {k : Char} {word : List Char} (hr : c.rest = []) :
    ¬ c.starts (k :: word) = true := by
  simp [Cursor.starts, hr]

/-- A value and the offset behind it, of a value and the place behind it. -/
def valueAt (v : Excerpt × Cursor) : FoundValue := (some v.1, v.2.offset)

/-- The closing quote is searched byte by byte.  It is narrow, so it cannot be found within a
character. -/
theorem quotedValue?_place (h : c.IsPlaceOf text) {q : Char} {r : List Char} (hr : c.rest = q :: r)
    (hq : q.toNat < 0x80) :
    quotedValue? text q.toUInt8 c.offset = .ok ((Tag.quotedValue? q c).map valueAt) := by
  have hstep : c.step.IsPlaceOf text := isPlaceOf_step h
  simp only [quotedValue?, ← offset_step_narrow hr hq, bytesFrom_place hstep, ok_bind,
    Tag.quotedValue?]
  rcases findByte_place hq c.step with ⟨hend, hnone⟩ | ⟨r', n, hstop, hsome, hoffset⟩
  · rw [hnone, List.isEmpty_iff.mpr hend]
    rfl
  · have hpasses := Cursor.passes_skipWhile (· != q) c.step
    have hbehind := offset_step_narrow hstop hq
    simp only [hsome, hoffset, textBetween_passes hstep hpasses, ok_bind]
    rw [if_neg (by simp [hstop]), ← hbehind, pure_eq, Option.map_some, valueAt, Excerpt.between,
      hpasses.upTo_eq]

theorem bareValue_place (h : c.IsPlaceOf text) :
    bareValue text c.offset = .ok (some (valueAt (Tag.bareValue c))) := by
  have hpasses := Cursor.passes_skipWhile Tag.isBareValueChar c
  simp only [bareValue, skipBytes_place agrees_bare h, ok_bind, textBetween_passes h hpasses]
  rw [pure_eq, valueAt, Tag.bareValue, Excerpt.between, hpasses.upTo_eq]

/-- Behind a `=` at the end of the text there is no byte to look at, and the bare value there is
empty. -/
theorem announcedValue?_place (h : c.IsPlaceOf text) :
    announcedValue? text c.offset = .ok ((Tag.announcedValue? c).map valueAt) := by
  rw [announcedValue?, Tag.announcedValue?]
  cases hr : c.rest with
  | nil =>
    have hend := (size_le_offset_iff h).mpr hr
    rw [if_neg (Nat.not_lt.mpr hend), if_neg (starts_nil hr), if_neg (starts_nil hr),
      bareValue_place h]
    rfl
  | cons x r =>
    have hinside : c.offset < size text := by
      rw [← Nat.not_le, size_le_offset_iff h, hr]
      exact List.cons_ne_nil _ _
    have hdouble : firstByte x = '"'.toUInt8 ↔ x = '"' := firstByte_eq_iff (by decide)
    have hsingle : firstByte x = '\''.toUInt8 ↔ x = '\'' := firstByte_eq_iff (by decide)
    simp only [if_pos hinside, byteAt_place h hr, ok_bind, hdouble, hsingle, starts_singleton hr]
    by_cases hx : x = '"'
    · subst hx
      rw [if_pos (Or.inl rfl), if_pos rfl, hdouble.mpr rfl]
      exact quotedValue?_place h hr (by decide)
    · by_cases hx' : x = '\''
      · subst hx'
        rw [if_pos (Or.inr rfl), if_neg hx, if_pos rfl, hsingle.mpr rfl]
        exact quotedValue?_place h hr (by decide)
      · rw [if_neg (not_or.mpr ⟨hx, hx'⟩), if_neg hx, if_neg hx', bareValue_place h]
        rfl

/-- The value of an attribute, if a `=` announces one. -/
theorem attributeValue?_place (h : c.IsPlaceOf text) :
    attributeValue? text c.offset
      = .ok ((Tag.attributeValue? c).map fun v => (v.1, v.2.offset)) := by
  rw [attributeValue?, Tag.attributeValue?_eq]
  cases hr : c.rest with
  | nil =>
    have hend := (size_le_offset_iff h).mpr hr
    rw [if_neg (Nat.not_lt.mpr hend), if_neg (starts_nil hr)]
    rfl
  | cons x r =>
    have hinside : c.offset < size text := by
      rw [← Nat.not_le, size_le_offset_iff h, hr]
      exact List.cons_ne_nil _ _
    have hsign : firstByte x = '='.toUInt8 ↔ x = '=' := firstByte_eq_iff (by decide)
    simp only [if_pos hinside, byteAt_place h hr, ok_bind, hsign, starts_singleton hr]
    by_cases hx : x = '='
    · subst hx
      have hstep := isPlaceOf_step h
      have hplace := isPlaceOf_skipWhile hstep Tag.isSpace
      rw [if_pos rfl, if_pos rfl, ← offset_step_narrow hr (by decide),
        skipBytes_place agrees_space hstep, ok_bind, announcedValue?_place hplace, Option.map_map]
      rfl
    · rw [if_neg hx, if_neg hx]
      rfl

/-! ## 2. Tags

The reader of attributes has the most cases.  A slash is the hard one: the byte behind it is looked
at to see whether the tag ends, and there may be none. -/

/-- The turn that a step of the reader of attributes asks for. -/
def attributeFollow (found : List TagAttribute) :
    Tag.AttributeStep → Turn (List TagAttribute) (Option TagEnd)
  | .fail => .done none
  | .done selfClosing after => .done (some (found, selfClosing, after.offset))
  | .next more after => .next (found ++ more) after.offset

theorem narrow_of_not_attribute {x : Char} (hx : ¬ Tag.isAttributeChar x = true) :
    x.toNat < 0x80 := by
  refine Nat.lt_of_not_le fun hwide => hx ?_
  simp [Tag.isAttributeChar, isSpace_of_wide hwide, ne_of_wide hwide]

/-- A name, or a sign that cannot stand in one. -/
theorem attributeAt_place (h : c.IsPlaceOf text) (found : List TagAttribute) {x : Char}
    {r : List Char} (hr : c.rest = x :: r) (hangle : x ≠ '>') (hself : ¬ c.starts ['/', '>'] = true) :
    attributeAt text found c.offset = .ok (attributeFollow found (Tag.attributeAt c)) := by
  have hne : c.rest ≠ [] := by simp [hr]
  have hhead : c.rest.head?.any Tag.isAttributeChar = Tag.isAttributeChar x := by simp [hr]
  have hpasses := Cursor.passes_skipWhile Tag.isAttributeChar c
  have hplace := isPlaceOf_skipWhile h Tag.isAttributeChar
  rw [Tag.attributeAt, if_neg hne, if_neg (by rwa [starts_singleton hr]), if_neg hself, hhead,
    attributeAt, skipBytes_place agrees_attribute h, ok_bind]
  by_cases hx : Tag.isAttributeChar x = true
  · have hlater : c.offset < (c.skipWhile Tag.isAttributeChar).offset := by
      refine hpasses.offset_lt ?_
      simp [Cursor.run, hr, hx]
    have hvalue := attributeValue?_place (isPlaceOf_skipWhile hplace Tag.isSpace)
    simp only [if_neg (Nat.ne_of_gt hlater), textBetween_passes h hpasses, ok_bind,
      skipBytes_place agrees_space hplace, hvalue, if_pos hx]
    cases Tag.attributeValue? ((c.skipWhile Tag.isAttributeChar).skipWhile Tag.isSpace) <;> rfl
  · have hstay : (c.skipWhile Tag.isAttributeChar).offset = c.offset := by
      simp [Cursor.skipWhile, hr, hx]
    rw [if_pos hstay, if_neg hx, ← offset_step_narrow hr (narrow_of_not_attribute hx),
      attributeFollow, List.append_nil]
    rfl

/-- The byte behind a slash tells whether the slash ends the tag. -/
theorem endsTag_place (h : c.IsPlaceOf text) {r : List Char} (hr : c.rest = '/' :: r) :
    byteAt? text (c.offset + 1) = some '>'.toUInt8 ↔ c.starts ['/', '>'] = true := by
  have hrest : c.step.rest = r :=
    (List.cons.inj (hr.symm.trans (Cursor.passes_step hr).rest)).2.symm
  rw [← offset_step_narrow hr (by decide), byteAt?_place (isPlaceOf_step h), hrest, Cursor.starts, hr]
  cases r with
  | nil => simp
  | cons y r =>
    have hy : firstByte y = '>'.toUInt8 ↔ y = '>' := firstByte_eq_iff (by decide)
    simp only [List.head?_cons, Option.map_some, Option.some.injEq, hy, List.isPrefixOf,
      Bool.and_true, beq_self_eq_true, Bool.true_and, beq_iff_eq]
    exact eq_comm

/-- A slash ends the tag, or is passed over as a name of no characters. -/
theorem attributeAt_slash {r : List Char} (hr : c.rest = '/' :: r) (found : List TagAttribute) :
    attributeFollow found (Tag.attributeAt c)
      = if c.starts ['/', '>'] = true then .done (some (found, true, c.offset + 2))
        else .next found (c.offset + 1) := by
  have hne : c.rest ≠ [] := by simp [hr]
  have hangle : ¬ c.starts ['>'] = true := by simp [starts_singleton hr]
  rw [Tag.attributeAt, if_neg hne, if_neg hangle]
  split
  · next hself =>
    obtain ⟨tail, htail⟩ := List.isPrefixOf_iff_prefix.mp hself
    have hskip : c.Passes ['/', '>'] (c.skip 2) := Cursor.passes_skip htail.symm rfl
    have hbehind : (c.skip 2).offset = c.offset + 2 := hskip.offset
    rw [attributeFollow, hbehind]
  · have hname : ¬ c.rest.head?.any Tag.isAttributeChar = true := by
      simp [hr, Tag.isAttributeChar]
    rw [if_neg hname, attributeFollow, offset_step_narrow hr (by decide), List.append_nil]

/-- **A turn of the reading of attributes is a step of it.** -/
theorem attributeTurn_place (h : c.IsPlaceOf text) (found : List TagAttribute) :
    attributeTurn text found c.offset = .ok (attributeFollow found (Tag.attributeStep c)) := by
  have hplace := isPlaceOf_skipWhile h Tag.isSpace
  rw [attributeTurn, skipBytes_place agrees_space h, ok_bind, Tag.attributeStep]
  generalize c.skipWhile Tag.isSpace = here at hplace ⊢
  cases hr : here.rest with
  | nil =>
    rw [if_pos ((size_le_offset_iff hplace).mpr hr), Tag.attributeAt, if_pos hr]
    rfl
  | cons x r =>
    have hne : here.rest ≠ [] := by simp [hr]
    have hinside : ¬ size text ≤ here.offset := by
      rw [size_le_offset_iff hplace]
      exact hne
    have hclose : firstByte x = '>'.toUInt8 ↔ x = '>' := firstByte_eq_iff (by decide)
    have hslash : firstByte x = '/'.toUInt8 ↔ x = '/' := firstByte_eq_iff (by decide)
    simp only [if_neg hinside, byteAt_place hplace hr, ok_bind, hclose, hslash]
    by_cases hx : x = '>'
    · subst hx
      rw [if_pos rfl, Tag.attributeAt, if_neg hne, if_pos ((starts_singleton hr).mpr rfl),
        ← offset_step_narrow hr (by decide)]
      rfl
    rw [if_neg hx]
    by_cases hx' : x = '/'
    · subst hx'
      simp only [if_pos, attributeAt_slash hr, endsTag_place hplace hr]
      split <;> rfl
    · rw [if_neg hx']
      refine attributeAt_place hplace found hr hx fun hself => ?_
      obtain ⟨tail, htail⟩ := List.isPrefixOf_iff_prefix.mp hself
      rw [hr] at htail
      exact hx' (List.cons.inj htail).1.symm

/-- What the reading of attributes ends with, behind the attributes that were found before. -/
def tagEnd (found : List TagAttribute) (e : List TagAttribute × Bool × Cursor) : TagEnd :=
  (found ++ e.1, e.2.1, e.2.2.offset)

/-- **The attributes of a tag**, from one turn to all of them: the loop carries along what it has
found, and the reader on cursors puts it together at the end. -/
theorem attributes_place (h : c.IsPlaceOf text) (found : List TagAttribute) :
    loop text (attributeTurn text) found c.offset
      = .ok ((Tag.attributes? c).map (tagEnd found)) := by
  refine loop_eq (fun found c => (Tag.attributes? c).map (tagEnd found)) (fun found c h => ?_)
    found c h
  rw [attributeTurn_place h, Tag.attributes?_eq]
  cases hstep : Tag.attributeStep c with
  | fail => exact Or.inl rfl
  | done selfClosing after =>
    refine Or.inl ?_
    rw [attributeFollow, Tag.AttributeStep.attributes?, Option.map_some, tagEnd, List.append_nil]
  | next more after =>
    refine Or.inr ⟨found ++ more, after, rfl, (Tag.attributeStep_next hstep).1,
      Tag.length_attributeStep_lt hstep, ?_⟩
    rw [Tag.AttributeStep.attributes?, Option.map_map]
    refine congrArg (fun f => Option.map f (Tag.attributes? after)) (funext fun e => ?_)
    simp only [Function.comp_apply, tagEnd, List.append_assoc]

/-- A tag and the offset behind it, of a tag and the place behind it. -/
def ByteTag.ofTag (t : Tag) : ByteTag := ⟨t.name, t.attributes, t.selfClosing, t.after.offset⟩

/-- **A tag is read by bytes as it is by characters.** -/
theorem parseTag?_place (h : c.IsPlaceOf text) {r : List Char} (hr : c.rest = '<' :: r) :
    parseTag? text c.offset = .ok ((Tag.parse? c).map ByteTag.ofTag) := by
  have hstep := isPlaceOf_step h
  have hpasses := Cursor.passes_skipWhile Tag.isNameChar c.step
  have hplace := isPlaceOf_skipWhile hstep Tag.isNameChar
  simp only [parseTag?, ← offset_step_narrow hr (by decide), skipBytes_place agrees_name hstep,
    ok_bind, Tag.parse?]
  by_cases hname : c.step.run Tag.isNameChar = []
  · have hstay : (c.step.skipWhile Tag.isNameChar).offset = c.step.offset := by
      rw [hpasses.offset, hname]
      rfl
    rw [if_pos hstay, List.isEmpty_iff.mpr hname]
    rfl
  · have hlater := hpasses.offset_lt hname
    simp only [if_neg (Nat.ne_of_gt hlater), textBetween_passes hstep hpasses, ok_bind,
      attributes_place hplace, pure_eq]
    rw [if_neg (by simpa using hname), Option.map_map, Option.map_map]
    rfl

/-! ## 3. The end of a block

The search for a closing tag counts elements that are open, and the count goes down by a subtraction
that is checked.  It is only made where the count is not zero. -/

theorem closing_eq (name : String) : closing name = Utf8.encode ('<' :: '/' :: name.toList) := by
  rw [closing, Utf8.bytes_eq_encode]
  rfl

theorem opening_eq (name : String) : opening name = Utf8.encode ('<' :: name.toList) := by
  rw [opening, Utf8.bytes_eq_encode]
  rfl

/-- Comments and elements are looked for in markup only; elsewhere the question is not asked, and
cannot fault. -/
theorem inMarkup_ok {α : Type} (kind : RegionKind) {asked : Except Fault α} {answer : α}
    (h : asked = .ok answer) (otherwise : α) :
    inMarkup kind asked otherwise = .ok (if kind = .markup then answer else otherwise) := by
  rw [inMarkup, h]
  split <;> rfl

theorem inMarkup_and {kind : RegionKind} {answer : Bool} :
    (if kind = .markup then answer else false) = true ↔ kind = .markup ∧ answer = true := by
  by_cases hkind : kind = .markup <;> simp [hkind]

/-- The turn that a step of the search for a closing tag asks for. -/
def closeFollow : Block.CloseStep → Turn Nat (Option Nat)
  | .fail => .done none
  | .found close => .done (some close.offset)
  | .next depth after => .next depth after.offset

section Close

variable {name : String} {kind : RegionKind}

/-- One turn at a `<`: a comment, a closing tag, an opening tag of the same name, or neither, in
this order. -/
theorem closeAt_place (hname : ∀ x ∈ name.toList, Tag.isNameChar x = true) (h : c.IsPlaceOf text)
    (depth : Nat) {r : List Char} (hr : (Block.nextAngle c).rest = '<' :: r) :
    closeAt text name kind depth (Block.nextAngle c).offset
      = .ok (closeFollow (Block.closeStep name.toList kind depth c)) := by
  have hopens : ∀ x ∈ '<' :: name.toList, x.toNat < 0x80 := by
    intro x hx
    rcases List.mem_cons.mp hx with rfl | hx
    · decide
    · exact Tag.narrow_of_isNameChar (hname x hx)
  have hcloses : ∀ x ∈ '<' :: '/' :: name.toList, x.toNat < 0x80 := by
    intro x hx
    simp only [List.mem_cons] at hx hopens
    rcases hx with rfl | rfl | hx
    · decide
    · decide
    · exact hopens x (Or.inr hx)
  have hplace := h.reaches (Block.reaches_nextAngle c)
  have hne : (Block.nextAngle c).rest ≠ [] := by simp [hr]
  simp only [closeAt, Block.closeStep, if_neg hne]
  generalize Block.nextAngle c = here at hr hplace ⊢
  rw [inMarkup_ok kind (startsComment_place hplace), ok_bind]
  simp only [inMarkup_and]
  by_cases hcomment : kind = .markup ∧ here.starts Block.commentOpen = true
  · rw [if_pos hcomment, if_pos hcomment, pastComment?_place hplace hcomment.2, ok_bind]
    cases Block.pastComment? here <;> rfl
  rw [if_neg hcomment, if_neg hcomment, closing_eq, startsTag_place hplace hcloses, ok_bind]
  by_cases hclosing : Block.startsTag ('<' :: '/' :: name.toList) here = true
  · rw [if_pos hclosing, if_pos hclosing]
    cases depth with
    | zero => rfl
    | succ depth =>
      have hword := (Bool.and_eq_true_iff.mp hclosing).1
      -- the closing tag of an inner element is passed by its length in bytes, which is its length
      -- in characters because a name is narrow
      have hoffset := (passes_startsWithWord hcloses hword).1
      have hdown : decrement (depth + 1) = .ok depth := rfl
      rw [if_neg (Nat.succ_ne_zero _), hdown, ok_bind, Utf8.length_encode,
        byteWidth_of_narrow hcloses, ← hoffset]
      rfl
  rw [if_neg hclosing, if_neg hclosing, opening_eq,
    inMarkup_ok kind (startsTag_place hplace hopens), ok_bind]
  simp only [inMarkup_and]
  by_cases hopening : kind = .markup ∧ Block.startsTag ('<' :: name.toList) here = true
  · rw [if_pos hopening, if_pos hopening, parseTag?_place hplace hr, ok_bind]
    cases Tag.parse? here <;> rfl
  · rw [if_neg hopening, if_neg hopening, ← offset_step_narrow hr (by decide)]
    rfl

/-- **A turn of the search for a closing tag is a step of it.** -/
theorem closeTurn_place (hname : ∀ x ∈ name.toList, Tag.isNameChar x = true) (h : c.IsPlaceOf text)
    (depth : Nat) : closeTurn text name kind depth c.offset
      = .ok (closeFollow (Block.closeStep name.toList kind depth c)) := by
  rw [closeTurn, bytesFrom_place h, ok_bind]
  rcases findByte_place (by decide : '<'.toNat < 0x80) c with ⟨hend, hnone⟩ | ⟨r, n, hr, hsome, hn⟩
  · rw [hnone, Block.closeStep_of_rest_eq_nil hend]
    rfl
  · simp only [hsome, hn]
    exact closeAt_place hname h depth hr

/-- **The end of a block**, or none. -/
theorem blockEnd?_place (hname : ∀ x ∈ name.toList, Tag.isNameChar x = true)
    (h : c.IsPlaceOf text) : blockEnd? text name kind c.offset
      = .ok ((Block.close? name.toList kind 0 c).map Cursor.offset) := by
  refine loop_eq (fun depth c => (Block.close? name.toList kind depth c).map Cursor.offset)
    (fun depth c h => ?_) 0 c h
  rw [closeTurn_place hname h, Block.close?_eq]
  cases hstep : Block.closeStep name.toList kind depth c with
  | fail => exact Or.inl rfl
  | found close => exact Or.inl rfl
  | next depth' after =>
    exact Or.inr ⟨depth', after, rfl, Block.reaches_closeStep hstep,
      Block.length_closeStep_lt hstep, rfl⟩

end Close

/-! ## 4. Directives

The end of the block is an offset too.  It is that of a place, and so is the end of each tag that is
compared with it. -/

/-- The turn that a step of the collection of directives asks for. -/
def directiveFollow (found : List Region) : Block.DirectiveStep → Turn (List Region) (List Region)
  | .done => .done found
  | .next more after => .next (found ++ more) after.offset

/-- One turn at a `<` that stands inside of the block. -/
theorem directiveAt_place (h : c.IsPlaceOf text) (stop : Nat) (found : List Region) {r : List Char}
    (hr : (Block.nextAngle c).rest = '<' :: r) (hstop : (Block.nextAngle c).offset < stop) :
    directiveAt text stop found (Block.nextAngle c).offset
      = .ok (directiveFollow found (Block.directiveStep stop c)) := by
  have hplace := h.reaches (Block.reaches_nextAngle c)
  have hnot : ¬ ((Block.nextAngle c).rest = [] ∨ stop ≤ (Block.nextAngle c).offset) := by
    rw [hr]
    simpa using hstop
  simp only [directiveAt, Block.directiveStep, if_neg hnot]
  generalize Block.nextAngle c = here at hr hplace ⊢
  rw [startsComment_place hplace, ok_bind, letterFollows_place hplace hr]
  by_cases hcomment : here.starts Block.commentOpen = true
  · rw [if_pos hcomment, if_pos hcomment, pastComment?_place hplace hcomment, ok_bind]
    cases Block.pastComment? here with
    | none => rfl
    | some after =>
      simp only [directiveFollow, List.append_nil]
      rfl
  rw [if_neg hcomment, if_neg hcomment]
  by_cases hletter : Block.letterFollows here = true
  · rw [if_pos hletter, if_pos hletter, parseTag?_place hplace hr, ok_bind]
    cases Tag.parse? here with
    | none => rfl
    | some tag =>
      -- the two comparisons of the end of the tag are one
      show Except.ok (if stop < tag.after.offset then _ else _) = _
      dsimp only
      split <;> rfl
  · rw [if_neg hletter, if_neg hletter, ← offset_step_narrow hr (by decide), directiveFollow,
      List.append_nil]
    rfl

/-- **A turn of the collection of directives is a step of it.** -/
theorem directiveTurn_place (h : c.IsPlaceOf text) (hd : d.IsPlaceOf text) (found : List Region) :
    directiveTurn text d.offset found c.offset
      = .ok (directiveFollow found (Block.directiveStep d.offset c)) := by
  have hdone : d.offset ≤ (Block.nextAngle c).offset → Block.directiveStep d.offset c = .done :=
    fun hle => if_pos (Or.inr hle)
  have hlater := (Block.reaches_nextAngle c).offset_le
  rw [directiveTurn]
  by_cases hlt : c.offset < d.offset
  · obtain ⟨run, hrun⟩ := reaches_of_offset_le h hd (Nat.le_of_lt hlt)
    rw [if_pos hlt, bytesBetween_passes h hrun, ok_bind]
    rcases findByte_between hrun (by decide : '<'.toNat < 0x80) with
      ⟨hend, hnone⟩ | ⟨hinside, n, hsome, hn⟩
    · rw [hnone, hdone hend]
      rfl
    · have hne : (Block.nextAngle c).rest ≠ [] := by
        intro hnil
        have hsize := offset_add_byteWidth (h.reaches (Block.reaches_nextAngle c))
        have hle := offset_le_size hd
        rw [hnil, byteWidth_nil] at hsize
        have hinside' : (Block.nextAngle c).offset < d.offset := hinside
        omega
      obtain ⟨r, hr⟩ := Block.rest_nextAngle hne
      simp only [hsome, hn]
      exact directiveAt_place h d.offset found hr hinside
  · rw [if_neg hlt, hdone (by omega)]
    rfl

/-- **The directives of a block.** -/
theorem directives_place (h : c.IsPlaceOf text) (hd : d.IsPlaceOf text) :
    directives text c.offset d.offset = .ok (Block.directivesUpTo d.offset c) := by
  refine loop_eq (fun found c => found ++ Block.directivesUpTo d.offset c)
    (fun found c h => ?_) [] c h
  rw [directiveTurn_place h hd, Block.directivesUpTo_eq]
  cases hstep : Block.directiveStep d.offset c with
  | done =>
    refine Or.inl ?_
    rw [directiveFollow, List.append_nil]
  | next more after =>
    refine Or.inr ⟨found ++ more, after, rfl, Block.reaches_directiveStep hstep,
      Block.length_directiveStep_lt hstep, ?_⟩
    rw [List.append_assoc]

/-! ## 5. Blocks

A block is a slice of the text, from behind its opening tag to the start of its closing tag.  Both
are places, in this order, so the slice is neither out of order nor within a character. -/

/-- The block of two tags, with its content cut out. -/
theorem block_place {tag : Tag} {close : Cursor} (h : tag.after.IsPlaceOf text)
    (hclose : tag.after.Reaches close) :
    block text (.ofTag tag) close.offset = .ok (Block.ofTag tag close) := by
  obtain ⟨content, hcontent⟩ := hclose
  have hdirectives := directives_place h (h.reaches hcontent.reaches)
  simp only [block, ByteTag.ofTag, textBetween_passes h hcontent, ok_bind,
    inMarkup_ok _ hdirectives]
  rw [Block.ofTag, hcontent.upTo_eq]
  rfl

/-- The turn that a step of the scan asks for. -/
def scanFollow (found : List Block) : Block.ScanStep → Turn (List Block) (Option (List Block))
  | .fail => .done none
  | .done => .done (some found)
  | .next more after => .next (found ++ more) after.offset

/-- What follows an opening tag: its end is searched, and then the `>` behind that. -/
theorem blockAt_place {tag : Tag} (h : tag.after.IsPlaceOf text)
    (hname : ∀ x ∈ tag.name.toList, Tag.isNameChar x = true) (found : List Block) :
    blockAt text found (.ofTag tag) = .ok (scanFollow found (Block.blockStep tag)) := by
  rw [blockAt, Block.blockStep]
  by_cases hself : tag.selfClosing = true
  · have hself' : (ByteTag.ofTag tag).selfClosing = true := hself
    rw [if_pos hself, if_pos hself', scanFollow, List.append_nil]
    rfl
  have hself' : ¬ (ByteTag.ofTag tag).selfClosing = true := hself
  have hend : blockEnd? text (ByteTag.ofTag tag).name (.ofTag (ByteTag.ofTag tag).name)
      (ByteTag.ofTag tag).stop
      = .ok ((Block.close? tag.name.toList (.ofTag tag.name) 0 tag.after).map Cursor.offset) :=
    blockEnd?_place hname h
  rw [if_neg hself, if_neg hself', hend, ok_bind]
  cases hclose : Block.close? tag.name.toList (.ofTag tag.name) 0 tag.after with
  | none => rfl
  | some close =>
    have hreach := (Block.close?_spec hclose).1
    have hplace := h.reaches hreach
    simp only [Option.map_some, bytesFrom_place hplace, ok_bind]
    rcases findByte_place (by decide : '>'.toNat < 0x80) close with
      ⟨hnil, hnone⟩ | ⟨r, n, hr, hsome, hn⟩
    · rw [hnone, if_pos hnil]
      rfl
    · have hbehind := offset_step_narrow hr (by decide)
      rw [if_neg (by simp [hr])]
      simp only [hsome, hn, block_place h hreach, ok_bind, ← hbehind]
      rfl

/-- One turn at a `<` outside of blocks. -/
theorem scanAt_place (h : c.IsPlaceOf text) (found : List Block) {r : List Char}
    (hr : (Block.nextAngle c).rest = '<' :: r) :
    scanAt text found (Block.nextAngle c).offset = .ok (scanFollow found (Block.scanStep c)) := by
  have hplace := h.reaches (Block.reaches_nextAngle c)
  have hne : (Block.nextAngle c).rest ≠ [] := by simp [hr]
  simp only [scanAt, Block.scanStep, if_neg hne]
  generalize Block.nextAngle c = here at hr hplace ⊢
  rw [startsComment_place hplace, ok_bind, letterFollows_place hplace hr]
  by_cases hcomment : here.starts Block.commentOpen = true
  · rw [if_pos hcomment, if_pos hcomment, pastComment?_place hplace hcomment, ok_bind]
    cases Block.pastComment? here with
    | none => rfl
    | some after =>
      simp only [scanFollow, List.append_nil]
      rfl
  rw [if_neg hcomment, if_neg hcomment]
  by_cases hletter : Block.letterFollows here = true
  · rw [if_pos hletter, if_pos hletter, parseTag?_place hplace hr, ok_bind]
    cases htag : Tag.parse? here with
    | none => rfl
    | some tag =>
      have hafter := hplace.reaches (Block.reaches_after htag hr)
      exact blockAt_place hafter (Tag.parse?_spec htag hr).2.2 found
  · rw [if_neg hletter, if_neg hletter, ← offset_step_narrow hr (by decide), scanFollow,
      List.append_nil]
    rfl

/-- **A turn of the scan of a document is a step of it.** -/
theorem scanTurn_place (h : c.IsPlaceOf text) (found : List Block) :
    scanTurn text found c.offset = .ok (scanFollow found (Block.scanStep c)) := by
  rw [scanTurn, bytesFrom_place h, ok_bind]
  rcases findByte_place (by decide : '<'.toNat < 0x80) c with ⟨hend, hnone⟩ | ⟨r, n, hr, hsome, hn⟩
  · have hdone : Block.scanStep c = .done := if_pos hend
    rw [hnone, hdone]
    rfl
  · simp only [hsome, hn]
    exact scanAt_place h found hr

/-- **All blocks of a text**, from a place on. -/
theorem scan_place (h : c.IsPlaceOf text) (found : List Block) :
    loop text (scanTurn text) found c.offset = .ok ((Block.scan? c).map (found ++ ·)) := by
  refine loop_eq (fun found c => (Block.scan? c).map (found ++ ·)) (fun found c h => ?_) found c h
  rw [scanTurn_place h, Block.scan?_eq]
  cases hstep : Block.scanStep c with
  | fail => exact Or.inl rfl
  | done =>
    refine Or.inl ?_
    rw [scanFollow, Option.map_some, List.append_nil]
  | next more after =>
    refine Or.inr ⟨found ++ more, after, rfl, Block.reaches_scanStep hstep,
      Block.length_scanStep_lt hstep, ?_⟩
    dsimp only
    rw [Option.map_map]
    refine congrArg (fun f => Option.map f (Block.scan? after)) (funext fun blocks => ?_)
    exact (List.append_assoc _ _ _).symm

/-! ## 6. Every document can be read -/

/-- **Reading a document by byte offsets never faults.**  Whatever the text, and however it is
broken, no byte is looked at past the end, no slice is out of order or cuts a character, no count
goes below zero and no loop turns without moving on; and the reading ends with the blocks, and so
the layout, that the document has. -/
theorem blocks_ok (text : String) :
    blocks text = .ok (Block.scan? (Cursor.ofText text)) ∧ layout text = .ok (Layout.ofText text) := by
  have hblocks : blocks text = .ok (Block.scan? (Cursor.ofText text)) := by
    have hscan := scan_place (Cursor.isPlaceOf_ofText text) []
    simp only [List.nil_append, Option.map_id_fun'] at hscan
    exact hscan
  refine ⟨hblocks, ?_⟩
  rw [layout, hblocks]
  rfl

end ComponentHost.ByteScan
