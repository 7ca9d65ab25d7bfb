/-
# Documents as they are written

A component document is a sequence of blocks, comments and text.  This file says what it means to
write one (`DocumentItem`, `DocumentItem.chars`), which regions it should have (`documentRegions`),
and that these are the regions that are found (`Layout.regions_written`).

What may stand in a block depends on its name.  Most blocks hold anything that does not close them
(`NoClosing`).  A markup block holds markup (`MarkupPiece`), in which elements of its own name may
nest; `MarkupPiece.depth?` counts how many are open, and the markup is balanced if the count is
never below zero and zero at the end.

The search for a closing tag is followed from piece to piece: each piece is passed, and the number
of open elements changes as `depth?` says (`Block.close?_piece`).  In the same way the scan of the
document is followed from item to item (`Block.scan?_item`).  Every lemma has any text behind the
piece that it is about, which is what lets the pieces be put together by induction.
-/
import ComponentHost.Proofs.BlockRegions
import ComponentHost.Proofs.WrittenTags

namespace ComponentHost

/-! ## 1. What is written

The types carry the rules: whatever value one has of them may be written, and nothing has to be
assumed of it later.  For markup the rule is a count and not a nesting of trees, since a document
may close elements of other names as it likes; only the elements with the name of the block matter
to its end. -/

/-- A comment, by what stands in it. -/
structure WrittenComment where
  text : List Char
  closed : ¬ Block.commentClose <:+: text

/-- A closing tag, with blanks behind its name or none. -/
structure WrittenClosing where
  name : TagName
  space : List Char
  blank : ∀ x ∈ space, Tag.isSpace x = true

/-- What is written for a comment. -/
def WrittenComment.chars (c : WrittenComment) : List Char :=
  Block.commentOpen ++ c.text ++ Block.commentClose

/-- What is written for a closing tag. -/
def WrittenClosing.chars (c : WrittenClosing) : List Char :=
  '<' :: '/' :: c.name.chars ++ c.space ++ ['>']

/-- Is it the name of a markup block? -/
def TagName.isTemplate (n : TagName) : Bool := Text.sameWord n.text "template"

/-- The attribute has no `<` in it. -/
def WrittenAttribute.Plain (a : WrittenAttribute) : Prop :=
  '<' ∉ a.name ∧ ∀ v ∈ a.value, '<' ∉ v.text

/-- A piece of markup. -/
inductive MarkupPiece where
  | text (run : List Char) (plain : '<' ∉ run)
  | comment (c : WrittenComment)
  | element (tag : WrittenTag) (selfClosing : Bool) (plain : ∀ a ∈ tag.attributes, a.Plain)
  | closing (c : WrittenClosing)

namespace MarkupPiece

/-- What is written for a piece of markup. -/
def chars : MarkupPiece → List Char
  | text run _ => run
  | comment c => c.chars
  | element tag selfClosing _ => tag.chars selfClosing
  | closing c => c.chars

/-- The number of open template elements behind a piece; `none` if it closes one that is not
open. -/
def depth? (depth : Nat) : MarkupPiece → Option Nat
  | element tag selfClosing _ =>
    some (if tag.name.isTemplate && !selfClosing then depth + 1 else depth)
  | closing c =>
    if c.name.isTemplate then
      match depth with
      | 0 => none
      | depth + 1 => some depth
    else some depth
  | _ => some depth

end MarkupPiece

/-- Every closing tag of a template element in the markup closes one that is open, and none stays
open. -/
def Balanced (pieces : List MarkupPiece) : Prop := pieces.foldlM MarkupPiece.depth? 0 = some 0

/-- Nothing in the content is a closing tag of the given name: where `</` and the name stand, in
either case, the name goes on. -/
def NoClosing (name content : List Char) : Prop :=
  ∀ before word after, content = before ++ '<' :: '/' :: (word ++ after) →
    word.map Char.toLower = name.map Char.toLower → after.head?.any Tag.isNameChar = true

/-- What may stand in a block of the given name. -/
def TagName.Encloses (n : TagName) (content : List Char) : Prop :=
  if n.isTemplate then
    ∃ pieces, Balanced pieces ∧ content = pieces.flatMap MarkupPiece.chars
  else NoClosing n.chars content

/-- A block: its tag, what stands in it, and the closing tag of the same name up to case. -/
structure WrittenBlock where
  tag : WrittenTag
  content : List Char
  closing : WrittenClosing
  closes : Text.sameWord tag.name.text closing.name.text = true
  encloses : tag.name.Encloses content

namespace WrittenBlock

/-- What is written for a block. -/
def chars (b : WrittenBlock) : List Char := b.tag.chars false ++ b.content ++ b.closing.chars

/-- The region of a block that is written from an offset on: its content. -/
def region (b : WrittenBlock) (offset : Nat) : Region :=
  let kind := RegionKind.ofTag b.tag.name.text
  let start := offset + byteWidth (b.tag.chars false)
  .block kind (kind.languageOf b.tag.name.text b.tag.declaredLanguage?) start
    (start + byteWidth b.content)

end WrittenBlock

/-- An item of a document. -/
inductive DocumentItem where
  | text (run : List Char) (plain : '<' ∉ run)
  | comment (c : WrittenComment)
  | selfClosing (tag : WrittenTag)
  | block (b : WrittenBlock)

namespace DocumentItem

/-- What is written for an item. -/
def chars : DocumentItem → List Char
  | text run _ => run
  | comment c => c.chars
  | selfClosing tag => tag.chars true
  | block b => b.chars

/-- The regions of an item that is written from an offset on. -/
def regions (offset : Nat) : DocumentItem → List Region
  | block b => [b.region offset]
  | _ => []

end DocumentItem

/-- The regions of items that are written one behind another, from an offset on. -/
def documentRegions : Nat → List DocumentItem → List Region
  | _, [] => []
  | offset, item :: items =>
    item.regions offset ++ documentRegions (offset + byteWidth item.chars) items

/-! ## 2. Names up to case

Names are compared in lower case, and a name in a text is the longest run of name characters.  Both
have to be brought together: a text that is the name in another case consists of name characters,
too. -/

theorem Text.sameWord_iff {a b : String} :
    sameWord a b = true ↔ a.toList.map Char.toLower = b.toList.map Char.toLower := by
  simp only [sameWord, lowercase, beq_iff_eq, String.ofList_inj]

theorem TagName.sameWord_iff {n m : TagName} :
    Text.sameWord n.text m.text = true ↔ n.chars.map Char.toLower = m.chars.map Char.toLower := by
  rw [Text.sameWord_iff, text, text, String.toList_ofList, String.toList_ofList]

/-- Two markup blocks have the same name, and no other element has it. -/
theorem TagName.sameWord_template {n : TagName} (h : n.isTemplate = true) (m : TagName) :
    Text.sameWord n.text m.text = m.isTemplate := by
  rw [Bool.eq_iff_iff, isTemplate, Text.sameWord_iff, Text.sameWord_iff, Text.sameWord_iff.mp h]
  exact eq_comm

/-- The blocks of markup are those with one name. -/
theorem TagName.isTemplate_iff {n : TagName} :
    n.isTemplate = true ↔ RegionKind.ofTag n.text = .markup := by
  unfold isTemplate RegionKind.ofTag
  split
  · next h => simp [h]
  · next h =>
    refine ⟨fun h' => absurd h' h, fun h' => ?_⟩
    split at h'
    · cases h'
    · split at h' <;> cases h'

namespace Tag

theorem isNameChar_of_isAlphanum {x : Char} (h : x.isAlphanum = true) : isNameChar x = true := by
  rw [isNameChar, h]
  rfl

/-- A letter stays a letter in lower case, and all else stays as it is. -/
theorem isNameChar_toLower (x : Char) : isNameChar x.toLower = isNameChar x := by
  have hlower := Utf8.toNat_toLower x
  by_cases hupper : 0x41 ≤ x.toNat ∧ x.toNat ≤ 0x5A
  · rw [if_pos hupper] at hlower
    have hsmall : x.toLower.isLower = true := by
      refine Bool.and_eq_true_iff.mpr ⟨decide_eq_true ?_, decide_eq_true ?_⟩
      · show 0x61 ≤ x.toLower.toNat
        omega
      · show x.toLower.toNat ≤ 0x7A
        omega
    have hcapital : x.isUpper = true := decide_eq_true hupper
    have hletter : ∀ {y : Char}, y.isUpper = true ∨ y.isLower = true → isNameChar y = true :=
      fun h => isNameChar_of_isAlphanum (Bool.or_eq_true_iff.mpr (Or.inl
        (Bool.or_eq_true_iff.mpr h)))
    rw [hletter (Or.inr hsmall), hletter (Or.inl hcapital)]
  · rw [if_neg hupper] at hlower
    rw [Char.toNat_inj.mp hlower]

theorem isNameChar_of_map_toLower_eq {u name : List Char}
    (hname : ∀ x ∈ name, isNameChar x = true)
    (h : u.map Char.toLower = name.map Char.toLower) : ∀ x ∈ u, isNameChar x = true := by
  intro x hx
  have hmem : x.toLower ∈ name.map Char.toLower := h ▸ List.mem_map_of_mem hx
  obtain ⟨a, ha, hax⟩ := List.mem_map.mp hmem
  rw [← isNameChar_toLower, ← hax, isNameChar_toLower]
  exact hname a ha

end Tag

/-- A word is found where it is written in any case. -/
theorem Text.startsWithWord_of_map_toLower_eq {u word : List Char}
    (h : u.map Char.toLower = word.map Char.toLower) (r : List Char) :
    startsWithWord word (u ++ r) = true := by
  induction word generalizing u with
  | nil => rfl
  | cons w word ih =>
    cases u with
    | nil => cases h
    | cons x u =>
      simp only [List.map_cons, List.cons.injEq] at h
      rw [List.cons_append, startsWithWord, sameLetter, h.1, beq_self_eq_true, Bool.true_and]
      exact ih h.2

/-! ## 3. The characters of tags

What a tag looks like to the search, which only stops at a `<`: the first character, and a run
without another one. -/

/-- A name begins with a letter. -/
theorem TagName.exists_letter (n : TagName) : ∃ x r, n.chars = x :: r ∧ x.isAlpha = true := by
  have hletter := n.letter
  cases hchars : n.chars with
  | nil =>
    rw [hchars] at hletter
    cases hletter
  | cons x r =>
    rw [hchars] at hletter
    exact ⟨x, r, rfl, hletter⟩

theorem WrittenTag.chars_append (t : WrittenTag) (selfClosing : Bool) (more : List Char) :
    t.chars selfClosing ++ more = '<' :: (t.name.chars ++ (t.tail selfClosing ++ more)) := by
  simp [chars]

theorem WrittenComment.chars_append (c : WrittenComment) (more : List Char) :
    c.chars ++ more = '<' :: (['!', '-', '-'] ++ c.text ++ Block.commentClose ++ more) := by
  simp [chars, Block.commentOpen]

theorem WrittenClosing.chars_append (c : WrittenClosing) (more : List Char) :
    c.chars ++ more = '<' :: '/' :: (c.name.chars ++ (c.space ++ '>' :: more)) := by
  simp [chars]

/-- Neither names nor blanks have a `<`. -/
theorem TagName.plain (n : TagName) : '<' ∉ n.chars := fun h =>
  absurd (n.named '<' h) (by decide)

theorem Tag.plain_of_blank {space : List Char} (h : ∀ x ∈ space, isSpace x = true) :
    '<' ∉ space := fun hmem => absurd (h '<' hmem) (by decide)

theorem WrittenClosing.plain (c : WrittenClosing) :
    '<' ∉ '/' :: c.name.chars ++ c.space ++ ['>'] := by
  have hname := c.name.plain
  have hspace := Tag.plain_of_blank c.blank
  simp [hname, hspace]

/-- What is written for a plain attribute has no `<`. -/
theorem WrittenAttribute.Plain.chars {a : WrittenAttribute} (h : a.Plain) : '<' ∉ a.chars := by
  have hgap := Tag.plain_of_blank a.gap_blank
  have hvalue : '<' ∉ (a.value.map fun v => '=' :: v.chars).getD [] := by
    cases hv : a.value with
    | none => simp
    | some v =>
      have htext : '<' ∉ v.text := h.2 v (by simp [hv])
      rcases v.isQuote with hquote | hquote <;> simp [QuotedText.chars, hquote, htext]
  simp [WrittenAttribute.chars, hgap, h.1, hvalue]

/-- A tag whose attributes have no `<` has none but its first character. -/
theorem WrittenTag.plain {t : WrittenTag} (selfClosing : Bool)
    (h : ∀ a ∈ t.attributes, a.Plain) : '<' ∉ t.name.chars ++ t.tail selfClosing := by
  have hname := t.name.plain
  have hspace := Tag.plain_of_blank t.blank
  have hattributes : '<' ∉ t.attributes.flatMap WrittenAttribute.chars := by
    intro hmem
    obtain ⟨a, ha, hmem⟩ := List.mem_flatMap.mp hmem
    exact (h a ha).chars hmem
  have hending : '<' ∉ if selfClosing then ['/', '>'] else ['>'] := by
    cases selfClosing <;> decide
  simp only [tail, List.mem_append, not_or]
  exact ⟨hname, ⟨hattributes, hspace⟩, hending⟩

/-! ## 4. What starts at a `<`

At a `<` three questions are asked: does a comment start, does a closing tag of the name, does an
opening tag of the name.  For what is written each of them has one answer, by the character that
follows. -/

namespace Block

theorem startsTag_cons (w x : Char) (word r : List Char) (offset : Nat) :
    startsTag (w :: word) ⟨offset, x :: r⟩
      = (Text.sameLetter w x && startsTag word ⟨offset, r⟩) := by
  rw [startsTag, startsTag, ← Bool.and_assoc]
  rfl

/-- Where a name is written, a tag of a given name starts if the names are the same. -/
theorem startsTag_name (n m : TagName) {r : List Char}
    (hr : ∃ x r', r = x :: r' ∧ Tag.isNameChar x = false) (offset : Nat) :
    startsTag n.chars ⟨offset, m.chars ++ r⟩ = Text.sameWord n.text m.text := by
  obtain ⟨y, r, rfl, hy⟩ := hr
  rw [Bool.eq_iff_iff, TagName.sameWord_iff, startsTag, Bool.and_eq_true]
  constructor
  · rintro ⟨hword, hafter⟩
    obtain ⟨u, s, hsplit, hu⟩ := Text.startsWithWord_spec hword
    have hlength : u.length = n.chars.length := by simpa using congrArg List.length hu
    -- both are the longest run of characters of names
    have hrun : m.chars = u := by
      have hs : s.takeWhile Tag.isNameChar = [] := by
        rw [hsplit, ← hlength, List.drop_left] at hafter
        cases s with
        | nil => rfl
        | cons x s => exact List.takeWhile_cons_of_neg (by simpa using hafter)
      have hchars := Tag.isNameChar_of_map_toLower_eq n.named hu
      have := congrArg (List.takeWhile Tag.isNameChar) hsplit
      rw [List.takeWhile_append_of_pos m.named, List.takeWhile_append_of_pos hchars, hs,
        List.takeWhile_cons_of_neg (by simp [hy])] at this
      simpa using this
    rw [hrun, hu]
  · intro hsame
    refine ⟨Text.startsWithWord_of_map_toLower_eq hsame.symm _, ?_⟩
    have hlength : n.chars.length = m.chars.length := by simpa using congrArg List.length hsame
    rw [hlength, List.drop_left]
    simp [hy]

/-- Where a tag is written, no comment starts. -/
theorem starts_comment_tag (t : WrittenTag) (selfClosing : Bool) (offset : Nat)
    (more : List Char) :
    (⟨offset, t.chars selfClosing ++ more⟩ : Cursor).starts commentOpen = false := by
  obtain ⟨x, r, hx, hletter⟩ := t.name.exists_letter
  refine Bool.eq_false_iff.mpr fun h => ?_
  obtain ⟨tail, htail⟩ := List.isPrefixOf_iff_prefix.mp h
  obtain rfl : '!' = x := by
    rw [t.chars_append, hx] at htail
    exact (List.cons.inj (List.cons.inj htail).2).1
  exact absurd hletter (by decide)

/-- Where a tag is written, a tag of a given name starts if the names are the same. -/
theorem startsTag_tag (n : TagName) (t : WrittenTag) (selfClosing : Bool) (offset : Nat)
    (more : List Char) :
    startsTag ('<' :: n.chars) ⟨offset, t.chars selfClosing ++ more⟩
      = Text.sameWord n.text t.name.text := by
  obtain ⟨x, r, hr, hx⟩ := (t.isTagTail selfClosing more).ends
  rw [t.chars_append, startsTag_cons,
    startsTag_name n t.name ⟨x, r, hr, Tag.not_isNameChar_of_not hx⟩]
  rfl

/-- Where a slash follows, no opening tag starts. -/
theorem startsTag_slash (n : TagName) (offset : Nat) (r : List Char) :
    startsTag ('<' :: n.chars) ⟨offset, '<' :: '/' :: r⟩ = false := by
  obtain ⟨x, name, hx, hletter⟩ := n.exists_letter
  refine Bool.eq_false_iff.mpr fun h => ?_
  rw [hx, startsTag_cons, startsTag_cons, Bool.and_eq_true, Bool.and_eq_true] at h
  obtain rfl : x = '/' := Utf8.eq_of_toLower_eq (beq_iff_eq.mp h.2.1) (by decide)
  exact absurd hletter (by decide)

/-- Where a tag is written, no closing tag starts. -/
theorem startsTag_closing_tag (n : TagName) (t : WrittenTag) (selfClosing : Bool) (offset : Nat)
    (more : List Char) :
    startsTag ('<' :: '/' :: n.chars) ⟨offset, t.chars selfClosing ++ more⟩ = false := by
  obtain ⟨x, r, hx, hletter⟩ := t.name.exists_letter
  refine Bool.eq_false_iff.mpr fun h => ?_
  obtain ⟨v, s, hrest, -⟩ := startsTag_split h
  obtain rfl : x = '/' := by
    rw [t.chars_append, hx] at hrest
    exact (List.cons.inj (List.cons.inj hrest).2).1
  exact absurd hletter (by decide)

/-! ## 5. Comments

A comment ends at the first closing mark.  The text of the comment has none, and none that starts in
it can end in the mark that is written, because the mark does not overlap with itself in that way.
-/

/-- The end of a comment is found where it is written: it cannot start in the text of the comment
and end behind it. -/
theorem findPast_comment {text : List Char} (h : ¬ commentClose <:+: text) (offset : Nat)
    (more : List Char) :
    Cursor.findPast commentClose offset (text ++ commentClose ++ more)
      = some ⟨offset + byteWidth (text ++ commentClose), more⟩ := by
  induction text generalizing offset with
  | nil => rfl
  | cons x text ih =>
    have hrest : ¬ commentClose <:+: text := fun hinner =>
      h (hinner.trans (List.suffix_cons x text).isInfix)
    have hnot : ¬ commentClose.isPrefixOf (x :: (text ++ commentClose ++ more)) = true := by
      intro hstarts
      rcases text with _ | ⟨y, _ | ⟨z, text⟩⟩
      · simp [commentClose] at hstarts
      · simp [commentClose] at hstarts
      · -- three characters of the text are the word
        obtain ⟨rfl, rfl, rfl⟩ : '-' = x ∧ '-' = y ∧ '>' = z := by
          simpa [commentClose] using hstarts
        exact h (List.prefix_append commentClose text).isInfix
    rw [List.cons_append, List.cons_append, Cursor.findPast, if_neg hnot, ih hrest, byteWidth_cons,
      Nat.add_assoc]

theorem starts_comment (c : WrittenComment) (offset : Nat) (more : List Char) :
    (⟨offset, c.chars ++ more⟩ : Cursor).starts commentOpen = true := by
  simp [Cursor.starts, commentOpen, WrittenComment.chars]

/-- **A comment is passed as it is written.** -/
theorem pastComment?_chars (c : WrittenComment) (offset : Nat) (more : List Char) :
    pastComment? ⟨offset, c.chars ++ more⟩ = some ⟨offset + byteWidth c.chars, more⟩ := by
  have hskip : (⟨offset, c.chars ++ more⟩ : Cursor).skip 4
      = ⟨offset + byteWidth commentOpen, c.text ++ commentClose ++ more⟩ := by
    simp [Cursor.skip, Cursor.step, WrittenComment.chars, commentOpen, Nat.add_assoc]
  rw [pastComment?, hskip, Cursor.past?, findPast_comment c.closed, WrittenComment.chars,
    List.append_assoc commentOpen, byteWidth_append commentOpen, Nat.add_assoc]

/-! ## 6. Closing tags

The search at a closing tag, once for the tag that ends the block and once for those that end an
element in it. -/

variable {name : List Char} {kind : RegionKind} {depth : Nat}

theorem nextAngle_text {run : List Char} (h : '<' ∉ run) (offset : Nat) (more : List Char) :
    nextAngle ⟨offset, run ++ more⟩ = nextAngle ⟨offset + byteWidth run, more⟩ :=
  Cursor.skipWhile_append (fun _ hx => bne_iff_ne.mpr (ne_of_mem_of_not_mem hx h)) offset more

theorem nextAngle_angle (offset : Nat) (r : List Char) :
    nextAngle ⟨offset, '<' :: r⟩ = ⟨offset, '<' :: r⟩ :=
  Cursor.skipWhile_of_not (by decide) offset r

/-- The search passes text without a `<`. -/
theorem close?_text {run : List Char} (h : '<' ∉ run) (offset : Nat) (more : List Char) :
    close? name kind depth ⟨offset, run ++ more⟩
      = close? name kind depth ⟨offset + byteWidth run, more⟩ := by
  have hstep : closeStep name kind depth ⟨offset, run ++ more⟩
      = closeStep name kind depth ⟨offset + byteWidth run, more⟩ := by
    simp only [closeStep, nextAngle_text h]
  rw [close?_eq, close?_eq name kind depth ⟨offset + byteWidth run, more⟩, hstep]

/-- The search passes a `<` that starts nothing it looks for. -/
theorem close?_angle {offset : Nat} {r : List Char}
    (hcomment : ¬ (kind = .markup ∧ (⟨offset, '<' :: r⟩ : Cursor).starts commentOpen = true))
    (hclosing : ¬ startsTag ('<' :: '/' :: name) ⟨offset, '<' :: r⟩ = true)
    (hopening : ¬ (kind = .markup ∧ startsTag ('<' :: name) ⟨offset, '<' :: r⟩ = true)) :
    close? name kind depth ⟨offset, '<' :: r⟩
      = close? name kind depth ⟨offset + '<'.utf8Size, r⟩ := by
  have hstep : closeStep name kind depth ⟨offset, '<' :: r⟩
      = .next depth ⟨offset + '<'.utf8Size, r⟩ := by
    simp only [closeStep, nextAngle_angle, List.cons_ne_nil, if_false, if_neg hcomment,
      if_neg hclosing, if_neg hopening]
    rfl
  rw [close?_eq, hstep]

/-- Blanks and a `>` end a name. -/
theorem ends_of_blank {space : List Char} (h : ∀ x ∈ space, Tag.isSpace x = true)
    (more : List Char) :
    ∃ x r, space ++ '>' :: more = x :: r ∧ Tag.isNameChar x = false := by
  cases space with
  | nil => exact ⟨'>', more, rfl, by decide⟩
  | cons x space =>
    have hx := Tag.not_isAttributeChar_of_isSpace (h x List.mem_cons_self)
    exact ⟨x, _, rfl, Tag.not_isNameChar_of_not hx⟩

/-- Where a closing tag is written, a closing tag of a given name starts if the names are the same.
-/
theorem startsTag_closing (n : TagName) (c : WrittenClosing) (offset : Nat) (more : List Char) :
    startsTag ('<' :: '/' :: n.chars) ⟨offset, c.chars ++ more⟩
      = Text.sameWord n.text c.name.text := by
  rw [c.chars_append, startsTag_cons, startsTag_cons,
    startsTag_name n c.name (ends_of_blank c.blank more)]
  rfl

/-- At a closing tag with the name of the block the search ends, or one element less is open. -/
theorem closeStep_closing {n : TagName} {c : WrittenClosing}
    (h : Text.sameWord n.text c.name.text = true) (offset : Nat) (more : List Char) :
    closeStep n.chars kind depth ⟨offset, c.chars ++ more⟩ = match depth with
      | 0 => .found ⟨offset, c.chars ++ more⟩
      | depth + 1 => .next depth
          ((⟨offset, c.chars ++ more⟩ : Cursor).skip (n.chars.length + 2)) := by
  have hstarts := startsTag_closing n c offset more
  have hcomment : ¬ (kind = .markup ∧
      (⟨offset, c.chars ++ more⟩ : Cursor).starts commentOpen = true) := by
    simp [Cursor.starts, commentOpen, WrittenClosing.chars]
  rw [h] at hstarts
  rw [c.chars_append] at hstarts hcomment ⊢
  cases depth <;>
    simp only [closeStep, nextAngle_angle, List.cons_ne_nil, if_false, if_neg hcomment,
      if_pos hstarts]

/-- **The closing tag of a block is found where it is written.** -/
theorem close?_closing {n : TagName} {c : WrittenClosing}
    (h : Text.sameWord n.text c.name.text = true) (offset : Nat) (more : List Char) :
    close? n.chars kind 0 ⟨offset, c.chars ++ more⟩ = some ⟨offset, c.chars ++ more⟩ := by
  rw [close?_eq, closeStep_closing h]

/-- The closing tag of an inner element is passed, and one element less is open. -/
theorem close?_closing_succ {n : TagName} {c : WrittenClosing}
    (h : Text.sameWord n.text c.name.text = true) (offset : Nat) (more : List Char) :
    close? n.chars kind (depth + 1) ⟨offset, c.chars ++ more⟩
      = close? n.chars kind depth ⟨offset + byteWidth c.chars, more⟩ := by
  have hchars : c.chars ++ more
      = ('<' :: '/' :: c.name.chars) ++ (c.space ++ ['>'] ++ more) := by
    simp [WrittenClosing.chars]
  have hlength : ('<' :: '/' :: c.name.chars).length = n.chars.length + 2 := by
    have := congrArg List.length (TagName.sameWord_iff.mp h)
    simp only [List.length_map] at this
    simp [this]
  have hplain : '<' ∉ c.space ++ ['>'] := by
    simp [Tag.plain_of_blank c.blank]
  rw [close?_eq, closeStep_closing h]
  dsimp only
  rw [(Cursor.passes_skip hchars hlength).eq_mk hchars, close?_text hplain, Nat.add_assoc,
    ← byteWidth_append]
  simp [WrittenClosing.chars]

/-- The search passes a tag that it does not look for. -/
theorem close?_plain {run : List Char} (hplain : '<' ∉ run) {offset : Nat} {more : List Char}
    (hcomment : (⟨offset, '<' :: (run ++ more)⟩ : Cursor).starts commentOpen = false)
    (hclosing : startsTag ('<' :: '/' :: name) ⟨offset, '<' :: (run ++ more)⟩ = false)
    (hopening : startsTag ('<' :: name) ⟨offset, '<' :: (run ++ more)⟩ = false) :
    close? name kind depth ⟨offset, '<' :: (run ++ more)⟩
      = close? name kind depth ⟨offset + byteWidth ('<' :: run), more⟩ := by
  rw [close?_angle (fun h => Bool.eq_false_iff.mp hcomment h.2) (Bool.eq_false_iff.mp hclosing)
    (fun h => Bool.eq_false_iff.mp hopening h.2), close?_text hplain, byteWidth_cons,
    Nat.add_assoc]

/-! ## 7. Contents of blocks

Here the two sorts of blocks part.  In a block that is no markup the search is only stopped by a
closing tag of its name, and the content has none.  In markup it goes from piece to piece, and since
the pieces are balanced it comes to the end of the content with nothing open. -/

/-- Where nothing in the content closes a block, nothing that starts there and ends behind it does
either. -/
theorem not_startsTag_of_noClosing {n : TagName} {content tail : List Char}
    (h : NoClosing n.chars ('<' :: content)) (htail : ∃ r, tail = '<' :: r) (offset : Nat) :
    ¬ startsTag ('<' :: '/' :: n.chars) ⟨offset, '<' :: (content ++ tail)⟩ = true := by
  intro hstarts
  obtain ⟨v, r, hrest, hv, hafter⟩ := startsTag_split hstarts
  have hsplit : content ++ tail = '/' :: v ++ r := (List.cons.inj hrest).2
  rcases List.append_eq_append_iff.mp hsplit with ⟨extra, hextra, hextra'⟩ | ⟨after, hcontent, hr⟩
  · -- the name would end behind the content, but has no `<`
    cases extra with
    | nil =>
      rw [List.append_nil] at hextra
      exact absurd (h [] v [] (by rw [← hextra, List.append_nil]; rfl) hv) (by simp)
    | cons x extra =>
      obtain ⟨rest, rfl⟩ := htail
      obtain rfl : '<' = x := (List.cons.inj hextra').1
      have hmem : '<' ∈ '/' :: v := by
        rw [hextra]
        simp
      rcases List.mem_cons.mp hmem with hslash | hname
      · exact absurd hslash (by decide)
      · exact absurd (Tag.isNameChar_of_map_toLower_eq n.named hv '<' hname) (by decide)
  · -- the name would end in the content, but goes on there
    have hon := h [] v after (by rw [hcontent]; rfl) hv
    cases after with
    | nil => cases hon
    | cons x after =>
      rw [hr] at hafter
      exact Bool.eq_false_iff.mp hafter hon

/-- A block that is no markup is closed by the first closing tag of its name. -/
theorem close?_raw {n : TagName} {c : WrittenClosing} {content : List Char}
    (hkind : kind ≠ .markup) (hclosing : Text.sameWord n.text c.name.text = true)
    (h : NoClosing n.chars content) (offset : Nat) (more : List Char) :
    close? n.chars kind 0 ⟨offset, content ++ (c.chars ++ more)⟩
      = some ⟨offset + byteWidth content, c.chars ++ more⟩ := by
  induction content generalizing offset with
  | nil => exact close?_closing hclosing offset more
  | cons x content ih =>
    have hrest : NoClosing n.chars content := fun before word after hcontent hword =>
      h (x :: before) word after (by rw [hcontent]; rfl) hword
    have hpass : close? n.chars kind 0 ⟨offset, x :: (content ++ (c.chars ++ more))⟩
        = close? n.chars kind 0 ⟨offset + x.utf8Size, content ++ (c.chars ++ more)⟩ := by
      by_cases hx : x = '<'
      · subst hx
        exact close?_angle (fun hmarkup => hkind hmarkup.1)
          (not_startsTag_of_noClosing h ⟨_, c.chars_append more⟩ offset)
          (fun hmarkup => hkind hmarkup.1)
      · have hplain : '<' ∉ [x] := by simpa using Ne.symm hx
        exact close?_text hplain offset _
    rw [List.cons_append, hpass, ih hrest, byteWidth_cons, Nat.add_assoc]

/-- Markup is passed piece by piece, and the number of open elements is kept. -/
theorem close?_piece {n : TagName} (hn : n.isTemplate = true) (p : MarkupPiece) {depth' : Nat}
    (h : p.depth? depth = some depth') (offset : Nat) (more : List Char) :
    close? n.chars .markup depth ⟨offset, p.chars ++ more⟩
      = close? n.chars .markup depth' ⟨offset + byteWidth p.chars, more⟩ := by
  cases p with
  | text run plain =>
    cases h
    exact close?_text plain offset more
  | comment c =>
    cases h
    have hstep : closeStep n.chars .markup depth ⟨offset, c.chars ++ more⟩
        = .next depth ⟨offset + byteWidth c.chars, more⟩ := by
      have hpast := pastComment?_chars c offset more
      have hstarts := starts_comment c offset more
      rw [c.chars_append] at hpast hstarts ⊢
      simp only [closeStep, nextAngle_angle, List.cons_ne_nil, if_false, hstarts, and_self,
        if_true, hpast]
    rw [MarkupPiece.chars, close?_eq, hstep]
  | element tag selfClosing plain =>
    cases h
    have hcomment := starts_comment_tag tag selfClosing offset more
    have hclosing := startsTag_closing_tag n tag selfClosing offset more
    have hopening := startsTag_tag n tag selfClosing offset more
    rw [TagName.sameWord_template hn] at hopening
    rw [MarkupPiece.chars]
    cases htemplate : tag.name.isTemplate with
    | true =>
      -- an element of the same name is read as a tag, to see whether it closes itself
      obtain ⟨found, hparse, -⟩ := tag.parse?_chars selfClosing offset more
      have hstep : closeStep n.chars .markup depth ⟨offset, tag.chars selfClosing ++ more⟩
          = .next (if selfClosing then depth else depth + 1)
            ⟨offset + byteWidth (tag.chars selfClosing), more⟩ := by
        rw [htemplate] at hopening
        rw [tag.chars_append] at hcomment hclosing hopening hparse ⊢
        simp only [closeStep, nextAngle_angle, List.cons_ne_nil, if_false, hcomment, hclosing,
          hopening, hparse, and_self, if_true, Bool.false_eq_true, and_false]
      rw [close?_eq, hstep]
      cases selfClosing <;> rfl
    | false =>
      have hplain := WrittenTag.plain selfClosing plain
      have hchars := tag.chars_append selfClosing more
      rw [← List.append_assoc] at hchars
      rw [htemplate] at hopening
      rw [hchars] at hcomment hclosing hopening ⊢
      exact close?_plain hplain hcomment hclosing hopening
  | closing c =>
    by_cases htemplate : c.name.isTemplate = true
    · have hsame : Text.sameWord n.text c.name.text = true := by
        rw [TagName.sameWord_template hn, htemplate]
      cases depth with
      | zero => simp [MarkupPiece.depth?, htemplate] at h
      | succ depth =>
        obtain rfl : depth = depth' := by simpa [MarkupPiece.depth?, htemplate] using h
        exact close?_closing_succ hsame offset more
    · obtain rfl : depth = depth' := by simpa [MarkupPiece.depth?, htemplate] using h
      have hclosing := startsTag_closing n c offset more
      have hchars : c.chars ++ more = '<' :: (('/' :: c.name.chars ++ c.space ++ ['>']) ++ more) :=
        rfl
      rw [TagName.sameWord_template hn, Bool.eq_false_iff.mpr htemplate, hchars] at hclosing
      rw [MarkupPiece.chars, hchars, close?_plain c.plain rfl hclosing
        (startsTag_slash n offset _)]
      rfl

/-- Markup as a whole is passed, by induction on its pieces. -/
theorem close?_pieces {n : TagName} (hn : n.isTemplate = true) {pieces : List MarkupPiece}
    {depth' : Nat} (h : pieces.foldlM MarkupPiece.depth? depth = some depth') (offset : Nat)
    (more : List Char) :
    close? n.chars .markup depth ⟨offset, pieces.flatMap MarkupPiece.chars ++ more⟩
      = close? n.chars .markup depth'
          ⟨offset + byteWidth (pieces.flatMap MarkupPiece.chars), more⟩ := by
  induction pieces generalizing depth offset with
  | nil =>
    cases h
    rfl
  | cons p pieces ih =>
    rw [List.foldlM_cons] at h
    obtain ⟨between, hbetween, h⟩ := Option.bind_eq_some_iff.mp h
    rw [List.flatMap_cons, List.append_assoc, close?_piece hn p hbetween, ih h, byteWidth_append,
      Nat.add_assoc]

/-- **The search for the closing tag of a block ends behind its content.** -/
theorem close?_content (b : WrittenBlock) (offset : Nat) (more : List Char) :
    close? b.tag.name.chars (.ofTag b.tag.name.text) 0
        ⟨offset, b.content ++ (b.closing.chars ++ more)⟩
      = some ⟨offset + byteWidth b.content, b.closing.chars ++ more⟩ := by
  have hencloses := b.encloses
  unfold TagName.Encloses at hencloses
  split at hencloses
  · next htemplate =>
    obtain ⟨pieces, hbalanced, hcontent⟩ := hencloses
    rw [TagName.isTemplate_iff.mp htemplate, hcontent, close?_pieces htemplate hbalanced,
      close?_closing b.closes]
  · next htemplate =>
    exact close?_raw (fun hmarkup => htemplate (TagName.isTemplate_iff.mpr hmarkup)) b.closes
      hencloses offset more

/-! ## 8. Items

The scan at an item.  A tag that closes itself is read and gives no block; a block is its tag, for
whose content the search of the last section applies, and a closing tag, of which the scan only
looks for the `>`. -/

/-- The scan passes text without a `<`. -/
theorem scan?_text {run : List Char} (h : '<' ∉ run) (offset : Nat) (more : List Char) :
    scan? ⟨offset, run ++ more⟩ = scan? ⟨offset + byteWidth run, more⟩ := by
  have hstep : scanStep ⟨offset, run ++ more⟩ = scanStep ⟨offset + byteWidth run, more⟩ := by
    simp only [scanStep, nextAngle_text h]
  rw [scan?_eq, scan?_eq ⟨offset + byteWidth run, more⟩, hstep]

/-- At a comment the scan goes on behind it. -/
theorem scanStep_comment (c : WrittenComment) (offset : Nat) (more : List Char) :
    scanStep ⟨offset, c.chars ++ more⟩ = .next [] ⟨offset + byteWidth c.chars, more⟩ := by
  have hpast := pastComment?_chars c offset more
  have hstarts := starts_comment c offset more
  rw [c.chars_append] at hpast hstarts ⊢
  simp only [scanStep, nextAngle_angle, List.cons_ne_nil, if_false, hstarts, if_true, hpast]

/-- At a tag the scan reads the tag. -/
theorem scanStep_tag (t : WrittenTag) (selfClosing : Bool) (offset : Nat) (more : List Char) :
    ∃ found, scanStep ⟨offset, t.chars selfClosing ++ more⟩
        = blockStep ⟨t.name.text, found, selfClosing,
            ⟨offset + byteWidth (t.chars selfClosing), more⟩⟩ ∧
      found.map TagAttribute.content = t.attributes.map WrittenAttribute.content := by
  obtain ⟨found, hparse, hcontent⟩ := t.parse?_chars selfClosing offset more
  refine ⟨found, ?_, hcontent⟩
  have hcomment := starts_comment_tag t selfClosing offset more
  have hletter : letterFollows ⟨offset, t.chars selfClosing ++ more⟩ = true := by
    obtain ⟨x, r, hx, hletter⟩ := t.name.exists_letter
    rw [t.chars_append, hx]
    exact hletter
  rw [t.chars_append] at hparse hcomment hletter ⊢
  simp only [scanStep, nextAngle_angle, List.cons_ne_nil, if_false, hcomment, hletter, hparse,
    Bool.false_eq_true, if_true]

/-- The first `>` behind the place of a closing tag is its own. -/
theorem skipWhile_closing (c : WrittenClosing) (offset : Nat) (more : List Char) :
    (⟨offset, c.chars ++ more⟩ : Cursor).skipWhile (· != '>')
      = ⟨offset + byteWidth ('<' :: '/' :: c.name.chars ++ c.space), '>' :: more⟩ := by
  have hnone : ∀ x ∈ '<' :: '/' :: c.name.chars ++ c.space, (x != '>') = true := by
    have hname : '>' ∉ c.name.chars := fun h => absurd (c.name.named '>' h) (by decide)
    have hspace : '>' ∉ c.space := fun h => absurd (c.blank '>' h) (by decide)
    have hnot : '>' ∉ '<' :: '/' :: c.name.chars ++ c.space := by simp [hname, hspace]
    exact fun x hx => bne_iff_ne.mpr (ne_of_mem_of_not_mem hx hnot)
  rw [WrittenClosing.chars, List.append_assoc, Cursor.skipWhile_append hnone]
  exact Cursor.skipWhile_of_not (by decide) _ more

/-- Behind the tag of a block the scan finds the block, and goes on behind its closing tag. -/
theorem blockStep_written (b : WrittenBlock) (found : List TagAttribute) (offset : Nat)
    (more : List Char) :
    blockStep ⟨b.tag.name.text, found, false, ⟨offset, b.content ++ (b.closing.chars ++ more)⟩⟩
      = .next [ofTag ⟨b.tag.name.text, found, false,
            ⟨offset, b.content ++ (b.closing.chars ++ more)⟩⟩
          ⟨offset + byteWidth b.content, b.closing.chars ++ more⟩]
        ⟨offset + byteWidth b.content + byteWidth b.closing.chars, more⟩ := by
  have hname : b.tag.name.text.toList = b.tag.name.chars := String.toList_ofList
  simp only [blockStep, Bool.false_eq_true, if_false, hname, close?_content,
    skipWhile_closing, List.cons_ne_nil]
  refine congrArg (ScanStep.next _) ?_
  simp only [Cursor.step, WrittenClosing.chars, byteWidth_append, byteWidth_cons, byteWidth_nil,
    Nat.add_assoc, Nat.add_zero]

/-- **An item is scanned as it is written.** -/
theorem scan?_item (item : DocumentItem) (offset : Nat) (more : List Char) :
    ∃ found, found.map region = item.regions offset ∧
      scan? ⟨offset, item.chars ++ more⟩
        = (scan? ⟨offset + byteWidth item.chars, more⟩).map (found ++ ·) := by
  cases item with
  | text run plain =>
    refine ⟨[], rfl, ?_⟩
    rw [DocumentItem.chars, scan?_text plain]
    cases scan? ⟨offset + byteWidth run, more⟩ <;> rfl
  | comment c =>
    refine ⟨[], rfl, ?_⟩
    rw [DocumentItem.chars, scan?_eq, scanStep_comment]
  | selfClosing tag =>
    obtain ⟨found, hstep, -⟩ := scanStep_tag tag true offset more
    refine ⟨[], rfl, ?_⟩
    rw [DocumentItem.chars, scan?_eq, hstep]
    rfl
  | block b =>
    obtain ⟨found, hstep, hcontent⟩ :=
      scanStep_tag b.tag false offset (b.content ++ (b.closing.chars ++ more))
    refine ⟨[ofTag ⟨b.tag.name.text, found, false,
        ⟨offset + byteWidth (b.tag.chars false), b.content ++ (b.closing.chars ++ more)⟩⟩
      ⟨offset + byteWidth (b.tag.chars false) + byteWidth b.content, b.closing.chars ++ more⟩],
      ?_, ?_⟩
    · rw [DocumentItem.regions, List.map_singleton, ofTag, WrittenTag.attribute?_lang hcontent]
      rfl
    · rw [DocumentItem.chars, WrittenBlock.chars, List.append_assoc, List.append_assoc, scan?_eq,
        hstep, blockStep_written]
      simp only [byteWidth_append, Nat.add_assoc]

end Block

/-! ## 9. Documents

The items of a document are scanned one after the other, by induction. -/

theorem Block.scan?_items (items : List DocumentItem) (offset : Nat) :
    ∃ blocks, scan? ⟨offset, items.flatMap DocumentItem.chars⟩ = some blocks ∧
      blocks.map region = documentRegions offset items := by
  induction items generalizing offset with
  | nil => exact ⟨[], by rw [scan?_eq]; rfl, rfl⟩
  | cons item items ih =>
    obtain ⟨found, hfound, hscan⟩ := scan?_item item offset (items.flatMap DocumentItem.chars)
    obtain ⟨blocks, hblocks, hregions⟩ := ih (offset + byteWidth item.chars)
    refine ⟨found ++ blocks, ?_, ?_⟩
    · rw [List.flatMap_cons, hscan, hblocks, Option.map_some]
    · rw [List.map_append, hfound, hregions, documentRegions]

/-- **The regions of a document are the contents of its blocks.**  Whatever items are written one
behind another, the scan succeeds and finds one region for each block, in order: from its tag to
its closing tag, of the sort that its name says and in the language that it declares. -/
theorem Layout.regions_written (items : List DocumentItem) :
    (Block.scan? (Cursor.ofText (String.ofList (items.flatMap DocumentItem.chars)))).isSome ∧
      (ofText (String.ofList (items.flatMap DocumentItem.chars))).regions
        = documentRegions 0 items := by
  obtain ⟨blocks, hscan, hregions⟩ := Block.scan?_items items 0
  have htext : Cursor.ofText (String.ofList (items.flatMap DocumentItem.chars))
      = ⟨0, items.flatMap DocumentItem.chars⟩ := by
    rw [Cursor.ofText, String.toList_ofList]
  rw [ofText, htext, hscan]
  exact ⟨rfl, hregions⟩

/-- A comment that hides a closing tag, and an element of the same name: the block goes on behind
both. -/
example : ∃ b : WrittenBlock,
    String.ofList b.chars = "<template><!--</template>--><template>é</template></TEMPLATE >" ∧
      b.region 0 = .block .markup "component-markup" 10 51 :=
  ⟨{  tag := ⟨⟨['t', 'e', 'm', 'p', 'l', 'a', 't', 'e'], rfl, List.all_eq_true.mp rfl⟩, [], [],
        nofun⟩
      content := [MarkupPiece.comment
          ⟨['<', '/', 't', 'e', 'm', 'p', 'l', 'a', 't', 'e', '>'], by decide +kernel⟩,
        .element ⟨⟨['t', 'e', 'm', 'p', 'l', 'a', 't', 'e'], rfl, List.all_eq_true.mp rfl⟩, [], [],
          nofun⟩ false nofun,
        .text ['é'] (by decide),
        .closing ⟨⟨['t', 'e', 'm', 'p', 'l', 'a', 't', 'e'], rfl, List.all_eq_true.mp rfl⟩, [],
          nofun⟩].flatMap MarkupPiece.chars
      closing := ⟨⟨['T', 'E', 'M', 'P', 'L', 'A', 'T', 'E'], rfl, List.all_eq_true.mp rfl⟩, [' '],
        List.all_eq_true.mp rfl⟩
      closes := by decide +kernel
      encloses := by
        rw [TagName.Encloses, if_pos (by decide +kernel)]
        exact ⟨_, by unfold Balanced; decide +kernel, rfl⟩ },
    by decide +kernel, by decide +kernel⟩

end ComponentHost
