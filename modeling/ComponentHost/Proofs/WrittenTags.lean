/-
# Tags as they are written

The reader of tags accepts much that nobody writes.  This file is about what is written: a name
that starts with a letter, attributes with blanks before them and values in quotes, and `>` or
`/>` at the end.  The types here carry the rules of that form, so that every value of type
`WrittenTag` is a tag that may be written, and `WrittenTag.chars` writes it.

The reader gives back what was written, whatever stands behind the tag
(`WrittenTag.parse?_chars`): the name, the names and values of the attributes in order, and the
place right behind the tag.  One attribute is read by one step
(`WrittenAttribute.attributeStep_chars`).  An attribute without a value is the delicate case: the
reader looks for an equals sign behind the blanks that follow its name, and `IsTagTail` says why
it finds none there.
-/
import ComponentHost.Proofs.ScanSteps
import ComponentHost.Proofs.Places

namespace ComponentHost

/-! ## 1. What is written

Each type has the characters of one piece and the conditions under which they are read as that
piece.  The blanks before an attribute belong to it, as it needs at least one. -/

/-- A value between quotes that do not occur in it. -/
structure QuotedText where
  quote : Char
  text : List Char
  isQuote : quote = '"' ∨ quote = '\''
  closed : quote ∉ text

/-- An attribute, with the blanks before it. -/
structure WrittenAttribute where
  gap : List Char
  name : List Char
  value : Option QuotedText
  gap_ne_nil : gap ≠ []
  gap_blank : ∀ x ∈ gap, Tag.isSpace x = true
  name_ne_nil : name ≠ []
  named : ∀ x ∈ name, Tag.isAttributeChar x = true

/-- The name of a tag: a letter, and then characters of names. -/
structure TagName where
  chars : List Char
  letter : chars.head?.any Char.isAlpha = true
  named : ∀ x ∈ chars, Tag.isNameChar x = true

/-- A tag up to its end, with blanks before the end or none. -/
structure WrittenTag where
  name : TagName
  attributes : List WrittenAttribute
  space : List Char
  blank : ∀ x ∈ space, Tag.isSpace x = true

namespace QuotedText

/-- The value in its quotes. -/
def chars (v : QuotedText) : List Char := v.quote :: v.text ++ [v.quote]

end QuotedText

namespace WrittenAttribute

/-- What is written for an attribute. -/
def chars (a : WrittenAttribute) : List Char :=
  a.gap ++ a.name ++ (a.value.map fun v => '=' :: v.chars).getD []

/-- The name of an attribute, and the text of its value. -/
def content (a : WrittenAttribute) : String × Option String :=
  (String.ofList a.name, a.value.map fun v => String.ofList v.text)

end WrittenAttribute

/-- The name as a text. -/
def TagName.text (n : TagName) : String := String.ofList n.chars

namespace WrittenTag

/-- What is written for a tag behind its name. -/
def tail (t : WrittenTag) (selfClosing : Bool) : List Char :=
  t.attributes.flatMap WrittenAttribute.chars ++ t.space
    ++ if selfClosing then ['/', '>'] else ['>']

/-- What is written for a tag. -/
def chars (t : WrittenTag) (selfClosing : Bool) : List Char :=
  '<' :: t.name.chars ++ t.tail selfClosing

/-- The language that a tag declares: the value of its first attribute of that name. -/
def declaredLanguage? (t : WrittenTag) : Option String :=
  (t.attributes.find? fun a => Text.sameWord "lang" (String.ofList a.name)).map fun a =>
    (a.content.2).getD ""

end WrittenTag

/-- The name of an attribute that was read, and the text of its value. -/
def TagAttribute.content (a : TagAttribute) : String × Option String :=
  (a.name, a.value.map Excerpt.text)

/-! ## 2. Behind a name

Names are read as far as they go, so what follows must end them.  The other condition is about
blanks: an equals sign behind them would still belong to the name before. -/

namespace Tag

/-- What may stand behind a name in a tag: it ends the name, and the first character that is no
blank is no equals sign. -/
structure IsTagTail (r : List Char) : Prop where
  ends : ∃ x r', r = x :: r' ∧ isAttributeChar x = false
  noSign : ∃ x r', r.dropWhile isSpace = x :: r' ∧ x ≠ '='

theorem attributeChar_spec {x : Char} (h : isAttributeChar x = true) :
    isSpace x = false ∧ x ≠ '=' ∧ x ≠ '>' ∧ x ≠ '/' := by
  simp only [isAttributeChar, Bool.not_eq_true', Bool.or_eq_false_iff, beq_eq_false_iff_ne] at h
  exact ⟨h.1.1.1, h.1.1.2, h.1.2, h.2⟩

theorem not_isAttributeChar_of_isSpace {x : Char} (h : isSpace x = true) :
    isAttributeChar x = false := by
  rw [isAttributeChar, h]
  rfl

/-- What ends the name of an attribute ends the name of a tag. -/
theorem not_isNameChar_of_not {x : Char} (hnot : isAttributeChar x = false) :
    isNameChar x = false := by
  refine Bool.eq_false_iff.mpr fun h => ?_
  simp only [isAttributeChar, isSpace, Bool.not_eq_false', Bool.or_eq_true, beq_iff_eq] at hnot
  rcases hnot with ((((((rfl | rfl) | rfl) | rfl) | hfeed) | rfl) | rfl) | rfl
  case inl.inl.inl.inr =>
    obtain rfl : x = '\x0c' := Char.toNat_inj.mp hfeed
    exact absurd h (by decide)
  all_goals exact absurd h (by decide)

end Tag

theorem WrittenTag.tail_cons (name : TagName) (a : WrittenAttribute) (as : List WrittenAttribute)
    {space : List Char} (blank : ∀ x ∈ space, Tag.isSpace x = true) (selfClosing : Bool) :
    (WrittenTag.mk name (a :: as) space blank).tail selfClosing
      = a.chars ++ (WrittenTag.mk name as space blank).tail selfClosing := by
  simp only [tail, List.flatMap_cons, List.append_assoc]

/-- What stands behind the name of a tag ends the name. -/
theorem WrittenTag.isTagTail (t : WrittenTag) (selfClosing : Bool) (more : List Char) :
    Tag.IsTagTail (t.tail selfClosing ++ more) := by
  obtain ⟨name, attributes, space, blank⟩ := t
  cases attributes with
  | nil =>
    obtain ⟨x, r, hending, hx⟩ : ∃ x r, (if selfClosing then ['/', '>'] else ['>']) = x :: r ∧
        (x = '/' ∨ x = '>') := by
      cases selfClosing
      · exact ⟨'>', [], rfl, Or.inr rfl⟩
      · exact ⟨'/', ['>'], rfl, Or.inl rfl⟩
    have htail : (WrittenTag.mk name [] space blank).tail selfClosing ++ more
        = space ++ x :: (r ++ more) := by
      simp only [tail, hending, List.flatMap_nil, List.nil_append, List.append_assoc,
        List.cons_append]
    have hsign : x ≠ '=' ∧ Tag.isSpace x = false ∧ Tag.isAttributeChar x = false := by
      rcases hx with rfl | rfl <;> decide
    rw [htail]
    refine ⟨?_, x, r ++ more, ?_, hsign.1⟩
    · cases space with
      | nil => exact ⟨x, r ++ more, rfl, hsign.2.2⟩
      | cons b space =>
        exact ⟨b, _, rfl, Tag.not_isAttributeChar_of_isSpace (blank b List.mem_cons_self)⟩
    · rw [List.dropWhile_append_of_pos blank, List.dropWhile_cons_of_neg (by simp [hsign.2.1])]
  | cons a attributes =>
    obtain ⟨g, gap, hgap⟩ := List.exists_cons_of_ne_nil a.gap_ne_nil
    obtain ⟨x, name', hname⟩ := List.exists_cons_of_ne_nil a.name_ne_nil
    have hx : Tag.isAttributeChar x = true := a.named x (by simp [hname])
    obtain ⟨hspace, hsign, -⟩ := Tag.attributeChar_spec hx
    rw [tail_cons, WrittenAttribute.chars]
    simp only [List.append_assoc]
    refine ⟨?_, x, ?_⟩
    · rw [hgap]
      exact ⟨g, _, rfl, Tag.not_isAttributeChar_of_isSpace (a.gap_blank g (by simp [hgap]))⟩
    · rw [List.dropWhile_append_of_pos a.gap_blank, hname, List.cons_append,
        List.dropWhile_cons_of_neg (by simp [hspace])]
      exact ⟨_, rfl, hsign⟩

/-! ## 3. Attributes

A value is read from its quote to the next one, by each of the three readers in turn. -/

namespace Tag

/-- A value in quotes is read as it is written, and reading ends behind the second quote. -/
theorem quotedValue?_chars (v : QuotedText) (offset : Nat) (more : List Char) :
    ∃ e : Excerpt, quotedValue? v.quote ⟨offset, v.chars ++ more⟩
        = some (e, ⟨offset + byteWidth v.chars, more⟩) ∧ e.text = String.ofList v.text := by
  have hclosed : ∀ x ∈ v.text, (x != v.quote) = true := fun x hx =>
    bne_iff_ne.mpr fun h => v.closed (h ▸ hx)
  have hstep : (⟨offset, v.chars ++ more⟩ : Cursor).step
      = ⟨offset + v.quote.utf8Size, v.text ++ v.quote :: more⟩ := by
    simp [Cursor.step, QuotedText.chars]
  have hstop : (⟨offset + v.quote.utf8Size, v.text ++ v.quote :: more⟩ : Cursor).skipWhile
      (· != v.quote) = ⟨offset + v.quote.utf8Size + byteWidth v.text, v.quote :: more⟩ := by
    rw [Cursor.skipWhile_append hclosed, Cursor.skipWhile_of_not (by simp)]
  refine ⟨.between ⟨offset + v.quote.utf8Size, v.text ++ v.quote :: more⟩
    ⟨offset + v.quote.utf8Size + byteWidth v.text, v.quote :: more⟩, ?_, ?_⟩
  · simp only [quotedValue?, hstep, hstop, List.isEmpty_cons, Bool.false_eq_true, if_false]
    refine congrArg some (Prod.ext rfl ?_)
    simp only [Cursor.step, QuotedText.chars, List.cons_append, byteWidth_cons, byteWidth_append,
      byteWidth_nil, Nat.add_assoc, Nat.add_zero]
  · have hpasses : Cursor.Passes ⟨offset + v.quote.utf8Size, v.text ++ v.quote :: more⟩ v.text
        ⟨offset + v.quote.utf8Size + byteWidth v.text, v.quote :: more⟩ := ⟨rfl, rfl⟩
    exact congrArg String.ofList hpasses.upTo_eq

theorem announcedValue?_chars (v : QuotedText) (offset : Nat) (more : List Char) :
    ∃ e : Excerpt, announcedValue? ⟨offset, v.chars ++ more⟩
        = some (e, ⟨offset + byteWidth v.chars, more⟩) ∧ e.text = String.ofList v.text := by
  have hquoted : announcedValue? ⟨offset, v.chars ++ more⟩
      = quotedValue? v.quote ⟨offset, v.chars ++ more⟩ := by
    rcases v.isQuote with hquote | hquote <;>
      simp [announcedValue?, Cursor.starts, QuotedText.chars, hquote]
  rw [hquoted]
  exact quotedValue?_chars v offset more

theorem attributeValue?_chars (v : QuotedText) (offset : Nat) (more : List Char) :
    ∃ e : Excerpt, attributeValue? ⟨offset, '=' :: v.chars ++ more⟩
        = some (some e, ⟨offset + byteWidth ('=' :: v.chars), more⟩) ∧
      e.text = String.ofList v.text := by
  have hstart : (⟨offset, '=' :: v.chars ++ more⟩ : Cursor).step.skipWhile isSpace
      = ⟨offset + '='.utf8Size, v.chars ++ more⟩ := by
    refine Cursor.skipWhile_of_not ?_ _ _
    rcases v.isQuote with hquote | hquote <;> rw [hquote] <;> decide
  obtain ⟨e, he, htext⟩ := announcedValue?_chars v (offset + '='.utf8Size) more
  refine ⟨e, ?_, htext⟩
  rw [attributeValue?_eq, if_pos (by simp [Cursor.starts]), hstart, he, Option.map_some,
    byteWidth_cons, Nat.add_assoc]

/-- At a name, the step reads the name and looks for a value behind it. -/
theorem attributeAt_name {name r : List Char} (hne : name ≠ [])
    (hnamed : ∀ x ∈ name, isAttributeChar x = true)
    (hends : ∃ x r', r = x :: r' ∧ isAttributeChar x = false) {offset : Nat}
    {value : Option Excerpt} {after : Cursor}
    (hvalue : attributeValue? ((⟨offset + byteWidth name, r⟩ : Cursor).skipWhile isSpace)
      = some (value, after)) :
    attributeAt ⟨offset, name ++ r⟩ = .next [⟨String.ofList name, value⟩] after := by
  obtain ⟨y, r', rfl, hy⟩ := hends
  have hskip : (⟨offset, name ++ y :: r'⟩ : Cursor).skipWhile isAttributeChar
      = ⟨offset + byteWidth name, y :: r'⟩ := by
    rw [Cursor.skipWhile_append hnamed, Cursor.skipWhile_of_not hy]
  have hrun : (⟨offset, name ++ y :: r'⟩ : Cursor).run isAttributeChar = name := by
    rw [Cursor.run, List.takeWhile_append_of_pos hnamed, List.takeWhile_cons_of_neg (by simp [hy]),
      List.append_nil]
  obtain ⟨x, name', hname⟩ := List.exists_cons_of_ne_nil hne
  have hx : isAttributeChar x = true := hnamed x (by simp [hname])
  obtain ⟨-, -, hangle, hslash⟩ := attributeChar_spec hx
  rw [attributeAt, if_neg (by simp), if_neg (by simp [Cursor.starts, hname, Ne.symm hangle]),
    if_neg (by simp [Cursor.starts, hname, Ne.symm hslash]), if_pos (by simp [hname, hx]), hskip,
    hvalue, hrun]

/-- Blanks before an attribute do not matter to the reader. -/
theorem attributes?_congr {c d : Cursor} (h : c.skipWhile isSpace = d.skipWhile isSpace) :
    attributes? c = attributes? d := by
  rw [attributes?_eq, attributes?_eq, attributeStep, attributeStep, h]

end Tag

/-- **One step reads one attribute.**  It ends behind it, up to blanks. -/
theorem WrittenAttribute.attributeStep_chars (a : WrittenAttribute) {r : List Char}
    (hr : Tag.IsTagTail r) (offset : Nat) :
    ∃ value after, Tag.attributeStep ⟨offset, a.chars ++ r⟩
        = .next [⟨String.ofList a.name, value⟩] after ∧
      value.map Excerpt.text = a.content.2 ∧
      after.skipWhile Tag.isSpace
        = (⟨offset + byteWidth a.chars, r⟩ : Cursor).skipWhile Tag.isSpace := by
  obtain ⟨gap, name, value, gap_ne_nil, gap_blank, name_ne_nil, named⟩ := a
  have hhere : ∀ rest, (⟨offset, gap ++ (name ++ rest)⟩ : Cursor).skipWhile Tag.isSpace
      = ⟨offset + byteWidth gap, name ++ rest⟩ := by
    intro rest
    obtain ⟨x, name', rfl⟩ := List.exists_cons_of_ne_nil name_ne_nil
    have hx := (Tag.attributeChar_spec (named x List.mem_cons_self)).1
    rw [Cursor.skipWhile_append gap_blank, List.cons_append, Cursor.skipWhile_of_not hx]
  cases value with
  | none =>
    have hchars : (mk gap name none gap_ne_nil gap_blank name_ne_nil named).chars = gap ++ name :=
      List.append_nil _
    obtain ⟨x, r', hx, hsign⟩ := hr.noSign
    have hvalue : Tag.attributeValue?
          ((⟨offset + byteWidth gap + byteWidth name, r⟩ : Cursor).skipWhile Tag.isSpace)
        = some (none, (⟨offset + byteWidth gap + byteWidth name, r⟩ : Cursor).skipWhile
            Tag.isSpace) := by
      have hrest : ((⟨offset + byteWidth gap + byteWidth name, r⟩ : Cursor).skipWhile
          Tag.isSpace).rest = x :: r' := hx
      rw [Tag.attributeValue?_eq, if_neg (by simp [Cursor.starts, hrest, Ne.symm hsign])]
    refine ⟨none, (⟨offset + byteWidth gap + byteWidth name, r⟩ : Cursor).skipWhile Tag.isSpace,
      ?_, rfl, ?_⟩
    · rw [hchars, List.append_assoc, Tag.attributeStep, hhere,
        Tag.attributeAt_name name_ne_nil named hr.ends hvalue]
    · rw [Cursor.skipWhile_skipWhile, hchars, byteWidth_append, Nat.add_assoc]
  | some v =>
    have hchars : (mk gap name (some v) gap_ne_nil gap_blank name_ne_nil named).chars
        = gap ++ name ++ '=' :: v.chars := rfl
    obtain ⟨e, he, htext⟩ :=
      Tag.attributeValue?_chars v (offset + byteWidth gap + byteWidth name) r
    refine ⟨some e, ⟨offset + byteWidth gap + byteWidth name + byteWidth ('=' :: v.chars), r⟩,
      ?_, ?_, ?_⟩
    · have hvalue : Tag.attributeValue? ((⟨offset + byteWidth gap + byteWidth name,
            '=' :: v.chars ++ r⟩ : Cursor).skipWhile Tag.isSpace) = _ :=
        (congrArg Tag.attributeValue? (Cursor.skipWhile_of_not (by decide) _ _)).trans he
      rw [hchars, List.append_assoc, List.append_assoc, Tag.attributeStep, hhere]
      exact Tag.attributeAt_name name_ne_nil named ⟨'=', v.chars ++ r, rfl, by decide⟩ hvalue
    · rw [Option.map_some, htext]
      rfl
    · rw [hchars, byteWidth_append, byteWidth_append, ← Nat.add_assoc, ← Nat.add_assoc]

/-- **The attributes of a tag are read as they are written.** -/
theorem WrittenTag.attributes?_tail (t : WrittenTag) (selfClosing : Bool) (offset : Nat)
    (more : List Char) :
    ∃ found, Tag.attributes? ⟨offset, t.tail selfClosing ++ more⟩
        = some (found, selfClosing, ⟨offset + byteWidth (t.tail selfClosing), more⟩) ∧
      found.map TagAttribute.content = t.attributes.map WrittenAttribute.content := by
  obtain ⟨name, attributes, space, blank⟩ := t
  induction attributes generalizing offset with
  | nil =>
    refine ⟨[], ?_, rfl⟩
    have htail : (WrittenTag.mk name [] space blank).tail selfClosing
        = space ++ if selfClosing then ['/', '>'] else ['>'] := rfl
    rw [htail, List.append_assoc, byteWidth_append, ← Nat.add_assoc,
      Tag.attributes?_congr (Cursor.skipWhile_append blank offset _)]
    cases selfClosing <;> rw [Tag.attributes?_eq] <;> rfl
  | cons a attributes ih =>
    have hr := (WrittenTag.mk name attributes space blank).isTagTail selfClosing more
    obtain ⟨value, after, hstep, hvalue, hafter⟩ := a.attributeStep_chars hr offset
    obtain ⟨found, hfound, hcontent⟩ := ih (offset + byteWidth a.chars)
    refine ⟨⟨String.ofList a.name, value⟩ :: found, ?_, ?_⟩
    · rw [tail_cons, List.append_assoc, Tag.attributes?_eq, hstep, Tag.AttributeStep.attributes?,
        Tag.attributes?_congr hafter, hfound, Option.map_some, byteWidth_append, Nat.add_assoc]
      rfl
    · rw [List.map_cons, List.map_cons, hcontent, TagAttribute.content, hvalue]
      rfl

/-! ## 4. Tags

A tag is its name and its attributes.  The name ends where the attributes begin, as they begin with
a blank, a slash or a `>`. -/

/-- **A tag is read as it is written**, whatever stands behind it. -/
theorem WrittenTag.parse?_chars (t : WrittenTag) (selfClosing : Bool) (offset : Nat)
    (more : List Char) :
    ∃ found, Tag.parse? ⟨offset, t.chars selfClosing ++ more⟩
        = some ⟨t.name.text, found, selfClosing,
            ⟨offset + byteWidth (t.chars selfClosing), more⟩⟩ ∧
      found.map TagAttribute.content = t.attributes.map WrittenAttribute.content := by
  obtain ⟨found, hfound, hcontent⟩ :=
    t.attributes?_tail selfClosing (offset + '<'.utf8Size + byteWidth t.name.chars) more
  refine ⟨found, ?_, hcontent⟩
  obtain ⟨x, r, hr, hx⟩ := (t.isTagTail selfClosing more).ends
  have hstop : Tag.isNameChar x = false := Tag.not_isNameChar_of_not hx
  have hstep : (⟨offset, t.chars selfClosing ++ more⟩ : Cursor).step
      = ⟨offset + '<'.utf8Size, t.name.chars ++ x :: r⟩ := by
    rw [← hr, ← List.append_assoc]
    rfl
  have hskip : (⟨offset + '<'.utf8Size, t.name.chars ++ x :: r⟩ : Cursor).skipWhile Tag.isNameChar
      = ⟨offset + '<'.utf8Size + byteWidth t.name.chars, x :: r⟩ := by
    rw [Cursor.skipWhile_append t.name.named, Cursor.skipWhile_of_not hstop]
  have hrun : (⟨offset + '<'.utf8Size, t.name.chars ++ x :: r⟩ : Cursor).run Tag.isNameChar
      = t.name.chars := by
    rw [Cursor.run, List.takeWhile_append_of_pos t.name.named,
      List.takeWhile_cons_of_neg (by simp [hstop]), List.append_nil]
  have hne : ¬ t.name.chars.isEmpty = true := by
    intro hempty
    have hletter := t.name.letter
    rw [List.isEmpty_iff.mp hempty] at hletter
    cases hletter
  simp only [Tag.parse?, hstep, hskip, hrun, if_neg hne]
  rw [← hr, hfound]
  simp only [Option.map_some, TagName.text, chars, List.cons_append, byteWidth_cons,
    byteWidth_append, Nat.add_assoc]

/-- The language that a tag declares is read from it. -/
theorem WrittenTag.attribute?_lang {t : WrittenTag} {found : List TagAttribute}
    (h : found.map TagAttribute.content = t.attributes.map WrittenAttribute.content)
    (selfClosing : Bool) (after : Cursor) :
    (Tag.mk t.name.text found selfClosing after).attribute? (Text.sameWord "lang")
      = t.declaredLanguage? := by
  have hread : (Tag.mk t.name.text found selfClosing after).attribute? (Text.sameWord "lang")
      = ((found.map TagAttribute.content).find? fun a => Text.sameWord "lang" a.1).map
          fun a => a.2.getD "" := by
    rw [List.find?_map, Option.map_map]
    rfl
  rw [hread, h, List.find?_map, Option.map_map]
  rfl

end ComponentHost
