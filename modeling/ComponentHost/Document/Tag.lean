/- # Opening tags

A tag is read from its `<` to its `>`.  Blanks separate attributes; a slash that does not end
the tag, and an equals sign without a name, are passed over.  A tag that never ends is no tag.

Every step leaves less text than it found, which is what the scanners of whole documents need
to come to an end (`length_after_lt`).
-/
import ComponentHost.Text.Cursor

namespace ComponentHost

/-! ## 1. Characters -/

namespace Tag

/-- Can the character stand in the name of a tag? -/
def isNameChar (c : Char) : Bool :=
  c.isAlphanum || c == '-' || c == '_' || c == ':' || c == '.'

/-- Does the character separate the parts of a tag? -/
def isSpace (c : Char) : Bool :=
  c == ' ' || c == '\t' || c == '\n' || c == '\r' || c.toNat == 0x0C

/-- Can the character stand in the name of an attribute? -/
def isAttributeChar (c : Char) : Bool := !(isSpace c || c == '=' || c == '>' || c == '/')

/-- Can the character stand in a value without quotes? -/
def isBareValueChar (c : Char) : Bool := !(isSpace c || c == '>')

end Tag

/-! ## 2. Attributes -/

/-- A stretch of a document and its text. -/
structure Excerpt where
  text : String
  start : Nat
  stop : Nat
deriving DecidableEq, Repr

/-- The stretch between two places. -/
def Excerpt.between (c later : Cursor) : Excerpt :=
  ⟨String.ofList (c.upTo later), c.offset, later.offset⟩

/-- An attribute of a tag; the value is what stands between the quotes. -/
structure TagAttribute where
  name : String
  value : Option Excerpt
deriving DecidableEq, Repr

namespace Tag

/-- A value in quotes, from its opening quote on; `none` if the quote never closes. -/
def quotedValue? (quote : Char) (c : Cursor) : Option (Excerpt × Cursor) :=
  let start := c.step
  let stop := start.skipWhile (· != quote)
  if stop.rest.isEmpty then none else some (.between start stop, stop.step)

/-- A value without quotes. -/
def bareValue (c : Cursor) : Excerpt × Cursor :=
  let stop := c.skipWhile isBareValueChar
  (.between c stop, stop)

/-- The value after the name of an attribute, if an equals sign announces one. -/
def attributeValue? (c : Cursor) : Option (Option Excerpt × Cursor) :=
  match c.rest with
  | '=' :: _ =>
    let c := c.step.skipWhile isSpace
    match c.rest with
    | '"' :: _ => (quotedValue? '"' c).map fun (v, c) => (some v, c)
    | '\'' :: _ => (quotedValue? '\'' c).map fun (v, c) => (some v, c)
    | _ =>
      let (v, c) := bareValue c
      some (some v, c)
  | _ => some (none, c)

theorem length_quotedValue?_le {quote : Char} {c c' : Cursor} {v : Excerpt}
    (h : quotedValue? quote c = some (v, c')) : c'.rest.length ≤ c.rest.length := by
  simp only [quotedValue?] at h
  split at h
  · cases h
  · cases h
    have h1 := Cursor.length_step_le (c.step.skipWhile (· != quote))
    have h2 := Cursor.length_skipWhile_le (· != quote) c.step
    have h3 := Cursor.length_step_le c
    omega

theorem length_attributeValue?_le {c c' : Cursor} {v : Option Excerpt}
    (h : attributeValue? c = some (v, c')) : c'.rest.length ≤ c.rest.length := by
  have hs := Cursor.length_step_le c
  have hw := Cursor.length_skipWhile_le isSpace c.step
  unfold attributeValue? at h
  split at h
  · simp only at h
    split at h
    · obtain ⟨⟨v', c''⟩, h1, h2⟩ := Option.map_eq_some_iff.mp h
      have hq := length_quotedValue?_le h1
      simp only [Prod.mk.injEq] at h2
      obtain ⟨-, rfl⟩ := h2
      omega
    · obtain ⟨⟨v', c''⟩, h1, h2⟩ := Option.map_eq_some_iff.mp h
      have hq := length_quotedValue?_le h1
      simp only [Prod.mk.injEq] at h2
      obtain ⟨-, rfl⟩ := h2
      omega
    · simp only [bareValue, Option.some.injEq, Prod.mk.injEq] at h
      obtain ⟨-, rfl⟩ := h
      have := Cursor.length_skipWhile_le isBareValueChar (c.step.skipWhile isSpace)
      omega
  · cases h
    exact Nat.le_refl _

/-- The attributes of a tag, whether it closes itself, and what follows it. -/
def attributes? (c : Cursor) : Option (List TagAttribute × Bool × Cursor) :=
  let here := c.skipWhile isSpace
  match _hr : here.rest with
  | [] => none
  | '>' :: _ => some ([], false, here.step)
  | '/' :: '>' :: _ => some ([], true, here.skip 2)
  | '/' :: _ => attributes? here.step
  | x :: _ =>
    if _hx : isAttributeChar x then
      let nameEnd := here.skipWhile isAttributeChar
      match _hv : attributeValue? (nameEnd.skipWhile isSpace) with
      | none => none
      | some (value, next) =>
        match attributes? next with
        | none => none
        | some (rest, selfClosing, after) =>
          some (⟨String.ofList (here.run isAttributeChar), value⟩ :: rest, selfClosing, after)
    else attributes? here.step
termination_by c.rest.length
decreasing_by
  · have h1 : here.rest.length ≤ c.rest.length := Cursor.length_skipWhile_le isSpace c
    have h2 : here.step.rest.length < here.rest.length := Cursor.length_step_lt (by simp [_hr])
    exact Nat.lt_of_lt_of_le h2 h1
  · have h1 : here.rest.length ≤ c.rest.length := Cursor.length_skipWhile_le isSpace c
    have h2 := length_attributeValue?_le _hv
    have h3 := Cursor.length_skipWhile_le isSpace nameEnd
    have h4 : nameEnd.rest.length < here.rest.length :=
      Cursor.length_skipWhile_lt (by rw [_hr]) _hx
    omega
  · have h1 : here.rest.length ≤ c.rest.length := Cursor.length_skipWhile_le isSpace c
    have h2 : here.step.rest.length < here.rest.length := Cursor.length_step_lt (by simp [_hr])
    exact Nat.lt_of_lt_of_le h2 h1

end Tag

/-! ## 3. Tags -/

/-- An opening tag. -/
structure Tag where
  name : String
  attributes : List TagAttribute
  selfClosing : Bool
  /-- What follows the tag. -/
  after : Cursor
deriving DecidableEq

namespace Tag

/-- The tag that starts at a `<`. -/
def parse? (c : Cursor) : Option Tag :=
  let start := c.step
  let name := start.run isNameChar
  if name.isEmpty then none
  else
    (attributes? (start.skipWhile isNameChar)).map fun (attributes, selfClosing, after) =>
      ⟨String.ofList name, attributes, selfClosing, after⟩

/-- The text of an attribute, by its name up to case; an attribute without a value is empty. -/
def attribute? (t : Tag) (matching : String → Bool) : Option String :=
  (t.attributes.find? fun a => matching a.name).map fun a => (a.value.map Excerpt.text).getD ""

theorem length_attributes?_lt {c c' : Cursor} {as : List TagAttribute} {s : Bool}
    (h : attributes? c = some (as, s, c')) : c'.rest.length < c.rest.length := by
  fun_induction attributes? c generalizing as s c'
  · cases h
  · rename_i c here _ hr
    cases h
    have h1 : here.rest.length ≤ c.rest.length := Cursor.length_skipWhile_le isSpace c
    exact Nat.lt_of_lt_of_le (Cursor.length_step_lt (by simp [hr])) h1
  · rename_i c here _ hr
    cases h
    have h1 : here.rest.length ≤ c.rest.length := Cursor.length_skipWhile_le isSpace c
    exact Nat.lt_of_lt_of_le (Cursor.length_skip_lt (by decide) (by simp [hr])) h1
  · rename_i c here _ _ _ ih
    have h1 : here.rest.length ≤ c.rest.length := Cursor.length_skipWhile_le isSpace c
    have h2 := Cursor.length_step_le here
    have h3 := ih h
    omega
  · cases h
  · cases h
  · rename_i c here _ _ _ _ _ _ _ nameEnd _ _ hv _ _ _ hrec ih
    cases h
    have h1 : here.rest.length ≤ c.rest.length := Cursor.length_skipWhile_le isSpace c
    have h2 := length_attributeValue?_le hv
    have h3 := Cursor.length_skipWhile_le isSpace nameEnd
    have h4 : nameEnd.rest.length ≤ here.rest.length := Cursor.length_skipWhile_le _ here
    have h5 := ih hrec
    omega
  · rename_i c here _ _ _ _ _ _ _ ih
    have h1 : here.rest.length ≤ c.rest.length := Cursor.length_skipWhile_le isSpace c
    have h2 := Cursor.length_step_le here
    have h3 := ih h
    omega

/-- Less text follows a tag than starts with it. -/
theorem length_after_lt {c : Cursor} {t : Tag} (h : parse? c = some t) :
    t.after.rest.length < c.rest.length := by
  unfold parse? at h
  simp only at h
  split at h
  · cases h
  · obtain ⟨⟨as, s, after⟩, h1, h2⟩ := Option.map_eq_some_iff.mp h
    have h3 := length_attributes?_lt h1
    have h4 := Cursor.length_skipWhile_le isNameChar c.step
    have h5 := Cursor.length_step_le c
    subst h2
    simp only
    omega

end Tag

end ComponentHost
