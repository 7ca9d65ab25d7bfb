/-
# One step of each scanner

The scanners of a document are loops, and their definitions carry the facts that make them end.
For reasoning about what they find, only one turn of the loop matters.  This file gives each
scanner its step: what it does at a place, as a value (`Tag.AttributeStep`, `Block.CloseStep`,
`Block.DirectiveStep`, `Block.ScanStep`).  The scanner is the step, repeated as long as it says to
go on (`Tag.attributes?_eq`, `Block.close?_eq`, `Block.directivesUpTo_eq`, `Block.scan?_eq`).

At a `<` there are few ways to go on (`Block.Onward`), and for each step one lemma names those it
takes (`Block.closeStep_next`, `Block.directiveStep_next`, `Block.scanStep_next`).  All of them
leave less to read.  So a property of a scanner follows from the same property of its step, by
induction on what is left (`Cursor.induction_on_rest`).
-/
import ComponentHost.Document.Blocks

namespace ComponentHost

/-- Induction on what is left to read. -/
theorem Cursor.induction_on_rest {P : Cursor → Prop}
    (step : ∀ c, (∀ d, d.rest.length < c.rest.length → P d) → P c) (c : Cursor) : P c := by
  induction hn : c.rest.length using Nat.strongRecOn generalizing c with
  | ind n ih =>
    subst hn
    exact step c fun d hd => ih _ hd d rfl

/-! ## 1. Attributes

A value after an equals sign may stand in either quote or in none, and the three readers of it
differ only in where they stop.  The step is given first for a place where no blank stands, as
blanks are skipped before anything is looked at. -/

namespace Tag

/-- The value that an equals sign announces, in quotes or without. -/
def announcedValue? (c : Cursor) : Option (Excerpt × Cursor) :=
  if c.starts ['"'] then quotedValue? '"' c
  else if c.starts ['\''] then quotedValue? '\'' c
  else some (bareValue c)

/-- An attribute has a value if an equals sign follows its name, with blanks or without. -/
theorem attributeValue?_eq (c : Cursor) :
    attributeValue? c = if c.starts ['='] then
        (announcedValue? (c.step.skipWhile isSpace)).map fun (v, d) => (some v, d)
      else some (none, c) := by
  unfold attributeValue?
  split
  · next r hr =>
    rw [if_pos (by simp [Cursor.starts, hr])]
    dsimp only
    unfold announcedValue?
    split
    · next hquote => rw [if_pos (by simp [Cursor.starts, hquote])]
    · next hquote =>
      rw [if_neg (by simp [Cursor.starts, hquote]), if_pos (by simp [Cursor.starts, hquote])]
    · next hdouble hsingle =>
      rw [if_neg, if_neg]
      · rfl
      · intro h
        obtain ⟨tail, htail⟩ := List.isPrefixOf_iff_prefix.mp h
        exact hsingle tail htail.symm
      · intro h
        obtain ⟨tail, htail⟩ := List.isPrefixOf_iff_prefix.mp h
        exact hdouble tail htail.symm
  · next hsign =>
    rw [if_neg]
    intro h
    obtain ⟨tail, htail⟩ := List.isPrefixOf_iff_prefix.mp h
    exact hsign tail htail.symm

/-- A value may be empty, so it need not leave less to read; the name before it does. -/
theorem length_announcedValue?_le {c d : Cursor} {v : Excerpt}
    (h : announcedValue? c = some (v, d)) : d.rest.length ≤ c.rest.length := by
  unfold announcedValue? at h
  split at h
  · exact length_quotedValue?_le h
  · split at h
    · exact length_quotedValue?_le h
    · cases h
      exact Cursor.length_skipWhile_le _ c

/-- What the reader of attributes does at a place. -/
inductive AttributeStep where
  /-- Something does not close. -/
  | fail
  /-- The tag ends. -/
  | done (selfClosing : Bool) (after : Cursor)
  /-- Reading goes on, with at most one attribute found. -/
  | next (found : List TagAttribute) (after : Cursor)

/-- The step of the reader of attributes where no blank stands.  A sign that neither ends the tag
nor starts a name is passed over. -/
def attributeAt (here : Cursor) : AttributeStep :=
  if here.rest = [] then .fail
  else if here.starts ['>'] then .done false here.step
  else if here.starts ['/', '>'] then .done true (here.skip 2)
  else if here.rest.head?.any isAttributeChar then
    match attributeValue? ((here.skipWhile isAttributeChar).skipWhile isSpace) with
    | none => .fail
    | some (value, after) => .next [⟨String.ofList (here.run isAttributeChar), value⟩] after
  else .next [] here.step

/-- The step of the reader of attributes. -/
def attributeStep (c : Cursor) : AttributeStep := attributeAt (c.skipWhile isSpace)

/-- The place where the step ends. -/
def AttributeStep.after? : AttributeStep → Option Cursor
  | .fail => none
  | .done _ after => some after
  | .next _ after => some after

/-- What the steps from a place on give together. -/
def AttributeStep.attributes? : AttributeStep → Option (List TagAttribute × Bool × Cursor)
  | .fail => none
  | .done selfClosing after => some ([], selfClosing, after)
  | .next found after => (Tag.attributes? after).map fun (others, selfClosing, after) =>
      (found ++ others, selfClosing, after)

/-- **The reader of attributes is its step, repeated.** -/
theorem attributes?_eq (c : Cursor) : attributes? c = (attributeStep c).attributes? := by
  have hpassed : ∀ d, attributes? d = (AttributeStep.next [] d).attributes? := by
    intro d
    rw [AttributeStep.attributes?]
    cases attributes? d <;> rfl
  rw [attributes?, attributeStep, attributeAt]
  split
  · next hr =>
    rw [if_pos hr]
    rfl
  · next r hr => simp [hr, Cursor.starts, AttributeStep.attributes?]
  · next r hr => simp [hr, Cursor.starts, AttributeStep.attributes?]
  · next r hnot hr =>
    -- a slash that does not end the tag starts no name
    have hself : ¬ (c.skipWhile isSpace).starts ['/', '>'] = true := by
      rw [Cursor.starts, hr]
      intro h
      obtain ⟨tail, htail⟩ := List.isPrefixOf_iff_prefix.mp h
      exact hnot tail (List.cons.inj htail).2.symm
    rw [if_neg (by simp [hr]), if_neg (by simp [hr, Cursor.starts]), if_neg hself,
      if_neg (by simp [hr, isAttributeChar])]
    exact hpassed _
  · next x r hangle hself hslash hr =>
    rw [if_neg (by simp [hr]), if_neg (by simp [hr, Cursor.starts, Ne.symm hangle]),
      if_neg (by simp [hr, Cursor.starts, Ne.symm hslash])]
    by_cases hx : isAttributeChar x = true
    · rw [dif_pos hx, if_pos (by simp [hr, hx])]
      dsimp only
      split
      · next hvalue =>
        rw [hvalue]
        rfl
      · next value after hvalue =>
        rw [hvalue]
        simp only [AttributeStep.attributes?]
        split
        · next hnone => rw [hnone]; rfl
        · next hsome => rw [hsome]; rfl
    · rw [dif_neg hx, if_neg (by simp [hr, hx])]
      exact hpassed _

/-- A step leaves less to read. -/
theorem length_attributeAt_lt {here d : Cursor} (h : (attributeAt here).after? = some d) :
    d.rest.length < here.rest.length := by
  unfold attributeAt at h
  split at h
  · cases h
  · next hr =>
    have hstep := Cursor.length_step_lt hr
    split at h
    · cases h
      exact hstep
    · split at h
      · cases h
        exact Cursor.length_skip_lt (by decide) hr
      · split at h
        · next hname =>
          obtain ⟨x, r, hx⟩ := List.exists_cons_of_ne_nil hr
          rw [hx] at hname
          have hrun := Cursor.length_skipWhile_lt (p := isAttributeChar) hx hname
          have hgap := Cursor.length_skipWhile_le isSpace (here.skipWhile isAttributeChar)
          split at h
          · cases h
          · next hvalue =>
            cases h
            have := length_attributeValue?_le hvalue
            omega
        · cases h
          exact hstep

theorem length_attributeStep_lt {c d : Cursor} {found : List TagAttribute}
    (h : attributeStep c = .next found d) : d.rest.length < c.rest.length := by
  have hafter : (attributeAt (c.skipWhile isSpace)).after? = some d := congrArg (·.after?) h
  exact Nat.lt_of_lt_of_le (length_attributeAt_lt hafter) (Cursor.length_skipWhile_le isSpace c)

end Tag

/-! ## 2. The end of a block

The search looks at one `<` after the other.  It keeps count of the open elements with the name of
the block, but only in markup: in any other block the first closing tag with the name ends it. -/

namespace Block

/-- The place behind what may be passed at a `<`: a comment, a tag, or only the sign. -/
inductive Onward (here : Cursor) : Cursor → Prop
  | comment {d : Cursor} (h : pastComment? here = some d) : Onward here d
  | tag {t : Tag} (h : Tag.parse? here = some t) : Onward here t.after
  | sign : Onward here here.step

/-- Whatever is passed, the `<` is. -/
theorem Onward.length_lt {here d : Cursor} (h : Onward here d) (hr : here.rest ≠ []) :
    d.rest.length < here.rest.length := by
  cases h with
  | comment h => exact length_pastComment?_lt h hr
  | tag h => exact Tag.length_after_lt h
  | sign => exact Cursor.length_step_lt hr

/-- What the search for a closing tag does at a place. -/
inductive CloseStep where
  /-- Something does not close. -/
  | fail
  /-- The closing tag starts here. -/
  | found (close : Cursor)
  /-- The search goes on, with the given number of elements open. -/
  | next (depth : Nat) (after : Cursor)
deriving DecidableEq

/-- The step of the search for a closing tag. -/
def closeStep (name : List Char) (kind : RegionKind) (depth : Nat) (c : Cursor) : CloseStep :=
  let here := nextAngle c
  if here.rest = [] then .fail
  else if kind = .markup ∧ here.starts commentOpen then
    match pastComment? here with
    | none => .fail
    | some after => .next depth after
  else if startsTag ('<' :: '/' :: name) here then
    match depth with
    | 0 => .found here
    | depth + 1 => .next depth (here.skip (name.length + 2))
  else if kind = .markup ∧ startsTag ('<' :: name) here then
    match Tag.parse? here with
    | none => .fail
    | some tag => .next (if tag.selfClosing then depth else depth + 1) tag.after
  else .next depth here.step

/-- **The search for a closing tag is its step, repeated**, with the count that the step leaves. -/
theorem close?_eq (name : List Char) (kind : RegionKind) (depth : Nat) (c : Cursor) :
    close? name kind depth c = match closeStep name kind depth c with
      | .fail => none
      | .found close => some close
      | .next depth after => close? name kind depth after := by
  cases depth <;>
  · conv => lhs; rw [close?]
    unfold closeStep
    dsimp only
    split
    · rfl
    · split
      · split
        · next hnone => rw [hnone]
        · next hsome => rw [hsome]
      · split
        · rfl
        · split
          · split
            · next hnone => rw [hnone]
            · next hsome => rw [hsome]
          · rfl

/-- Where the search goes on: behind what it passes, or behind the name of an inner closing tag. -/
theorem closeStep_next {name : List Char} {kind : RegionKind} {depth depth' : Nat} {c d : Cursor}
    (h : closeStep name kind depth c = .next depth' d) :
    (nextAngle c).rest ≠ [] ∧ (Onward (nextAngle c) d ∨
      startsTag ('<' :: '/' :: name) (nextAngle c) = true ∧
        d = (nextAngle c).skip (name.length + 2)) := by
  simp only [closeStep] at h
  split at h
  · cases h
  · next hr =>
    refine ⟨hr, ?_⟩
    split at h
    · split at h
      · cases h
      · next hnext =>
        cases h
        exact Or.inl (.comment hnext)
    · split at h
      · next hclosing =>
        split at h
        · cases h
        · cases h
          exact Or.inr ⟨hclosing, rfl⟩
      · split at h
        · split at h
          · cases h
          · next htag =>
            cases h
            exact Or.inl (.tag htag)
        · cases h
          exact Or.inl .sign

theorem length_closeStep_lt {name : List Char} {kind : RegionKind} {depth depth' : Nat}
    {c d : Cursor} (h : closeStep name kind depth c = .next depth' d) :
    d.rest.length < c.rest.length := by
  refine Nat.lt_of_lt_of_le ?_ (length_nextAngle_le c)
  obtain ⟨hr, honward | ⟨-, rfl⟩⟩ := closeStep_next h
  · exact honward.length_lt hr
  · exact Cursor.length_skip_lt (Nat.succ_pos _) hr

/-! ## 3. Directives

Directives are collected in the markup of a block, up to the place where its closing tag starts.  A
tag that goes beyond this place ends the collection, and is not looked at. -/

/-- What the collection of directives does at a place. -/
inductive DirectiveStep where
  /-- Nothing more is found. -/
  | done
  /-- The collection goes on behind a tag with the given directives, or behind what has none. -/
  | next (found : List Region) (after : Cursor)

/-- The step of the collection of directives. -/
def directiveStep (stop : Nat) (c : Cursor) : DirectiveStep :=
  let here := nextAngle c
  if here.rest = [] ∨ stop ≤ here.offset then .done
  else if here.starts commentOpen then
    match pastComment? here with
    | none => .done
    | some after => .next [] after
  else if letterFollows here then
    match Tag.parse? here with
    | none => .done
    | some tag => if stop < tag.after.offset then .done else .next (directivesOf tag) tag.after
  else .next [] here.step

/-- **The collection of directives is its step, repeated.** -/
theorem directivesUpTo_eq (stop : Nat) (c : Cursor) :
    directivesUpTo stop c = match directiveStep stop c with
      | .done => []
      | .next found after => found ++ directivesUpTo stop after := by
  conv => lhs; rw [directivesUpTo]
  unfold directiveStep
  dsimp only
  by_cases hr : (nextAngle c).rest = []
  · rw [dif_pos hr, if_pos (Or.inl hr)]
  · rw [dif_neg hr]
    by_cases hstop : stop ≤ (nextAngle c).offset
    · rw [if_pos hstop, if_pos (Or.inr hstop)]
    · rw [if_neg hstop, if_neg (not_or.mpr ⟨hr, hstop⟩)]
      split
      · split
        · next hnone => rw [hnone]
        · next hsome => rw [hsome]; rfl
      · split
        · split
          · next hnone => rw [hnone]
          · next hsome =>
            rw [hsome]
            dsimp only
            split <;> rfl
        · rfl

theorem directiveStep_next {stop : Nat} {found : List Region} {c d : Cursor}
    (h : directiveStep stop c = .next found d) :
    (nextAngle c).rest ≠ [] ∧ Onward (nextAngle c) d := by
  simp only [directiveStep] at h
  split at h
  · cases h
  · next hnot =>
    refine ⟨(not_or.mp hnot).1, ?_⟩
    split at h
    · split at h
      · cases h
      · next hnext =>
        cases h
        exact .comment hnext
    · split at h
      · split at h
        · cases h
        · next htag =>
          split at h
          · cases h
          · cases h
            exact .tag htag
      · cases h
        exact .sign

theorem length_directiveStep_lt {stop : Nat} {found : List Region} {c d : Cursor}
    (h : directiveStep stop c = .next found d) : d.rest.length < c.rest.length := by
  obtain ⟨hr, honward⟩ := directiveStep_next h
  exact Nat.lt_of_lt_of_le (honward.length_lt hr) (length_nextAngle_le c)

/-! ## 4. Blocks

The scan fails as a whole if one thing does not close, so its step can fail; and where the document
has no further `<`, it is done.  A tag that closes itself is no block and has no content to skip. -/

/-- What the scan of a document does at a place. -/
inductive ScanStep where
  /-- Something does not close. -/
  | fail
  /-- There is no further tag. -/
  | done
  /-- The scan goes on, behind the blocks that were found: none or one. -/
  | next (found : List Block) (after : Cursor)

/-- The step of the scan behind an opening tag. -/
def blockStep (tag : Tag) : ScanStep :=
  if tag.selfClosing then .next [] tag.after
  else
    match close? tag.name.toList (.ofTag tag.name) 0 tag.after with
    | none => .fail
    | some close =>
      if (close.skipWhile (· != '>')).rest = [] then .fail
      else .next [ofTag tag close] (close.skipWhile (· != '>')).step

/-- The step of the scan of a document. -/
def scanStep (c : Cursor) : ScanStep :=
  let here := nextAngle c
  if here.rest = [] then .done
  else if here.starts commentOpen then
    match pastComment? here with
    | none => .fail
    | some after => .next [] after
  else if letterFollows here then
    match Tag.parse? here with
    | none => .fail
    | some tag => blockStep tag
  else .next [] here.step

/-- **The scan of a document is its step, repeated.** -/
theorem scan?_eq (c : Cursor) :
    scan? c = match scanStep c with
      | .fail => none
      | .done => some []
      | .next found after => (scan? after).map (found ++ ·) := by
  have hpassed : ∀ d, scan? d = (scan? d).map ([] ++ ·) := by
    intro d
    cases scan? d <;> rfl
  conv => lhs; rw [scan?]
  unfold scanStep
  dsimp only
  split
  · rfl
  · split
    · split
      · next hnone => rw [hnone]
      · next hsome =>
        rw [hsome]
        exact hpassed _
    · split
      · split
        · next hnone => rw [hnone]
        · next tag hsome =>
          rw [hsome]
          unfold blockStep
          dsimp only
          split
          · exact hpassed _
          · split
            · next hnone => rw [hnone]
            · next hclose =>
              rw [hclose]
              simp only [List.isEmpty_iff]
              split <;> rfl
      · exact hpassed _

/-- Where the scan goes on behind a tag: right there, or behind the closing tag of its block. -/
theorem blockStep_next {tag : Tag} {found : List Block} {d : Cursor}
    (h : blockStep tag = .next found d) :
    d = tag.after ∨ ∃ close, close? tag.name.toList (.ofTag tag.name) 0 tag.after = some close ∧
      (close.skipWhile (· != '>')).rest ≠ [] ∧ d = (close.skipWhile (· != '>')).step := by
  unfold blockStep at h
  split at h
  · cases h
    exact Or.inl rfl
  · split at h
    · cases h
    · next close hclose =>
      split at h
      · cases h
      · next hends =>
        cases h
        exact Or.inr ⟨close, hclose, hends, rfl⟩

/-- Where the scan goes on: behind what it passes, or behind a tag, where the tag decides. -/
theorem scanStep_next {found : List Block} {c d : Cursor} (h : scanStep c = .next found d) :
    (nextAngle c).rest ≠ [] ∧ (Onward (nextAngle c) d ∨
      ∃ tag, Tag.parse? (nextAngle c) = some tag ∧ blockStep tag = .next found d) := by
  simp only [scanStep] at h
  split at h
  · cases h
  · next hr =>
    refine ⟨hr, ?_⟩
    split at h
    · split at h
      · cases h
      · next hnext =>
        cases h
        exact Or.inl (.comment hnext)
    · split at h
      · split at h
        · cases h
        · next tag htag => exact Or.inr ⟨tag, htag, h⟩
      · cases h
        exact Or.inl .sign

theorem length_scanStep_lt {found : List Block} {c d : Cursor}
    (h : scanStep c = .next found d) : d.rest.length < c.rest.length := by
  refine Nat.lt_of_lt_of_le ?_ (length_nextAngle_le c)
  obtain ⟨hr, honward | ⟨tag, htag, hblock⟩⟩ := scanStep_next h
  · exact honward.length_lt hr
  · have hafter := Tag.length_after_lt htag
    rcases blockStep_next hblock with rfl | ⟨close, hclose, -, rfl⟩
    · exact hafter
    · have h1 := length_close?_le hclose
      have h2 := Cursor.length_skipWhile_le (· != '>') close
      have h3 := Cursor.length_step_le (close.skipWhile (· != '>'))
      omega

end Block

end ComponentHost
