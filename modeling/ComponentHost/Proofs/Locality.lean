/-
# What follows a tag does not matter

A reader of a tag or of a comment stops where the tag or the comment ends.  What it finds is
decided by what it has read: other text behind that place gives the same findings.  This file says
so in one form for every reader.

`c.extend more` is the place `c` of a text that has `more` behind it.  A reader that is started
at `c.extend more` may run into `more`; if it does not, it could have been started with any other
text there.  So each statement has the same shape: if the reader succeeds with one `more`, and
ends before it, then it succeeds with every other, and what it gives is the same, extended
(`Tag.parse?_local`, `Block.pastComment?_local`).  With `more = []` this says that text may be
added behind a document, and with the roles exchanged that it may be taken away.
-/
import ComponentHost.Proofs.ScanSteps
import ComponentHost.Proofs.Places

namespace ComponentHost

/-! ## 1. Places with more text behind them

Places and single readers of characters first.  A step needs a character to step over, a look at a
word needs as many characters as the word has, and skipping needs a character to stop at.  As long
as these stand in the text, what is behind it is not looked at. -/

namespace Cursor

/-- The place, with more text behind what is left to read. -/
def extend (more : List Char) (c : Cursor) : Cursor := ⟨c.offset, c.rest ++ more⟩

@[simp] theorem offset_extend (more : List Char) (c : Cursor) :
    (c.extend more).offset = c.offset := rfl

@[simp] theorem rest_extend (more : List Char) (c : Cursor) :
    (c.extend more).rest = c.rest ++ more := rfl

@[simp] theorem extend_nil (c : Cursor) : c.extend [] = c := by
  rw [extend, List.append_nil]

variable {c : Cursor} {p : Char → Bool}

theorem step_extend (more : List Char) (h : c.rest ≠ []) :
    (c.extend more).step = c.step.extend more := by
  obtain ⟨x, r, hx⟩ := List.exists_cons_of_ne_nil h
  simp only [step, rest_extend, hx, List.cons_append]
  rfl

/-- So many steps, if there are so many characters. -/
theorem skip_extend (more : List Char) {n : Nat} (h : n ≤ c.rest.length) :
    (c.extend more).skip n = (c.skip n).extend more := by
  induction n generalizing c with
  | zero => rfl
  | succ n ih =>
    obtain ⟨x, r, hx⟩ := List.exists_cons_of_length_pos (Nat.lt_of_lt_of_le (Nat.succ_pos n) h)
    have hstep : c.step.rest = r := (List.cons.inj ((passes_step hx).rest.symm.trans hx)).2
    have hlength : n ≤ c.step.rest.length := by
      rw [hx] at h
      rw [hstep]
      exact Nat.le_of_succ_le_succ h
    rw [skip, step_extend more (by simp [hx]), ih hlength, skip]

/-- Skipping that ends inside the text passes the same characters whatever follows. -/
theorem skipWhile_extend (more : List Char) (h : (c.skipWhile p).rest ≠ []) :
    (c.extend more).skipWhile p = (c.skipWhile p).extend more ∧
      (c.extend more).run p = c.run p := by
  have hsplit : c.rest = c.run p ++ (c.skipWhile p).rest := (passes_skipWhile p c).rest
  obtain ⟨x, r, hx⟩ := List.exists_cons_of_ne_nil h
  have hstop := not_of_skipWhile hx
  have hrun : (c.extend more).run p = c.run p := by
    rw [run, rest_extend, hsplit, hx, List.append_assoc, List.cons_append,
      List.takeWhile_append_of_pos (all_run p c), List.takeWhile_cons_of_neg (by simp [hstop]),
      List.append_nil]
  refine ⟨?_, hrun⟩
  have hrest : ((c.extend more).skipWhile p).rest = (c.skipWhile p).rest ++ more := by
    have := (passes_skipWhile p (c.extend more)).rest
    rw [hrun, rest_extend, hsplit, List.append_assoc] at this
    exact (List.append_cancel_left this).symm
  have hoffset : ((c.extend more).skipWhile p).offset = (c.skipWhile p).offset :=
    congrArg (fun run => c.offset + byteWidth run) hrun
  rw [extend.eq_def more (c.skipWhile p), ← hrest, ← hoffset]

/-- Skipping that ends before the added text ends inside the text. -/
theorem rest_skipWhile_of_lt {more : List Char}
    (h : more.length < ((c.extend more).skipWhile p).rest.length) : (c.skipWhile p).rest ≠ [] := by
  intro hnil
  have hall : ∀ x ∈ c.rest, p x = true := by
    have hsplit : c.rest = c.run p ++ (c.skipWhile p).rest := (passes_skipWhile p c).rest
    rw [hnil, List.append_nil] at hsplit
    rw [hsplit]
    exact all_run p c
  have hle : (more.dropWhile p).length ≤ more.length := (List.dropWhile_suffix p).length_le
  rw [skipWhile, rest_extend, List.dropWhile_append_of_pos hall] at h
  exact Nat.not_lt_of_le hle h

theorem upTo_extend (more : List Char) (c later : Cursor) :
    (c.extend more).upTo (later.extend more) = c.upTo later := by
  simp only [upTo, rest_extend, List.length_append, Nat.add_sub_add_right]
  exact List.take_append_of_le_length (Nat.sub_le _ _)

/-- A word that is not longer than what is left is found or not whatever follows. -/
theorem starts_extend (more : List Char) {word : List Char} (h : word.length ≤ c.rest.length) :
    (c.extend more).starts word = c.starts word := by
  rw [Bool.eq_iff_iff, starts, starts, List.isPrefixOf_iff_prefix, List.isPrefixOf_iff_prefix,
    rest_extend]
  exact ⟨fun hprefix => List.prefix_of_prefix_length_le hprefix (List.prefix_append _ _) h,
    fun hprefix => hprefix.trans (List.prefix_append _ _)⟩

/-- A word that ends before the added text is found in every longer text.  The condition on its end
excludes the one case in which the comparison with the word would cross the seam. -/
theorem findPast_local {word : List Char} (hword : word ≠ []) {offset : Nat} {cs more : List Char}
    {d : Cursor} (h : findPast word offset (cs ++ more) = some d)
    (hd : more.length ≤ d.rest.length) :
    ∃ e : Cursor, ∀ more', findPast word offset (cs ++ more') = some (e.extend more') := by
  induction cs generalizing offset with
  | nil =>
    -- a word that is not empty and starts in the added text does not end before it
    obtain ⟨before, hbefore⟩ := findPast_spec h
    have hlength := congrArg List.length hbefore.rest
    have hpos := List.length_pos_iff.mpr hword
    simp only [List.nil_append, List.length_append] at hlength
    omega
  | cons x r ih =>
    rw [List.cons_append, findPast] at h
    split at h
    · next hprefix =>
      cases h
      have hlength : word.length ≤ (x :: r).length := by
        have := (List.isPrefixOf_iff_prefix.mp hprefix).length_le
        simp only [List.length_drop, List.length_cons, List.length_append] at hd this ⊢
        omega
      refine ⟨⟨offset + byteWidth word, (x :: r).drop word.length⟩, fun more' => ?_⟩
      have hprefix' : word.isPrefixOf (x :: (r ++ more')) = true := by
        have h₁ := starts_extend (c := ⟨offset, x :: r⟩) more hlength
        have h₂ := starts_extend (c := ⟨offset, x :: r⟩) more' hlength
        exact (h₂.trans h₁.symm).trans hprefix
      rw [List.cons_append, findPast, if_pos hprefix', extend]
      exact congrArg (fun r => some (Cursor.mk _ r)) (List.drop_append_of_le_length hlength)
    · next hprefix =>
      obtain ⟨e, he⟩ := ih h
      refine ⟨e, fun more' => ?_⟩
      -- the word is found further on without any added text, so it is not longer than the text
      have hlength : word.length ≤ (x :: r).length := by
        obtain ⟨before, hbefore⟩ := findPast_spec (he [])
        have := congrArg List.length hbefore.rest
        simp only [List.append_nil, List.length_append, List.length_cons] at this ⊢
        omega
      have hprefix' : ¬ word.isPrefixOf (x :: (r ++ more')) = true := by
        have h₁ := starts_extend (c := ⟨offset, x :: r⟩) more hlength
        have h₂ := starts_extend (c := ⟨offset, x :: r⟩) more' hlength
        exact fun htrue => hprefix ((h₁.trans h₂.symm).trans htrue)
      rw [List.cons_append, findPast, if_neg hprefix']
      exact he more'

end Cursor

/-! ## 2. Tags

A reader of a tag fails if the text ends too soon, and may then succeed with more text.  Therefore
the hypothesis is not that it succeeds with nothing behind the text, but that it succeeds with SOME
continuation and ends before that.  For a value without quotes it must even leave a character of the
text unread, since it would go on into the continuation otherwise. -/

namespace Tag

/-- A value in quotes has its closing quote to stop at, which may be the last character of the text.
-/
theorem quotedValue?_local {quote : Char} {c d : Cursor} {more : List Char} {v : Excerpt}
    (hc : c.rest ≠ []) (h : quotedValue? quote (c.extend more) = some (v, d))
    (hd : more.length ≤ d.rest.length) :
    ∃ e : Cursor, ∀ more', quotedValue? quote (c.extend more') = some (v, e.extend more') := by
  simp only [quotedValue?, Cursor.step_extend _ hc] at h ⊢
  split at h
  · cases h
  · next hne =>
    cases h
    have hstop : (c.step.skipWhile (· != quote)).rest ≠ [] := by
      refine Cursor.rest_skipWhile_of_lt (Nat.lt_of_le_of_lt hd (Cursor.length_step_lt ?_))
      exact fun hnil => hne (List.isEmpty_iff.mpr hnil)
    refine ⟨(c.step.skipWhile (· != quote)).step, fun more' => ?_⟩
    have hsame := fun more => (Cursor.skipWhile_extend more hstop).1
    rw [hsame, hsame, if_neg (by simp [hstop]), Cursor.step_extend _ hstop]
    simp only [Excerpt.between, Cursor.upTo_extend, Cursor.offset_extend]

/-- A bare value is ended by the character behind it. -/
theorem announcedValue?_local {c d : Cursor} {more : List Char} {v : Excerpt} (hc : c.rest ≠ [])
    (h : announcedValue? (c.extend more) = some (v, d)) (hd : more.length < d.rest.length) :
    ∃ e : Cursor, ∀ more', announcedValue? (c.extend more') = some (v, e.extend more') := by
  have hquote : ∀ quote more', (c.extend more').starts [quote] = c.starts [quote] :=
    fun quote more' => Cursor.starts_extend more' (List.length_pos_iff.mpr hc)
  simp only [announcedValue?, hquote] at h ⊢
  by_cases hdouble : c.starts ['"'] = true
  · simp only [if_pos hdouble] at h ⊢
    exact quotedValue?_local hc h (Nat.le_of_lt hd)
  · by_cases hsingle : c.starts ['\''] = true
    · simp only [if_neg hdouble, if_pos hsingle] at h ⊢
      exact quotedValue?_local hc h (Nat.le_of_lt hd)
    · simp only [if_neg hdouble, if_neg hsingle] at h ⊢
      cases h
      have hstop := Cursor.rest_skipWhile_of_lt hd
      have hsame := fun more' => (Cursor.skipWhile_extend more' hstop).1
      refine ⟨c.skipWhile isBareValueChar, fun more' => ?_⟩
      simp only [bareValue, hsame, Excerpt.between, Cursor.upTo_extend, Cursor.offset_extend]

/-- Behind the name of an attribute a sign or the next attribute is seen. -/
theorem attributeValue?_local {c d : Cursor} {more : List Char} {v : Option Excerpt}
    (h : attributeValue? (c.extend more) = some (v, d)) (hd : more.length < d.rest.length) :
    ∃ e : Cursor, ∀ more', attributeValue? (c.extend more') = some (v, e.extend more') := by
  have hc : c.rest ≠ [] := by
    intro hnil
    have hlength := length_attributeValue?_le h
    rw [Cursor.rest_extend, hnil, List.nil_append] at hlength
    omega
  have hsign : ∀ more', (c.extend more').starts ['='] = c.starts ['='] :=
    fun more' => Cursor.starts_extend more' (List.length_pos_iff.mpr hc)
  simp only [attributeValue?_eq, hsign, Cursor.step_extend _ hc] at h ⊢
  by_cases hvalued : c.starts ['='] = true
  · simp only [if_pos hvalued] at h ⊢
    obtain ⟨⟨v', d'⟩, hvalue, heq⟩ := Option.map_eq_some_iff.mp h
    obtain ⟨rfl, rfl⟩ := Prod.mk.inj heq
    -- the value starts before the added text, because it ends there
    have hstart := Cursor.rest_skipWhile_of_lt
      (Nat.lt_of_lt_of_le hd (length_announcedValue?_le hvalue))
    have hsame := fun more' => (Cursor.skipWhile_extend more' hstart).1
    rw [hsame] at hvalue
    obtain ⟨e, he⟩ := announcedValue?_local hstart hvalue hd
    refine ⟨e, fun more' => ?_⟩
    rw [hsame, he]
    rfl
  · simp only [if_neg hvalued] at h ⊢
    cases h
    exact ⟨c, fun _ => rfl⟩

/-- The step, with more text behind the tag. -/
def AttributeStep.extend (more : List Char) : AttributeStep → AttributeStep
  | .fail => .fail
  | .done selfClosing after => .done selfClosing (after.extend more)
  | .next found after => .next found (after.extend more)

/-- The step ends before the last `n` characters; one that goes on leaves some character before
them to be read. -/
def AttributeStep.EndsBefore (n : Nat) : AttributeStep → Prop
  | .fail => False
  | .done _ after => n ≤ after.rest.length
  | .next _ after => n < after.rest.length

/-- A step that ends before the last characters has a place behind it. -/
theorem AttributeStep.EndsBefore.exists_after {n : Nat} {s : AttributeStep} (h : s.EndsBefore n) :
    ∃ d, s.after? = some d ∧ n ≤ d.rest.length := by
  cases s with
  | fail => exact h.elim
  | done selfClosing after => exact ⟨after, rfl, h⟩
  | next found after => exact ⟨after, rfl, Nat.le_of_lt h⟩

/-- Whether a tag closes itself is decided before the added text, unless that is where the step
ends.  The only doubt is a slash as the last character of the text, with a `>` or something else
behind it; but then the step does not end before the added text. -/
theorem starts_selfClosing_extend {c : Cursor} {more : List Char} (hc : c.rest ≠ [])
    (h : (attributeAt (c.extend more)).EndsBefore more.length) (more' : List Char) :
    (c.extend more').starts ['/', '>'] = c.starts ['/', '>'] := by
  obtain ⟨x, r, hx⟩ := List.exists_cons_of_ne_nil hc
  rcases r with _ | ⟨y, r⟩
  · by_cases hslash : x = '/'
    · -- a slash at the seam: the step ends in the added text, or right before it and goes on
      subst hslash
      exfalso
      have hstep : (c.extend more).step.rest = more := by
        rw [Cursor.step_extend more hc, Cursor.rest_extend, Cursor.step, hx]
        rfl
      rw [attributeAt, if_neg (by simp [hx]), if_neg (by simp [Cursor.starts, hx])] at h
      split at h
      · next hself =>
        have hne : (c.extend more).step.rest ≠ [] := by
          rw [hstep]
          rintro rfl
          simp [Cursor.starts, hx] at hself
        have hlt := Cursor.length_step_lt hne
        rw [hstep] at hlt
        exact Nat.not_lt_of_le h hlt
      · rw [if_neg (by simp [hx, isAttributeChar])] at h
        exact absurd h (by simp [AttributeStep.EndsBefore, hstep])
    · simp [Cursor.starts, hx, List.isPrefixOf, Ne.symm hslash]
  · exact Cursor.starts_extend more' (by simp [hx])

/-- One attribute, or the end of the tag, or a sign that is passed over. -/
theorem attributeAt_local {c : Cursor} {more : List Char} (hc : c.rest ≠ [])
    (h : (attributeAt (c.extend more)).EndsBefore more.length) :
    ∃ s : AttributeStep, ∀ more', attributeAt (c.extend more') = s.extend more' := by
  have hangle : ∀ more', (c.extend more').starts ['>'] = c.starts ['>'] := fun more' =>
    Cursor.starts_extend more' (List.length_pos_iff.mpr hc)
  have hself := starts_selfClosing_extend hc h
  have hhead : ∀ more', (c.rest ++ more').head? = c.rest.head? := by
    obtain ⟨x, r, hx⟩ := List.exists_cons_of_ne_nil hc
    intro more'
    rw [hx]
    rfl
  have hnil : ∀ more', ¬ c.rest ++ more' = [] := fun more' => by simp [hc]
  simp only [attributeAt, Cursor.rest_extend, hnil, hangle, hself, hhead, if_false] at h ⊢
  -- the ways that a step can go, each of them seen in the text
  by_cases hends : c.starts ['>'] = true
  · exact ⟨.done false c.step, fun more' => by
      rw [if_pos hends, Cursor.step_extend more' hc]
      rfl⟩
  simp only [if_neg hends] at h ⊢
  by_cases hcloses : c.starts ['/', '>'] = true
  · have hlength : 2 ≤ c.rest.length := (List.isPrefixOf_iff_prefix.mp hcloses).length_le
    exact ⟨.done true (c.skip 2), fun more' => by
      rw [if_pos hcloses, Cursor.skip_extend more' hlength]
      rfl⟩
  simp only [if_neg hcloses] at h ⊢
  by_cases hname : c.rest.head?.any isAttributeChar = true
  · simp only [if_pos hname] at h ⊢
    split at h
    · exact h.elim
    · next value after hvalue =>
      -- the value ends before the added text, so the name and the blanks behind it do too
      have hgap := Nat.lt_of_lt_of_le h (length_attributeValue?_le hvalue)
      have hrun := Cursor.rest_skipWhile_of_lt
        (Nat.lt_of_lt_of_le hgap (Cursor.length_skipWhile_le isSpace _))
      have hsame := fun more' => Cursor.skipWhile_extend more' hrun
      rw [(hsame more).1] at hgap hvalue
      have hgap := Cursor.rest_skipWhile_of_lt hgap
      have hsame' := fun more' => (Cursor.skipWhile_extend more' hgap).1
      rw [hsame'] at hvalue
      obtain ⟨e, he⟩ := attributeValue?_local hvalue h
      refine ⟨.next [⟨String.ofList (c.run isAttributeChar), value⟩] e, fun more' => ?_⟩
      rw [(hsame more').1, (hsame more').2, hsame', he]
      rfl
  · exact ⟨.next [] c.step, fun more' => by
      rw [if_neg hname, Cursor.step_extend more' hc]
      rfl⟩

/-- Blanks before an attribute are skipped, and there is a character behind them. -/
theorem attributeStep_local {c : Cursor} {more : List Char}
    (h : (attributeStep (c.extend more)).EndsBefore more.length) :
    ∃ s : AttributeStep, ∀ more', attributeStep (c.extend more') = s.extend more' := by
  unfold attributeStep at h ⊢
  obtain ⟨d, hd, hle⟩ := h.exists_after
  have hhere := Cursor.rest_skipWhile_of_lt (Nat.lt_of_le_of_lt hle (length_attributeAt_lt hd))
  have hsame := fun more' => (Cursor.skipWhile_extend more' hhere).1
  simp only [hsame] at h ⊢
  exact attributeAt_local hhere h

/-- **The attributes of a tag.**  By induction on what is left: each step ends before the added text
because the last one does. -/
theorem attributes?_local {c d : Cursor} {more : List Char} {as : List TagAttribute}
    {selfClosing : Bool} (h : attributes? (c.extend more) = some (as, selfClosing, d))
    (hd : more.length ≤ d.rest.length) :
    ∃ e : Cursor, ∀ more',
      attributes? (c.extend more') = some (as, selfClosing, e.extend more') := by
  induction c using Cursor.induction_on_rest generalizing as with
  | step c ih =>
    rw [attributes?_eq] at h
    have hends : (attributeStep (c.extend more)).EndsBefore more.length := by
      cases hs : attributeStep (c.extend more) with
      | fail =>
        rw [hs] at h
        cases h
      | done selfClosing after =>
        rw [hs] at h
        cases h
        exact hd
      | next found after =>
        rw [hs] at h
        obtain ⟨⟨others, closing, d'⟩, hothers, heq⟩ := Option.map_eq_some_iff.mp h
        cases heq
        exact Nat.lt_of_le_of_lt hd (length_attributes?_lt hothers)
    obtain ⟨s, hs⟩ := attributeStep_local hends
    simp only [attributes?_eq, hs] at h ⊢
    cases s with
    | fail => cases h
    | done selfClosing after =>
      cases h
      exact ⟨after, fun _ => rfl⟩
    | next found after =>
      obtain ⟨⟨others, closing, d'⟩, hothers, heq⟩ := Option.map_eq_some_iff.mp h
      cases heq
      have hlt : after.rest.length < c.rest.length := by
        simpa using length_attributeStep_lt (hs [])
      obtain ⟨e, he⟩ := ih after hlt hothers
      exact ⟨e, fun more' => by
        rw [AttributeStep.extend, AttributeStep.attributes?, he]
        rfl⟩

/-- The tag, with more text behind it. -/
def extend (more : List Char) (t : Tag) : Tag := { t with after := t.after.extend more }

/-- **A tag that ends before the added text is read in every longer text.** -/
theorem parse?_local {c : Cursor} {more : List Char} {t : Tag} (hc : c.rest ≠ [])
    (h : parse? (c.extend more) = some t) (ht : more.length ≤ t.after.rest.length) :
    ∃ u : Tag, ∀ more', parse? (c.extend more') = some (u.extend more') := by
  simp only [parse?, Cursor.step_extend _ hc] at h ⊢
  split at h
  · cases h
  · next hne =>
    obtain ⟨⟨as, selfClosing, after⟩, hattributes, rfl⟩ := Option.map_eq_some_iff.mp h
    have hname := Cursor.rest_skipWhile_of_lt
      (Nat.lt_of_le_of_lt ht (length_attributes?_lt hattributes))
    have hsame := fun more' => Cursor.skipWhile_extend more' hname
    rw [(hsame more).1] at hattributes
    rw [(hsame more).2] at hne
    obtain ⟨e, he⟩ := attributes?_local hattributes ht
    refine ⟨⟨String.ofList (c.step.run isNameChar), as, selfClosing, e⟩, fun more' => ?_⟩
    rw [(hsame more').1, (hsame more').2, if_neg hne, he]
    rfl

@[simp] theorem name_extend (more : List Char) (t : Tag) : (t.extend more).name = t.name := rfl

@[simp] theorem selfClosing_extend (more : List Char) (t : Tag) :
    (t.extend more).selfClosing = t.selfClosing := rfl

@[simp] theorem after_extend (more : List Char) (t : Tag) :
    (t.extend more).after = t.after.extend more := rfl

@[simp] theorem extend_nil (t : Tag) : t.extend [] = t := by
  rw [extend, Cursor.extend_nil]

/-- Text may be added behind a tag. -/
theorem parse?_extend (more : List Char) {c : Cursor} {t : Tag} (hc : c.rest ≠ [])
    (h : parse? c = some t) : parse? (c.extend more) = some (t.extend more) := by
  rw [← c.extend_nil] at h
  obtain ⟨u, hu⟩ := parse?_local hc h (Nat.zero_le _)
  obtain rfl : t = u := by
    rw [hu, extend_nil] at h
    exact (Option.some.inj h).symm
  exact hu more

/-- A tag that only the added text completes ends inside of it. -/
theorem length_after_lt_of_none {c : Cursor} {more : List Char} {t : Tag} (hc : c.rest ≠ [])
    (hnone : parse? c = none) (h : parse? (c.extend more) = some t) :
    t.after.rest.length < more.length := by
  refine Nat.lt_of_not_le fun hle => ?_
  obtain ⟨u, hu⟩ := parse?_local hc h hle
  have := hu []
  rw [Cursor.extend_nil, hnone] at this
  cases this

end Tag

/-! ## 3. Comments

A comment is passed by searching its closing sign, so it is local as the search for a word is. -/

namespace Block

/-- **A comment that ends before the added text is passed in every longer text.** -/
theorem pastComment?_local {c d : Cursor} {more : List Char} (hc : c.starts commentOpen = true)
    (h : pastComment? (c.extend more) = some d) (hd : more.length ≤ d.rest.length) :
    ∃ e : Cursor, ∀ more', pastComment? (c.extend more') = some (e.extend more') := by
  have hlength : 4 ≤ c.rest.length := (List.isPrefixOf_iff_prefix.mp hc).length_le
  simp only [pastComment?, Cursor.skip_extend _ hlength] at h ⊢
  exact Cursor.findPast_local (by decide) h hd

/-- Text may be added behind a comment. -/
theorem pastComment?_extend (more : List Char) {c d : Cursor} (hc : c.starts commentOpen = true)
    (h : pastComment? c = some d) : pastComment? (c.extend more) = some (d.extend more) := by
  rw [← c.extend_nil] at h
  obtain ⟨e, he⟩ := pastComment?_local hc h (Nat.zero_le _)
  obtain rfl : d = e := by
    rw [he, Cursor.extend_nil] at h
    exact (Option.some.inj h).symm
  exact he more

/-- A comment that only the added text completes ends inside of it. -/
theorem length_lt_of_pastComment?_none {c d : Cursor} {more : List Char}
    (hc : c.starts commentOpen = true) (hnone : pastComment? c = none)
    (h : pastComment? (c.extend more) = some d) : d.rest.length < more.length := by
  refine Nat.lt_of_not_le fun hle => ?_
  obtain ⟨e, he⟩ := pastComment?_local hc h hle
  have := he []
  rw [Cursor.extend_nil, hnone] at this
  cases this

end Block

end ComponentHost
