/-
# Values in quotes

Inside a tag, a value in quotes is opaque: the reader looks only for its closing quote.  So the
value may be exchanged for any other without that quote, and the tag goes on as it did.

The reader comes to a value step by step (`Tag.ValueAt`).  What it has read up to the opening quote
does not depend on what follows (`Tag.ValueAt.local`), and how it goes on behind the closing quote
depends only on what stands there (`Tag.ValueAt.attributes?_eq`).  Together: whether a tag closes
itself, and where it ends, is found from the closing quote on (`Tag.CutAt.parse?_eq`).

The argument is about one value in the middle of a tag, and the tag is CUT there: behind the opening
quote of the value.  Before the cut stands text that is kept; behind it the value, the closing quote
and the rest, which may all be exchanged.  So three things are shown in turn: that the reader does
come to the place of the quote, that it comes there whatever stands behind the cut, and that nothing
of what it has read by then decides how the tag ends.
-/
import ComponentHost.Proofs.DirectiveRegions
import ComponentHost.Proofs.Shifting
import ComponentHost.Proofs.WrittenTags

namespace ComponentHost

namespace Tag

/-! ## 1. On the way to a value

A value belongs to an attribute, and attributes are read one after another.  `ValueAt` follows the
reader from attribute to attribute up to a value, and is an induction principle for all that is said
about the way to it. -/

/-- The place behind the next name, where an equals sign announces a value. -/
def behindName (c : Cursor) : Cursor :=
  ((c.skipWhile isSpace).skipWhile isAttributeChar).skipWhile isSpace

/-- The reader of attributes that starts at the first place comes to a value at the second. -/
inductive ValueAt : Cursor → Cursor → Prop
  /-- The value of the next attribute. -/
  | here {c : Cursor} (named : (c.skipWhile isSpace).rest.head?.any isAttributeChar = true)
      (sign : (behindName c).starts ['='] = true) :
      ValueAt c ((behindName c).step.skipWhile isSpace)
  /-- The value of a later attribute. -/
  | later {c d o : Cursor} {found : List TagAttribute} (step : attributeStep c = .next found d)
      (rest : ValueAt d o) : ValueAt c o

variable {c d o : Cursor}

theorem reaches_behindName (c : Cursor) : c.Reaches (behindName c) :=
  (Cursor.reaches_skipWhile _ c).trans
    ((Cursor.reaches_skipWhile _ _).trans (Cursor.reaches_skipWhile _ _))

/-- An equals sign and blanks stand before a value. -/
theorem ValueAt.passes (h : ValueAt c o) :
    ∃ run blanks, c.Passes (run ++ '=' :: blanks) o ∧ ∀ x ∈ blanks, isSpace x = true := by
  induction h with
  | @here c named sign =>
    obtain ⟨run, hrun⟩ := reaches_behindName c
    obtain ⟨r, hr⟩ : ∃ r, (behindName c).rest = '=' :: r := by
      obtain ⟨r, hr⟩ := List.isPrefixOf_iff_prefix.mp sign
      exact ⟨r, hr.symm⟩
    refine ⟨run, _, hrun.trans ((Cursor.passes_step hr).trans (Cursor.passes_skipWhile isSpace _)),
      Cursor.all_run isSpace _⟩
  | @later c d o found step rest ih =>
    obtain ⟨run, blanks, hpasses, hblanks⟩ := ih
    obtain ⟨⟨before, hbefore⟩, -⟩ := attributeStep_next step
    refine ⟨before ++ run, blanks, ?_, hblanks⟩
    rw [List.append_assoc]
    exact hbefore.trans hpasses

theorem ValueAt.reaches (h : ValueAt c o) : c.Reaches o := by
  obtain ⟨run, blanks, hpasses, -⟩ := h.passes
  exact hpasses.reaches

/-- At a name the step looks for a value behind it. -/
theorem attributeStep_named (named : (c.skipWhile isSpace).rest.head?.any isAttributeChar = true) :
    attributeStep c = ((attributeValue? (behindName c)).map fun p =>
      AttributeStep.next [⟨String.ofList ((c.skipWhile isSpace).run isAttributeChar), p.1⟩]
        p.2).getD .fail := by
  obtain ⟨x, r, hr, hx⟩ : ∃ x r, (c.skipWhile isSpace).rest = x :: r ∧
      isAttributeChar x = true := by
    cases hr : (c.skipWhile isSpace).rest with
    | nil =>
      rw [hr] at named
      cases named
    | cons x r =>
      rw [hr] at named
      exact ⟨x, r, rfl, named⟩
  obtain ⟨-, -, hangle, hslash⟩ := attributeChar_spec hx
  rw [attributeStep, attributeAt, if_neg (by simp [hr]),
    if_neg (by simp [Cursor.starts, hr, Ne.symm hangle]),
    if_neg (by simp [Cursor.starts, hr, Ne.symm hslash]), if_pos named, behindName]
  cases attributeValue? (((c.skipWhile isSpace).skipWhile isAttributeChar).skipWhile isSpace) <;>
    rfl

/-- **How a tag goes on behind a value depends only on what stands there.** -/
theorem ValueAt.attributes?_eq (h : ValueAt c o) :
    (attributes? c).map Prod.snd
      = (announcedValue? o).bind fun p => (attributes? p.2).map Prod.snd := by
  induction h with
  | @here c named sign =>
    rw [Tag.attributes?_eq, attributeStep_named named, attributeValue?_eq, if_pos sign]
    cases announcedValue? ((behindName c).step.skipWhile isSpace) with
    | none => rfl
    | some p =>
      show ((attributes? p.2).map _).map _ = (attributes? p.2).map _
      rw [Option.map_map]
      rfl
  | @later c d o found step rest ih =>
    rw [Tag.attributes?_eq, step, ← ih]
    show ((attributes? d).map _).map _ = (attributes? d).map _
    rw [Option.map_map]
    rfl

/-- The reader has come to every value that it gives.  By induction on what is left: the attribute
was found in this step, which then comes to its value, or by the steps behind it. -/
theorem exists_valueAt {as : List TagAttribute} {closing : Bool}
    (h : attributes? c = some (as, closing, d)) {a : TagAttribute} (ha : a ∈ as) {v : Excerpt}
    (hv : a.value = some v) : ∃ o after, ValueAt c o ∧ announcedValue? o = some (v, after) := by
  induction c using Cursor.induction_on_rest generalizing as with
  | step c ih =>
    rw [attributes?_eq] at h
    cases hs : attributeStep c with
    | fail =>
      rw [hs] at h
      cases h
    | done selfClosing after =>
      rw [hs] at h
      cases h
      cases ha
    | next found after =>
      rw [hs] at h
      obtain ⟨⟨others, closing', d'⟩, hothers, heq⟩ := Option.map_eq_some_iff.mp h
      cases heq
      rcases List.mem_append.mp ha with ha | ha
      · by_cases named : (c.skipWhile isSpace).rest.head?.any isAttributeChar = true
        · rw [attributeStep_named named, attributeValue?_eq] at hs
          split at hs
          · next sign =>
            cases hvalue : announcedValue? ((behindName c).step.skipWhile isSpace) with
            | none =>
              rw [hvalue] at hs
              cases hs
            | some p =>
              rw [hvalue] at hs
              cases hs
              obtain rfl := List.mem_singleton.mp ha
              cases hv
              exact ⟨_, p.2, .here named sign, hvalue⟩
          · cases hs
            obtain rfl := List.mem_singleton.mp ha
            cases hv
        · -- where no name stands, no attribute is found
          rw [attributeStep, attributeAt] at hs
          split at hs
          · cases hs
          · split at hs
            · cases hs
            · split at hs
              · cases hs
              · cases hs
                cases ha
      · obtain ⟨o, after', hat, hvalue⟩ := ih after (length_attributeStep_lt hs) hothers ha
        exact ⟨o, after', .later hs hat, hvalue⟩

/-- The place behind a name is found before what follows, if it stands before it: the skipping
stopped at a character of the text, and stops at it with anything else behind. -/
theorem behindName_local {more : List Char}
    (h : more.length < (behindName (c.extend more)).rest.length) :
    (c.skipWhile isSpace).rest ≠ [] ∧ (behindName c).rest ≠ [] ∧
      ∀ m, behindName (c.extend m) = (behindName c).extend m := by
  have hname := Nat.lt_of_lt_of_le h (Cursor.length_skipWhile_le isSpace _)
  have hfirst := Nat.lt_of_lt_of_le hname (Cursor.length_skipWhile_le isAttributeChar _)
  have hblank := Cursor.rest_skipWhile_of_lt hfirst
  have hsame := fun m => (Cursor.skipWhile_extend m hblank).1
  rw [hsame] at hname
  have hchars := Cursor.rest_skipWhile_of_lt hname
  have hwhole : ∀ m, ((c.extend m).skipWhile isSpace).skipWhile isAttributeChar
      = ((c.skipWhile isSpace).skipWhile isAttributeChar).extend m := by
    intro m
    rw [hsame, (Cursor.skipWhile_extend m hchars).1]
  rw [behindName, hwhole] at h
  have hgap := Cursor.rest_skipWhile_of_lt h
  refine ⟨hblank, hgap, fun m => ?_⟩
  rw [behindName, hwhole, (Cursor.skipWhile_extend m hgap).1, behindName]

/-- **What is read up to a value does not depend on what follows.**  The condition is that the place
of the value lies before the added text.  Then all steps on the way end before it as well. -/
theorem ValueAt.local {more : List Char} (h : ValueAt (c.extend more) o)
    (ho : more.length < o.rest.length) :
    ∃ p : Cursor, o = p.extend more ∧ ∀ more', ValueAt (c.extend more') (p.extend more') := by
  generalize hx : c.extend more = x at h
  induction h generalizing c with
  | @here x named sign =>
    subst hx
    have hstep := Nat.lt_of_lt_of_le ho (Cursor.length_skipWhile_le isSpace _)
    obtain ⟨hblank, hgap, hplace⟩ :=
      behindName_local (Nat.lt_of_lt_of_le hstep (Cursor.length_step_le _))
    have hpassed : ∀ m, (behindName (c.extend m)).step = (behindName c).step.extend m := by
      intro m
      rw [hplace, Cursor.step_extend m hgap]
    rw [hpassed] at ho
    have hvalue := Cursor.rest_skipWhile_of_lt ho
    have hsame := fun m => (Cursor.skipWhile_extend m hvalue).1
    refine ⟨(behindName c).step.skipWhile isSpace, ?_, fun m => ?_⟩
    · rw [hpassed, hsame]
    · rw [← hsame, ← hpassed]
      refine .here ?_ ?_
      · obtain ⟨x, r, hr⟩ := List.exists_cons_of_ne_nil hblank
        rw [(Cursor.skipWhile_extend _ hblank).1, Cursor.rest_extend, hr] at named ⊢
        exact named
      · have hsign : ∀ m, ((behindName c).extend m).starts ['='] = (behindName c).starts ['='] :=
          fun m => Cursor.starts_extend m (List.length_pos_iff.mpr hgap)
        rw [hplace, hsign] at sign ⊢
        exact sign
  | @later x d o found step rest ih =>
    subst hx
    have hlt : more.length < d.rest.length := Nat.lt_of_lt_of_le ho rest.reaches.length_le
    have hends : (attributeStep (c.extend more)).EndsBefore more.length := by
      rw [step]
      exact hlt
    obtain ⟨s, hs⟩ := attributeStep_local hends
    rw [hs more] at step
    cases s with
    | fail => cases step
    | done selfClosing after => cases step
    | next found' after =>
      cases step
      obtain ⟨p, hp, hat⟩ := ih ho rfl
      exact ⟨p, hp, fun m => .later (hs m) (hat m)⟩

/-! ## 2. Quotes

Where the cut falls behind a quote, that quote must be the opening one of a value.  A bare value
would start right there too, if its first character followed an equals sign or a blank; but a quote
is neither. -/

/-- A value starts where it is announced, or it stands in quotes there. -/
theorem announcedValue?_cases {v : Excerpt} (h : announcedValue? o = some (v, d)) :
    v.start = o.offset ∨ ∃ value : QuotedText, ∃ more, o.rest = value.chars ++ more ∧
      v = ⟨String.ofList value.text, o.offset + 1, o.offset + 1 + byteWidth value.text⟩ := by
  have hquoted : ∀ quote : Char, quote = '"' ∨ quote = '\'' → o.starts [quote] = true →
      quotedValue? quote o = some (v, d) → ∃ value : QuotedText, ∃ more,
        o.rest = value.chars ++ more ∧
        v = ⟨String.ofList value.text, o.offset + 1, o.offset + 1 + byteWidth value.text⟩ := by
    intro quote hquote hstarts hvalue
    obtain ⟨r, hr⟩ := List.isPrefixOf_iff_prefix.mp hstarts
    have hstep := Cursor.passes_step hr.symm
    have hwidth : quote.utf8Size = 1 := by rcases hquote with rfl | rfl <;> rfl
    simp only [quotedValue?] at hvalue
    split at hvalue
    · cases hvalue
    · next hne =>
      cases hvalue
      have hrun := Cursor.passes_skipWhile (· != quote) o.step
      obtain ⟨more, hmore⟩ := Cursor.rest_skipWhile_ne fun hnil => hne (by rw [hnil]; rfl)
      have hfree : quote ∉ o.step.run (· != quote) := fun hmem => by
        simpa using Cursor.all_run (· != quote) o.step quote hmem
      refine ⟨⟨quote, o.step.run (· != quote), hquote, hfree⟩, more, ?_, ?_⟩
      · rw [hstep.rest, hrun.rest, hmore]
        simp [QuotedText.chars]
      · rw [Excerpt.between, hrun.upTo_eq, hrun.offset, hstep.offset, byteWidth_cons, byteWidth_nil,
          hwidth]
  unfold announcedValue? at h
  split at h
  · next hdouble => exact Or.inr (hquoted '"' (Or.inl rfl) hdouble h)
  · split at h
    · next hsingle => exact Or.inr (hquoted '\'' (Or.inr rfl) hsingle h)
    · cases h
      exact Or.inl rfl

theorem not_isSpace_of_quote {quote : Char} (h : quote = '"' ∨ quote = '\'') :
    isSpace quote = false ∧ quote ≠ '=' ∧ quote.utf8Size = 1 := by
  rcases h with rfl | rfl <;> decide

end Tag

/-- The place at the offset of the seam is the seam. -/
theorem Cursor.Passes.eq_of_limit {c d : Cursor} {more run : List Char}
    (h : (c.extend more).Passes run d) (hd : d.offset = c.limit) :
    run = c.rest ∧ d.rest = more := by
  have hrest : c.rest ++ more = run ++ d.rest := h.rest
  have hwidth : byteWidth run = byteWidth c.rest := by
    have hoffset : d.offset = c.offset + byteWidth run := h.offset
    rw [hd, limit] at hoffset
    omega
  obtain rfl : run = c.rest := by
    rcases List.append_eq_append_iff.mp hrest with ⟨extra, hextra, -⟩ | ⟨extra, hextra, -⟩
    · rw [hextra, byteWidth_append] at hwidth
      rw [hextra, byteWidth_eq_zero (show byteWidth extra = 0 by omega), List.append_nil]
    · rw [hextra, byteWidth_append] at hwidth
      rw [hextra, byteWidth_eq_zero (show byteWidth extra = 0 by omega), List.append_nil]
  exact ⟨rfl, (List.append_cancel_left hrest).symm⟩

namespace Tag

/-- A tag is cut behind the opening quote of a value: `p` is the place of the quote, and the reader
comes to it whatever follows.  The text from `c` on is the part of the tag before the cut, from its
`<` to the quote. -/
structure CutAt (c p : Cursor) (quote : Char) : Prop where
  isQuote : quote = '"' ∨ quote = '\''
  rest : p.rest = [quote]
  offset : p.offset + 1 = c.limit
  named : c.step.run isNameChar ≠ []
  comes : ∀ more, ValueAt ((c.step.skipWhile isNameChar).extend more) (p.extend more)

/-- **A tag with a value in quotes can be cut there**, and the closing quote stands behind the
value. -/
theorem exists_cutAt {c : Cursor} {more : List Char} {t : Tag} {quote : Char} (hc : c.rest ≠ [])
    (hlast : c.rest.getLast? = some quote) (hquote : quote = '"' ∨ quote = '\'')
    (h : parse? (c.extend more) = some t) {a : TagAttribute} (ha : a ∈ t.attributes) {v : Excerpt}
    (hv : a.value = some v) (hstart : v.start = c.limit) :
    (∃ p, CutAt c p quote) ∧ ∃ value post, more = value ++ quote :: post ∧ quote ∉ value ∧
      v.text = String.ofList value := by
  simp only [parse?, Cursor.step_extend more hc] at h
  split at h
  · cases h
  · next hne =>
    obtain ⟨⟨as, closing, after⟩, has, rfl⟩ := Option.map_eq_some_iff.mp h
    obtain ⟨o, behind, hat, hvalue⟩ := exists_valueAt has ha hv
    obtain ⟨run, blanks, hpasses, hblanks⟩ := hat.passes
    -- all that stands between the `<` and the value
    obtain ⟨before, hbefore⟩ :
        (c.extend more).Reaches ((c.step.extend more).skipWhile isNameChar) := by
      rw [← Cursor.step_extend more hc]
      exact (Cursor.reaches_step _).trans (Cursor.reaches_skipWhile _ _)
    have hway := hbefore.trans hpasses
    rcases announcedValue?_cases hvalue with hbare | ⟨value, post, hrest, rfl⟩
    · -- before a value without quotes stands an equals sign or a blank
      exfalso
      obtain ⟨hall, -⟩ := hway.eq_of_limit (hbare.symm.trans hstart)
      obtain ⟨hspace, hsign, -⟩ := not_isSpace_of_quote hquote
      have hmem : quote ∈ '=' :: blanks := by
        rw [← hall, ← List.append_assoc, List.getLast?_append,
          List.getLast?_eq_some_getLast (List.cons_ne_nil _ _), Option.some_or] at hlast
        exact Option.some.inj hlast ▸ List.getLast_mem _
      rcases List.mem_cons.mp hmem with heq | hmem
      · exact hsign heq
      · rw [hblanks quote hmem] at hspace
        cases hspace
    · -- the quote is the last character before the value
      have hone := (not_isSpace_of_quote value.isQuote).2.2
      have hopens : o.rest = value.quote :: (value.text ++ value.quote :: post) := by
        rw [hrest]
        simp [QuotedText.chars]
      have hstep := Cursor.passes_step hopens
      have hseam : o.step.offset = c.limit := by
        rw [hstep.offset, byteWidth_cons, byteWidth_nil, hone]
        exact hstart
      obtain ⟨hall, hmore⟩ := (hway.trans hstep).eq_of_limit hseam
      obtain rfl : value.quote = quote := by
        rw [← hall, List.getLast?_concat] at hlast
        exact Option.some.inj hlast
      have hbehind : o.rest = value.quote :: more := by
        rw [hstep.rest, hmore]
        rfl
      -- the quote itself stands before the cut, which is what the way to it needs
      have hlonger : more.length < o.rest.length := by
        rw [hbehind]
        exact Nat.lt_succ_self _
      have hname := Cursor.rest_skipWhile_of_lt
        (Nat.lt_of_lt_of_le hlonger hat.reaches.length_le)
      rw [(Cursor.skipWhile_extend more hname).1] at hat
      rw [(Cursor.skipWhile_extend more hname).2] at hne
      -- from here on the way to the quote is known for all that may follow
      obtain ⟨p, rfl, hcomes⟩ := hat.local hlonger
      have hp : p.rest = [value.quote] :=
        List.append_cancel_right (show p.rest ++ more = [value.quote] ++ more from hbehind)
      refine ⟨⟨p, value.isQuote, hp, hstart, fun hnil => hne (by rw [hnil]; rfl), hcomes⟩,
        value.text, post, ?_, value.closed, rfl⟩
      exact (List.cons.inj (hbehind.symm.trans hopens)).2

/-- **Behind a value in quotes a tag goes on in the same way, whatever the value is.**  Whether it
closes itself and where it ends is found from the closing quote on. -/
theorem CutAt.parse?_eq {c p : Cursor} {quote : Char} (h : CutAt c p quote) (hc : c.rest ≠ [])
    {value : List Char} (hfree : quote ∉ value) (post : List Char) :
    (parse? (c.extend (value ++ quote :: post))).map (fun t => (t.selfClosing, t.after))
      = (attributes? ⟨1, post⟩).map fun r => (r.2.1, r.2.2.shift (c.limit + byteWidth value)) := by
  have hname : (c.step.skipWhile isNameChar).rest ≠ [] := by
    have hle := (h.comes []).reaches.length_le
    rw [Cursor.extend_nil, Cursor.extend_nil, h.rest] at hle
    exact List.length_pos_iff.mp hle
  obtain ⟨hskip, hrun⟩ := Cursor.skipWhile_extend (value ++ quote :: post) hname
  have hwidth : byteWidth (QuotedText.chars ⟨quote, value, h.isQuote, hfree⟩)
      = 1 + byteWidth value + 1 := by
    have hone := (not_isSpace_of_quote h.isQuote).2.2
    simp only [QuotedText.chars, List.cons_append, byteWidth_cons, byteWidth_append, byteWidth_nil,
      hone]
    omega
  have hplace : p.extend (value ++ quote :: post)
      = ⟨p.offset, QuotedText.chars ⟨quote, value, h.isQuote, hfree⟩ ++ post⟩ := by
    rw [Cursor.extend, h.rest]
    simp [QuotedText.chars]
  obtain ⟨e, he, -⟩ := announcedValue?_chars ⟨quote, value, h.isQuote, hfree⟩ p.offset post
  have hbehind : (⟨p.offset + (1 + byteWidth value + 1), post⟩ : Cursor)
      = (⟨1, post⟩ : Cursor).shift (c.limit + byteWidth value) := by
    have hoffset : p.offset + (1 + byteWidth value + 1) = 1 + (c.limit + byteWidth value) := by
      have := h.offset
      omega
    rw [hoffset]
    rfl
  have hattributes := (h.comes (value ++ quote :: post)).attributes?_eq
  rw [hplace, he, hwidth, hbehind] at hattributes
  simp only [parse?, Cursor.step_extend _ hc, hskip, hrun, List.isEmpty_iff, h.named, if_false,
    Option.map_map]
  refine Eq.trans ?_ (hattributes.trans ?_)
  · rfl
  · rw [Option.bind_some, attributes?_shift, Option.map_map]
    rfl

end Tag

end ComponentHost
