/-
# How far the scanners look ahead

The scanners of a document look ahead at a `<`: for the four characters that open a comment, for a
letter, for the name of a tag and for the character behind the name.  With more text behind a
document, such a look may cross the seam and see something else.  It does not if a character stands
at the seam that ends every word the scanners look for, a BARRIER: a line break, a quote, or the
`<` of the next tag (`Block.settled_of_head`, `Block.settled_of_last`).

A text that is settled in this sense is read in the same way whatever is behind it, as far as it
goes.  A step of a scanner is the same with the added text (`Block.closeStep_extend`,
`Block.directiveStep_extend`, `Block.scanStep_extend`), except where it fails because a comment, a
tag or a block does not close; then the added text may close it, and the step ends in there.  So
what the scanners find before the seam is the same on both sides, and each statement can be used in
both directions: to add text behind a document and to take it away.

The one scanner that does read on is the collection of directives: an attribute or a comment that
does not close in the block is looked for behind it.  Its findings are kept only if they end
inside the block, and this is what makes `Block.directivesUpTo_extend` hold.
-/
import ComponentHost.Proofs.BlockRegions
import ComponentHost.Proofs.Locality

namespace ComponentHost

/-! ## 1. Barriers

Names of tags have letters, digits and a few signs, and a comment opens with `<!--`.  A character
that is none of these ends a look-ahead, whatever comes after it.  Two situations provide such a
character: it is the first of the added text, or the last of the text.  In the latter the `<` is
excluded, since a look-ahead would START there and go on into the added text. -/

namespace Text

/-- A character that is no letter is equal up to case only to itself. -/
theorem eq_of_sameLetter {a z : Char} (hz : z.isAlpha = false) (h : sameLetter a z = true) :
    a = z := by
  obtain ⟨hupper, hlow⟩ := Bool.or_eq_false_iff.mp hz
  have hcapital : ¬ (0x41 ≤ z.toNat ∧ z.toNat ≤ 0x5A) := of_decide_eq_false hupper
  have hsmall : ¬ (0x61 ≤ z.toNat ∧ z.toNat ≤ 0x7A) := fun hrange =>
    Bool.eq_false_iff.mp hlow
      (Bool.and_eq_true_iff.mpr ⟨decide_eq_true hrange.1, decide_eq_true hrange.2⟩)
  have hlower : z.toLower = z := by
    rw [← Char.toNat_inj, Utf8.toNat_toLower, if_neg hcapital]
  have heq : a.toLower = z := (beq_iff_eq.mp h).trans hlower
  exact Utf8.eq_of_toLower_eq heq (by omega)

/-- A word is found or not before a character that is not part of it. -/
theorem startsWithWord_append {z : Char} (hz : z.isAlpha = false) {word : List Char}
    (hword : z ∉ word) (cs more : List Char) :
    startsWithWord word (cs ++ z :: more) = startsWithWord word cs := by
  induction word generalizing cs with
  | nil => rfl
  | cons w word ih =>
    obtain ⟨hw, hword⟩ : z ≠ w ∧ z ∉ word := by simpa using hword
    cases cs with
    | nil =>
      have hdiffer : sameLetter w z = false :=
        Bool.eq_false_iff.mpr fun h => hw (eq_of_sameLetter hz h).symm
      show (sameLetter w z && startsWithWord word more) = false
      rw [hdiffer, Bool.false_and]
    | cons x cs => rw [List.cons_append, startsWithWord, startsWithWord, ih hword]

/-- The same for a word that is compared exactly. -/
theorem isPrefixOf_append {z : Char} {word : List Char} (hword : z ∉ word) (cs more : List Char) :
    word.isPrefixOf (cs ++ z :: more) = word.isPrefixOf cs := by
  induction word generalizing cs with
  | nil => rfl
  | cons w word ih =>
    obtain ⟨hw, hword⟩ : z ≠ w ∧ z ∉ word := by simpa using hword
    cases cs with
    | nil => simp [List.isPrefixOf, Ne.symm hw]
    | cons x cs => rw [List.cons_append, List.isPrefixOf, List.isPrefixOf, ih hword]

end Text

namespace Block

variable {c d here : Cursor} {name more : List Char} {kind : RegionKind}

/-- Does the character end every word that is looked for behind a `<`? -/
def isBarrier (x : Char) : Bool := !(Tag.isNameChar x || x == '!' || x == '/')

/-- What it is not: a character of a name, of `<!--`, or a letter. -/
theorem isBarrier_spec {z : Char} (hz : isBarrier z = true) :
    Tag.isNameChar z = false ∧ z ≠ '!' ∧ z ≠ '/' ∧ z ≠ '-' ∧ z.isAlpha = false := by
  simp only [isBarrier, Bool.not_eq_true', Bool.or_eq_false_iff, beq_eq_false_iff_ne] at hz
  obtain ⟨⟨hname, hmark⟩, hslash⟩ := hz
  refine ⟨hname, hmark, hslash, ?_, ?_⟩
  · rintro rfl
    exact absurd hname (by decide)
  · simp only [Tag.isNameChar, Char.isAlphanum, Bool.or_eq_false_iff] at hname
    exact hname.1.1.1.1.1

/-- What is seen at a `<` is the same with more text behind it. -/
structure SettledAt (more : List Char) (here : Cursor) : Prop where
  comment : (here.extend more).starts commentOpen = here.starts commentOpen
  letter : letterFollows (here.extend more) = letterFollows here
  opening : ∀ {name : List Char}, (∀ x ∈ name, Tag.isNameChar x = true) →
    startsTag ('<' :: name) (here.extend more) = startsTag ('<' :: name) here
  closing : ∀ {name : List Char}, (∀ x ∈ name, Tag.isNameChar x = true) →
    startsTag ('<' :: '/' :: name) (here.extend more) = startsTag ('<' :: '/' :: name) here

/-- What is seen at any `<` from a place on is the same with more text behind it. -/
def Settled (more : List Char) (c : Cursor) : Prop :=
  ∀ here r, c.Reaches here → here.rest = '<' :: r → SettledAt more here

theorem Settled.of_reaches (h : Settled more c) (hreach : c.Reaches d) : Settled more d :=
  fun here r hhere hangle => h here r (hreach.trans hhere) hangle

/-- The name of a tag must be followed by a character that is not part of one, or by nothing; a
barrier answers as nothing does. -/
theorem startsTag_extend_barrier {z : Char} (hz : isBarrier z = true) {word r : List Char}
    (hword : z ∉ word) (hangle : here.rest = '<' :: r) (more : List Char) :
    startsTag ('<' :: word) (here.extend (z :: more)) = startsTag ('<' :: word) here := by
  obtain ⟨hname, -, -, -, halpha⟩ := isBarrier_spec hz
  have hsame := Text.startsWithWord_append halpha hword r more
  simp only [startsTag, Cursor.rest_extend, hangle, List.cons_append, Text.startsWithWord, hsame,
    List.length_cons, List.drop_succ_cons]
  by_cases h : Text.startsWithWord word r = true
  · -- behind the word stands the same character, or the barrier where there was none
    rw [List.drop_append_of_le_length (Text.length_le_of_startsWithWord h)]
    cases r.drop word.length with
    | nil => simp [hname]
    | cons x r' => rfl
  · rw [Bool.eq_false_iff.mpr h, Bool.and_false, Bool.false_and, Bool.false_and]

/-- The four questions that are asked at a `<`, one after another. -/
theorem settledAt_of_barrier {z : Char} (hz : isBarrier z = true) {r : List Char}
    (hangle : here.rest = '<' :: r) (more : List Char) : SettledAt (z :: more) here := by
  obtain ⟨hname, hmark, hslash, hdash, halpha⟩ := isBarrier_spec hz
  have hfree : ∀ {name : List Char}, (∀ x ∈ name, Tag.isNameChar x = true) → z ∉ name := by
    intro name hchars hmem
    exact absurd (hchars z hmem) (by rw [hname]; exact Bool.false_ne_true)
  refine ⟨?_, ?_, fun hchars => ?_, fun hchars => ?_⟩
  · have hword : z ∉ ['!', '-', '-'] := by simp [hmark, hdash]
    have hsame := Text.isPrefixOf_append hword r more
    simp only [Cursor.starts, commentOpen, Cursor.rest_extend, hangle, List.cons_append,
      List.isPrefixOf_cons_cons, beq_self_eq_true, Bool.true_and]
    exact hsame
  · have hne : here.rest ≠ [] := hangle ▸ List.cons_ne_nil _ _
    rw [letterFollows, letterFollows, Cursor.step_extend _ hne, Cursor.rest_extend]
    cases here.step.rest with
    | nil => simp [halpha]
    | cons x r' => rfl
  · exact startsTag_extend_barrier hz (hfree hchars) hangle more
  · refine startsTag_extend_barrier hz ?_ hangle more
    simp only [List.mem_cons, not_or]
    exact ⟨hslash, hfree hchars⟩

/-- Behind a text stands nothing, or a barrier. -/
theorem settled_of_head (h : more.head?.all isBarrier = true) (c : Cursor) : Settled more c := by
  intro here r _ hangle
  cases more with
  | nil => exact ⟨by rw [Cursor.extend_nil], by rw [Cursor.extend_nil],
      fun _ => by rw [Cursor.extend_nil], fun _ => by rw [Cursor.extend_nil]⟩
  | cons z more => exact settledAt_of_barrier (by simpa using h) hangle more

/-- The last character of a text is a barrier, and not the `<` at which a look starts.  The text
from any `<` on then ends in the barrier, and the questions at this `<` are settled as if the rest
were added. -/
theorem settled_of_last {z : Char} (h : c.rest.getLast? = some z) (hz : isBarrier z = true)
    (hangle : z ≠ '<') (more : List Char) : Settled more c := by
  rintro here r ⟨run, hrun⟩ hr
  obtain ⟨a, rfl⟩ : ∃ a, r = a ++ [z] := by
    rw [hrun.rest, hr, List.getLast?_append,
      List.getLast?_eq_some_getLast (List.cons_ne_nil _ _), Option.some_or,
      ← List.getLast?_eq_some_getLast] at h
    obtain rfl | ⟨a, y, rfl⟩ := List.eq_nil_or_concat r
    · exact absurd (Option.some.inj h).symm hangle
    · refine ⟨a, ?_⟩
      rw [List.concat_eq_append, ← List.cons_append, List.getLast?_concat] at h
      rw [List.concat_eq_append, Option.some.inj h]
  -- both texts are the one up to the barrier, with the barrier and something behind it
  have hbase : here = (⟨here.offset, '<' :: a⟩ : Cursor).extend [z] := by
    rw [Cursor.extend, List.cons_append, ← hr]
  have hmore : here.extend more = (⟨here.offset, '<' :: a⟩ : Cursor).extend (z :: more) := by
    rw [Cursor.extend, Cursor.extend, hr, List.cons_append, List.cons_append, List.append_assoc]
    rfl
  have hwith : SettledAt (z :: more) ⟨here.offset, '<' :: a⟩ := settledAt_of_barrier hz rfl more
  have halone : SettledAt [z] ⟨here.offset, '<' :: a⟩ := settledAt_of_barrier hz rfl []
  refine ⟨?_, ?_, fun hchars => ?_, fun hchars => ?_⟩
  · rw [hmore, hwith.comment, ← halone.comment, ← hbase]
  · rw [hmore, hwith.letter, ← halone.letter, ← hbase]
  · rw [hmore, hwith.opening hchars, ← halone.opening hchars, ← hbase]
  · rw [hmore, hwith.closing hchars, ← halone.closing hchars, ← hbase]

end Block

/-! ## 2. Places before and behind the seam

Whether a place lies in the text or in what was added is told by how much is left from it.  Every
scanner goes forward, so a place that it comes to from the text is reached from it, and a place with
no more left than the added text is a place of the latter, at an offset behind the limit of the
text. -/

namespace Cursor

variable {c d : Cursor} {more : List Char}

theorem Reaches.limit_eq (h : c.Reaches d) : d.limit = c.limit := by
  obtain ⟨run, hrun⟩ := h
  rw [limit, limit, hrun.offset, hrun.rest, byteWidth_append, Nat.add_assoc]

theorem Reaches.length_le (h : c.Reaches d) : d.rest.length ≤ c.rest.length := by
  obtain ⟨run, hrun⟩ := h
  rw [hrun.rest, List.length_append]
  omega

theorem Passes.extend {run : List Char} (h : c.Passes run d) (more : List Char) :
    (c.extend more).Passes run (d.extend more) := by
  refine ⟨?_, h.offset⟩
  rw [rest_extend, rest_extend, h.rest, List.append_assoc]

/-- A place with no more than the added text left is a place of the added text. -/
theorem Reaches.of_seam (h : (c.extend more).Reaches d) (hd : d.rest.length ≤ more.length) :
    (⟨c.limit, more⟩ : Cursor).Reaches d := by
  obtain ⟨run, hrun⟩ := h
  have hrest : c.rest ++ more = run ++ d.rest := hrun.rest
  obtain ⟨extra, rfl⟩ : c.rest <+: run := by
    have hrun : run <+: c.rest ++ more := hrest ▸ List.prefix_append _ _
    refine List.prefix_of_prefix_length_le (List.prefix_append _ _) hrun ?_
    have := congrArg List.length hrest
    simp only [List.length_append] at this
    omega
  refine ⟨extra, ?_, ?_⟩
  · rw [List.append_assoc] at hrest
    exact List.append_cancel_left hrest
  · have hoffset : d.offset = c.offset + byteWidth (c.rest ++ extra) := hrun.offset
    rw [hoffset, byteWidth_append, ← Nat.add_assoc]
    rfl

theorem limit_le_offset (h : (c.extend more).Reaches d) (hd : d.rest.length ≤ more.length) :
    c.limit ≤ d.offset := (h.of_seam hd).offset_le

theorem limit_lt_offset (h : (c.extend more).Reaches d) (hd : d.rest.length < more.length) :
    c.limit < d.offset := by
  obtain ⟨extra, hextra⟩ := h.of_seam (Nat.le_of_lt hd)
  refine hextra.offset_lt ?_
  rintro rfl
  have := congrArg List.length hextra.rest
  simp only [List.nil_append] at this
  omega

end Cursor

namespace Block

variable {c d : Cursor} {name more : List Char} {kind : RegionKind}

/-- The ways on from a `<` go forward. -/
theorem Onward.reaches {here : Cursor} (h : Onward here d) {r : List Char}
    (hr : here.rest = '<' :: r) : here.Reaches d := by
  cases h with
  | comment h => exact reaches_pastComment? h
  | tag h => exact reaches_after h hr
  | sign => exact Cursor.reaches_step here

theorem reaches_closeStep {depth depth' : Nat} (h : closeStep name kind depth c = .next depth' d) :
    c.Reaches d := by
  refine (reaches_nextAngle c).trans ?_
  obtain ⟨hr, honward | ⟨-, rfl⟩⟩ := closeStep_next h
  · obtain ⟨r, hangle⟩ := rest_nextAngle hr
    exact honward.reaches hangle
  · exact Cursor.reaches_skip _ _

theorem reaches_directiveStep {stop : Nat} {found : List Region}
    (h : directiveStep stop c = .next found d) : c.Reaches d := by
  obtain ⟨hr, honward⟩ := directiveStep_next h
  obtain ⟨r, hangle⟩ := rest_nextAngle hr
  exact (reaches_nextAngle c).trans (honward.reaches hangle)

theorem reaches_blockStep {tag : Tag} {found : List Block} (h : blockStep tag = .next found d) :
    tag.after.Reaches d := by
  rcases blockStep_next h with rfl | ⟨close, hclose, -, rfl⟩
  · exact .refl _
  · exact (close?_spec hclose).1.trans
      ((Cursor.reaches_skipWhile _ close).trans (Cursor.reaches_step _))

theorem reaches_scanStep {found : List Block} (h : scanStep c = .next found d) : c.Reaches d := by
  refine (reaches_nextAngle c).trans ?_
  obtain ⟨hr, hnext⟩ := scanStep_next h
  obtain ⟨r, hangle⟩ := rest_nextAngle hr
  rcases hnext with honward | ⟨tag, htag, hblock⟩
  · exact honward.reaches hangle
  · exact (reaches_after htag hangle).trans (reaches_blockStep hblock)

theorem nextAngle_extend (more : List Char) (h : (nextAngle c).rest ≠ []) :
    nextAngle (c.extend more) = (nextAngle c).extend more := (Cursor.skipWhile_extend more h).1

/-- Where no `<` is left, the next one is looked for in the added text. -/
theorem nextAngle_seam (h : (nextAngle c).rest = []) (more : List Char) :
    nextAngle (c.extend more) = nextAngle ⟨c.limit, more⟩ := by
  have hsplit : c.rest = c.run (· != '<') := by
    have := (Cursor.passes_skipWhile (· != '<') c).rest
    rwa [show (c.skipWhile (· != '<')).rest = [] from h, List.append_nil] at this
  have hall : ∀ x ∈ c.rest, (x != '<') = true := by
    rw [hsplit]
    exact Cursor.all_run _ c
  exact Cursor.skipWhile_append hall c.offset more

/-! ## 3. Closing tags

A step of the search either does the same with the added text or fails without it; in the latter
case it ends in the added text.  From this the search as a whole gets two halves: what it finds it
still finds, and what it finds only with the added text stands in there. -/

/-- The step, with more text behind it. -/
def CloseStep.extend (more : List Char) : CloseStep → CloseStep
  | .fail => .fail
  | .found close => .found (close.extend more)
  | .next depth after => .next depth (after.extend more)

/-- The step is the same whatever follows, up to a comment or a tag that closes only there. -/
theorem closeStep_extend (hc : Settled more c) (hname : ∀ x ∈ name, Tag.isNameChar x = true)
    (depth : Nat) (hr : (nextAngle c).rest ≠ []) :
    closeStep name kind depth (c.extend more) = (closeStep name kind depth c).extend more ∨
      closeStep name kind depth c = .fail ∧ ∃ depth' d,
        closeStep name kind depth (c.extend more) = .next depth' d ∧
          d.rest.length < more.length := by
  obtain ⟨r, hangle⟩ := rest_nextAngle hr
  have hsettled := hc _ r (reaches_nextAngle c) hangle
  simp only [closeStep, nextAngle_extend more hr, Cursor.rest_extend, hsettled.comment,
    hsettled.closing hname, hsettled.opening hname, List.append_eq_nil_iff, hr, false_and, if_false]
  split
  · next hcomment =>
    cases hpast : pastComment? (nextAngle c) with
    | some after =>
      rw [pastComment?_extend more hcomment.2 hpast]
      exact Or.inl rfl
    | none =>
      cases hpast' : pastComment? ((nextAngle c).extend more) with
      | none => exact Or.inl rfl
      | some d =>
        exact Or.inr ⟨rfl, depth, d, rfl, length_lt_of_pastComment?_none hcomment.2 hpast hpast'⟩
  · split
    · next hclosing =>
      have hlength : name.length + 2 ≤ (nextAngle c).rest.length :=
        Text.length_le_of_startsWithWord (Bool.and_eq_true_iff.mp hclosing).1
      cases depth with
      | zero => exact Or.inl rfl
      | succ depth =>
        rw [Cursor.skip_extend more hlength]
        exact Or.inl rfl
    · split
      · cases htag : Tag.parse? (nextAngle c) with
        | some tag =>
          rw [Tag.parse?_extend more hr htag]
          exact Or.inl rfl
        | none =>
          cases htag' : Tag.parse? ((nextAngle c).extend more) with
          | none => exact Or.inl rfl
          | some tag =>
            exact Or.inr ⟨rfl, _, tag.after, rfl, Tag.length_after_lt_of_none hr htag htag'⟩
      · rw [Cursor.step_extend more hr]
        exact Or.inl rfl

theorem closeStep_of_rest_eq_nil {depth : Nat} (h : (nextAngle c).rest = []) :
    closeStep name kind depth c = .fail := by
  simp only [closeStep, if_pos h]

/-- A step of the search does not depend on what follows. -/
theorem closeStep_next_extend (hc : Settled more c) (hname : ∀ x ∈ name, Tag.isNameChar x = true)
    {depth depth' : Nat} (h : closeStep name kind depth c = .next depth' d) :
    closeStep name kind depth (c.extend more) = .next depth' (d.extend more) := by
  rcases closeStep_extend hc hname depth (closeStep_next h).1 with hsame | ⟨hfail, -⟩
  · rw [hsame, h]
    rfl
  · rw [h] at hfail
    cases hfail

/-- A step that ends before the added text is a step of the text. -/
theorem closeStep_next_local (hc : Settled more c) (hname : ∀ x ∈ name, Tag.isNameChar x = true)
    {depth depth' : Nat} (h : closeStep name kind depth (c.extend more) = .next depth' d)
    (hd : more.length ≤ d.rest.length) :
    ∃ e, d = e.extend more ∧ closeStep name kind depth c = .next depth' e := by
  have hr : (nextAngle c).rest ≠ [] := by
    refine Cursor.rest_skipWhile_of_lt (Nat.lt_of_le_of_lt hd ?_)
    obtain ⟨hr, honward | ⟨-, rfl⟩⟩ := closeStep_next h
    · exact honward.length_lt hr
    · exact Cursor.length_skip_lt (Nat.succ_pos _) hr
  rcases closeStep_extend hc hname depth hr with hsame | ⟨-, depth'', d', hnext, hlt⟩
  · rw [h] at hsame
    cases hs : closeStep name kind depth c with
    | fail =>
      rw [hs] at hsame
      cases hsame
    | found close =>
      rw [hs] at hsame
      cases hsame
    | next depth'' e =>
      rw [hs] at hsame
      cases hsame
      exact ⟨e, rfl, rfl⟩
  · rw [h] at hnext
    cases hnext
    exact absurd hd (Nat.not_le_of_lt hlt)

/-- **The closing tag of a block is found whatever follows.** -/
theorem close?_extend (hc : Settled more c) (hname : ∀ x ∈ name, Tag.isNameChar x = true)
    {depth : Nat} (h : close? name kind depth c = some d) :
    close? name kind depth (c.extend more) = some (d.extend more) := by
  induction c using Cursor.induction_on_rest generalizing depth with
  | step c ih =>
    rw [close?_eq] at h
    have hr : (nextAngle c).rest ≠ [] := by
      intro hnil
      rw [closeStep_of_rest_eq_nil hnil] at h
      cases h
    cases hs : closeStep name kind depth c with
    | fail =>
      rw [hs] at h
      cases h
    | found close =>
      rcases closeStep_extend hc hname depth hr with hsame | ⟨hfail, -⟩
      · rw [hs] at h hsame
        cases h
        rw [close?_eq, hsame]
        rfl
      · rw [hs] at hfail
        cases hfail
    | next depth' after =>
      rw [hs] at h
      rw [close?_eq, closeStep_next_extend hc hname hs]
      exact ih after (length_closeStep_lt hs) (hc.of_reaches (reaches_closeStep hs)) h

/-- Where no `<` is left, the search goes on in the added text. -/
theorem close?_seam (hr : (nextAngle c).rest = []) {depth : Nat} (more : List Char) :
    close? name kind depth (c.extend more) = close? name kind depth ⟨c.limit, more⟩ := by
  have hstep : closeStep name kind depth (c.extend more)
      = closeStep name kind depth ⟨c.limit, more⟩ := by
    simp only [closeStep, nextAngle_seam hr]
  rw [close?_eq, hstep, ← close?_eq]

/-- A closing tag that is found only with the added text stands in there. -/
theorem length_le_of_close?_none (hc : Settled more c)
    (hname : ∀ x ∈ name, Tag.isNameChar x = true) {depth : Nat}
    (hnone : close? name kind depth c = none)
    (h : close? name kind depth (c.extend more) = some d) : d.rest.length ≤ more.length := by
  induction c using Cursor.induction_on_rest generalizing depth with
  | step c ih =>
    by_cases hr : (nextAngle c).rest = []
    · rw [close?_seam hr] at h
      exact length_close?_le h
    · rw [close?_eq] at hnone h
      rcases closeStep_extend hc hname depth hr with hsame | ⟨-, depth', after, hnext, hlt⟩
      · rw [hsame] at h
        cases hs : closeStep name kind depth c with
        | fail =>
          rw [hs] at h
          cases h
        | found close =>
          rw [hs] at hnone
          cases hnone
        | next depth' after =>
          rw [hs] at h hnone
          exact ih after (length_closeStep_lt hs) (hc.of_reaches (reaches_closeStep hs)) hnone h
      · rw [hnext] at h
        exact Nat.le_trans (length_close?_le h) (Nat.le_of_lt hlt)

/-! ## 4. Directives

Directives are collected up to the end of the block, and the seam lies behind that end.  A tag or a
comment that closes only behind the seam ends behind the block, and is left out for that reason,
just as if it had not closed at all. -/

/-- The step, with more text behind it. -/
def DirectiveStep.extend (more : List Char) : DirectiveStep → DirectiveStep
  | .done => .done
  | .next found after => .next found (after.extend more)

/-- Where the limit is reached, no directives are found. -/
theorem directivesUpTo_of_le {stop : Nat} (h : stop ≤ c.offset) : directivesUpTo stop c = [] := by
  have hle : stop ≤ (nextAngle c).offset := Nat.le_trans h (reaches_nextAngle c).offset_le
  rw [directivesUpTo_eq, directiveStep, if_pos (Or.inr hle)]

/-- The step is the same whatever follows the document, up to a comment that closes only there. -/
theorem directiveStep_extend (hc : Settled more c) {stop : Nat} (hstop : stop ≤ c.limit) :
    directiveStep stop (c.extend more) = (directiveStep stop c).extend more ∨
      directiveStep stop c = .done ∧
        ∃ d, directiveStep stop (c.extend more) = .next [] d ∧ stop ≤ d.offset := by
  by_cases hr : (nextAngle c).rest = []
  · -- no further tag: the next one, if any, stands behind the document
    left
    have hle : stop ≤ (nextAngle (c.extend more)).offset := by
      refine Nat.le_trans hstop
        (Cursor.limit_le_offset (reaches_nextAngle _) (Nat.le_of_not_lt fun hlt => ?_))
      exact Cursor.rest_skipWhile_of_lt hlt hr
    rw [directiveStep, if_pos (Or.inr hle), directiveStep, if_pos (Or.inl hr)]
    rfl
  obtain ⟨r, hangle⟩ := rest_nextAngle hr
  have hsettled := hc _ r (reaches_nextAngle c) hangle
  have hlimit : (nextAngle c).limit = c.limit := (reaches_nextAngle c).limit_eq
  simp only [directiveStep, nextAngle_extend more hr, Cursor.rest_extend, Cursor.offset_extend,
    hsettled.comment, hsettled.letter, List.append_eq_nil_iff, hr, false_and, false_or]
  split
  · exact Or.inl rfl
  · split
    · next hcomment =>
      cases hpast : pastComment? (nextAngle c) with
      | some after =>
        rw [pastComment?_extend more hcomment hpast]
        exact Or.inl rfl
      | none =>
        cases hpast' : pastComment? ((nextAngle c).extend more) with
        | none => exact Or.inl rfl
        | some d =>
          have hlt := length_lt_of_pastComment?_none hcomment hpast hpast'
          have hle := Cursor.limit_le_offset (reaches_pastComment? hpast') (Nat.le_of_lt hlt)
          -- the comment closes in the added text, which is behind the block
          exact Or.inr ⟨rfl, d, rfl, by omega⟩
    · split
      · cases htag : Tag.parse? (nextAngle c) with
        | some tag =>
          left
          rw [Tag.parse?_extend more hr htag]
          show (if stop < tag.after.offset then _ else _)
            = DirectiveStep.extend more (if stop < tag.after.offset then _ else _)
          split <;> rfl
        | none =>
          left
          cases htag' : Tag.parse? ((nextAngle c).extend more) with
          | none => rfl
          | some tag =>
            have hlt := Tag.length_after_lt_of_none hr htag htag'
            have hreaches := reaches_after htag' (by rw [Cursor.rest_extend, hangle]; rfl)
            have hbehind := Cursor.limit_lt_offset hreaches hlt
            -- the tag ends in the added text: it is read there, and then not taken
            exact if_pos (by omega)
      · rw [Cursor.step_extend more hr]
        exact Or.inl rfl

/-- **The directives of a block are the same whatever follows the text.** -/
theorem directivesUpTo_extend (hc : Settled more c) {stop : Nat} (hstop : stop ≤ c.limit) :
    directivesUpTo stop (c.extend more) = directivesUpTo stop c := by
  induction c using Cursor.induction_on_rest with
  | step c ih =>
    rw [directivesUpTo_eq, directivesUpTo_eq stop c]
    rcases directiveStep_extend hc hstop with hsame | ⟨hdone, d, hnext, hd⟩
    · rw [hsame]
      cases hs : directiveStep stop c with
      | done => rfl
      | next found after =>
        have hreach := reaches_directiveStep hs
        have hlimit : stop ≤ after.limit := hreach.limit_eq ▸ hstop
        exact congrArg (found ++ ·)
          (ih after (length_directiveStep_lt hs) (hc.of_reaches hreach) hlimit)
    · rw [hdone, hnext]
      exact directivesUpTo_of_le hd

/-! ## 5. Blocks

The outer scan in the same way, up to its step; runs of steps are compared by those who use them,
since they differ in what happens at the seam. -/

/-- A block between two tags of the text does not depend on what follows the text. -/
theorem ofTag_extend {tag : Tag} {close : Cursor} (htag : Settled more tag.after)
    (hclose : tag.after.Reaches close) :
    ofTag (tag.extend more) (close.extend more) = ofTag tag close := by
  have hle : close.offset ≤ tag.after.limit := by
    rw [← hclose.limit_eq, Cursor.limit]
    exact Nat.le_add_right _ _
  have hdirectives := directivesUpTo_extend htag hle
  simp only [ofTag, Tag.name_extend, Tag.after_extend, Cursor.offset_extend, hdirectives,
    Cursor.upTo_extend]
  rfl

/-- The step, with more text behind it. -/
def ScanStep.extend (more : List Char) : ScanStep → ScanStep
  | .fail => .fail
  | .done => .done
  | .next found after => .next found (after.extend more)

/-- The step is the same whatever follows, up to a block that closes only there. -/
theorem blockStep_extend {tag : Tag} (htag : Settled more tag.after)
    (hname : ∀ x ∈ tag.name.toList, Tag.isNameChar x = true) :
    blockStep (tag.extend more) = (blockStep tag).extend more ∨
      blockStep tag = .fail ∧
        ∀ found d, blockStep (tag.extend more) = .next found d → d.rest.length < more.length := by
  unfold blockStep
  by_cases hself : tag.selfClosing = true
  · rw [if_pos (show (tag.extend more).selfClosing = true from hself), if_pos hself]
    exact Or.inl rfl
  · rw [if_neg (show ¬ (tag.extend more).selfClosing = true from hself), if_neg hself]
    simp only [Tag.name_extend, Tag.after_extend]
    cases hclose : close? tag.name.toList (.ofTag tag.name) 0 tag.after with
    | none =>
      cases hclose' : close? tag.name.toList (.ofTag tag.name) 0 (tag.after.extend more) with
      | none => exact Or.inl rfl
      | some close =>
        have hle := length_le_of_close?_none htag hname hclose hclose'
        refine Or.inr ⟨rfl, fun found d h => ?_⟩
        dsimp only at h
        split at h
        · cases h
        · next hends =>
          cases h
          have hstep := Cursor.length_step_lt hends
          have hskip := Cursor.length_skipWhile_le (· != '>') close
          omega
    | some close =>
      rw [close?_extend htag hname hclose]
      dsimp only
      by_cases hends : (close.skipWhile (· != '>')).rest = []
      · refine Or.inr ⟨if_pos hends, fun found d h => ?_⟩
        split at h
        · cases h
        · next hends' =>
          cases h
          refine Nat.lt_of_not_le fun hle => ?_
          have hlt := Nat.lt_of_le_of_lt hle (Cursor.length_step_lt hends')
          exact Cursor.rest_skipWhile_of_lt hlt hends
      · have hends' := (Cursor.skipWhile_extend more hends).1
        rw [if_neg hends, hends', if_neg (by simp [hends]), Cursor.step_extend more hends,
          ofTag_extend htag (close?_spec hclose).1]
        exact Or.inl rfl

/-- Behind an opening tag the scan goes on or fails, and is never done. -/
theorem blockStep_ne_done (tag : Tag) : blockStep tag ≠ .done := by
  unfold blockStep
  split
  · exact nofun
  · split
    · exact nofun
    · split <;> exact nofun

/-- The scan is done where no `<` is left. -/
theorem rest_nextAngle_of_done (h : scanStep c = .done) : (nextAngle c).rest = [] := by
  simp only [scanStep] at h
  split at h
  · next hr => exact hr
  · split at h
    · split at h <;> cases h
    · split at h
      · split at h
        · cases h
        · next tag _ => exact absurd h (blockStep_ne_done tag)
      · cases h

/-- The step is the same whatever follows, up to something that closes only there. -/
theorem scanStep_extend (hc : Settled more c) (hr : (nextAngle c).rest ≠ []) :
    scanStep (c.extend more) = (scanStep c).extend more ∨
      scanStep c = .fail ∧
        ∀ found d, scanStep (c.extend more) = .next found d → d.rest.length < more.length := by
  obtain ⟨r, hangle⟩ := rest_nextAngle hr
  have hsettled := hc _ r (reaches_nextAngle c) hangle
  simp only [scanStep, nextAngle_extend more hr, Cursor.rest_extend, hsettled.comment,
    hsettled.letter, List.append_eq_nil_iff, hr, false_and, if_false]
  split
  · next hcomment =>
    cases hpast : pastComment? (nextAngle c) with
    | some after =>
      rw [pastComment?_extend more hcomment hpast]
      exact Or.inl rfl
    | none =>
      cases hpast' : pastComment? ((nextAngle c).extend more) with
      | none => exact Or.inl rfl
      | some d =>
        refine Or.inr ⟨rfl, fun found d' h => ?_⟩
        cases h
        exact length_lt_of_pastComment?_none hcomment hpast hpast'
  · split
    · cases htag : Tag.parse? (nextAngle c) with
      | some tag =>
        rw [Tag.parse?_extend more hr htag]
        obtain ⟨-, -, hchars⟩ := Tag.parse?_spec htag hangle
        have hreach := (reaches_nextAngle c).trans (reaches_after htag hangle)
        exact blockStep_extend (hc.of_reaches hreach) hchars
      | none =>
        cases htag' : Tag.parse? ((nextAngle c).extend more) with
        | none => exact Or.inl rfl
        | some tag =>
          have hlt := Tag.length_after_lt_of_none hr htag htag'
          refine Or.inr ⟨rfl, fun found d h => Nat.lt_of_le_of_lt ?_ hlt⟩
          exact (reaches_blockStep h).length_le
    · rw [Cursor.step_extend more hr]
      exact Or.inl rfl

/-- A step of the scan does not depend on what follows. -/
theorem scanStep_next_extend (hc : Settled more c) {found : List Block}
    (h : scanStep c = .next found d) : scanStep (c.extend more) = .next found (d.extend more) := by
  rcases scanStep_extend hc (scanStep_next h).1 with hsame | ⟨hfail, -⟩
  · rw [hsame, h]
    rfl
  · rw [h] at hfail
    cases hfail

/-- A step that ends before the added text is a step of the text. -/
theorem scanStep_next_local (hc : Settled more c) {found : List Block}
    (h : scanStep (c.extend more) = .next found d) (hd : more.length ≤ d.rest.length) :
    ∃ e, d = e.extend more ∧ scanStep c = .next found e := by
  have hr : (nextAngle c).rest ≠ [] := by
    refine Cursor.rest_skipWhile_of_lt (Nat.lt_of_le_of_lt hd ?_)
    obtain ⟨hr, honward | ⟨tag, htag, hblock⟩⟩ := scanStep_next h
    · exact honward.length_lt hr
    · exact Nat.lt_of_le_of_lt (reaches_blockStep hblock).length_le (Tag.length_after_lt htag)
  rcases scanStep_extend hc hr with hsame | ⟨-, hbehind⟩
  · rw [h] at hsame
    cases hs : scanStep c with
    | fail =>
      rw [hs] at hsame
      cases hsame
    | done =>
      rw [hs] at hsame
      cases hsame
    | next found' e =>
      rw [hs] at hsame
      cases hsame
      exact ⟨e, rfl, rfl⟩
  · exact absurd hd (Nat.not_le_of_lt (hbehind found d h))

end Block

end ComponentHost
