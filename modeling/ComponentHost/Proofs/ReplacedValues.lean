/-
# A value in the place of another

Inside a markup block stands an element with a value in quotes, and the value is exchanged for
another.  The reader of tags does not look into values (`Tag.CutAt.parse?_eq`), but the search for
the closing tag of the block does: it reads whole tags only of elements that have the name of the
block, and goes through all other elements character by character.  A closing tag in a value of such
an element ends the block (`Layout.regions_replaceValue_closing`), and what opens a comment there
hides what follows.

So an exchange leaves the blocks of the document alone if the search reads the element as a whole,
or if neither the old nor the new value, nor what stands before it in the tag, has anything in it
that the search stops at (`Block.quiet`).  Then all bounds behind the value move by the difference
of the lengths, and nothing else changes (`Layout.regions_replaceValue`).

The text is cut behind the opening quote.  Up to there it is settled by the quote, and the scan and
the search take the same steps for both values; from the closing quote on they read the same text at
two offsets.
-/
import ComponentHost.Proofs.BlockContents
import ComponentHost.Proofs.QuotedValues

namespace ComponentHost

namespace Block

variable {c d e : Cursor} {name more : List Char} {depth n : Nat}

/-! ## 1. On the way of the search

The element with the value is somewhere inside of the block, and the search comes to it after some
steps.  `Searches` records these, with the number of elements that are open at each end, so that the
search may be taken up again at the element. -/

/-- The search for the closing tag of a markup block comes from one place to another, with the given
numbers of open elements. -/
inductive Searches (name : List Char) : Nat → Cursor → Nat → Cursor → Prop
  | refl (depth : Nat) (c : Cursor) : Searches name depth c depth c
  | next {depth depth' n : Nat} {c d e : Cursor}
      (step : closeStep name .markup depth c = .next depth' d)
      (rest : Searches name depth' d n e) : Searches name depth c n e

theorem Searches.reaches (h : Searches name depth c n e) : c.Reaches e := by
  induction h with
  | refl depth c => exact .refl c
  | next step _ ih => exact (reaches_closeStep step).trans ih

/-- What the search finds, it finds from every place on its way. -/
theorem Searches.close?_eq (h : Searches name depth c n e) :
    close? name .markup depth c = close? name .markup n e := by
  induction h with
  | refl => rfl
  | next step _ ih =>
    rw [Block.close?_eq, step]
    exact ih

/-- Steps that are taken in a settled text are taken whatever follows. -/
theorem Searches.extend (hname : ∀ x ∈ name, Tag.isNameChar x = true)
    (h : Searches name depth c n e) (hc : Settled more c) :
    Searches name depth (c.extend more) n (e.extend more) := by
  induction h with
  | refl depth c => exact .refl depth _
  | next step _ ih =>
    exact .next (closeStep_next_extend hc hname step) (ih (hc.of_reaches (reaches_closeStep step)))

/-- A way that ends before the added text is a way through the text. -/
theorem Searches.local (hname : ∀ x ∈ name, Tag.isNameChar x = true)
    (h : Searches name depth (c.extend more) n d) (hc : Settled more c)
    (hd : more.length ≤ d.rest.length) :
    ∃ e, d = e.extend more ∧ Searches name depth c n e := by
  generalize hx : c.extend more = x at h
  induction h generalizing c with
  | refl depth x =>
    subst hx
    exact ⟨c, rfl, .refl depth c⟩
  | next step rest ih =>
    subst hx
    obtain ⟨e, rfl, hstep⟩ :=
      closeStep_next_local hc hname step (Nat.le_trans hd rest.reaches.length_le)
    obtain ⟨e', he', hrest⟩ := ih (hc.of_reaches (reaches_closeStep hstep)) hd rfl
    exact ⟨e', he', .next hstep hrest⟩

/-! ## 2. Text that the search goes through

If the element has another name, the search sees its tag as any text: it stops at each `<` in it and
looks for what may start there.  In quiet text nothing starts, so the search goes through it. -/

/-- No comment opens in the text, and no tag of the given name. -/
def quiet (name : List Char) : List Char → Bool
  | [] => true
  | x :: r => !(commentOpen.isPrefixOf (x :: r) || startsTag ('<' :: name) ⟨0, x :: r⟩ ||
      startsTag ('<' :: '/' :: name) ⟨0, x :: r⟩) && quiet name r

/-- The search goes through quiet text, up to a barrier behind it. -/
theorem close?_quiet (hname : ∀ x ∈ name, Tag.isNameChar x = true) {kind : RegionKind}
    {cs : List Char} (hcs : quiet name cs = true) {z : Char} (hz : isBarrier z = true)
    (offset : Nat) (more : List Char) :
    close? name kind depth ⟨offset, cs ++ z :: more⟩
      = close? name kind depth ⟨offset + byteWidth cs, z :: more⟩ := by
  induction cs generalizing offset with
  | nil => rfl
  | cons x r ih =>
    simp only [quiet, Bool.and_eq_true, Bool.not_eq_true', Bool.or_eq_false_iff] at hcs
    obtain ⟨⟨⟨hcomment, hopening⟩, hclosing⟩, hr⟩ := hcs
    have hrest := ih hr (offset + x.utf8Size)
    rw [byteWidth_cons, ← Nat.add_assoc, ← hrest]
    by_cases hx : x = '<'
    · subst hx
      -- what is seen at the sign is decided before the barrier
      have hsettled : SettledAt (z :: more) ⟨offset, '<' :: r⟩ := settledAt_of_barrier hz rfl more
      have hcomment' := hsettled.comment.trans hcomment
      have hopening' := (hsettled.opening hname).trans hopening
      have hclosing' := (hsettled.closing hname).trans hclosing
      exact close?_angle (fun h => Bool.eq_false_iff.mp hcomment' h.2)
        (Bool.eq_false_iff.mp hclosing') (fun h => Bool.eq_false_iff.mp hopening' h.2)
    · have hplain : '<' ∉ [x] := by simpa using Ne.symm hx
      exact close?_text hplain offset (r ++ z :: more)

/-- The search begins at the next `<` in any case. -/
theorem close?_nextAngle {kind : RegionKind} (c : Cursor) :
    close? name kind depth (nextAngle c) = close? name kind depth c := by
  have hsame : nextAngle (nextAngle c) = nextAngle c := Cursor.skipWhile_skipWhile _ c
  have hstep : closeStep name kind depth (nextAngle c) = closeStep name kind depth c := by
    simp only [closeStep, hsame]
  rw [close?_eq, hstep, ← close?_eq]

/-! ## 3. Elements with the name of the block

If the element has the name of the block, the search reads its tag, because it has to know whether
the element closes itself.  Then the value is opaque to it as it is to the reader of tags. -/

/-- Where a tag starts, no comment and no closing tag does. -/
theorem startsTag_opening {x : Char} (hx : Tag.isNameChar x = true)
    (h : startsTag ('<' :: x :: name) c = true) :
    c.starts commentOpen = false ∧ startsTag ('<' :: '/' :: (x :: name)) c = false := by
  obtain ⟨hword, -⟩ := Bool.and_eq_true_iff.mp h
  obtain ⟨u, r, hrest, hu⟩ := Text.startsWithWord_spec hword
  rcases u with _ | ⟨a, _ | ⟨y, u⟩⟩
  · cases hu
  · simp at hu
  · simp only [List.map_cons, List.cons.injEq] at hu
    obtain ⟨ha, hy, -⟩ := hu
    obtain rfl : a = '<' := Utf8.eq_of_toLower_eq ha (by decide)
    have hnamed : Tag.isNameChar y = true := by
      rw [← Tag.isNameChar_toLower, hy, Tag.isNameChar_toLower, hx]
    constructor
    · have hmark : '!' ≠ y := by
        rintro rfl
        exact absurd hnamed (by decide)
      simp [Cursor.starts, commentOpen, hrest, List.isPrefixOf, hmark]
    · refine Bool.eq_false_iff.mpr fun hclosing => ?_
      obtain ⟨v, r', hrest', -, -⟩ := startsTag_split hclosing
      rw [hrest] at hrest'
      obtain rfl : y = '/' := (List.cons.inj (List.cons.inj hrest').2).1
      exact absurd hnamed (by decide)

/-- At an element with the name of the block, the search goes on behind its tag. -/
theorem close?_of_opening {x : Char} (hx : Tag.isNameChar x = true) (hr : (nextAngle c).rest ≠ [])
    (h : startsTag ('<' :: x :: name) (nextAngle c) = true) :
    close? (x :: name) .markup depth c
      = ((Tag.parse? (nextAngle c)).map fun t => (t.selfClosing, t.after)).bind fun p =>
          close? (x :: name) .markup (if p.1 then depth else depth + 1) p.2 := by
  obtain ⟨hcomment, hclosing⟩ := startsTag_opening hx h
  rw [close?_eq]
  simp only [closeStep, if_neg hr, hcomment, hclosing, h, and_false, Bool.false_eq_true, if_false,
    and_self, if_true]
  cases Tag.parse? (nextAngle c) <;> rfl

/-- A tag that is read with a name starts a tag of that name. -/
theorem startsTag_of_parse? {t : Tag} {r : List Char} (h : Tag.parse? c = some t)
    (hangle : c.rest = '<' :: r)
    (hsame : t.name.toList.map Char.toLower = name.map Char.toLower) :
    startsTag ('<' :: name) c = true := by
  have hcase : startsTag ('<' :: t.name.toList) c = startsTag ('<' :: name) c :=
    startsTag_congr hsame ['<'] c
  have hstep := Cursor.passes_step hangle
  have hrun := Cursor.passes_skipWhile Tag.isNameChar c.step
  have hname : t.name.toList = c.step.run Tag.isNameChar := by
    simp only [Tag.parse?] at h
    split at h
    · cases h
    · obtain ⟨p, -, rfl⟩ := Option.map_eq_some_iff.mp h
      exact String.toList_ofList
  have hrest : c.rest = ('<' :: t.name.toList) ++ (c.step.skipWhile Tag.isNameChar).rest := by
    rw [hstep.rest, hrun.rest, hname]
    rfl
  rw [← hcase]
  refine Bool.and_eq_true_iff.mpr ⟨?_, ?_⟩
  · rw [hrest]
    exact Text.startsWithWord_of_map_toLower_eq rfl _
  · rw [hrest, List.drop_left]
    cases hend : (c.step.skipWhile Tag.isNameChar).rest with
    | nil => rfl
    | cons y r' => simp [Cursor.not_of_skipWhile hend]

/-! ## 4. The search past a value

Both cases come to the same result, which is stated once: behind the value the search depends on its
length alone.  It is told from the closing quote on, as if the text started there, and then moved to
where the quote stands. -/

theorem isBarrier_of_quote {quote : Char} (h : quote = '"' ∨ quote = '\'') :
    isBarrier quote = true ∧ quote ≠ '<' := by
  rcases h with rfl | rfl <;> decide

/-- What the search finds from the content of a block on, past a value that ends with the text so
far: the value may be any that is `allowed`, and behind its closing quote stands `post`.  The place
that is found is told from the closing quote on. -/
def FindsBehind (name : List Char) (c : Cursor) (quote : Char) (post : List Char)
    (allowed : List Char → Prop) (found : Option Cursor) : Prop :=
  (∀ d, found = some d → 0 < d.offset) ∧
  ∀ value, allowed value → close? name .markup 0 (c.extend (value ++ quote :: post))
    = found.map (Cursor.shift (c.limit + byteWidth value))

section Value

variable {p : Cursor} {quote x : Char} {post : List Char}

/-- The value stands in a tag that the search reads as a whole: it may be any without the quote. -/
theorem findsBehind_whole (hname : ∀ y ∈ x :: name, Tag.isNameChar y = true)
    (hlast : c.rest.getLast? = some quote) (hsearch : Searches (x :: name) 0 c n e)
    (hcut : Tag.CutAt (nextAngle e) p quote) (hr : (nextAngle e).rest ≠ [])
    (hopens : startsTag ('<' :: x :: name) (nextAngle e) = true) :
    ∃ found, FindsBehind (x :: name) c quote post (fun value => quote ∉ value) found := by
  obtain ⟨hbarrier, hangle⟩ := isBarrier_of_quote hcut.isQuote
  obtain ⟨r, hsign⟩ := rest_nextAngle hr
  have hreach : c.Reaches (nextAngle e) := hsearch.reaches.trans (reaches_nextAngle e)
  refine ⟨(Tag.attributes? ⟨1, post⟩).bind fun r =>
    close? (x :: name) .markup (if r.2.1 then n else n + 1) r.2.2, fun d hd => ?_,
    fun value hfree => ?_⟩
  · obtain ⟨⟨as, closing, after⟩, hattributes, hclose⟩ := Option.bind_eq_some_iff.mp hd
    obtain ⟨run, hrun⟩ := Tag.attributes?_spec hattributes
    have hle := (hrun.reaches.trans (close?_spec hclose).1).offset_le
    exact Nat.lt_of_lt_of_le Nat.one_pos hle
  · have hsettled := settled_of_last hlast hbarrier hangle (value ++ quote :: post)
    have hplace : nextAngle (e.extend (value ++ quote :: post))
        = (nextAngle e).extend (value ++ quote :: post) := nextAngle_extend _ hr
    have hopens' : startsTag ('<' :: x :: name) (nextAngle (e.extend (value ++ quote :: post)))
        = true := by
      rw [hplace, (hsettled _ r hreach hsign).opening hname]
      exact hopens
    rw [(hsearch.extend hname hsettled).close?_eq,
      close?_of_opening (hname x List.mem_cons_self) (by rw [hplace]; simp [hr]) hopens', hplace,
      hcut.parse?_eq hr hfree, hreach.limit_eq]
    cases Tag.attributes? ⟨1, post⟩ with
    | none => rfl
    | some r => exact close?_shift _ _ _ _ _

/-- The search goes through the value: it may be any without the quote with which the tag is
quiet. -/
theorem findsBehind_quiet (hname : ∀ y ∈ name, Tag.isNameChar y = true)
    (hlast : c.rest.getLast? = some quote) (hquote : quote = '"' ∨ quote = '\'')
    (hsearch : Searches name 0 c n e) (hr : (nextAngle e).rest ≠ []) :
    ∃ found, FindsBehind name c quote post
      (fun value => quiet name ((nextAngle e).rest ++ value) = true) found := by
  obtain ⟨hbarrier, hangle⟩ := isBarrier_of_quote hquote
  have hreach : c.Reaches (nextAngle e) := hsearch.reaches.trans (reaches_nextAngle e)
  refine ⟨close? name .markup n ⟨0, quote :: post⟩, fun d hd => ?_, fun value hquiet => ?_⟩
  · obtain ⟨⟨run, hrun⟩, hclosing⟩ := close?_spec hd
    refine hrun.offset_lt ?_
    -- a closing tag does not start with a quote
    rintro rfl
    obtain ⟨v, r, hrest, -, -⟩ := startsTag_split hclosing
    have hsame : quote :: post = '<' :: '/' :: (v ++ r) := hrun.rest.trans hrest
    exact hangle (List.cons.inj hsame).1
  · have hsettled := settled_of_last hlast hbarrier hangle (value ++ quote :: post)
    have hplace : nextAngle (e.extend (value ++ quote :: post))
        = ⟨(nextAngle e).offset, ((nextAngle e).rest ++ value) ++ quote :: post⟩ := by
      rw [nextAngle_extend _ hr, Cursor.extend, List.append_assoc]
    have hbehind : (⟨(nextAngle e).offset + byteWidth ((nextAngle e).rest ++ value), quote :: post⟩
        : Cursor) = (⟨0, quote :: post⟩ : Cursor).shift (c.limit + byteWidth value) := by
      rw [← hreach.limit_eq, Cursor.shift, Cursor.limit, byteWidth_append, Nat.zero_add,
        Nat.add_assoc]
    rw [(hsearch.extend hname hsettled).close?_eq, ← close?_nextAngle, hplace,
      close?_quiet hname hquiet hbarrier, hbehind, close?_shift]

end Value

end Block

/-! ## 5. Bounds that move

A bound at or before the place of the value stays, and one behind it moves by the difference of the
lengths.  No bound lies within the value, so nothing has to be said about those. -/

/-- Where an offset is after the `old` bytes behind a place have become `new` bytes. -/
def movedOffset (place old new offset : Nat) : Nat :=
  if offset ≤ place then offset else offset - old + new

/-- The region after the `old` bytes behind a place have become `new` bytes. -/
def Region.moved (place old new : Nat) (r : Region) : Region :=
  { r with
    start := movedOffset place old new r.start
    stop := movedOffset place old new r.stop }

theorem movedOffset_of_le {place old new offset : Nat} (h : offset ≤ place) :
    movedOffset place old new offset = offset := if_pos h

theorem movedOffset_behind {place old new offset : Nat} (h : 0 < offset) :
    movedOffset place old new (offset + (place + old)) = offset + (place + new) := by
  rw [movedOffset, if_neg (by omega)]
  omega

theorem Region.moved_shift {place old new : Nat} {r : Region} (hstart : 0 < r.start)
    (hstop : 0 < r.stop) :
    (r.shift (place + old)).moved place old new = r.shift (place + new) := by
  rw [moved, shift, movedOffset_behind hstart, movedOffset_behind hstop, shift]

namespace Cursor

variable {c d e : Cursor} {more : List Char}

/-- A place with at least the added text left is a place of the text. -/
theorem Reaches.before_seam (h : (c.extend more).Reaches d) (hd : more.length ≤ d.rest.length) :
    ∃ e, d = e.extend more ∧ c.Reaches e := by
  obtain ⟨run, hrun⟩ := h
  have hrest : c.rest ++ more = run ++ d.rest := hrun.rest
  obtain ⟨r, hr⟩ : ∃ r, d.rest = r ++ more := by
    have hsuffix : d.rest <:+ c.rest ++ more := hrest ▸ List.suffix_append _ _
    obtain ⟨r, hr⟩ := List.suffix_of_suffix_length_le (List.suffix_append c.rest more) hsuffix hd
    exact ⟨r, hr.symm⟩
  refine ⟨⟨d.offset, r⟩, ?_, run, ?_, hrun.offset⟩
  · rw [extend, ← hr]
  · rw [hr, ← List.append_assoc] at hrest
    exact List.append_cancel_right hrest

/-- A place is determined by the place with the added text. -/
theorem extend_inj (h : c.extend more = d.extend more) : c = d := by
  obtain ⟨hoffset, hrest⟩ := Cursor.mk.inj h
  obtain ⟨offset, rest⟩ := c
  obtain ⟨offset', rest'⟩ := d
  cases hoffset
  cases List.append_cancel_right hrest
  rfl

/-- Places of one text with the same offset are the same. -/
theorem Reaches.eq_of_offset_eq (hd : c.Reaches d) (he : c.Reaches e) (h : d.offset = e.offset) :
    d = e := by
  obtain ⟨run, hrun⟩ := hd
  obtain ⟨run', hrun'⟩ := he
  have hc : c = (⟨c.offset, run⟩ : Cursor).extend d.rest := by
    rw [extend, ← hrun.rest]
  rw [hc] at hrun'
  obtain ⟨-, hrest⟩ := hrun'.eq_of_limit (h.symm.trans hrun.offset)
  obtain ⟨offset, rest⟩ := d
  obtain ⟨offset', rest'⟩ := e
  cases h
  cases hrest
  rfl

end Cursor

namespace Block

variable {c d : Cursor}

theorem Laid.start_le_stop {blocks : List Block} (h : Laid c blocks) :
    ∀ b ∈ blocks, b.region.start ≤ b.region.stop := by
  intro b hb
  obtain ⟨here, tag, close, -, hblock, rfl⟩ := h.exists_of_mem hb
  exact (close?_spec hblock.closes).1.offset_le

/-! ## 6. The scan past a value

The scan comes to the block that holds the value after some other blocks.  Those before it are found
by the same steps for both values, its own opening tag as well, and then the search goes past the
value.  Behind its closing tag the scan reads the same text at two offsets. -/

/-- A block that a step finds has its opening tag there. -/
theorem exists_tag_of_scanStep {found : List Block} {b : Block} (h : scanStep c = .next found d)
    (hb : b ∈ found) :
    ∃ tag close, TagAt c tag ∧ tag.selfClosing = false ∧ b = ofTag tag close := by
  simp only [scanStep] at h
  split at h
  · cases h
  · split at h
    · split at h
      · cases h
      · cases h
        cases hb
    · next hcomment =>
      split at h
      · next hletter =>
        split at h
        · cases h
        · next tag htag =>
          have hat : TagAt c tag := ⟨Bool.eq_false_iff.mpr hcomment, hletter, htag⟩
          unfold blockStep at h
          split at h
          · cases h
            cases hb
          · next hself =>
            split at h
            · cases h
            · next close _ =>
              split at h
              · cases h
              · cases h
                exact ⟨tag, close, hat, Bool.eq_false_iff.mpr hself, List.mem_singleton.mp hb⟩
      · cases h
        cases hb

/-- A block that a step finds before the added text has its opening tag in the text, and the tag
stands there whatever is added. -/
theorem exists_tag_local {more : List Char} {found : List Block} {b : Block}
    (hc : ∀ m, Settled m c) (h : scanStep (c.extend more) = .next found d) (hb : b ∈ found)
    (hinside : ∀ e, (c.extend more).Reaches e → e.offset = b.region.start →
      more.length ≤ e.rest.length) :
    ∃ u : Tag, (∀ m, TagAt (c.extend m) (u.extend m)) ∧ u.selfClosing = false ∧
      b.region.kind = .ofTag u.name ∧ b.region.start = u.after.offset ∧ c.Reaches u.after := by
  obtain ⟨tag, close, htag, hself, rfl⟩ := exists_tag_of_scanStep h hb
  rw [kind_ofTag, start_ofTag]
  have hle : more.length ≤ tag.after.rest.length := hinside tag.after htag.reaches rfl
  have hr : (nextAngle c).rest ≠ [] :=
    Cursor.rest_skipWhile_of_lt (Nat.lt_of_le_of_lt hle (Tag.length_after_lt htag.parsed))
  obtain ⟨r, hsign⟩ := rest_nextAngle hr
  have hseen := fun m => hc m _ r (reaches_nextAngle c) hsign
  obtain ⟨hcomment, hletter, hparsed⟩ := htag
  rw [nextAngle_extend _ hr] at hcomment hletter hparsed
  obtain ⟨u, hu⟩ := Tag.parse?_local hr hparsed hle
  obtain rfl : u.extend more = tag := Option.some.inj ((hu more).symm.trans hparsed)
  have hall : ∀ m, TagAt (c.extend m) (u.extend m) := by
    intro m
    have hplace := nextAngle_extend m hr
    constructor
    · rw [hplace, (hseen m).comment, ← (hseen more).comment, hcomment]
    · rw [hplace, (hseen m).letter, ← (hseen more).letter, hletter]
    · rw [hplace, hu]
  have hhere : TagAt c u := by simpa using hall []
  exact ⟨u, hall, hself, rfl, rfl, hhere.reaches⟩

theorem TagAt.scanStep_eq {tag : Tag} (h : TagAt c tag) : scanStep c = blockStep tag := by
  simp only [scanStep, if_neg h.rest_ne, h.no_comment, h.letter, h.parsed, Bool.false_eq_true,
    if_false, if_true]

/-- The scan from an opening tag on, if the closing tag is told from some offset on. -/
theorem scan?_of_blockStep {tag : Tag} {found : Option Cursor} {k : Nat}
    (hstep : scanStep c = blockStep tag) (hself : tag.selfClosing = false)
    (hclose : close? tag.name.toList (.ofTag tag.name) 0 tag.after = found.map (Cursor.shift k)) :
    scan? c = found.bind fun close =>
      if (close.skipWhile (· != '>')).rest = [] then none
      else (scan? (close.skipWhile (· != '>')).step).map fun others =>
        ofTag tag (close.shift k) :: others.map (shift k) := by
  rw [scan?_eq, hstep]
  cases found with
  | none =>
    rw [Option.map_none] at hclose
    simp only [blockStep, hself, Bool.false_eq_true, if_false, hclose, Option.bind_none]
  | some close =>
    rw [Option.map_some] at hclose
    simp only [blockStep, hself, Bool.false_eq_true, if_false, hclose, Option.bind_some,
      Cursor.skipWhile_shift, Cursor.rest_shift, Cursor.step_shift]
    by_cases hends : (close.skipWhile (· != '>')).rest = []
    · rw [if_pos hends, if_pos hends]
    · rw [if_neg hends, if_neg hends]
      dsimp only
      rw [scan?_shift, Option.map_map]
      rfl

/-- The tags of markup blocks have one name, up to case. -/
theorem toLower_markup {word : String} (h : RegionKind.ofTag word = .markup) :
    word.toList.map Char.toLower = RegionKind.markup.tagWord.toList.map Char.toLower := by
  have hsame := RegionKind.sameWord_tagWord (show RegionKind.ofTag word ≠ .custom by simp [h])
  rwa [h] at hsame

section Scan

variable {base content : Cursor} {quote : Char} {post value value' : List Char}
  {allowed : List Char → Prop} {found : Option Cursor}

/-- The scan from the opening tag of the block that holds the value. -/
theorem scan?_of_opening {u : Tag} (htag : ∀ more, TagAt (c.extend more) (u.extend more))
    (hself : u.selfClosing = false) (hmarkup : RegionKind.ofTag u.name = .markup)
    (hfinds : FindsBehind RegionKind.markup.tagWord.toList u.after quote post allowed found)
    (hvalue : allowed value) :
    scan? (c.extend (value ++ quote :: post)) = found.bind fun close =>
      if (close.skipWhile (· != '>')).rest = [] then none
      else (scan? (close.skipWhile (· != '>')).step).map fun others =>
        ofTag (u.extend (value ++ quote :: post)) (close.shift (u.after.limit + byteWidth value))
          :: others.map (shift (u.after.limit + byteWidth value)) := by
  refine scan?_of_blockStep (htag _).scanStep_eq hself ?_
  rw [Tag.name_extend, Tag.after_extend, hmarkup, close?_congr (toLower_markup hmarkup)]
  exact hfinds.2 value hvalue

/-- The region of a block whose closing tag is told from some offset on. -/
theorem moved_region_ofTag {u : Tag} {close : Cursor} {place old new : Nat}
    (hstart : u.after.offset ≤ place) (hclose : 0 < close.offset) (more more' : List Char) :
    (ofTag (u.extend more) (close.shift (place + old))).region.moved place old new
      = (ofTag (u.extend more') (close.shift (place + new))).region := by
  have hregion : ∀ m d, (ofTag (u.extend m) d).region = .block (.ofTag u.name)
      ((RegionKind.ofTag u.name).languageOf u.name (u.attribute? (Text.sameWord "lang")))
      u.after.offset d.offset := fun m d => by simp only [ofTag, Tag.extend, Tag.attribute?]; rfl
  rw [hregion, hregion, Region.moved, Region.block, Region.block, Cursor.offset_shift,
    Cursor.offset_shift]
  dsimp only
  rw [movedOffset_of_le hstart, movedOffset_behind hclose]

/-- The block that holds the value, and the blocks behind it. -/
theorem scan?_replaced_here {u : Tag} (htag : ∀ more, TagAt (c.extend more) (u.extend more))
    (hself : u.selfClosing = false) (hmarkup : RegionKind.ofTag u.name = .markup)
    (hfinds : FindsBehind RegionKind.markup.tagWord.toList u.after quote post allowed found)
    (hafter : base.Reaches u.after) {blocks : List Block} (hvalue : allowed value)
    (hscan : scan? (c.extend (value ++ quote :: post)) = some blocks) (hvalue' : allowed value') :
    ∃ blocks', scan? (c.extend (value' ++ quote :: post)) = some blocks' ∧
      blocks'.map region = (blocks.map region).map
        (Region.moved base.limit (byteWidth value) (byteWidth value')) := by
  have hopening := fun {v} (hv : allowed v) =>
    scan?_of_opening htag hself hmarkup hfinds hv
  rw [hopening hvalue] at hscan
  cases found with
  | none => cases hscan
  | some close =>
    have hclose : 0 < close.offset := hfinds.1 close rfl
    rw [Option.bind_some] at hscan
    split at hscan
    · cases hscan
    · next hends =>
      obtain ⟨others, hothers, rfl⟩ := Option.map_eq_some_iff.mp hscan
      refine ⟨_, by rw [hopening hvalue', Option.bind_some, if_neg hends, hothers, Option.map_some],
        ?_⟩
      have hstart : u.after.offset ≤ base.limit := by
        rw [← hafter.limit_eq, Cursor.limit]
        exact Nat.le_add_right _ _
      have hlaid := scan?_laid hothers
      have hbehind : 0 < (close.skipWhile (· != '>')).step.offset :=
        Nat.lt_of_lt_of_le hclose ((Cursor.reaches_skipWhile _ close).trans
          (Cursor.reaches_step _)).offset_le
      rw [hafter.limit_eq, List.map_cons, List.map_cons, List.map_cons,
        moved_region_ofTag hstart hclose]
      refine congrArg (_ :: ·) ?_
      rw [List.map_map, List.map_map, List.map_map]
      refine List.map_congr_left fun b hb => ?_
      have hfirst : 0 < b.region.start := Nat.lt_of_lt_of_le hbehind (hlaid.le_start hb)
      exact (Region.moved_shift hfirst
        (Nat.lt_of_lt_of_le hfirst (hlaid.start_le_stop b hb))).symm

/-- **The scan past a value.**  The blocks before the one that holds the value stay, its own end and
the blocks behind it move.  By induction on what is left: the step finds the block, and then the
lemma above applies, or it finds another block or none and ends before the value. -/
theorem scan?_replaced (hsettled : ∀ more, Settled more base) (hbase : base.Reaches c)
    (hcontent : base.Reaches content)
    (hfinds : FindsBehind RegionKind.markup.tagWord.toList content quote post allowed found)
    (hvalue : allowed value) {blocks : List Block}
    (hscan : scan? (c.extend (value ++ quote :: post)) = some blocks) {b : Block} (hb : b ∈ blocks)
    (hstart : b.region.start = content.offset) (hmarkup : b.region.kind = .markup)
    (hvalue' : allowed value') :
    ∃ blocks', scan? (c.extend (value' ++ quote :: post)) = some blocks' ∧
      blocks'.map region = (blocks.map region).map
        (Region.moved base.limit (byteWidth value) (byteWidth value')) := by
  induction c using Cursor.induction_on_rest generalizing blocks with
  | step c ih =>
    have hlaid := scan?_laid hscan
    have hlimit : c.limit = base.limit := hbase.limit_eq
    have hbefore : content.offset ≤ c.limit := by
      rw [hlimit, ← hcontent.limit_eq, Cursor.limit]
      exact Nat.le_add_right _ _
    -- a place up to the content of the block stands before the value
    have hinside : ∀ {d : Cursor}, (c.extend (value ++ quote :: post)).Reaches d →
        d.offset ≤ content.offset → (value ++ quote :: post).length ≤ d.rest.length := by
      intro d hd hle
      refine Nat.le_of_not_lt fun hlt => ?_
      have := Cursor.limit_lt_offset hd hlt
      omega
    have hblocks := hscan
    rw [scan?_eq] at hscan
    cases hs : scanStep (c.extend (value ++ quote :: post)) with
    | fail =>
      rw [hs] at hscan
      cases hscan
    | done =>
      rw [hs] at hscan
      cases hscan
      cases hb
    | next first d =>
      rw [hs] at hscan
      obtain ⟨others, hothers, rfl⟩ := Option.map_eq_some_iff.mp hscan
      rcases List.mem_append.mp hb with hmem | hmem
      · obtain ⟨u, htag, hself, hkind, hplace, hafter⟩ :=
          exists_tag_local (fun more => (hsettled more).of_reaches hbase) hs hmem
            fun e he heq => hinside he (Nat.le_of_eq (heq.trans hstart))
        obtain rfl : u.after = content :=
          (hbase.trans hafter).eq_of_offset_eq hcontent (hplace.symm.trans hstart)
        exact scan?_replaced_here htag hself (hkind.symm.trans hmarkup) hfinds hcontent hvalue
          hblocks hvalue'
      · -- the block stands further on, so this step ends before the value
        have hd : d.offset ≤ content.offset := hstart ▸ (scan?_laid hothers).le_start hmem
        obtain ⟨e, rfl, hstep⟩ := scanStep_next_local ((hsettled _).of_reaches hbase) hs
          (hinside (reaches_scanStep hs) hd)
        obtain ⟨blocks', hscan', hregions⟩ := ih e (length_scanStep_lt hstep)
          (hbase.trans (reaches_scanStep hstep)) hothers hmem
        refine ⟨first ++ blocks', ?_, ?_⟩
        · rw [scan?_eq, scanStep_next_extend ((hsettled _).of_reaches hbase) hstep]
          dsimp only
          rw [hscan', Option.map_some]
        · rw [List.map_append, List.map_append, List.map_append, hregions]
          refine congrArg (· ++ _) ?_
          rw [List.map_map]
          refine List.map_congr_left fun x hx => ?_
          have hlt := (List.pairwise_append.mp hlaid.pairwise).2.2 x hx b hmem
          have hle := hlaid.start_le_stop x (List.mem_append_left _ hx)
          show x.region = x.region.moved _ _ _
          rw [Region.moved, movedOffset_of_le (by omega), movedOffset_of_le (by omega)]

/-- The block that holds the value ends behind it. -/
theorem limit_lt_stop (hcontent : base.Reaches content)
    (hfinds : FindsBehind RegionKind.markup.tagWord.toList content quote post allowed found)
    (hvalue : allowed value) {blocks : List Block}
    (hlaid : Laid (base.extend (value ++ quote :: post)) blocks) {b : Block} (hb : b ∈ blocks)
    (hstart : b.region.start = content.offset) (hmarkup : b.region.kind = .markup) :
    base.limit + byteWidth value < b.region.stop := by
  obtain ⟨here, tag, close, hlooks, hblock, rfl⟩ := hlaid.exists_of_mem hb
  rw [kind_ofTag] at hmarkup
  rw [start_ofTag] at hstart
  rw [stop_ofTag]
  obtain ⟨run, hrun⟩ := hcontent
  have hafter : tag.after = content.extend (value ++ quote :: post) :=
    ((reaches_of_follows hlooks).trans hblock.reaches).eq_of_offset_eq (hrun.extend _).reaches
      hstart
  have hcloses := hblock.closes
  rw [hafter, hmarkup, close?_congr (toLower_markup hmarkup), hfinds.2 value hvalue] at hcloses
  obtain ⟨d, hd, rfl⟩ := Option.map_eq_some_iff.mp hcloses
  rw [Cursor.offset_shift, hrun.reaches.limit_eq]
  exact Nat.lt_add_of_pos_left (hfinds.1 d hd)

end Scan

end Block

/-! ## 7. Documents

The statement about documents.  The text is given in four pieces, of which the third is exchanged;
which element the value belongs to, and that the search comes to it, are hypotheses, since a value
can stand in a comment or in the value of another element and be no value at all. -/

namespace Layout

/-- The markup block of the region `r` holds an element with the tag `t`, and a value of the element
stands in quotes.  The element starts behind `before`, its tag is `opened` up to the opening quote,
and `back` is the text from the closing quote on. -/
structure ElementValue (before opened value back : String) (quote : Char) (r : Region) (t : Tag) :
    Prop where
  isQuote : quote = '"' ∨ quote = '\''
  quoted : opened.toList.getLast? = some quote
  region : r ∈ (ofText (before ++ opened ++ value ++ back)).regions
  markup : r.kind = .markup
  tag : Tag.parse? ⟨before.utf8ByteSize, (opened ++ value ++ back).toList⟩ = some t
  inTag : ∃ a ∈ t.attributes, a.value = some
    ⟨value, (before ++ opened).utf8ByteSize, (before ++ opened ++ value).utf8ByteSize⟩
  /-- The element stands in the block, and not in a comment or in the tag of another element that
  is read as a whole. -/
  searched : ∃ start n c, start.IsPlaceOf (before ++ opened ++ value ++ back) ∧
    start.offset = r.start ∧ Block.Searches RegionKind.markup.tagWord.toList 0 start n c ∧
    Block.nextAngle c = ⟨before.utf8ByteSize, (opened ++ value ++ back).toList⟩

variable {before opened value value' back : String} {quote : Char} {r : Region} {t : Tag}

/-- The text, cut behind the opening quote. -/
theorem ofText_cut (before opened value back : String) :
    Cursor.ofText (before ++ opened ++ value ++ back)
      = (Cursor.ofText (before ++ opened)).extend (value.toList ++ back.toList) := by
  simp only [Cursor.ofText, Cursor.extend, String.toList_append, List.append_assoc]

/-- The tag up to the quote has at least the quote. -/
theorem ElementValue.opened_ne_nil (h : ElementValue before opened value back quote r t) :
    opened.toList ≠ [] := by
  intro hnil
  have hlast := h.quoted
  rw [hnil] at hlast
  cases hlast

/-- The opening quote settles what stands before it, whatever follows. -/
theorem ElementValue.settled (h : ElementValue before opened value back quote r t)
    (more : List Char) : Block.Settled more (Cursor.ofText (before ++ opened)) := by
  obtain ⟨hbarrier, hsign⟩ := Block.isBarrier_of_quote h.isQuote
  have hlast : (Cursor.ofText (before ++ opened)).rest.getLast? = some quote := by
    rw [Cursor.ofText, String.toList_append, List.getLast?_append, h.quoted, Option.some_or]
  exact Block.settled_of_last hlast hbarrier hsign more

/-- What is known of a value, told from the text up to its opening quote. -/
theorem ElementValue.exists_cut (h : ElementValue before opened value back quote r t) :
    ∃ content n e p post, (Cursor.ofText (before ++ opened)).Reaches content ∧
      content.offset = r.start ∧ Block.Searches RegionKind.markup.tagWord.toList 0 content n e ∧
      Block.nextAngle e = ⟨before.utf8ByteSize, opened.toList⟩ ∧
      Tag.CutAt (Block.nextAngle e) p quote ∧ back.toList = quote :: post ∧
      quote ∉ value.toList := by
  obtain ⟨start, n, c, hplace, hoffset, hsearch, hangle⟩ := h.searched
  have hopened := h.opened_ne_nil
  have hsettled := h.settled (value.toList ++ back.toList)
  have hbehind : (opened ++ value ++ back).toList
      = opened.toList ++ (value.toList ++ back.toList) := by
    rw [String.toList_append, String.toList_append, List.append_assoc]
  rw [hbehind] at hangle
  -- the element starts before the cut, so the way to it does not go behind it
  have hlonger : (value.toList ++ back.toList).length < (Block.nextAngle c).rest.length := by
    have hpos := List.length_pos_iff.mpr hopened
    simp only [hangle, List.length_append]
    omega
  have hc := Nat.le_trans (Nat.le_of_lt hlonger) (Block.reaches_nextAngle c).length_le
  rw [Cursor.IsPlaceOf, ofText_cut] at hplace
  obtain ⟨content, rfl, hcontent⟩ :=
    hplace.before_seam (Nat.le_trans hc hsearch.reaches.length_le)
  obtain ⟨e, rfl, hway⟩ :=
    hsearch.local RegionKind.markup.named_tagWord (hsettled.of_reaches hcontent) hc
  have hr : (Block.nextAngle e).rest ≠ [] := Cursor.rest_skipWhile_of_lt hlonger
  rw [Block.nextAngle_extend _ hr] at hangle
  have helement : Block.nextAngle e = ⟨before.utf8ByteSize, opened.toList⟩ :=
    Cursor.extend_inj hangle
  obtain ⟨a, ha, hv⟩ := h.inTag
  have htag := h.tag
  rw [hbehind] at htag
  have hstart : (before ++ opened).utf8ByteSize
      = (⟨before.utf8ByteSize, opened.toList⟩ : Cursor).limit := by
    rw [Cursor.limit, Cursor.byteWidth_toList, String.utf8ByteSize_append]
  obtain ⟨⟨p, hcut⟩, text, post, hmore, hfree, htext⟩ := Tag.exists_cutAt
    (c := ⟨before.utf8ByteSize, opened.toList⟩) hopened h.quoted h.isQuote htag ha hv hstart
  obtain rfl : value = String.ofList text := htext
  rw [String.toList_ofList] at hmore ⊢
  rw [← helement] at hcut
  exact ⟨content, n, e, p, post, hcontent, hoffset, hway, helement, hcut,
    List.append_cancel_left hmore, hfree⟩

/-- The exchange is safe: the search reads the tag as a whole, or it finds nothing in the tag up to
the end of the value, neither before nor after. -/
def SafeExchange (t : Tag) (opened value value' : String) : Prop :=
  Text.sameWord t.name RegionKind.markup.tagWord = true ∨
    Block.quiet RegionKind.markup.tagWord.toList (opened ++ value).toList = true ∧
      Block.quiet RegionKind.markup.tagWord.toList (opened ++ value').toList = true

/-- The search past the value, from the content of the block on. -/
theorem ElementValue.findsBehind (h : ElementValue before opened value back quote r t)
    (hfree : quote ∉ value'.toList) (hsafe : SafeExchange t opened value value') :
    ∃ content post allowed found, (Cursor.ofText (before ++ opened)).Reaches content ∧
      content.offset = r.start ∧ back.toList = quote :: post ∧
      Block.FindsBehind RegionKind.markup.tagWord.toList content quote post allowed found ∧
      allowed value.toList ∧ allowed value'.toList := by
  obtain ⟨content, n, e, p, post, hcontent, hoffset, hway, helement, hcut, hback, hold⟩ :=
    h.exists_cut
  have hreach := hway.reaches.trans (Block.reaches_nextAngle e)
  have hr : (Block.nextAngle e).rest ≠ [] := helement ▸ h.opened_ne_nil
  have hlast : content.rest.getLast? = some quote := by
    obtain ⟨run, hrun⟩ := hreach
    rw [hrun.rest, helement, List.getLast?_append, h.quoted, Option.some_or]
  rcases hsafe with hname | ⟨hquiet, hquiet'⟩
  · obtain ⟨behind, hangle⟩ := Block.rest_nextAngle hr
    have hseen := h.settled (value.toList ++ back.toList) _ behind (hcontent.trans hreach) hangle
    have htag : Tag.parse? ((Block.nextAngle e).extend (value.toList ++ back.toList)) = some t := by
      rw [helement, Cursor.extend, ← List.append_assoc, ← String.toList_append,
        ← String.toList_append]
      exact h.tag
    have hopens := (hseen.opening RegionKind.markup.named_tagWord).symm.trans
      (Block.startsTag_of_parse? htag (by rw [Cursor.rest_extend, hangle, List.cons_append])
        (Text.sameWord_iff.mp hname))
    obtain ⟨found, hfinds⟩ : ∃ found, Block.FindsBehind RegionKind.markup.tagWord.toList content
        quote post (fun value => quote ∉ value) found :=
      Block.findsBehind_whole RegionKind.markup.named_tagWord hlast hway hcut hr hopens
    exact ⟨content, post, _, found, hcontent, hoffset, hback, hfinds, hold, hfree⟩
  · obtain ⟨found, hfinds⟩ : ∃ found, Block.FindsBehind RegionKind.markup.tagWord.toList content
        quote post (fun value => Block.quiet RegionKind.markup.tagWord.toList
          ((Block.nextAngle e).rest ++ value) = true) found :=
      Block.findsBehind_quiet RegionKind.markup.named_tagWord hlast h.isQuote hway hr
    refine ⟨content, post, _, found, hcontent, hoffset, hback, hfinds, ?_, ?_⟩
    · rw [helement, ← String.toList_append]
      exact hquiet
    · rw [helement, ← String.toList_append]
      exact hquiet'

/-- **An exchanged value moves what stands behind it.**  If the exchange is safe, the document still
scans, and its blocks are those from before, of the same sorts and languages; the block that holds
the value ends behind it, and every bound behind the value moves by the difference of the
lengths. -/
theorem regions_replaceValue (h : ElementValue before opened value back quote r t)
    (hfree : quote ∉ value'.toList) (hsafe : SafeExchange t opened value value') :
    (Block.scan? (Cursor.ofText (before ++ opened ++ value' ++ back))).isSome ∧
      (ofText (before ++ opened ++ value' ++ back)).regions
        = (ofText (before ++ opened ++ value ++ back)).regions.map (Region.moved
          (before ++ opened).utf8ByteSize value.utf8ByteSize value'.utf8ByteSize) ∧
      (before ++ opened ++ value).utf8ByteSize < r.stop := by
  obtain ⟨content, post, allowed, found, hcontent, hoffset, hback, hfinds, hvalue, hvalue'⟩ :=
    h.findsBehind hfree hsafe
  have hlimit : (Cursor.ofText (before ++ opened)).limit = (before ++ opened).utf8ByteSize := by
    rw [Cursor.limit, Cursor.ofText, Cursor.byteWidth_toList, Nat.zero_add]
  obtain ⟨b, hb, rfl⟩ := List.mem_map.mp h.region
  have hlaid := laid_ofText (before ++ opened ++ value ++ back)
  simp only [ofText, ofBlocks]
  cases hscan : Block.scan? (Cursor.ofText (before ++ opened ++ value ++ back)) with
  | none =>
    rw [hscan] at hb
    cases hb
  | some blocks =>
    rw [hscan, Option.getD_some] at hb hlaid
    rw [ofText_cut, hback] at hscan hlaid
    obtain ⟨blocks', hscan', hregions⟩ := Block.scan?_replaced h.settled (.refl _) hcontent hfinds
      hvalue hscan hb hoffset.symm h.markup hvalue'
    rw [hlimit, Cursor.byteWidth_toList, Cursor.byteWidth_toList] at hregions
    rw [ofText_cut, hback, hscan', Option.getD_some]
    have hstop := Block.limit_lt_stop hcontent hfinds hvalue hlaid hb hoffset.symm h.markup
    rw [hlimit, Cursor.byteWidth_toList, ← String.utf8ByteSize_append] at hstop
    exact ⟨rfl, hregions, hstop⟩

/-- A closing tag in a value of a nested element of the same name, and a comparison in a value of
another element, with a script block behind. -/
theorem regions_replaceValue_safe :
    (ofText ("<template>é " ++ "<Template a=\"" ++ "</template>" ++ "\"/></template>")).regions
      = [.block .markup "component-markup" 10 40] ∧
    (ofText ("<template><b>" ++ "<p a='" ++ "1 < 2 </p>"
        ++ "'></p></b></template><script></script>")).regions
      = [.block .markup "component-markup" 10 39, .block .script "script" 58 58] := by
  have hnested : ElementValue "<template>é " "<Template a=\"" "b" "\"/></template>" '"'
      (.block .markup "component-markup" 10 30)
      ⟨"Template", [⟨"a", some ⟨"b", 26, 27⟩⟩], true, ⟨30, "</template>".toList⟩⟩ :=
    { isQuote := by decide
      quoted := by decide
      region := by decide +kernel
      markup := rfl
      tag := by decide +kernel
      inTag := by decide +kernel
      searched := ⟨⟨10, "é <Template a=\"b\"/></template>".toList⟩, 0, _,
        ⟨"<template>".toList, by decide +kernel, by decide +kernel⟩, rfl, .refl _ _,
        by decide +kernel⟩ }
  have hquiet : ElementValue "<template><b>" "<p a='" "x" "'></p></b></template><script></script>"
      '\'' (.block .markup "component-markup" 10 30)
      ⟨"p", [⟨"a", some ⟨"x", 19, 20⟩⟩], false,
        ⟨22, "</p></b></template><script></script>".toList⟩⟩ :=
    { isQuote := by decide
      quoted := by decide
      region := by decide +kernel
      markup := rfl
      tag := by decide +kernel
      inTag := by decide +kernel
      searched := ⟨⟨10, "<b><p a='x'></p></b></template><script></script>".toList⟩, 0,
        ⟨11, "b><p a='x'></p></b></template><script></script>".toList⟩,
        ⟨"<template>".toList, by decide +kernel, by decide +kernel⟩, rfl,
        .next (by decide +kernel) (.refl _ _), by decide +kernel⟩ }
  have hold : (ofText ("<template>é " ++ "<Template a=\"" ++ "b" ++ "\"/></template>")).regions
      = [.block .markup "component-markup" 10 30] := by
    decide +kernel
  have hold' : (ofText ("<template><b>" ++ "<p a='" ++ "x"
        ++ "'></p></b></template><script></script>")).regions
      = [.block .markup "component-markup" 10 30, .block .script "script" 49 49] := by
    decide +kernel
  constructor
  · rw [(regions_replaceValue hnested (by decide) (.inl (by decide +kernel))).2.1, hold]
    decide +kernel
  · rw [(regions_replaceValue hquiet (by decide)
      (.inr ⟨by decide +kernel, by decide +kernel⟩)).2.1, hold']
    decide +kernel

/-- A closing tag in a value of an element of another name ends the block there, and not behind the
element. -/
theorem regions_replaceValue_closing :
    (∃ t, ElementValue "<template>" "<p a=\"" "b" "\"></p></template>" '"'
      (.block .markup "component-markup" 10 23) t) ∧ '"' ∉ "</template>".toList ∧
    (ofText ("<template>" ++ "<p a=\"" ++ "</template>" ++ "\"></p></template>")).regions
      = [.block .markup "component-markup" 10 16] ∧
    (ofText ("<template>" ++ "<p a=\"" ++ "b" ++ "\"></p></template>")).regions.map
        (Region.moved 16 1 11)
      = [.block .markup "component-markup" 10 33] := by
  refine ⟨⟨⟨"p", [⟨"a", some ⟨"b", 16, 17⟩⟩], false, ⟨19, "</p></template>".toList⟩⟩, ?_⟩,
    by decide, by decide +kernel, by decide +kernel⟩
  exact
    { isQuote := by decide
      quoted := by decide
      region := by decide +kernel
      markup := rfl
      tag := by decide +kernel
      inTag := by decide +kernel
      searched := ⟨⟨10, "<p a=\"b\"></p></template>".toList⟩, 0, _,
        ⟨"<template>".toList, by decide +kernel, by decide +kernel⟩, rfl, .refl _ _,
        by decide +kernel⟩ }

/-- What opens a comment there leaves the block without an end. -/
example : Block.scan? (Cursor.ofText
    ("<template>" ++ "<p a=\"" ++ "<!--" ++ "\"></p></template>")) = none := by
  decide +kernel

end Layout

end ComponentHost
