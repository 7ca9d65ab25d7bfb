/-
# The regions of directives

The values of directives are collected by a scanner of its own, which reads the content of a markup
block from tag to tag.  It does not follow the search for the closing tag: a quote or a comment that
is open at the end of the block leads it past that end.  What it finds there is dropped.

So the places of a value are known from two sides.  The reader of attributes gives values that lie
inside the tag, one behind the other (`Tag.attributes?_values`): a value starts behind at least one
character of a name, and the tag goes on behind it at least to its `>`.  The collection keeps the
values of tags that end inside the block (`Block.directivesUpTo_spec`).  Together with the order of
the blocks this places every value in one block and all values in one row
(`Layout.attributeRegions_wellFormed`).
-/
import ComponentHost.Proofs.Lookahead

namespace ComponentHost

/-! ## 1. Stretches of a text

A value is recorded by two offsets.  That they are character boundaries, and where they stand, is
said by the places that they belong to: `Holds` gives both at once, and is passed on from the reader
of a value to that of the tag and on to the document. -/

namespace Cursor

/-- The stretch lies between the two places, and its bounds are places. -/
def Holds (c d : Cursor) (start stop : Nat) : Prop :=
  ∃ first last : Cursor, c.Reaches first ∧ first.Reaches last ∧ last.Reaches d ∧
    first.offset = start ∧ last.offset = stop

variable {b c d e : Cursor} {start stop : Nat}

theorem Holds.of_reaches (h : c.Holds d start stop) (hbefore : b.Reaches c)
    (hbehind : d.Reaches e) : b.Holds e start stop := by
  obtain ⟨first, last, hfirst, hinside, hlast, hstart, hstop⟩ := h
  exact ⟨first, last, hbefore.trans hfirst, hinside, hlast.trans hbehind, hstart, hstop⟩

theorem Holds.le_start (h : c.Holds d start stop) : c.offset ≤ start := by
  obtain ⟨first, last, hfirst, -, -, rfl, -⟩ := h
  exact hfirst.offset_le

theorem Holds.start_le_stop (h : c.Holds d start stop) : start ≤ stop := by
  obtain ⟨first, last, -, hinside, -, rfl, rfl⟩ := h
  exact hinside.offset_le

theorem Holds.stop_le (h : c.Holds d start stop) : stop ≤ d.offset := by
  obtain ⟨first, last, -, -, hlast, -, rfl⟩ := h
  exact hlast.offset_le

end Cursor

/-! ## 2. The values of a tag

The reader of attributes goes through the tag once.  Each step starts with a character of a name, or
passes some other sign, so the value that it finds starts behind the step; and it ends no later than
the next step begins.  The order of the values follows by induction. -/

namespace Tag

variable {c d : Cursor}

/-- A value in quotes starts behind the first quote and ends before the second. -/
theorem quotedValue?_holds {quote : Char} {v : Excerpt} (h : quotedValue? quote c = some (v, d)) :
    c.Holds d v.start v.stop := by
  simp only [quotedValue?] at h
  split at h
  · cases h
  · cases h
    exact ⟨_, _, Cursor.reaches_step c, Cursor.reaches_skipWhile _ _, Cursor.reaches_step _, rfl,
      rfl⟩

theorem announcedValue?_holds {v : Excerpt} (h : announcedValue? c = some (v, d)) :
    c.Holds d v.start v.stop := by
  unfold announcedValue? at h
  split at h
  · exact quotedValue?_holds h
  · split at h
    · exact quotedValue?_holds h
    · cases h
      exact ⟨c, _, .refl c, Cursor.reaches_skipWhile _ c, .refl _, rfl, rfl⟩

/-- Between the equals sign and the value there may be blanks. -/
theorem attributeValue?_holds {v : Excerpt} (h : attributeValue? c = some (some v, d)) :
    c.Holds d v.start v.stop := by
  rw [attributeValue?_eq] at h
  split at h
  · obtain ⟨⟨w, after⟩, hvalue, heq⟩ := Option.map_eq_some_iff.mp h
    cases heq
    exact (announcedValue?_holds hvalue).of_reaches
      ((Cursor.reaches_step c).trans (Cursor.reaches_skipWhile _ _)) (.refl _)
  · cases h

/-- A step goes on behind where it starts, and the value of an attribute that it finds lies between,
behind the name. -/
theorem attributeStep_next {found : List TagAttribute} (h : attributeStep c = .next found d) :
    c.Reaches d ∧ (found = [] ∨ ∃ a, found = [a] ∧
      ∀ v, a.value = some v → c.Holds d v.start v.stop ∧ c.offset < v.start) := by
  have hhere : c.Reaches (c.skipWhile isSpace) := Cursor.reaches_skipWhile _ c
  unfold attributeStep attributeAt at h
  split at h
  · cases h
  · next hr =>
    split at h
    · cases h
    · split at h
      · cases h
      · split at h
        · next hname =>
          split at h
          · cases h
          · next value after hvalue =>
            cases h
            obtain ⟨x, r, hx⟩ := List.exists_cons_of_ne_nil hr
            rw [hx, List.head?_cons, Option.any_some] at hname
            -- the name has a character, so the value starts behind it
            have hrun : (c.skipWhile isSpace).run isAttributeChar ≠ [] := by
              rw [Cursor.run, hx, List.takeWhile_cons_of_pos hname]
              exact List.cons_ne_nil _ _
            have hlt :=
              (Cursor.passes_skipWhile isAttributeChar (c.skipWhile isSpace)).offset_lt hrun
            have hle := hhere.offset_le
            have hgap : c.Reaches
                (((c.skipWhile isSpace).skipWhile isAttributeChar).skipWhile isSpace) :=
              hhere.trans ((Cursor.reaches_skipWhile _ _).trans (Cursor.reaches_skipWhile _ _))
            refine ⟨hgap.trans (attributeValue?_reaches hvalue), Or.inr ⟨_, rfl, fun v hv => ?_⟩⟩
            subst hv
            have hholds := attributeValue?_holds hvalue
            have hstart :=
              Nat.le_trans (Cursor.reaches_skipWhile isSpace _).offset_le hholds.le_start
            exact ⟨hholds.of_reaches hgap (.refl _), by omega⟩
        · cases h
          exact ⟨hhere.trans (Cursor.reaches_step _), Or.inl rfl⟩

/-- **The values of the attributes of a tag stand one behind the other**, all of them inside the
tag. -/
theorem attributes?_values {as : List TagAttribute} {closing : Bool}
    (h : attributes? c = some (as, closing, d)) :
    (∀ a ∈ as, ∀ v, a.value = some v →
      c.Holds d v.start v.stop ∧ c.offset < v.start ∧ v.stop < d.offset) ∧
    as.Pairwise fun a b => ∀ v, a.value = some v → ∀ w, b.value = some w → v.stop < w.start := by
  induction c using Cursor.induction_on_rest generalizing as with
  | step c ih =>
    rw [attributes?_eq] at h
    cases hs : attributeStep c with
    | fail =>
      rw [hs] at h
      cases h
    | done selfClosing after =>
      rw [hs] at h
      cases h
      exact ⟨nofun, .nil⟩
    | next found after =>
      rw [hs] at h
      obtain ⟨⟨others, closing', d'⟩, hothers, heq⟩ := Option.map_eq_some_iff.mp h
      cases heq
      obtain ⟨hvalues, hpairwise⟩ := ih after (length_attributeStep_lt hs) hothers
      obtain ⟨run, hrun⟩ := attributes?_spec hothers
      have hends : after.offset < d.offset := hrun.offset_lt (by simp)
      obtain ⟨hreach, rfl | ⟨a, rfl, ha⟩⟩ := attributeStep_next hs
      · refine ⟨fun b hb v hv => ?_, hpairwise⟩
        obtain ⟨hholds, hlt, hstop⟩ := hvalues b hb v hv
        have hle := hreach.offset_le
        exact ⟨hholds.of_reaches hreach (.refl d), by omega, hstop⟩
      · refine ⟨fun b hb v hv => ?_, .cons (fun b hb v hv w hw => ?_) hpairwise⟩
        · rcases List.mem_cons.mp hb with rfl | hb
          · obtain ⟨hholds, hlt⟩ := ha v hv
            have hstop := hholds.stop_le
            exact ⟨hholds.of_reaches (.refl c) hrun.reaches, hlt, by omega⟩
          · obtain ⟨hholds, hlt, hstop⟩ := hvalues b hb v hv
            have hle := hreach.offset_le
            exact ⟨hholds.of_reaches hreach (.refl d), by omega, hstop⟩
        · -- a value ends where the step ends, and the next one starts behind that
          have hstop := (ha v hv).1.stop_le
          have hstart := (hvalues b hb w hw).2.1
          omega

/-- The values of a tag lie inside it. -/
theorem parse?_values {t : Tag} (h : parse? c = some t) :
    (∀ a ∈ t.attributes, ∀ v, a.value = some v →
      c.Holds t.after v.start v.stop ∧ c.offset < v.start ∧ v.stop < t.after.offset) ∧
    t.attributes.Pairwise fun a b =>
      ∀ v, a.value = some v → ∀ w, b.value = some w → v.stop < w.start := by
  simp only [parse?] at h
  split at h
  · cases h
  · obtain ⟨⟨as, closing, after⟩, has, rfl⟩ := Option.map_eq_some_iff.mp h
    obtain ⟨hvalues, hpairwise⟩ := attributes?_values has
    have hreach : c.Reaches (c.step.skipWhile isNameChar) :=
      (Cursor.reaches_step c).trans (Cursor.reaches_skipWhile _ _)
    have hle := hreach.offset_le
    refine ⟨fun a ha v hv => ?_, hpairwise⟩
    obtain ⟨hholds, hlt, hstop⟩ := hvalues a ha v hv
    exact ⟨hholds.of_reaches hreach (.refl _), by omega, hstop⟩

end Tag

/-! ## 3. The directives of a block

The collection is bounded by the place of the closing tag.  The bound is not part of the text that
is read, so each tag is read as a whole and then asked whether it ends in time; a value of a tag
that does lies before the bound as well. -/

/-- The region of a directive that stands behind a place and ends before an offset. -/
structure Region.IsDirective (c : Cursor) (limit : Nat) (a : Region) : Prop where
  eq_value : a = .attributeValue RegionKind.script.defaultLanguage a.start a.stop
  places : ∃ d, c.Holds d a.start a.stop
  behind : c.offset < a.start
  before : a.stop < limit

theorem Region.IsDirective.of_reaches {b c : Cursor} {limit : Nat} {a : Region}
    (h : a.IsDirective c limit) (hreach : b.Reaches c) : a.IsDirective b limit := by
  obtain ⟨d, hd⟩ := h.places
  exact ⟨h.eq_value, ⟨d, hd.of_reaches hreach (.refl d)⟩,
    Nat.lt_of_le_of_lt hreach.offset_le h.behind, h.before⟩

namespace Block

/-- The directives of one tag are some of its values, in their order. -/
theorem directivesOf_spec {c : Cursor} {t : Tag} (h : Tag.parse? c = some t) :
    (∀ a ∈ directivesOf t, a.IsDirective c t.after.offset) ∧
      (directivesOf t).Pairwise fun a b => a.stop < b.start := by
  obtain ⟨hvalues, hpairwise⟩ := Tag.parse?_values h
  have hfound : ∀ {x : TagAttribute} {a : Region}, (if isDirective x.name then x.value.map fun v =>
      Region.attributeValue RegionKind.script.defaultLanguage v.start v.stop else none) = some a →
      ∃ v, x.value = some v ∧
        .attributeValue RegionKind.script.defaultLanguage v.start v.stop = a := by
    intro x a hx
    split at hx
    · exact Option.map_eq_some_iff.mp hx
    · cases hx
  constructor
  · intro a ha
    obtain ⟨x, hx, hxa⟩ := List.mem_filterMap.mp ha
    obtain ⟨v, hv, rfl⟩ := hfound hxa
    obtain ⟨hholds, hlt, hstop⟩ := hvalues x hx v hv
    exact ⟨rfl, ⟨t.after, hholds⟩, hlt, hstop⟩
  · refine List.pairwise_filterMap.mpr (hpairwise.imp fun hxy a ha b hb => ?_)
    obtain ⟨v, hv, rfl⟩ := hfound ha
    obtain ⟨w, hw, rfl⟩ := hfound hb
    exact hxy v hv w hw

/-- What a step finds lies between its ends, and before the end of the block. -/
theorem directiveStep_found {stop : Nat} {found : List Region} {c d : Cursor}
    (h : directiveStep stop c = .next found d) :
    (∀ a ∈ found, a.IsDirective c stop ∧ a.stop < d.offset) ∧
      found.Pairwise fun a b => a.stop < b.start := by
  simp only [directiveStep] at h
  split at h
  · cases h
  · split at h
    · split at h
      · cases h
      · cases h
        exact ⟨fun a ha => absurd ha List.not_mem_nil, .nil⟩
    · split at h
      · split at h
        · cases h
        · next t htag =>
          split at h
          · cases h
          · next hstop =>
            cases h
            obtain ⟨hinside, hpairwise⟩ := directivesOf_spec htag
            refine ⟨fun a ha => ?_, hpairwise⟩
            have hdirective := hinside a ha
            have hbefore := hdirective.before
            exact ⟨⟨hdirective.eq_value, (hdirective.of_reaches (reaches_nextAngle c)).places,
              (hdirective.of_reaches (reaches_nextAngle c)).behind, by omega⟩, hbefore⟩
      · cases h
        exact ⟨fun a ha => absurd ha List.not_mem_nil, .nil⟩

/-- **The directives of a block lie between the place where the collection starts and the end of
the block, one behind the other.** -/
theorem directivesUpTo_spec (stop : Nat) (c : Cursor) :
    (∀ a ∈ directivesUpTo stop c, a.IsDirective c stop) ∧
      (directivesUpTo stop c).Pairwise fun a b => a.stop < b.start := by
  induction c using Cursor.induction_on_rest with
  | step c ih =>
    rw [directivesUpTo_eq]
    cases hs : directiveStep stop c with
    | done => exact ⟨nofun, .nil⟩
    | next found after =>
      obtain ⟨hfound, hrow⟩ := directiveStep_found hs
      obtain ⟨hothers, hrest⟩ := ih after (length_directiveStep_lt hs)
      have hreach := reaches_directiveStep hs
      constructor
      · intro a ha
        rcases List.mem_append.mp ha with ha | ha
        · exact (hfound a ha).1
        · exact (hothers a ha).of_reaches hreach
      · refine List.pairwise_append.mpr ⟨hrow, hrest, fun a ha b hb => ?_⟩
        exact Nat.lt_trans (hfound a ha).2 (hothers b hb).behind

/-! ## 4. The directives of a document

What was shown for one block is carried along the scan, which gives the place where the block
starts.  The blocks are apart from each other, so the values of different blocks are too. -/

/-- The directives of a block lie in its region, which belongs to markup if there are any. -/
theorem ofTag_directives (tag : Tag) (close : Cursor) :
    (∀ a ∈ (ofTag tag close).directives,
      (ofTag tag close).region.kind = .markup ∧ a.IsDirective tag.after close.offset) ∧
      (ofTag tag close).directives.Pairwise fun a b => a.stop < b.start := by
  simp only [ofTag]
  split
  · next hmarkup =>
    obtain ⟨hinside, hpairwise⟩ := directivesUpTo_spec close.offset tag.after
    exact ⟨fun a ha => ⟨hmarkup, hinside a ha⟩, hpairwise⟩
  · exact ⟨fun a ha => absurd ha List.not_mem_nil, .nil⟩

/-- What is known of the directives of one block of a document. -/
theorem Laid.directives {text : String} {c : Cursor} {blocks : List Block} (h : Laid c blocks)
    (hc : c.IsPlaceOf text) : ∀ b ∈ blocks,
    (∀ a ∈ b.directives, b.region.kind = .markup ∧ ∃ d : Cursor, d.IsPlaceOf text ∧
      d.offset = b.region.start ∧ a.IsDirective d b.region.stop) ∧
      b.directives.Pairwise fun a b => a.stop < b.start := by
  intro b hb
  obtain ⟨here, tag, close, hlooks, hblock, rfl⟩ := h.exists_of_mem hb
  have hafter : tag.after.IsPlaceOf text :=
    hc.reaches ((reaches_of_follows hlooks).trans hblock.reaches)
  obtain ⟨hinside, hpairwise⟩ := ofTag_directives tag close
  refine ⟨fun a ha => ?_, hpairwise⟩
  obtain ⟨hmarkup, hdirective⟩ := hinside a ha
  exact ⟨hmarkup, tag.after, hafter, rfl, hdirective⟩

end Block

/-- Does the region hold all of the other one? -/
def Region.encloses (r a : Region) : Bool := r.start ≤ a.start && a.stop ≤ r.stop

/-- Of regions that end before the next one starts, the one that encloses a stretch is the only
one. -/
theorem Region.filter_encloses_eq {regions : List Region} {r a : Region} (hr : r ∈ regions)
    (hpairwise : regions.Pairwise fun a b => a.stop < b.start) (hencloses : r.encloses a = true)
    (ha : a.start ≤ a.stop) : regions.filter (·.encloses a) = [r] := by
  have hcontains : ∀ x : Region, x.encloses a = true → x.contains a.start = true := by
    intro x hx
    simp only [encloses, contains, Bool.and_eq_true, decide_eq_true_eq] at hx ⊢
    omega
  have hmem : r ∈ regions.filter (·.encloses a) := List.mem_filter.mpr ⟨hr, hencloses⟩
  have hle : (regions.filter (·.encloses a)).length ≤ 1 := by
    refine Nat.le_trans ?_ (length_filter_contains_le a.start hpairwise)
    rw [← List.countP_eq_length_filter, ← List.countP_eq_length_filter]
    exact List.countP_mono_left fun x _ => hcontains x
  obtain ⟨x, hx⟩ := List.length_eq_one_iff.mp (Nat.le_antisymm hle (List.length_pos_of_mem hmem))
  rw [hx] at hmem ⊢
  rw [List.mem_singleton.mp hmem]

namespace Layout

/-- **The regions of directives are well formed in any text.**  Each is a region of script, lies on
character boundaries in one block, a markup block, and ends before the next one starts. -/
theorem attributeRegions_wellFormed (text : String) :
    (∀ a ∈ (ofText text).attributeRegions,
      a.kind = .script ∧ a.language = "script" ∧ a.isAttributeValue = true ∧
      a.start ≤ a.stop ∧ String.Pos.Raw.IsValid text ⟨a.start⟩ ∧
      String.Pos.Raw.IsValid text ⟨a.stop⟩ ∧
      ∃ r, (ofText text).regions.filter (·.encloses a) = [r] ∧ r.kind = .markup) ∧
    (ofText text).attributeRegions.Pairwise fun a b => a.stop < b.start := by
  have hlaid := laid_ofText text
  have hblocks := hlaid.directives (Cursor.isPlaceOf_ofText text)
  constructor
  · intro a ha
    obtain ⟨b, hb, hab⟩ := List.mem_flatMap.mp ha
    obtain ⟨hmarkup, d, hd, hstart, hdirective⟩ := (hblocks b hb).1 a hab
    obtain ⟨e, first, last, hfirst, hinside, -, hfrom, hto⟩ := hdirective.places
    have hle : a.start ≤ a.stop := hfrom ▸ hto ▸ hinside.offset_le
    have hplace : first.IsPlaceOf text := hd.reaches hfirst
    have hencloses : b.region.encloses a = true := by
      have hbehind := hdirective.behind
      have hbefore := hdirective.before
      simp only [Region.encloses, Bool.and_eq_true, decide_eq_true_eq]
      omega
    refine ⟨congrArg Region.kind hdirective.eq_value, congrArg Region.language hdirective.eq_value,
      congrArg Region.isAttributeValue hdirective.eq_value, hle, hfrom ▸ hplace.isValid,
      hto ▸ (hplace.reaches hinside).isValid, b.region, ?_, hmarkup⟩
    exact Region.filter_encloses_eq (List.mem_map_of_mem hb) (pairwise_regions text) hencloses hle
  · refine List.pairwise_flatMap.mpr ⟨fun b hb => (hblocks b hb).2, ?_⟩
    refine hlaid.pairwise.imp_of_mem fun {b b'} hb hb' hbb' a ha a' ha' => ?_
    obtain ⟨-, c, -, -, hdirective⟩ := (hblocks b hb).1 a ha
    obtain ⟨-, d, -, hstart, hdirective'⟩ := (hblocks b' hb').1 a' ha'
    have hbefore := hdirective.before
    have hbehind := hdirective'.behind
    omega

/-- A directive behind a wide character, in the second of two blocks; an attribute that is no
directive stands before it. -/
theorem attributeRegions_wellFormed_second :
    (⟨.script, "script", 46, 48, true⟩ : Region)
      ∈ (ofText "<template>é</template><template><p a='b' :c='é'/></template>").attributeRegions ∧
    ∃ r, (ofText "<template>é</template><template><p a='b' :c='é'/></template>").regions.filter
      (·.encloses ⟨.script, "script", 46, 48, true⟩) = [r] ∧ r.kind = .markup := by
  have hmem : (⟨.script, "script", 46, 48, true⟩ : Region) ∈
      (ofText "<template>é</template><template><p a='b' :c='é'/></template>").attributeRegions := by
    decide +kernel
  exact ⟨hmem, ((attributeRegions_wellFormed _).1 _ hmem).2.2.2.2.2.2⟩

end Layout

end ComponentHost
