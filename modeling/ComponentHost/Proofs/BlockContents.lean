/-
# A block by itself

The content of a block was found by looking for the closing tag.  This file says that the content
alone decides the search: with the plainest tags around it, it is one block again, and what was
found in it is found in it again (`Layout.ofText_oneBlock`).

The search may look ahead across the end of the content, and the collection of directives does read
on behind it.  But what stands there is a closing tag on both sides, the one that was found and the
one that is written, and its `<` is a barrier.  So the search takes the same steps before it
(`Block.close?_exchange`), and it ends there because as many elements are open as were in the
document: none.  The names of the two tags may differ in case, which the search does not see
(`Block.close?_congr`).

Two things are compared throughout: the content in the document, which starts at some offset and is
followed by some closing tag, and the same content in a document of its own, at another offset and
with another closing tag.  Shifting takes care of the offset, and the barrier of what follows.  A
custom block is left out, since its tags have a name of their own that the sort of block does not
tell.
-/
import ComponentHost.Host.SourceFiles
import ComponentHost.Proofs.DirectiveRegions
import ComponentHost.Proofs.Shifting
import ComponentHost.Proofs.WrittenDocuments

namespace ComponentHost

/-! ## 1. One closing tag for another

The search for a closing tag compares names up to case.  So the name that it is given, the name in
the document and the name that is written here may all be spelled differently. -/

/-- Words that differ in case only are found at the same places. -/
theorem Text.startsWithWord_congr {u v : List Char} (h : u.map Char.toLower = v.map Char.toLower)
    (cs : List Char) : startsWithWord u cs = startsWithWord v cs := by
  induction u generalizing v cs with
  | nil =>
    cases v with
    | nil => rfl
    | cons y v => cases h
  | cons x u ih =>
    cases v with
    | nil => cases h
    | cons y v =>
      simp only [List.map_cons, List.cons.injEq] at h
      cases cs with
      | nil => rfl
      | cons c cs => rw [startsWithWord, startsWithWord, sameLetter, sameLetter, h.1, ih h.2]

namespace Block

variable {name : List Char} {kind : RegionKind}

/-- Whether a tag starts does not depend on the case of its name. -/
theorem startsTag_congr {u v : List Char} (h : u.map Char.toLower = v.map Char.toLower)
    (signs : List Char) (c : Cursor) : startsTag (signs ++ u) c = startsTag (signs ++ v) c := by
  have hlower : (signs ++ u).map Char.toLower = (signs ++ v).map Char.toLower := by
    rw [List.map_append, List.map_append, h]
  have hlength : (signs ++ u).length = (signs ++ v).length := by
    simpa using congrArg List.length hlower
  rw [startsTag, startsTag, Text.startsWithWord_congr hlower, hlength]

/-- The search does not see the case of the name. -/
theorem close?_congr {name' : List Char} (h : name.map Char.toLower = name'.map Char.toLower)
    (depth : Nat) (c : Cursor) : close? name kind depth c = close? name' kind depth c := by
  have hlength : name.length = name'.length := by simpa using congrArg List.length h
  have hopening : ∀ c, startsTag ('<' :: name) c = startsTag ('<' :: name') c :=
    startsTag_congr h ['<']
  have hclosing : ∀ c, startsTag ('<' :: '/' :: name) c = startsTag ('<' :: '/' :: name') c :=
    startsTag_congr h ['<', '/']
  have hstep : ∀ depth c, closeStep name kind depth c = closeStep name' kind depth c := by
    intro depth c
    simp only [closeStep, hopening, hclosing, hlength]
  induction c using Cursor.induction_on_rest generalizing depth with
  | step c ih =>
    rw [close?_eq, close?_eq name' kind depth c, hstep]
    cases hs : closeStep name' kind depth c with
    | fail => rfl
    | found close => rfl
    | next depth' after => exact ih after (length_closeStep_lt hs) depth'

/-- A search that ends does so at the next `<`. -/
theorem closeStep_found {depth : Nat} {c d : Cursor} (h : closeStep name kind depth c = .found d) :
    d = nextAngle c := by
  simp only [closeStep] at h
  split at h
  · cases h
  · split at h
    · split at h <;> cases h
    · split at h
      · split at h
        · cases h
          rfl
        · cases h
      · split at h
        · split at h <;> cases h
        · cases h

/-- At a closing tag the search ends, or one element less is open. -/
theorem closeStep_of_startsTag {c : Cursor} (h : startsTag ('<' :: '/' :: name) c = true) :
    closeStep name kind 0 c = .found c ∧
      ∀ depth, closeStep name kind (depth + 1) c = .next depth (c.skip (name.length + 2)) := by
  obtain ⟨v, r, hrest, -, -⟩ := startsTag_split h
  have hangle : nextAngle c = c := by
    have := nextAngle_angle c.offset ('/' :: (v ++ r))
    rwa [← hrest] at this
  have hcomment : ¬ (kind = .markup ∧ c.starts commentOpen = true) := by
    simp [Cursor.starts, commentOpen, hrest]
  have hne : c.rest ≠ [] := by simp [hrest]
  constructor
  · simp only [closeStep, hangle, if_neg hne, if_neg hcomment, if_pos h]
  · intro depth
    simp only [closeStep, hangle, if_neg hne, if_neg hcomment, if_pos h]

/-- No look ahead goes past the `<` of a closing tag. -/
theorem settled_of_startsTag {offset : Nat} {more : List Char}
    (h : startsTag ('<' :: '/' :: name) ⟨offset, more⟩ = true) (c : Cursor) : Settled more c := by
  obtain ⟨v, r, hrest, -, -⟩ := startsTag_split h
  refine settled_of_head ?_ c
  rw [show more = '<' :: '/' :: (v ++ r) from hrest]
  show isBarrier '<' = true
  decide

/-- **One closing tag may stand for another.**  If the search ends at the one that stands behind a
text, it ends at any other that stands there instead. -/
theorem close?_exchange {c : Cursor} {more more' : List Char} {depth : Nat}
    (hname : ∀ x ∈ name, Tag.isNameChar x = true)
    (hmore : startsTag ('<' :: '/' :: name) ⟨c.limit, more⟩ = true)
    (hmore' : startsTag ('<' :: '/' :: name) ⟨c.limit, more'⟩ = true)
    (h : close? name kind depth (c.extend more) = some ⟨c.limit, more⟩) :
    close? name kind depth (c.extend more') = some ⟨c.limit, more'⟩ := by
  have hsettled : ∀ d, Settled more d := settled_of_startsTag hmore
  have hsettled' : ∀ d, Settled more' d := settled_of_startsTag hmore'
  induction c using Cursor.induction_on_rest generalizing depth with
  | step c ih =>
    by_cases hr : (nextAngle c).rest = []
    · rw [close?_seam hr] at h ⊢
      cases depth with
      | zero => rw [close?_eq, (closeStep_of_startsTag hmore').1]
      | succ depth =>
        -- an element that is still open would have led the search past the closing tag
        exfalso
        rw [close?_eq, (closeStep_of_startsTag hmore).2] at h
        have hle := length_close?_le h
        obtain ⟨v, r, hrest, -, -⟩ := startsTag_split hmore
        have hlt := Cursor.length_skip_lt (Nat.succ_pos (name.length + 1))
          (show (⟨c.limit, more⟩ : Cursor).rest ≠ [] by rw [hrest]; exact List.cons_ne_nil _ _)
        exact Nat.not_lt_of_le hle hlt
    · rw [close?_eq] at h
      cases hs : closeStep name kind depth (c.extend more) with
      | fail =>
        rw [hs] at h
        cases h
      | found d =>
        rw [hs] at h
        have hd : (⟨c.limit, more⟩ : Cursor) = (nextAngle c).extend more :=
          (Option.some.inj h).symm.trans ((closeStep_found hs).trans (nextAngle_extend more hr))
        have hnil : (nextAngle c).rest = [] := by
          have := congrArg Cursor.rest hd
          exact List.append_left_eq_self.mp this.symm
        exact absurd hnil hr
      | next depth' d =>
        rw [hs] at h
        obtain ⟨e, rfl, hstep⟩ := closeStep_next_local (hsettled c) hname hs (length_close?_le h)
        have hlimit : e.limit = c.limit := (reaches_closeStep hstep).limit_eq
        rw [close?_eq, closeStep_next_extend (hsettled' c) hname hstep]
        rw [← hlimit] at hmore hmore' h ⊢
        exact ih e (length_closeStep_lt hstep) hmore hmore' h

end Block

/-! ## 2. A document of one block

The plainest document that has a given content: an opening tag without attributes, the content, and
a closing tag.  Its scan is computed from the search for the closing tag, of which it is not yet
known that it finds the one at the end. -/

/-- The name of the tags around a block. -/
def RegionKind.tagWord : RegionKind → String
  | markup => "template"
  | script => "script"
  | style => "style"
  | custom => "custom"

theorem RegionKind.named_tagWord (kind : RegionKind) :
    ∀ x ∈ kind.tagWord.toList, Tag.isNameChar x = true := by
  cases kind <;> exact List.all_eq_true.mp rfl

/-- The name of the tags around a block, as it is written. -/
def RegionKind.tagName (kind : RegionKind) : TagName where
  chars := kind.tagWord.toList
  letter := by cases kind <;> rfl
  named := kind.named_tagWord

/-- A document that is one block, between tags without attributes. -/
def oneBlock (kind : RegionKind) (content : String) : String :=
  "<" ++ kind.tagWord ++ ">" ++ content ++ "</" ++ kind.tagWord ++ ">"

/-- The text of a region. -/
def Region.contentIn (text : String) (r : Region) : String := textBetween text r.start r.stop

namespace RegionKind

/-- The tag that opens a block of the sort. -/
def opening (kind : RegionKind) : WrittenTag := ⟨kind.tagName, [], [], nofun⟩

/-- The tag that closes a block of the sort. -/
def closing (kind : RegionKind) : WrittenClosing := ⟨kind.tagName, [], nofun⟩

theorem chars_tagName (kind : RegionKind) : kind.tagName.chars = kind.tagWord.toList := rfl

theorem text_tagName (kind : RegionKind) : kind.tagName.text = kind.tagWord :=
  String.ofList_toList

theorem ofTag_tagWord (kind : RegionKind) : ofTag kind.tagWord = kind := by
  cases kind <;> decide +kernel

/-- Every tag of a block that is not custom has the same name, up to case. -/
theorem sameWord_tagWord {name : String} (h : ofTag name ≠ .custom) :
    name.toList.map Char.toLower = (ofTag name).tagWord.toList.map Char.toLower := by
  unfold ofTag at h ⊢
  split
  · next hmarkup => exact Text.sameWord_iff.mp hmarkup
  · next hmarkup =>
    rw [if_neg hmarkup] at h
    split
    · next hscript => exact Text.sameWord_iff.mp hscript
    · next hscript =>
      rw [if_neg hscript] at h
      split
      · next hstyle => exact Text.sameWord_iff.mp hstyle
      · next hstyle =>
        rw [if_neg hstyle] at h
        exact absurd rfl h

/-- At the end of the content stands a closing tag, with nothing behind its name but the `>`. -/
theorem startsTag_closing (kind : RegionKind) (offset : Nat) :
    Block.startsTag ('<' :: '/' :: kind.tagWord.toList) ⟨offset, kind.closing.chars⟩ = true := by
  have hwritten := Block.startsTag_closing kind.tagName kind.closing offset []
  have hsame : Text.sameWord kind.tagName.text kind.closing.name.text = true :=
    TagName.sameWord_iff.mpr rfl
  rw [List.append_nil, hsame, chars_tagName] at hwritten
  exact hwritten

end RegionKind

theorem toList_oneBlock (kind : RegionKind) (content : String) :
    (oneBlock kind content).toList
      = kind.opening.chars false ++ (content.toList ++ kind.closing.chars) := by
  simp [oneBlock, WrittenTag.chars, WrittenTag.tail, WrittenClosing.chars, RegionKind.opening,
    RegionKind.closing, RegionKind.tagName, String.toList_append]

/-- The text between two places is what stands between them. -/
theorem Cursor.IsPlaceOf.textBetween_eq {text : String} {c d : Cursor} {run : List Char}
    (h : c.IsPlaceOf text) (hd : c.Passes run d) :
    textBetween text c.offset d.offset = String.ofList run := by
  have hdrop := h.drop_bytes
  have hlength : d.offset ≤ (Utf8.bytes text).length := by
    obtain ⟨before, hchars, hoffset⟩ := (h.reaches hd.reaches).split
    rw [Utf8.bytes_eq_encode, Utf8.length_encode, hchars, byteWidth_append, hoffset]
    omega
  have hle := hd.reaches.offset_le
  have hwidth : d.offset - c.offset = (Utf8.encode run).length := by
    rw [hd.offset, Utf8.length_encode]
    omega
  simp only [textBetween, Nat.min_eq_left hlength, Nat.min_eq_left hle]
  rw [hdrop, hwidth, hd.rest, Utf8.encode_append, List.take_left, Utf8.decode?_encode]
  rfl

namespace Block

/-- The block of a document that is one block. -/
def alone (kind : RegionKind) (inner : List Char) : Block :=
  ofTag ⟨kind.tagWord, [], false,
      ⟨byteWidth (kind.opening.chars false), inner ++ kind.closing.chars⟩⟩
    ⟨byteWidth (kind.opening.chars false) + byteWidth inner, kind.closing.chars⟩

/-- The scan of a document of one block. -/
theorem scan?_oneBlock (kind : RegionKind) {inner : List Char}
    (h : close? kind.tagWord.toList kind 0
        ⟨byteWidth (kind.opening.chars false), inner ++ kind.closing.chars⟩
      = some ⟨byteWidth (kind.opening.chars false) + byteWidth inner, kind.closing.chars⟩) :
    scan? (Cursor.ofText (oneBlock kind (String.ofList inner))) = some [alone kind inner] := by
  obtain ⟨found, hstep, hfound⟩ :=
    scanStep_tag kind.opening false 0 (inner ++ kind.closing.chars)
  obtain rfl : found = [] := List.map_eq_nil_iff.mp hfound
  have hname : kind.opening.name.text = kind.tagWord := kind.text_tagName
  have hends := skipWhile_closing kind.closing
    (byteWidth (kind.opening.chars false) + byteWidth inner) []
  rw [List.append_nil] at hends
  rw [Nat.zero_add, hname] at hstep
  rw [Cursor.ofText, toList_oneBlock, String.toList_ofList, scan?_eq, hstep]
  simp only [blockStep, Bool.false_eq_true, if_false, kind.ofTag_tagWord, h, hends,
    List.cons_ne_nil]
  rw [scan?_eq]
  rfl

theorem kind_ofTag (tag : Tag) (close : Cursor) :
    (ofTag tag close).region.kind = .ofTag tag.name := by
  simp only [ofTag, Region.block]

theorem start_ofTag (tag : Tag) (close : Cursor) :
    (ofTag tag close).region.start = tag.after.offset := rfl

theorem stop_ofTag (tag : Tag) (close : Cursor) :
    (ofTag tag close).region.stop = close.offset := rfl

theorem kind_alone (kind : RegionKind) (inner : List Char) :
    (alone kind inner).region.kind = kind := by
  rw [alone, kind_ofTag, kind.ofTag_tagWord]

theorem start_alone (kind : RegionKind) (inner : List Char) :
    (alone kind inner).region.start = byteWidth (kind.opening.chars false) := by
  rw [alone, start_ofTag]

theorem stop_alone (kind : RegionKind) (inner : List Char) :
    (alone kind inner).region.stop = byteWidth (kind.opening.chars false) + byteWidth inner := by
  rw [alone, stop_ofTag]

/-- The content of the only block is what it was made from. -/
theorem contentIn_alone (kind : RegionKind) (inner : List Char) :
    (alone kind inner).region.contentIn (oneBlock kind (String.ofList inner))
      = String.ofList inner := by
  have hplace : Cursor.IsPlaceOf (oneBlock kind (String.ofList inner))
      ⟨byteWidth (kind.opening.chars false), inner ++ kind.closing.chars⟩ := by
    refine ⟨kind.opening.chars false, ?_, (Nat.zero_add _).symm⟩
    rw [Cursor.ofText, toList_oneBlock, String.toList_ofList]
  have hinner : Cursor.Passes ⟨byteWidth (kind.opening.chars false), inner ++ kind.closing.chars⟩
      inner ⟨byteWidth (kind.opening.chars false) + byteWidth inner, kind.closing.chars⟩ :=
    ⟨rfl, rfl⟩
  have hbetween := hplace.textBetween_eq hinner
  rw [Region.contentIn, start_alone, stop_alone, hbetween]

/-! ## 3. The content of a block, elsewhere

What was found between two tags is found between two others.  The content is first brought to the
offset zero with nothing else before it, and then shifted to its new place. -/

variable {c d : Cursor} {inner : List Char}

theorem eq_shift_of_passes (h : c.Passes inner d) :
    c = ((⟨0, inner⟩ : Cursor).extend d.rest).shift c.offset ∧
      d = (⟨byteWidth inner, d.rest⟩ : Cursor).shift c.offset := by
  constructor
  · rw [Cursor.shift, Cursor.extend, Nat.zero_add, ← h.rest]
  · rw [Cursor.shift, Nat.add_comm, ← h.offset]

/-- The closing tag that was found behind some content is found behind it anywhere, and in any
other form. -/
theorem close?_elsewhere (hname : ∀ x ∈ name, Tag.isNameChar x = true)
    (h : close? name kind 0 c = some d) (hinner : c.Passes inner d) {tail : List Char}
    (htail : startsTag ('<' :: '/' :: name) ⟨byteWidth inner, tail⟩ = true) (offset : Nat) :
    close? name kind 0 ⟨offset, inner ++ tail⟩ = some ⟨offset + byteWidth inner, tail⟩ := by
  obtain ⟨hc, hd⟩ := eq_shift_of_passes hinner
  have hlimit : (⟨0, inner⟩ : Cursor).limit = byteWidth inner := Nat.zero_add _
  have hclosing : startsTag ('<' :: '/' :: name) ⟨byteWidth inner, d.rest⟩ = true := by
    have := (close?_spec h).2
    rwa [hd] at this
  have hfound : close? name kind 0 ((⟨0, inner⟩ : Cursor).extend d.rest)
      = some ⟨byteWidth inner, d.rest⟩ := by
    rw [hc, close?_shift] at h
    obtain ⟨e, he, hshift⟩ := Option.map_eq_some_iff.mp h
    have hrest : e.rest = d.rest := by rw [← hshift, Cursor.rest_shift]
    have hoffset : e.offset + c.offset = d.offset := by rw [← hshift, Cursor.offset_shift]
    have hwidth : e.offset = byteWidth inner := by
      have := hinner.offset
      omega
    rw [he, ← hrest, ← hwidth]
  rw [← hlimit] at hclosing htail hfound
  have hexchanged := close?_exchange hname hclosing htail hfound
  have hmoved := close?_shift offset name kind 0 ((⟨0, inner⟩ : Cursor).extend tail)
  rw [hexchanged, hlimit] at hmoved
  rw [Nat.add_comm offset]
  rw [Cursor.shift, Cursor.extend, Nat.zero_add] at hmoved
  exact hmoved

/-- The directives of a block are those of its content. -/
theorem directivesUpTo_eq_inner (h : c.Passes inner d) (hsettled : Settled d.rest ⟨0, inner⟩) :
    directivesUpTo d.offset c
      = (directivesUpTo (byteWidth inner) ⟨0, inner⟩).map (Region.shift c.offset) := by
  obtain ⟨hc, hd⟩ := eq_shift_of_passes h
  have hlimit : byteWidth inner ≤ (⟨0, inner⟩ : Cursor).limit := Nat.le_of_eq (Nat.zero_add _).symm
  have hstop : d.offset = byteWidth inner + c.offset := congrArg Cursor.offset hd
  calc directivesUpTo d.offset c
      = directivesUpTo (byteWidth inner + c.offset)
          (((⟨0, inner⟩ : Cursor).extend d.rest).shift c.offset) := by rw [hstop, ← hc]
    _ = (directivesUpTo (byteWidth inner) ((⟨0, inner⟩ : Cursor).extend d.rest)).map
          (Region.shift c.offset) := directivesUpTo_shift _ _ _
    _ = _ := by rw [directivesUpTo_extend hsettled hlimit]

theorem ofTag_directives_inner {tag : Tag} {close : Cursor} (h : tag.after.Passes inner close)
    (hclosing : startsTag ('<' :: '/' :: name) close = true) :
    (ofTag tag close).directives = if RegionKind.ofTag tag.name = .markup then
        (directivesUpTo (byteWidth inner) ⟨0, inner⟩).map (Region.shift tag.after.offset)
      else [] := by
  rw [← directivesUpTo_eq_inner h (settled_of_startsTag hclosing _)]
  simp only [ofTag]

/-- The directives of the only block, read from the same content. -/
theorem directives_alone (kind : RegionKind) (inner : List Char) :
    (alone kind inner).directives = if kind = .markup then
        (directivesUpTo (byteWidth inner) ⟨0, inner⟩).map
          (Region.shift (byteWidth (kind.opening.chars false)))
      else [] := by
  have hinner : Cursor.Passes
      (Tag.after ⟨kind.tagWord, [], false,
        ⟨byteWidth (kind.opening.chars false), inner ++ kind.closing.chars⟩⟩)
      inner ⟨byteWidth (kind.opening.chars false) + byteWidth inner, kind.closing.chars⟩ :=
    ⟨rfl, rfl⟩
  rw [alone, ofTag_directives_inner hinner (kind.startsTag_closing _), kind.ofTag_tagWord]

/-- **The directives that lie in a block are those that were found in it.**  A directive is enclosed
by the block that it was found in, and regions do not touch, so no other block encloses it. -/
theorem Laid.filter_directives {text : String} {blocks : List Block}
    (h : Laid (Cursor.ofText text) blocks) {b : Block} (hb : b ∈ blocks) :
    (blocks.flatMap Block.directives).filter (b.region.encloses ·) = b.directives := by
  have hdirectives := h.directives (Cursor.isPlaceOf_ofText text)
  -- what is known of a directive, as bounds alone
  have hbounds : ∀ b ∈ blocks, ∀ a ∈ b.directives,
      b.region.start < a.start ∧ a.start ≤ a.stop ∧ a.stop < b.region.stop := by
    intro b hb a ha
    obtain ⟨-, e, -, hstart, hdirective⟩ := (hdirectives b hb).1 a ha
    obtain ⟨f, hholds⟩ := hdirective.places
    exact ⟨hstart ▸ hdirective.behind, hholds.start_le_stop, hdirective.before⟩
  obtain ⟨before, behind, rfl⟩ := List.append_of_mem hb
  obtain ⟨-, hbehind, hbefore⟩ := List.pairwise_append.mp h.pairwise
  have hfirst : (before.flatMap Block.directives).filter (b.region.encloses ·) = [] := by
    refine List.filter_eq_nil_iff.mpr fun a ha hencloses => ?_
    obtain ⟨b', hb', hab'⟩ := List.mem_flatMap.mp ha
    have hlt := hbefore b' hb' b List.mem_cons_self
    have hin := hbounds b' (List.mem_append_left _ hb') a hab'
    simp only [Region.encloses, Bool.and_eq_true, decide_eq_true_eq] at hencloses
    omega
  have hlast : (behind.flatMap Block.directives).filter (b.region.encloses ·) = [] := by
    refine List.filter_eq_nil_iff.mpr fun a ha hencloses => ?_
    obtain ⟨b', hb', hab'⟩ := List.mem_flatMap.mp ha
    have hlt := List.rel_of_pairwise_cons hbehind hb'
    have hin := hbounds b' (List.mem_append_right _ (List.mem_cons_of_mem _ hb')) a hab'
    simp only [Region.encloses, Bool.and_eq_true, decide_eq_true_eq] at hencloses
    omega
  have hown : b.directives.filter (b.region.encloses ·) = b.directives := by
    refine List.filter_eq_self.mpr fun a ha => ?_
    have hin := hbounds b hb a ha
    simp only [Region.encloses, Bool.and_eq_true, decide_eq_true_eq]
    omega
  rw [List.flatMap_append, List.flatMap_cons, List.filter_append, List.filter_append, hfirst, hlast,
    hown, List.nil_append, List.append_nil]

end Block

theorem Region.shift_shift (j k : Nat) (r : Region) : (r.shift j).shift k = r.shift (j + k) := by
  rw [shift, shift, shift, Nat.add_assoc, Nat.add_assoc]

/-- No tag of a block is shorter than the plainest one. -/
theorem RegionKind.byteWidth_opening_le {opening : Cursor} {tag : Tag} {r : List Char}
    (h : Tag.parse? opening = some tag) (hangle : opening.rest = '<' :: r)
    (hkind : ofTag tag.name ≠ .custom) :
    byteWidth ((ofTag tag.name).opening.chars false) ≤ tag.after.offset := by
  obtain ⟨⟨run, hrun⟩, -, hchars⟩ := Tag.parse?_spec h hangle
  have hnarrow : ∀ {cs : List Char}, (∀ x ∈ cs, Tag.isNameChar x = true) →
      byteWidth cs = cs.length := by
    intro cs hcs
    induction cs with
    | nil => rfl
    | cons x cs ih =>
      have hx := Utf8.utf8Size_of_narrow (Tag.narrow_of_isNameChar (hcs x List.mem_cons_self))
      rw [byteWidth_cons, hx, ih fun y hy => hcs y (List.mem_cons_of_mem _ hy), List.length_cons,
        Nat.add_comm]
  have hsame : byteWidth tag.name.toList = byteWidth (ofTag tag.name).tagWord.toList := by
    rw [hnarrow hchars, hnarrow (named_tagWord _)]
    simpa using congrArg List.length (sameWord_tagWord hkind)
  have hwritten : (ofTag tag.name).opening.chars false
      = '<' :: ((ofTag tag.name).tagWord.toList ++ ['>']) := by
    simp [WrittenTag.chars, WrittenTag.tail, RegionKind.opening, RegionKind.tagName]
  rw [hrun.offset, hwritten, List.cons_append, byteWidth_cons, byteWidth_cons, byteWidth_append,
    byteWidth_append, byteWidth_append, hsame]
  omega

/-- **The content of a block is a block by itself.**  With the plainest tags around it, the content
of a block of markup, script or style is the only block, of the same sort and with the same content.
The directives in it are those of the document that lie in the block, at their new places. -/
theorem Layout.ofText_oneBlock {text : String} {r : Region} (hr : r ∈ (ofText text).regions)
    (hkind : r.kind ≠ .custom) :
    ∃ r', (ofText (oneBlock r.kind (r.contentIn text))).regions = [r'] ∧ r'.kind = r.kind ∧
      r'.contentIn (oneBlock r.kind (r.contentIn text)) = r.contentIn text ∧
      r'.start ≤ r.start ∧
      (ofText (oneBlock r.kind (r.contentIn text))).attributeRegions.map
          (Region.shift (r.start - r'.start))
        = (ofText text).attributeRegions.filter (r.encloses ·) := by
  obtain ⟨b, hb, rfl⟩ := List.mem_map.mp hr
  have hlaid := laid_ofText text
  have hfound := hlaid.filter_directives hb
  obtain ⟨here, tag, close, hlooks, hblock, rfl⟩ := hlaid.exists_of_mem hb
  obtain ⟨rest, hangle⟩ := Block.rest_nextAngle hblock.rest_ne
  obtain ⟨⟨inner, hinner⟩, hclosing⟩ := Block.close?_spec hblock.closes
  obtain ⟨-, -, hchars⟩ := Tag.parse?_spec hblock.parsed hangle
  have hplace : tag.after.IsPlaceOf text := (Block.reaches_of_follows hlooks).trans hblock.reaches
  have hcontent : (Block.ofTag tag close).region.contentIn text = String.ofList inner := by
    rw [Region.contentIn, Block.start_ofTag, Block.stop_ofTag, hplace.textBetween_eq hinner]
  have hshort := RegionKind.byteWidth_opening_le hblock.parsed hangle hkind
  have hword := RegionKind.sameWord_tagWord hkind
  -- the search finds the closing tag that is written
  have hwritten := ((Block.startsTag_congr hword ['<', '/'] _).trans
    ((RegionKind.ofTag tag.name).startsTag_closing (byteWidth inner)))
  have halone := Block.close?_elsewhere hchars hblock.closes hinner hwritten
    (byteWidth ((RegionKind.ofTag tag.name).opening.chars false))
  rw [Block.close?_congr hword] at halone
  have hlayout : ofText (oneBlock (RegionKind.ofTag tag.name) (String.ofList inner))
      = ofBlocks [Block.alone (RegionKind.ofTag tag.name) inner] := by
    rw [ofText, Block.scan?_oneBlock _ halone, Option.getD_some]
  rw [hcontent, Block.kind_ofTag, hlayout]
  refine ⟨(Block.alone (.ofTag tag.name) inner).region, rfl, Block.kind_alone _ _,
    Block.contentIn_alone _ _, ?_, ?_⟩
  · rw [Block.start_alone, Block.start_ofTag]
    exact hshort
  rw [Block.start_alone, Block.start_ofTag]
  refine Eq.trans ?_ hfound.symm
  -- first to where the block by itself starts, then on to where it starts in the document
  have hmoved : ∀ a : Region,
      (a.shift (byteWidth ((RegionKind.ofTag tag.name).opening.chars false))).shift
      (tag.after.offset - byteWidth ((RegionKind.ofTag tag.name).opening.chars false))
        = a.shift tag.after.offset := by
    intro a
    rw [Region.shift_shift, Nat.add_sub_cancel' hshort]
  rw [Block.ofTag_directives_inner hinner hclosing]
  show ((Block.alone _ inner).directives ++ []).map _ = _
  rw [List.append_nil, Block.directives_alone]
  split
  · rw [List.map_map]
    exact List.map_congr_left fun a _ => hmoved a
  · rfl

/-- An element of the same name with a directive on it, in the second block, which declares its
language and is closed in capitals. -/
theorem Layout.ofText_oneBlock_nested :
    (⟨.markup, "x", 37, 66, false⟩ : Region) ∈ (ofText
      "<script>a</script><template lang='x'><template :a='é'></template></TEMPLATE >").regions ∧
    ∃ r', (ofText (oneBlock .markup "<template :a='é'></template>")).regions = [r'] ∧
      r'.contentIn (oneBlock .markup "<template :a='é'></template>")
        = "<template :a='é'></template>" := by
  have hmem : (⟨.markup, "x", 37, 66, false⟩ : Region) ∈ (ofText
      "<script>a</script><template lang='x'><template :a='é'></template></TEMPLATE >").regions := by
    decide +kernel
  have hcontent : (⟨.markup, "x", 37, 66, false⟩ : Region).contentIn
      "<script>a</script><template lang='x'><template :a='é'></template></TEMPLATE >"
        = "<template :a='é'></template>" := by
    decide +kernel
  obtain ⟨r', hregions, -, hsame, -⟩ := ofText_oneBlock hmem (by decide)
  rw [hcontent] at hregions hsame
  exact ⟨hmem, r', hregions, hsame⟩

end ComponentHost
