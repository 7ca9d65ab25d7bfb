/-
# The regions of the blocks

Three scanners find the blocks of a document: one reads an opening tag, one looks for the
closing tag that belongs to it, and one goes from block to block.  Each of them may meet
anything at all, and each gives up rather than guess.  This file shows what holds whenever
they do not give up.

The three are treated the same way.  A spec lemma says where the scanner ends and what it has
passed (`Tag.parse?_spec`, `Block.close?_spec`), and `Block.Laid` puts them together: blocks
are laid from a place on if each opens where the scan comes to from there, is closed by what the
search for its closing tag finds, and the next are laid from behind that tag.  `Block.scan?_laid`
is the only induction over the outer scanner; everything below it is an induction over `Laid`.

WHICH tag opens a block cannot be read off the region alone.  In `<docs a="<s b">` the `>` ends the
tag `docs`, but it would also end a tag `s` if one were read from the second `<`, and from any `<`
or letter in the middle of a tag some other tag can be read.  What makes `docs` the tag of the block
is that the scan comes to it: `Block.Follows` says, without the scanner, where the search for the
next block goes on, and a tag opens a block (`Block.Opens`) if it stands where the search has come
to from the start of the text.  The places of the search stand one behind the other, so no two such
tags end at the same place (`Block.Opens.eq_of_offset_eq`), and each region has one tag that is its
own.

The region of a block is then `Region.Delimited`: it starts right behind a `>`, ends right
before a `<`, and both of its bounds are places of the text; and with the tag that opens it
`Region.IsContentOf`: that `>` is the end of this tag, and at the `<` stands a closing tag of its
name.  Regions that follow each other do not even touch (`Block.Laid.pairwise`), because a
closing tag and the next opening tag stand between them.
-/
import ComponentHost.Document.Blocks
import ComponentHost.Proofs.Places
import Mathlib.Logic.ExistsUnique
import Mathlib.Logic.Relation

namespace ComponentHost

open Relation (ReflTransGen)

/-! ## 1. Opening tags

What stands in a tag does not matter here, only that it ends with a `>` and that its name is that of
the characters behind the `<`. -/

namespace Tag

theorem quotedValue?_reaches {quote : Char} {c d : Cursor} {v : Excerpt}
    (h : quotedValue? quote c = some (v, d)) : c.Reaches d := by
  simp only [quotedValue?] at h
  split at h
  · cases h
  · cases h
    exact (Cursor.reaches_step c).trans
      ((Cursor.reaches_skipWhile _ _).trans (Cursor.reaches_step _))

theorem attributeValue?_reaches {c d : Cursor} {v : Option Excerpt}
    (h : attributeValue? c = some (v, d)) : c.Reaches d := by
  have hsign : c.Reaches (c.step.skipWhile isSpace) :=
    (Cursor.reaches_step c).trans (Cursor.reaches_skipWhile _ _)
  unfold attributeValue? at h
  split at h
  · simp only at h
    split at h
    · obtain ⟨⟨v', d'⟩, hquoted, heq⟩ := Option.map_eq_some_iff.mp h
      obtain ⟨-, rfl⟩ := Prod.mk.inj heq
      exact hsign.trans (quotedValue?_reaches hquoted)
    · obtain ⟨⟨v', d'⟩, hquoted, heq⟩ := Option.map_eq_some_iff.mp h
      obtain ⟨-, rfl⟩ := Prod.mk.inj heq
      exact hsign.trans (quotedValue?_reaches hquoted)
    · obtain ⟨-, rfl⟩ := Prod.mk.inj (Option.some.inj h)
      exact hsign.trans (Cursor.reaches_skipWhile _ _)
  · obtain ⟨-, rfl⟩ := Prod.mk.inj (Option.some.inj h)
    exact Cursor.Reaches.refl c

/-- The attributes of a tag, whatever they are, end with its `>`. -/
theorem attributes?_spec {c d : Cursor} {as : List TagAttribute} {closing : Bool}
    (h : attributes? c = some (as, closing, d)) : ∃ run, c.Passes (run ++ ['>']) d := by
  -- a step that goes on only puts characters in front
  have front : ∀ {c here : Cursor}, c.Reaches here → (∃ run, here.Passes (run ++ ['>']) d) →
      ∃ run, c.Passes (run ++ ['>']) d := by
    rintro c here ⟨before, hbefore⟩ ⟨run, hrun⟩
    refine ⟨before ++ run, ?_⟩
    rw [List.append_assoc]
    exact hbefore.trans hrun
  fun_induction attributes? c generalizing as closing with
  | case1 => cases h
  | case2 c here r =>
    rename_i hr
    cases h
    exact front (Cursor.reaches_skipWhile _ c) ⟨[], Cursor.passes_step hr⟩
  | case3 c here r =>
    rename_i hr
    cases h
    exact front (Cursor.reaches_skipWhile _ c)
      ⟨['/'], Cursor.passes_skip (show here.rest = ['/', '>'] ++ r from hr) rfl⟩
  | case4 c here r hnot hr =>
    rename_i ih
    exact front ((Cursor.reaches_skipWhile _ c).trans (Cursor.reaches_step here)) (ih h)
  | case5 => cases h
  | case6 => cases h
  | case7 c here x r hclose hself hslash hr hx nameEnd value next hvalue as' closing' after =>
    rename_i hrec ih
    cases h
    have hname : c.Reaches nameEnd :=
      (Cursor.reaches_skipWhile _ c).trans (Cursor.reaches_skipWhile _ here)
    have hnext : c.Reaches next :=
      hname.trans ((Cursor.reaches_skipWhile _ nameEnd).trans (attributeValue?_reaches hvalue))
    exact front hnext (ih hrec)
  | case8 c here x r hclose hself hslash hr hx =>
    rename_i ih
    exact front ((Cursor.reaches_skipWhile _ c).trans (Cursor.reaches_step here)) (ih h)

/-- **An opening tag is a `<`, its name, and more up to a `>`.**  The name is not empty and has
only characters of names. -/
theorem parse?_spec {c : Cursor} {t : Tag} {r : List Char} (h : parse? c = some t)
    (hc : c.rest = '<' :: r) :
    (∃ run, c.Passes ('<' :: t.name.toList ++ (run ++ ['>'])) t.after) ∧
      t.name.toList ≠ [] ∧ ∀ x ∈ t.name.toList, isNameChar x = true := by
  simp only [parse?] at h
  split at h
  · cases h
  · next hne =>
    obtain ⟨⟨as, closing, after⟩, hattributes, rfl⟩ := Option.map_eq_some_iff.mp h
    simp only [String.toList_ofList]
    refine ⟨?_, ?_, Cursor.all_run isNameChar c.step⟩
    · obtain ⟨run, hrun⟩ := attributes?_spec hattributes
      refine ⟨run, ?_⟩
      exact (Cursor.passes_step hc).trans ((Cursor.passes_skipWhile isNameChar c.step).trans hrun)
    · intro hempty
      rw [hempty] at hne
      exact hne rfl

end Tag

/-! ## 2. Closing tags

The search may pass comments and elements of the same name.  Whatever it passes, it goes forward,
and where it ends a closing tag of the name starts. -/

namespace Block

/-- A place that is not the end and at which the search for a `<` stops is at a `<`. -/
theorem rest_nextAngle {c : Cursor} (h : (nextAngle c).rest ≠ []) :
    ∃ r, (nextAngle c).rest = '<' :: r := Cursor.rest_skipWhile_ne h

theorem reaches_nextAngle (c : Cursor) : c.Reaches (nextAngle c) := Cursor.reaches_skipWhile _ c

theorem reaches_pastComment? {c d : Cursor} (h : pastComment? c = some d) : c.Reaches d :=
  (Cursor.reaches_skip 4 c).trans (Cursor.reaches_past? h)

theorem reaches_after {c : Cursor} {t : Tag} {r : List Char} (h : Tag.parse? c = some t)
    (hc : c.rest = '<' :: r) : c.Reaches t.after := by
  obtain ⟨⟨run, hrun⟩, -⟩ := Tag.parse?_spec h hc
  exact hrun.reaches

/-- **The search for a closing tag ends at one.**  However comments and nested elements are
passed over, the place that is found starts a closing tag of the name that was asked for. -/
theorem close?_spec {name : List Char} {kind : RegionKind} {depth : Nat} {c d : Cursor}
    (h : close? name kind depth c = some d) :
    c.Reaches d ∧ startsTag ('<' :: '/' :: name) d = true := by
  fun_induction close? name kind depth c with
  | case1 => cases h
  | case2 => cases h
  | case3 depth c here hr hcomment next hnext =>
    rename_i ih
    obtain ⟨hreach, hstart⟩ := ih h
    exact ⟨(reaches_nextAngle c).trans ((reaches_pastComment? hnext).trans hreach), hstart⟩
  | case4 c here hr hcomment =>
    rename_i hstart
    obtain rfl : here = d := Option.some.inj h
    exact ⟨reaches_nextAngle c, hstart⟩
  | case5 c here hr hcomment hclose depth =>
    rename_i ih
    obtain ⟨hreach, hstart⟩ := ih h
    exact ⟨(reaches_nextAngle c).trans ((Cursor.reaches_skip _ here).trans hreach), hstart⟩
  | case6 => cases h
  | case7 depth c here hr hcomment hclose hopen tag htag =>
    rename_i ih
    obtain ⟨hreach, hstart⟩ := ih h
    obtain ⟨r, hangle⟩ := rest_nextAngle hr
    exact ⟨(reaches_nextAngle c).trans ((reaches_after htag hangle).trans hreach), hstart⟩
  | case8 depth c here hr hcomment hclose hopen =>
    rename_i ih
    obtain ⟨hreach, hstart⟩ := ih h
    exact ⟨(reaches_nextAngle c).trans ((Cursor.reaches_step here).trans hreach), hstart⟩

/-! ## 3. Where the search for blocks goes

The outer scanner reads from place to place.  Only the next `<` matters to it, and there are four
ways on from there.  They exclude each other, so the places that it comes to form one chain. -/

/-- A tag stands at the next `<`: no comment starts there, and a letter follows. -/
structure TagAt (c : Cursor) (tag : Tag) : Prop where
  no_comment : (nextAngle c).starts commentOpen = false
  letter : letterFollows (nextAngle c) = true
  parsed : Tag.parse? (nextAngle c) = some tag

/-- A block stands at the next `<`, with its two tags: the first one has content, and the search for
the other ends at `close`, where a `>` ends it in turn. -/
structure BlockAt (c : Cursor) (tag : Tag) (close : Cursor) : Prop extends TagAt c tag where
  content : tag.selfClosing = false
  closes : close? tag.name.toList (.ofTag tag.name) 0 tag.after = some close
  ends : (close.skipWhile (· != '>')).rest ≠ []

/-- From the first place the search for the next block goes on at the second. -/
inductive Follows : Cursor → Cursor → Prop
  /-- Behind a comment. -/
  | comment {c d : Cursor} (opened : (nextAngle c).starts commentOpen = true)
      (closed : pastComment? (nextAngle c) = some d) : Follows c d
  /-- Behind a `<` that neither a comment nor a letter follows. -/
  | sign {c : Cursor} (angle : (nextAngle c).rest ≠ [])
      (no_comment : (nextAngle c).starts commentOpen = false)
      (no_letter : letterFollows (nextAngle c) = false) : Follows c (nextAngle c).step
  /-- Behind a tag that closes itself. -/
  | empty {c : Cursor} {tag : Tag} (tagged : TagAt c tag) (closes : tag.selfClosing = true) :
      Follows c tag.after
  /-- Behind a block, after the `>` of its closing tag. -/
  | block {c close : Cursor} {tag : Tag} (block : BlockAt c tag close) :
      Follows c (close.skipWhile (· != '>')).step

/-- The tag opens a block of the text: it stands where the search comes to from the start, and it
does not close itself. -/
def Opens (text : String) (tag : Tag) : Prop :=
  ∃ c, ReflTransGen Follows (Cursor.ofText text) c ∧ TagAt c tag ∧ tag.selfClosing = false

section Search

variable {c d e close : Cursor} {s t : Tag}

theorem TagAt.rest_ne (h : TagAt c t) : (nextAngle c).rest ≠ [] := by
  intro hnil
  have hstep : (nextAngle c).step = nextAngle c := by
    unfold Cursor.step
    rw [hnil]
  have hletter := h.letter
  rw [letterFollows, hstep, hnil] at hletter
  cases hletter

/-- A tag stands behind the place, and passes at least its `<`. -/
theorem TagAt.passes (h : TagAt c t) : ∃ run, run ≠ [] ∧ c.Passes run t.after := by
  obtain ⟨r, hangle⟩ := rest_nextAngle h.rest_ne
  obtain ⟨⟨run, hrun⟩, -⟩ := Tag.parse?_spec h.parsed hangle
  obtain ⟨before, hbefore⟩ := reaches_nextAngle c
  exact ⟨_, by simp, hbefore.trans hrun⟩

theorem TagAt.reaches (h : TagAt c t) : c.Reaches t.after := by
  obtain ⟨run, -, hrun⟩ := h.passes
  exact hrun.reaches

theorem TagAt.unique (hs : TagAt c s) (ht : TagAt c t) : s = t :=
  Option.some.inj (hs.parsed.symm.trans ht.parsed)

theorem TagAt.not_comment (h : TagAt c t) : (nextAngle c).starts commentOpen ≠ true := by
  rw [h.no_comment]
  decide

theorem TagAt.not_sign (h : TagAt c t) : letterFollows (nextAngle c) ≠ false := by
  rw [h.letter]
  decide

theorem BlockAt.passes_ending (h : BlockAt c t close) :
    ∃ run, close.Passes (run ++ ['>']) (close.skipWhile (· != '>')).step := by
  obtain ⟨r, hend⟩ := Cursor.rest_skipWhile_ne h.ends
  exact ⟨_, (Cursor.passes_skipWhile _ close).trans (Cursor.passes_step hend)⟩

theorem BlockAt.reaches_behind (h : BlockAt c t close) :
    t.after.Reaches (close.skipWhile (· != '>')).step := by
  obtain ⟨run, hrun⟩ := h.passes_ending
  exact (close?_spec h.closes).1.trans hrun.reaches

/-- The search goes forward. -/
theorem Follows.reaches (h : Follows c d) : c.Reaches d := by
  cases h with
  | comment _ closed => exact (reaches_nextAngle c).trans (reaches_pastComment? closed)
  | sign => exact (reaches_nextAngle c).trans (Cursor.reaches_step _)
  | empty tagged => exact tagged.reaches
  | block block => exact block.reaches.trans block.reaches_behind

theorem reaches_of_follows (h : ReflTransGen Follows c d) : c.Reaches d := by
  induction h with
  | refl => exact .refl c
  | tail _ hlast ih => exact ih.trans hlast.reaches

/-- Where a tag with content stands, the search goes on behind its block. -/
theorem Follows.behind_block (h : Follows c d) (ht : TagAt c t) (hcontent : t.selfClosing = false) :
    t.after.Reaches d := by
  cases h with
  | comment opened => exact absurd opened ht.not_comment
  | sign _ _ no_letter => exact absurd no_letter ht.not_sign
  | empty tagged closes =>
    rw [tagged.unique ht, hcontent] at closes
    cases closes
  | block block => exact block.unique ht ▸ block.reaches_behind

/-- **There is one way on from each place.**  A comment and a lone `<` exclude a tag, and the tag
decides the rest. -/
theorem Follows.unique (h : Follows c d) (h' : Follows c e) : d = e := by
  cases h with
  | comment opened closed =>
    cases h' with
    | comment _ closed' => exact Option.some.inj (closed.symm.trans closed')
    | sign _ no_comment => exact absurd (opened.symm.trans no_comment) (by decide)
    | empty tagged => exact absurd opened tagged.not_comment
    | block block => exact absurd opened block.not_comment
  | sign _ no_comment no_letter =>
    cases h' with
    | comment opened => exact absurd (opened.symm.trans no_comment) (by decide)
    | sign => rfl
    | empty tagged => exact absurd no_letter tagged.not_sign
    | block block => exact absurd no_letter block.not_sign
  | empty tagged closes =>
    cases h' with
    | comment opened => exact absurd opened tagged.not_comment
    | sign _ _ no_letter => exact absurd no_letter tagged.not_sign
    | empty tagged' => rw [tagged.unique tagged']
    | block block =>
      obtain rfl := tagged.unique block.toTagAt
      exact absurd (closes.symm.trans block.content) (by decide)
  | block block =>
    cases h' with
    | comment opened => exact absurd opened block.not_comment
    | sign _ _ no_letter => exact absurd no_letter block.not_sign
    | empty tagged closes =>
      obtain rfl := tagged.unique block.toTagAt
      exact absurd (closes.symm.trans block.content) (by decide)
    | block block' =>
      obtain rfl := block.unique block'.toTagAt
      rw [Option.some.inj (block.closes.symm.trans block'.closes)]

/-- A tag that opens a block ends before the tags of all places that the search comes to later. -/
theorem offset_lt_of_follows (h : ReflTransGen Follows c d) (hne : c ≠ d) (hs : TagAt c s)
    (hcontent : s.selfClosing = false) (ht : TagAt d t) : s.after.offset < t.after.offset := by
  rcases ReflTransGen.cases_head h with heq | ⟨e, hfirst, hrest⟩
  · exact absurd heq hne
  · have hbehind : s.after.Reaches d :=
      (hfirst.behind_block hs hcontent).trans (reaches_of_follows hrest)
    obtain ⟨run, hrun, hpasses⟩ := ht.passes
    exact Nat.lt_of_le_of_lt hbehind.offset_le (hpasses.offset_lt hrun)

/-- **No two tags that open blocks end at the same place.**  Of two places of the search one comes
after the other, so one tag would end before the other starts. -/
theorem Opens.eq_of_offset_eq {text : String} (hs : Opens text s) (ht : Opens text t)
    (h : s.after.offset = t.after.offset) : s = t := by
  obtain ⟨c, hc, hsc, hscontent⟩ := hs
  obtain ⟨d, hd, htd, htcontent⟩ := ht
  by_cases heq : c = d
  · subst heq
    exact hsc.unique htd
  · rcases ReflTransGen.total_of_right_unique (fun _ _ _ h h' => h.unique h') hc hd
      with hlater | hlater
    · exact absurd h (Nat.ne_of_lt (offset_lt_of_follows hlater heq hsc hscontent htd))
    · exact absurd h.symm
        (Nat.ne_of_lt (offset_lt_of_follows hlater (Ne.symm heq) htd htcontent hsc))

end Search

/-! ## 4. Blocks after blocks

The scan of a document gives a list of blocks and does not say where it found them.  `Laid` adds the
places: for each block the place that the search had come to, and the two tags. -/

/-- The blocks stand one after another from a place on. -/
inductive Laid : Cursor → List Block → Prop
  /-- There may be no blocks. -/
  | nil (c : Cursor) : Laid c []
  /-- The first block stands where the search comes to, and the others behind it. -/
  | cons {c here close : Cursor} {tag : Tag} {blocks : List Block}
      (before : ReflTransGen Follows c here) (block : BlockAt here tag close)
      (others : Laid (close.skipWhile (· != '>')).step blocks) : Laid c (ofTag tag close :: blocks)

theorem Laid.behind {c d : Cursor} {blocks : List Block} (h : Follows c d) (hd : Laid d blocks) :
    Laid c blocks := by
  cases hd with
  | nil => exact .nil c
  | cons before block others => exact .cons (.head h before) block others

/-- **Each block that is laid has a place of the search**, with both of its tags. -/
theorem Laid.exists_of_mem {c : Cursor} {blocks : List Block} (h : Laid c blocks) {b : Block}
    (hb : b ∈ blocks) : ∃ here tag close, ReflTransGen Follows c here ∧ BlockAt here tag close ∧
      b = ofTag tag close := by
  induction h with
  | nil => cases hb
  | @cons c here close tag blocks before block others ih =>
    rcases List.mem_cons.mp hb with rfl | hb
    · exact ⟨here, tag, close, before, block, rfl⟩
    · obtain ⟨here', tag', close', hlater, hblock⟩ := ih hb
      exact ⟨here', tag', close', (before.tail (.block block)).trans hlater, hblock⟩

/-- **What the outer scan finds is laid.**  Each turn of the scanner is one of the ways on. -/
theorem scan?_laid {c : Cursor} {blocks : List Block} (h : scan? c = some blocks) :
    Laid c blocks := by
  fun_induction scan? c generalizing blocks with
  | case1 c =>
    cases h
    exact .nil c
  | case2 => cases h
  | case3 c here hr hcomment next hnext =>
    rename_i ih
    exact .behind (.comment hcomment hnext) (ih h)
  | case4 => cases h
  | case5 c here hr hcomment hletter tag htag hself =>
    rename_i ih
    exact .behind (.empty ⟨Bool.eq_false_iff.mpr hcomment, hletter, htag⟩ hself) (ih h)
  | case6 => cases h
  | case7 => cases h
  | case8 c here hr hcomment hletter tag htag hself close hclose ending =>
    rename_i hending ih
    obtain ⟨others, hothers, rfl⟩ := Option.map_eq_some_iff.mp h
    have hne : ending.rest ≠ [] := fun he => hending (by rw [he]; rfl)
    exact .cons .refl ⟨⟨Bool.eq_false_iff.mpr hcomment, hletter, htag⟩, Bool.eq_false_iff.mpr hself,
      hclose, hne⟩ (ih hothers)
  | case9 c here hr hcomment hletter =>
    rename_i ih
    exact .behind (.sign hr (Bool.eq_false_iff.mpr hcomment) (Bool.eq_false_iff.mpr hletter)) (ih h)

end Block

/-! ## 5. The bytes of a closing tag

Regions are spans of bytes, so what stands at their end is said in bytes too.  A name consists of
narrow characters, each of which is one byte; and the first byte behind the name belongs to no
character of a name, whether it is the whole character or only its start. -/

/-- Can the byte stand in the name of a tag? -/
def Tag.isNameByte (b : UInt8) : Bool := Tag.isNameChar (Char.ofUInt8 b)

/-- A closing tag of the given name stands at the offset: `</`, the name in either case, and then
a byte that is no part of a name. -/
structure ClosingTagAt (text : String) (offset : Nat) (name : String) : Prop where
  angle : (Utf8.bytes text)[offset]? = some '<'.toUInt8
  slash : (Utf8.bytes text)[offset + 1]? = some '/'.toUInt8
  name_eq : (((Utf8.bytes text).drop (offset + 2)).take (Utf8.bytes name).length).map Utf8.lowerByte
    = (Utf8.bytes name).map Utf8.lowerByte
  ended : ∃ b, (Utf8.bytes text)[offset + 2 + (Utf8.bytes name).length]? = some b ∧
    Tag.isNameByte b = false

theorem toNat_ofUInt8 (b : UInt8) : (Char.ofUInt8 b).toNat = b.toNat := UInt8.toNat_toUInt32 b

theorem narrow_of_isAlphanum {c : Char} (h : c.isAlphanum = true) : c.toNat < 0x80 := by
  have hle : ∀ last : Char, c.val ≤ last.val → last.toNat < 0x80 → c.toNat < 0x80 :=
    fun _ hc hlast => Nat.lt_of_le_of_lt hc hlast
  rcases Bool.or_eq_true_iff.mp h with hletter | hdigit
  · rcases Bool.or_eq_true_iff.mp hletter with hupper | hlower
    · exact hle 'Z' (of_decide_eq_true hupper).2 (by decide)
    · exact hle 'z' (of_decide_eq_true (Bool.and_eq_true_iff.mp hlower).2) (by decide)
  · exact hle '9' (of_decide_eq_true (Bool.and_eq_true_iff.mp hdigit).2) (by decide)

theorem Tag.narrow_of_isNameChar {c : Char} (h : isNameChar c = true) : c.toNat < 0x80 := by
  simp only [isNameChar, Bool.or_eq_true, beq_iff_eq] at h
  rcases h with (((h | rfl) | rfl) | rfl) | rfl
  · exact narrow_of_isAlphanum h
  all_goals decide

/-- The first byte of a character can stand in a name only if the character can. -/
theorem Tag.isNameByte_encode {x : Char} {r : List Char} (h : isNameChar x = false) :
    ∃ b, (Utf8.encode (x :: r))[0]? = some b ∧ isNameByte b = false := by
  by_cases hx : x.toNat < 0x80
  · refine ⟨UInt8.ofNat x.toNat, ?_, ?_⟩
    · rw [Utf8.encode_cons, Utf8.encodeChar_of_narrow hx]
      rfl
    · have hb : Char.ofUInt8 (UInt8.ofNat x.toNat) = x := by
        rw [← Char.toNat_inj, toNat_ofUInt8, UInt8.toNat_ofNat']
        omega
      rw [isNameByte, hb, h]
  · obtain ⟨b, tail, hbytes, -⟩ := Utf8.step_encodeChar x []
    have hwide : 0x80 ≤ b.toNat :=
      Utf8.le_of_mem_encodeChar (Nat.le_of_not_lt hx) (by rw [hbytes]; exact List.mem_cons_self)
    refine ⟨b, ?_, ?_⟩
    · rw [Utf8.encode_cons, hbytes]
      rfl
    · -- a byte past the narrow ones is read as a character past the narrow ones
      refine Bool.eq_false_iff.mpr fun hname => ?_
      have hnarrow := narrow_of_isNameChar hname
      rw [toNat_ofUInt8] at hnarrow
      omega

/-- A text that starts with a word, up to case, starts with characters that are the word's. -/
theorem Text.startsWithWord_spec {w cs : List Char} (h : startsWithWord w cs = true) :
    ∃ u r, cs = u ++ r ∧ u.map Char.toLower = w.map Char.toLower := by
  induction w generalizing cs with
  | nil => exact ⟨[], cs, rfl, rfl⟩
  | cons a w ih =>
    cases cs with
    | nil => cases h
    | cons c cs =>
      simp only [startsWithWord, sameLetter, Bool.and_eq_true, beq_iff_eq] at h
      obtain ⟨u, r, rfl, hu⟩ := ih h.2
      refine ⟨c :: u, r, rfl, ?_⟩
      rw [List.map_cons, List.map_cons, hu, h.1]

/-- Characters that are those of a name up to case are narrow, and none of them is a `>`. -/
theorem Tag.of_map_toLower_eq {v name : List Char} (hname : ∀ x ∈ name, isNameChar x = true)
    (h : v.map Char.toLower = name.map Char.toLower) {c : Char} (hc : c ∈ v) :
    c.toNat < 0x80 ∧ c ≠ '>' := by
  have hmem : c.toLower ∈ name.map Char.toLower := h ▸ List.mem_map_of_mem hc
  obtain ⟨a, ha, hac⟩ := List.mem_map.mp hmem
  have hnarrow : a.toNat < 0x80 := narrow_of_isNameChar (hname a ha)
  refine ⟨Utf8.narrow_of_toLower (hac ▸ Utf8.toLower_narrow hnarrow), ?_⟩
  rintro rfl
  have hangle : a = '>' := Utf8.eq_of_toLower_eq hac (by decide)
  have := hname a ha
  rw [hangle] at this
  exact absurd this (by decide)

/-- What starts a closing tag: the two signs, the name up to case, and no more of a name. -/
theorem Block.startsTag_split {name : List Char} {c : Cursor}
    (h : startsTag ('<' :: '/' :: name) c = true) :
    ∃ v r, c.rest = '<' :: '/' :: (v ++ r) ∧ v.map Char.toLower = name.map Char.toLower ∧
      r.head?.any Tag.isNameChar = false := by
  simp only [startsTag, Bool.and_eq_true] at h
  obtain ⟨hword, hafter⟩ := h
  obtain ⟨u, r, hrest, hu⟩ := Text.startsWithWord_spec hword
  obtain ⟨v, rfl, hv⟩ : ∃ v, u = '<' :: '/' :: v ∧
      v.map Char.toLower = name.map Char.toLower := by
    rcases u with _ | ⟨x, _ | ⟨y, v⟩⟩
    · cases hu
    · simp at hu
    · simp only [List.map_cons, List.cons.injEq] at hu
      obtain ⟨hx, hy, hv⟩ := hu
      obtain rfl : x = '<' := Utf8.eq_of_toLower_eq hx (by decide)
      obtain rfl : y = '/' := Utf8.eq_of_toLower_eq hy (by decide)
      exact ⟨v, rfl, hv⟩
  have hlength : v.length = name.length := by simpa using congrArg List.length hv
  have hdrop : c.rest.drop ('<' :: '/' :: name).length = r := by
    rw [hrest]
    exact List.drop_left' (by simp [hlength])
  rw [hdrop] at hafter
  exact ⟨v, r, hrest, hv, by simpa using hafter⟩

/-- **A place that starts a closing tag and has a `>` behind it has the bytes of that tag.**  The
`>` is what makes sure that some byte ends the name. -/
theorem closingTagAt_of_startsTag {text name : String} {close next : Cursor} {run : List Char}
    (hplace : close.IsPlaceOf text)
    (hname : ∀ x ∈ name.toList, Tag.isNameChar x = true)
    (hstart : Block.startsTag ('<' :: '/' :: name.toList) close = true)
    (hends : close.Passes (run ++ ['>']) next) : ClosingTagAt text close.offset name := by
  obtain ⟨v, r, hrest, hv, hafter⟩ := Block.startsTag_split hstart
  have hfacts : ∀ c ∈ v, c.toNat < 0x80 ∧ c ≠ '>' := fun c hc => Tag.of_map_toLower_eq hname hv hc
  -- something follows the name, because the `>` behind it is not part of it
  obtain ⟨x, r', rfl⟩ : ∃ x r', r = x :: r' := by
    refine List.exists_cons_of_ne_nil fun hnil => ?_
    have hmem : '>' ∈ close.rest := by
      rw [hends.rest]
      simp
    rw [hrest, hnil, List.append_nil] at hmem
    simp only [List.mem_cons] at hmem
    rcases hmem with h | h | h
    · cases h
    · cases h
    · exact (hfacts '>' h).2 rfl
  have hx : Tag.isNameChar x = false := hafter
  have hbytes : (Utf8.bytes text).drop close.offset
      = 0x3C :: 0x2F :: (Utf8.encode v ++ Utf8.encode (x :: r')) := by
    rw [hplace.drop_bytes, hrest, Utf8.encode_cons, Utf8.encode_cons, Utf8.encode_append]
    rfl
  have hat : ∀ i, (Utf8.bytes text)[close.offset + i]?
      = (0x3C :: 0x2F :: (Utf8.encode v ++ Utf8.encode (x :: r')))[i]? := by
    intro i
    rw [← hbytes, List.getElem?_drop]
  have hlower : (Utf8.encode v).map Utf8.lowerByte = (Utf8.bytes name).map Utf8.lowerByte := by
    rw [Utf8.bytes_eq_encode, Utf8.map_lowerByte_encode fun c hc => (hfacts c hc).1,
      Utf8.map_lowerByte_encode fun c hc => Tag.narrow_of_isNameChar (hname c hc), hv]
  have hsize : (Utf8.encode v).length = (Utf8.bytes name).length := by
    simpa using congrArg List.length hlower
  refine ⟨hat 0, hat 1, ?_, ?_⟩
  · rw [← List.drop_drop, hbytes, ← hsize, ← hlower]
    exact congrArg (List.map _) List.take_left
  · obtain ⟨b, hb, hnot⟩ := Tag.isNameByte_encode hx
    refine ⟨b, ?_, hnot⟩
    rw [Nat.add_assoc, hat, ← hsize, Nat.add_comm 2]
    simp only [List.getElem?_cons_succ]
    rw [List.getElem?_append_right (Nat.le_refl _), Nat.sub_self]
    exact hb

/-! ## 6. The regions of a document

Now for the regions.  Two statements are made of one region: what its bounds show in the bytes,
which other files use, and whose content it is. -/

/-- The region lies between two tags, as far as its bounds show. -/
structure Region.Delimited (text : String) (r : Region) : Prop where
  one_le_start : 1 ≤ r.start
  start_le_stop : r.start ≤ r.stop
  stop_lt : r.stop < (Utf8.bytes text).length
  start_boundary : String.Pos.Raw.IsValid text ⟨r.start⟩
  stop_boundary : String.Pos.Raw.IsValid text ⟨r.stop⟩
  /-- The byte before the region ends a tag. -/
  behind : (Utf8.bytes text)[r.start - 1]? = some '>'.toUInt8
  /-- The byte at its end starts one. -/
  angle : (Utf8.bytes text)[r.stop]? = some '<'.toUInt8

/-- The region is the content of the block that the tag opens: it starts where this tag ends, and
ends where a closing tag of the same name starts. -/
structure Region.IsContentOf (text : String) (tag : Tag) (r : Region) : Prop
    extends r.Delimited text where
  opens : Block.Opens text tag
  starts : tag.after.offset = r.start
  kind_eq : r.kind = .ofTag tag.name
  closed : ClosingTagAt text r.stop tag.name

namespace Block

/-- The content of a block stands between its two tags. -/
theorem BlockAt.isContentOf {text : String} {here close : Cursor} {tag : Tag}
    (hlooks : ReflTransGen Follows (Cursor.ofText text) here) (h : BlockAt here tag close) :
    (ofTag tag close).region.IsContentOf text tag := by
  have hplace : (nextAngle here).IsPlaceOf text :=
    (reaches_of_follows hlooks).trans (reaches_nextAngle here)
  obtain ⟨r, hangle⟩ := rest_nextAngle h.rest_ne
  obtain ⟨⟨inside, hinside⟩, -, hname⟩ := Tag.parse?_spec h.parsed hangle
  obtain ⟨hreach, hstart⟩ := close?_spec h.closes
  obtain ⟨run, hrun⟩ := h.passes_ending
  have hafter : tag.after.IsPlaceOf text := hplace.reaches hinside.reaches
  have hclose : close.IsPlaceOf text := hafter.reaches hreach
  have hclosing := closingTagAt_of_startsTag hclose hname hstart hrun
  refine ⟨⟨?_, hreach.offset_le, ?_, hafter.isValid, hclose.isValid, ?_, hclosing.angle⟩,
    ⟨here, hlooks, h.toTagAt, h.content⟩, rfl, rfl, hclosing⟩
  · show 1 ≤ tag.after.offset
    rw [hinside.offset, List.cons_append, byteWidth_cons, Utf8.utf8Size_of_narrow (by decide)]
    omega
  · exact (List.getElem?_eq_some_iff.mp hclosing.angle).1
  · rw [← List.append_assoc] at hinside
    exact hplace.getElem?_before hinside (by decide)

/-- Blocks that stand behind a place start behind it. -/
theorem Laid.le_start {c : Cursor} {blocks : List Block} (h : Laid c blocks) {b : Block}
    (hb : b ∈ blocks) : c.offset ≤ b.region.start := by
  obtain ⟨here, tag, close, hlooks, hblock, rfl⟩ := h.exists_of_mem hb
  exact ((reaches_of_follows hlooks).trans hblock.reaches).offset_le

/-- **A region ends before the next one starts**: at least the `>` of its closing tag stands
between them. -/
theorem Laid.pairwise {c : Cursor} {blocks : List Block} (h : Laid c blocks) :
    blocks.Pairwise fun a b => a.region.stop < b.region.start := by
  induction h with
  | nil => exact List.Pairwise.nil
  | @cons c here close tag blocks before block others ih =>
    refine List.Pairwise.cons (fun b hb => ?_) ih
    obtain ⟨run, hrun⟩ := block.passes_ending
    exact Nat.lt_of_lt_of_le (hrun.offset_lt (by simp)) (others.le_start hb)

end Block

namespace Layout

/-- The blocks of a document, found or none, are laid from its start on. -/
theorem laid_ofText (text : String) :
    Block.Laid (Cursor.ofText text) ((Block.scan? (Cursor.ofText text)).getD []) := by
  cases h : Block.scan? (Cursor.ofText text) with
  | none => exact .nil _
  | some blocks => exact Block.scan?_laid h

/-- Each region is the content of a block, and one tag opens that block. -/
theorem isContentOf_of_mem {text : String} {r : Region} (h : r ∈ (ofText text).regions) :
    ∃! tag, r.IsContentOf text tag := by
  obtain ⟨b, hb, rfl⟩ := List.mem_map.mp h
  obtain ⟨here, tag, close, hlooks, hblock, rfl⟩ := (laid_ofText text).exists_of_mem hb
  have htag := hblock.isContentOf hlooks
  refine ⟨tag, htag, fun other hother => ?_⟩
  exact hother.opens.eq_of_offset_eq htag.opens (hother.starts.trans htag.starts.symm)

theorem delimited_of_mem {text : String} {r : Region} (h : r ∈ (ofText text).regions) :
    r.Delimited text := by
  obtain ⟨tag, htag, -⟩ := isContentOf_of_mem h
  exact htag.toDelimited

theorem pairwise_regions (text : String) :
    (ofText text).regions.Pairwise fun a b => a.stop < b.start :=
  List.pairwise_map.mpr (laid_ofText text).pairwise

end Layout

/-- Of regions that end before the next one starts, at most one contains an offset. -/
theorem Region.length_filter_contains_le {regions : List Region} (offset : Nat)
    (h : regions.Pairwise fun a b => a.stop < b.start) :
    (regions.filter (·.contains offset)).length ≤ 1 := by
  induction h with
  | nil => exact Nat.zero_le _
  | @cons a rest hfirst _ ih =>
    by_cases ha : a.contains offset = true
    · have hnone : rest.filter (·.contains offset) = [] := by
        refine List.filter_eq_nil_iff.mpr fun b hb hcontains => ?_
        simp only [contains, Bool.and_eq_true, decide_eq_true_eq] at ha hcontains
        have := hfirst b hb
        omega
      rw [List.filter_cons, if_pos ha, hnone]
      exact Nat.le_refl _
    · rw [List.filter_cons, if_neg ha]
      exact ih

/-- **The regions of any text are well formed.**  Each is the content of a block, between the one
tag that opens it and a closing tag of the same name, on character boundaries; they stand in order,
and no offset belongs to two of them. -/
theorem Layout.regions_wellFormed (text : String) :
    (∀ r ∈ (ofText text).regions, ∃! tag, r.IsContentOf text tag) ∧
      (ofText text).regions.Pairwise (fun a b => a.stop < b.start) ∧
      (ofText text).regions.Pairwise (fun a b => a.start < b.start) ∧
      ∀ offset, ((ofText text).regions.filter (·.contains offset)).length ≤ 1 := by
  refine ⟨fun r hr => isContentOf_of_mem hr, pairwise_regions text, ?_, ?_⟩
  · refine (pairwise_regions text).imp_of_mem fun ha _ hab => ?_
    exact Nat.lt_of_le_of_lt (delimited_of_mem ha).start_le_stop hab
  · exact fun offset => Region.length_filter_contains_le offset (pairwise_regions text)

/-- A block with a wide character in it, an unused `>` before it, and a closing tag in capitals. -/
theorem Layout.regions_wellFormed_script :
    ∃! tag, (⟨.script, "typescript", 20, 22, false⟩ : Region).IsContentOf
      "> <script lang='ts'>é</SCRIPT >" tag :=
  (regions_wellFormed "> <script lang='ts'>é</SCRIPT >").1 _ (by decide +kernel)

/-- In `<docs>` a tag `s` could be read from its last letters, and a closing tag of that name
follows.  It is not where the block ends, because the search does not come to it. -/
example :
    ¬ ∃ tag, (⟨.custom, "docs", 6, 7, false⟩ : Region).IsContentOf "<docs>a</s>b</docs>" tag := by
  rintro ⟨tag, htag⟩
  have hdocs : Block.Opens "<docs>a</s>b</docs>" ⟨"docs", [], false, ⟨6, "a</s>b</docs>".toList⟩⟩ :=
    ⟨_, .refl, ⟨by decide, by decide, by decide +kernel⟩, rfl⟩
  obtain rfl := htag.opens.eq_of_offset_eq hdocs htag.starts
  exact absurd htag.closed.name_eq (by decide +kernel)

end ComponentHost
