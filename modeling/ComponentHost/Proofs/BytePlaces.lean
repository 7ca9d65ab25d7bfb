/-
# Bytes at the places of a text

A scanner that counts bytes (`ByteScan.lean`) and one that moves a cursor read the same text.  At
a place of the text, which is where a cursor can be, each checked access succeeds:

* a test of bytes and a test of characters agree if every byte of a character answers as the
  character does (`Agrees`); then skipping bytes ends where skipping characters does;
* between two places a slice is the run of characters that lies there (`textBetween_passes`);
* a loop whose turns follow the steps of a scanner gives what the scanner gives (`loop_eq`).  The
  step moves to a later place, which is just what a turn has to do.

What makes the comparison work is that UTF-8 keeps narrow characters apart: a byte below 0x80 is a
character of its own and never a part of a wide one.  All that the scanners test for is narrow, or
treats the wide characters alike, so a test can be made on any byte of a character.
-/
import ComponentHost.Proofs.ByteScan
import ComponentHost.Proofs.DirectiveRegions

namespace ComponentHost.ByteScan

/-! ## 1. Bytes of characters

Without texts and offsets: characters and the bytes they are encoded as.  Each test of the scanners
is shown to agree on both, and then skipping, searching and comparing words do. -/

/-- Every byte of a character answers as the character does. -/
def Agrees (p : UInt8 → Bool) (q : Char → Bool) : Prop :=
  ∀ c, ∀ b ∈ String.utf8EncodeChar c, p b = q c

theorem ofUInt8_of_narrow {c : Char} (h : c.toNat < 0x80) :
    Char.ofUInt8 (UInt8.ofNat c.toNat) = c := by
  rw [← Char.toNat_inj, toNat_ofUInt8, UInt8.toNat_ofNat']
  omega

/-- A test on characters that has one answer for all wide characters can be made on bytes. -/
theorem agrees_of_wide {q : Char → Bool} (answer : Bool)
    (h : ∀ c : Char, 0x80 ≤ c.toNat → q c = answer) : Agrees (fun b => q (Char.ofUInt8 b)) q := by
  intro c b hb
  by_cases hc : c.toNat < 0x80
  · rw [Utf8.encodeChar_of_narrow hc, List.mem_singleton] at hb
    show q (Char.ofUInt8 b) = q c
    rw [hb, ofUInt8_of_narrow hc]
  · have hwide := Utf8.le_of_mem_encodeChar (Nat.le_of_not_lt hc) hb
    show q (Char.ofUInt8 b) = q c
    rw [h c (Nat.le_of_not_lt hc), h (Char.ofUInt8 b) (by rw [toNat_ofUInt8]; exact hwide)]

theorem ne_of_wide {c k : Char} (hc : 0x80 ≤ c.toNat) (hk : k.toNat < 0x80) : c ≠ k := by
  rintro rfl
  omega

theorem agrees_name : Agrees Tag.isNameByte Tag.isNameChar := by
  refine agrees_of_wide false fun c hc => Bool.eq_false_iff.mpr fun hname => ?_
  have hnarrow := Tag.narrow_of_isNameChar hname
  omega

theorem isSpace_of_wide {c : Char} (h : 0x80 ≤ c.toNat) : Tag.isSpace c = false := by
  have hfeed : c.toNat ≠ 0x0C := by omega
  simp [Tag.isSpace, ne_of_wide h, hfeed]

theorem agrees_space : Agrees isSpaceByte Tag.isSpace :=
  agrees_of_wide false fun _ => isSpace_of_wide

theorem agrees_attribute : Agrees isAttributeByte Tag.isAttributeChar :=
  agrees_of_wide true fun c hc => by
    simp [Tag.isAttributeChar, isSpace_of_wide hc, ne_of_wide hc]

theorem agrees_bare : Agrees isBareByte Tag.isBareValueChar :=
  agrees_of_wide true fun c hc => by
    simp [Tag.isBareValueChar, isSpace_of_wide hc, ne_of_wide hc]

theorem agrees_alpha : Agrees (fun b => (Char.ofUInt8 b).isAlpha) Char.isAlpha := by
  refine agrees_of_wide false fun c hc => Bool.eq_false_iff.mpr fun hletter => ?_
  have hnarrow := narrow_of_isAlphanum (c := c) (Bool.or_eq_true_iff.mpr (Or.inl hletter))
  omega

/-- A narrow character can be searched for as its byte. -/
theorem agrees_ne {k : Char} (hk : k.toNat < 0x80) :
    Agrees (· != k.toUInt8) (· != k) := by
  intro c b hb
  by_cases hc : c = k
  · subst hc
    rw [Utf8.encodeChar_of_narrow hk, List.mem_singleton] at hb
    subst hb
    show (c.toUInt8 != c.toUInt8) = (c != c)
    simp
  · have hne : b ≠ k.toUInt8 := by
      rintro rfl
      exact hc (Utf8.eq_of_mem_encodeChar hk hb)
    show (b != k.toUInt8) = (c != k)
    rw [bne_iff_ne.mpr hne, bne_iff_ne.mpr hc]

/-- The first byte of a character. -/
def firstByte (c : Char) : UInt8 := (String.utf8EncodeChar c).headD 0

theorem encodeChar_eq_cons (c : Char) : ∃ tail, String.utf8EncodeChar c = firstByte c :: tail := by
  obtain ⟨b, tail, hbytes, -⟩ := Utf8.step_encodeChar c []
  exact ⟨tail, by rw [firstByte, hbytes]; rfl⟩

theorem firstByte_mem (c : Char) : firstByte c ∈ String.utf8EncodeChar c := by
  obtain ⟨tail, htail⟩ := encodeChar_eq_cons c
  rw [htail]
  exact List.mem_cons_self

theorem Agrees.firstByte {p : UInt8 → Bool} {q : Char → Bool} (h : Agrees p q) (c : Char) :
    p (firstByte c) = q c := h c _ (firstByte_mem c)

/-- The first byte tells the narrow characters apart. -/
theorem firstByte_eq_iff {c k : Char} (hk : k.toNat < 0x80) :
    ByteScan.firstByte c = k.toUInt8 ↔ c = k := by
  constructor
  · intro h
    have hmem := firstByte_mem c
    rw [h] at hmem
    exact Utf8.eq_of_mem_encodeChar hk hmem
  · rintro rfl
    rw [ByteScan.firstByte, Utf8.encodeChar_of_narrow hk]
    rfl

/-- **Bytes that are skipped are whole characters.** -/
theorem takeWhile_encode {p : UInt8 → Bool} {q : Char → Bool} (h : Agrees p q) (cs : List Char) :
    (Utf8.encode cs).takeWhile p = Utf8.encode (cs.takeWhile q) := by
  induction cs with
  | nil => rfl
  | cons c cs ih =>
    by_cases hc : q c = true
    · have hall : ∀ b ∈ String.utf8EncodeChar c, p b = true := fun b hb => (h c b hb).trans hc
      rw [Utf8.encode_cons, List.takeWhile_append_of_pos hall, ih, List.takeWhile_cons_of_pos hc,
        Utf8.encode_cons]
    · obtain ⟨tail, htail⟩ := encodeChar_eq_cons c
      have hfirst : ¬ p (ByteScan.firstByte c) = true := by rwa [h.firstByte]
      rw [Utf8.encode_cons, htail, List.cons_append, List.takeWhile_cons_of_neg hfirst,
        List.takeWhile_cons_of_neg hc, Utf8.encode_nil]

/-- A narrow character is found where skipping to it ends. -/
theorem findByte_encode {k : Char} (hk : k.toNat < 0x80) (cs : List Char) :
    findByte k.toUInt8 (Utf8.encode cs) = if cs.dropWhile (· != k) = [] then none
      else some (byteWidth (cs.takeWhile (· != k))) := by
  have hsplit : byteWidth cs = byteWidth (cs.takeWhile (· != k)) + byteWidth (cs.dropWhile (· != k)) := by
    rw [← byteWidth_append, List.takeWhile_append_dropWhile]
  simp only [findByte, takeWhile_encode (agrees_ne hk), Utf8.length_encode]
  split
  · next hlt =>
    rw [if_neg]
    intro hnil
    rw [hnil, byteWidth_nil] at hsplit
    omega
  · next hnot =>
    rw [if_pos]
    have hzero : byteWidth (cs.dropWhile (· != k)) = 0 := by omega
    exact byteWidth_eq_zero hzero

/-- **A narrow character is searched for between two places.**  Either it does not stand between
them, or the search by bytes ends where the search by characters does. -/
theorem findByte_between {c e : Cursor} {run : List Char} (h : c.Passes run e) {k : Char}
    (hk : k.toNat < 0x80) :
    e.offset ≤ (c.skipWhile (· != k)).offset ∧ findByte k.toUInt8 (Utf8.encode run) = none ∨
      (c.skipWhile (· != k)).offset < e.offset ∧ ∃ n, findByte k.toUInt8 (Utf8.encode run) = some n ∧
        c.offset + n = (c.skipWhile (· != k)).offset := by
  have hstop : (c.skipWhile (· != k)).offset
      = c.offset + byteWidth ((run ++ e.rest).takeWhile (· != k)) := by
    rw [← h.rest]
    rfl
  have hsplit : run.takeWhile (· != k) ++ run.dropWhile (· != k) = run :=
    List.takeWhile_append_dropWhile
  rw [findByte_encode hk, hstop, h.offset]
  have hall : ∀ x ∈ run.takeWhile (· != k), (x != k) = true :=
    fun x hx => List.all_eq_true.mp List.all_takeWhile x hx
  cases hd : run.dropWhile (· != k) with
  | nil =>
    rw [hd, List.append_nil] at hsplit
    rw [hsplit] at hall
    refine Or.inl ⟨?_, if_pos rfl⟩
    rw [List.takeWhile_append_of_pos hall, byteWidth_append]
    omega
  | cons x r =>
    have hx : (x != k) = false :=
      Cursor.not_of_skipWhile (p := (· != k)) (c := ⟨0, run⟩) hd
    have htake : (run ++ e.rest).takeWhile (· != k) = run.takeWhile (· != k) := by
      conv => lhs; rw [← hsplit, hd]
      rw [List.append_assoc, List.takeWhile_append_of_pos hall]
      simp [hx]
    have hwidth : byteWidth run = byteWidth (run.takeWhile (· != k)) + byteWidth (x :: r) := by
      rw [← byteWidth_append, ← hd, hsplit]
    have hpos := x.utf8Size_pos
    rw [byteWidth_cons] at hwidth
    refine Or.inr ⟨?_, _, if_neg (List.cons_ne_nil _ _), ?_⟩
    · rw [htake]
      omega
    · rw [htake]

/-- The search for a narrow character from a place on. -/
theorem findByte_place {k : Char} (hk : k.toNat < 0x80) (c : Cursor) :
    (c.skipWhile (· != k)).rest = [] ∧ findByte k.toUInt8 (Utf8.encode c.rest) = none ∨
      ∃ r n, (c.skipWhile (· != k)).rest = k :: r ∧
        findByte k.toUInt8 (Utf8.encode c.rest) = some n ∧
        c.offset + n = (c.skipWhile (· != k)).offset := by
  have hpasses : c.Passes c.rest ⟨c.limit, []⟩ := ⟨(List.append_nil _).symm, rfl⟩
  have hlimit := Cursor.limit_skipWhile (· != k) c
  rw [Cursor.limit] at hlimit
  rcases findByte_between hpasses hk with ⟨hend, hnone⟩ | ⟨hinside, n, hsome, hstop⟩
  · refine Or.inl ⟨byteWidth_eq_zero ?_, hnone⟩
    dsimp only at hend
    omega
  · have hne : (c.skipWhile (· != k)).rest ≠ [] := by
      intro hnil
      rw [hnil, byteWidth_nil] at hlimit
      dsimp only at hinside
      omega
    obtain ⟨r, hr⟩ := Cursor.rest_skipWhile_ne hne
    exact Or.inr ⟨r, n, hr, hsome, hstop⟩

/-- A word of narrow characters starts a text as its bytes start the bytes. -/
theorem isPrefixOf_encode {word : List Char} (hword : ∀ c ∈ word, c.toNat < 0x80) (cs : List Char) :
    (Utf8.encode word).isPrefixOf (Utf8.encode cs) = word.isPrefixOf cs := by
  induction word generalizing cs with
  | nil => simp
  | cons w word ih =>
    have hw : w.toNat < 0x80 := hword w List.mem_cons_self
    cases cs with
    | nil => simp [Utf8.encodeChar_of_narrow hw]
    | cons c cs =>
      have hrest := ih (fun x hx => hword x (List.mem_cons_of_mem _ hx)) cs
      obtain ⟨tail, htail⟩ := encodeChar_eq_cons c
      rw [Utf8.encode_cons, Utf8.encode_cons, Utf8.encodeChar_of_narrow hw, List.singleton_append]
      by_cases hc : w = c
      · subst hc
        rw [Utf8.encodeChar_of_narrow hw, List.singleton_append]
        simp [List.isPrefixOf, hrest]
      · have hfirst : UInt8.ofNat w.toNat ≠ ByteScan.firstByte c := fun h =>
          hc ((firstByte_eq_iff hw).mp h.symm).symm
        rw [htail]
        show (UInt8.ofNat w.toNat == ByteScan.firstByte c && _) = (w == c && _)
        rw [beq_eq_false_iff_ne.mpr hfirst, beq_eq_false_iff_ne.mpr hc, Bool.false_and, Bool.false_and]

/-! ## 2. Access at places

A place of a text is an offset together with the characters from there on.  The bytes from the
offset on are those of these characters, so looking at a byte and cutting out a slice can be said in
terms of characters, and both succeed. -/

section Places

variable {text : String} {c d : Cursor}

theorem offset_add_byteWidth (h : c.IsPlaceOf text) : c.offset + byteWidth c.rest = size text := by
  obtain ⟨before, hchars, hoffset⟩ := h.split
  rw [size, Utf8.length_bytes, hchars, byteWidth_append, hoffset]

theorem offset_le_size (h : c.IsPlaceOf text) : c.offset ≤ size text := by
  have := offset_add_byteWidth h
  omega

/-- The end of the text is where nothing is left. -/
theorem size_le_offset_iff (h : c.IsPlaceOf text) : size text ≤ c.offset ↔ c.rest = [] := by
  have hsize := offset_add_byteWidth h
  constructor
  · intro hle
    exact byteWidth_eq_zero (by omega)
  · intro hnil
    rw [hnil, byteWidth_nil] at hsize
    omega

/-- The byte at a place is the first of the next character. -/
theorem byteAt?_place (h : c.IsPlaceOf text) : byteAt? text c.offset = c.rest.head?.map firstByte := by
  have hbyte := h.getElem? 0
  rw [Nat.add_zero] at hbyte
  rw [byteAt?, hbyte]
  cases c.rest with
  | nil => rfl
  | cons x r =>
    obtain ⟨tail, htail⟩ := encodeChar_eq_cons x
    rw [Utf8.encode_cons, htail]
    rfl

theorem byteAt_place (h : c.IsPlaceOf text) {x : Char} {r : List Char} (hr : c.rest = x :: r) :
    byteAt text c.offset = .ok (firstByte x) := by
  rw [byteAt, byteAt?_place h, hr]
  rfl

/-- Of two places of a text, the one with the smaller offset comes first. -/
theorem reaches_of_offset_le (h : c.IsPlaceOf text) (hd : d.IsPlaceOf text)
    (hle : c.offset ≤ d.offset) : c.Reaches d := by
  obtain ⟨a, ha, haw⟩ := h.split
  obtain ⟨b, hb, hbw⟩ := hd.split
  rcases List.append_eq_append_iff.mp (ha.symm.trans hb) with ⟨m, hm, hrest⟩ | ⟨m, hm, hrest⟩
  · refine ⟨m, hrest, ?_⟩
    rw [hbw, haw, hm, byteWidth_append]
  · rw [hm, byteWidth_append] at haw
    have hnil : m = [] := byteWidth_eq_zero (by omega)
    rw [hnil] at hrest haw
    refine ⟨[], hrest.symm, ?_⟩
    rw [hbw, haw]
    rfl

theorem isPlaceOf_end (h : c.IsPlaceOf text) :
    c.Passes c.rest ⟨size text, []⟩ ∧ Cursor.IsPlaceOf text ⟨size text, []⟩ := by
  have hpasses : c.Passes c.rest ⟨size text, []⟩ :=
    ⟨(List.append_nil _).symm, (offset_add_byteWidth h).symm⟩
  exact ⟨hpasses, h.reaches hpasses.reaches⟩

/-- The bytes between two places are those of the characters between them. -/
theorem bytesBetween_passes (h : c.IsPlaceOf text) {run : List Char} (hd : c.Passes run d) :
    bytesBetween text c.offset d.offset = .ok (Utf8.encode run) := by
  have hle : c.offset ≤ d.offset := hd.reaches.offset_le
  have hsize : d.offset ≤ size text := offset_le_size (h.reaches hd.reaches)
  have hdrop : ((Utf8.bytes text).take d.offset).drop c.offset = Utf8.encode run := by
    have hwidth : d.offset - c.offset = (Utf8.encode run).length := by
      rw [hd.offset, Utf8.length_encode]
      omega
    rw [List.drop_take, h.drop_bytes, hd.rest, Utf8.encode_append, hwidth, List.take_left]
  rw [bytesBetween, if_pos ⟨hle, hsize⟩, hdrop]

theorem bytesFrom_place (h : c.IsPlaceOf text) :
    bytesBetween text c.offset (size text) = .ok (Utf8.encode c.rest) :=
  bytesBetween_passes h (isPlaceOf_end h).1

/-- **Between two places no character is cut.** -/
theorem textBetween_passes (h : c.IsPlaceOf text) {run : List Char} (hd : c.Passes run d) :
    textBetween text c.offset d.offset = .ok run := by
  have hvalid := And.intro h.isValid (h.reaches hd.reaches).isValid
  rw [textBetween, bytesBetween_passes h hd]
  simp only [bind, Except.bind, if_pos hvalid, Utf8.decode?_encode]
  rfl

theorem textFrom_place (h : c.IsPlaceOf text) :
    textBetween text c.offset (size text) = .ok c.rest :=
  textBetween_passes h (isPlaceOf_end h).1

/-! ## 3. Loops

There is one loop, and a lemma about it for all four scanners.  Its hypothesis is about a single
turn at a place; the induction is on what is left of the text, which is what makes the scanner
itself end. -/

/-- **A loop that follows a scanner gives what the scanner gives.**  Where the scanner ends, the
turn ends with its result; where it goes on, at a place that leaves less to read, the turn goes on
at the offset of that place. -/
theorem loop_eq {σ β : Type} {turn : σ → Nat → Except Fault (Turn σ β)} (run : σ → Cursor → β)
    (hturn : ∀ (s : σ) (c : Cursor), c.IsPlaceOf text →
      turn s c.offset = .ok (.done (run s c)) ∨
      ∃ (s' : σ) (d : Cursor), turn s c.offset = .ok (.next s' d.offset) ∧ c.Reaches d ∧
        d.rest.length < c.rest.length ∧ run s c = run s' d)
    (s : σ) (c : Cursor) (h : c.IsPlaceOf text) : loop text turn s c.offset = .ok (run s c) := by
  induction c using Cursor.induction_on_rest generalizing s with
  | step c ih =>
    rcases hturn s c h with hdone | ⟨s', d, hnext, hreaches, hless, hrun⟩
    · exact loop_done text hdone
    · have hlater : c.offset < d.offset := by
        obtain ⟨passed, hpassed⟩ := hreaches
        refine hpassed.offset_lt ?_
        rintro rfl
        have hsame : c.rest = d.rest := hpassed.rest
        rw [hsame] at hless
        exact absurd hless (Nat.lt_irrefl _)
      rw [loop_next text hnext hlater (offset_le_size (h.reaches hreaches)), hrun]
      exact ih d hless s' (h.reaches hreaches)

/-- Skipping counts the bytes of the sort. -/
theorem skipBytes_eq (p : UInt8 → Bool) {here : Nat} (h : here ≤ size text) :
    skipBytes text p here = .ok (here + (((Utf8.bytes text).drop here).takeWhile p).length) := by
  induction hn : size text - here generalizing here with
  | zero =>
    have hend : ¬ here < size text := by omega
    rw [skipBytes, loop_done text (show skipTurn text p () here = .ok (.done here) from if_neg hend),
      List.drop_eq_nil_of_le (Nat.le_of_not_lt hend)]
    rfl
  | succ n ih =>
    have hlt : here < (Utf8.bytes text).length := by
      rw [size] at hn
      omega
    have hbyte : byteAt text here = .ok (Utf8.bytes text)[here] := by
      rw [byteAt, byteAt?, List.getElem?_eq_getElem hlt]
      rfl
    have hturn : skipTurn text p () here
        = .ok (if p (Utf8.bytes text)[here] then .next () (here + 1) else .done here) := by
      have hinside : here < size text := hlt
      rw [skipTurn, if_pos hinside, hbyte]
      rfl
    rw [List.drop_eq_getElem_cons hlt, List.takeWhile_cons]
    split
    · next hp =>
      rw [if_pos hp] at hturn
      have hrest := @ih (here + 1) hlt (by omega)
      rw [skipBytes] at hrest
      rw [skipBytes, loop_next text hturn (Nat.lt_succ_self _) hlt, hrest, List.length_cons]
      exact congrArg Except.ok (by omega)
    · next hp =>
      rw [if_neg hp] at hturn
      exact loop_done text hturn

/-- **Skipping bytes ends where skipping characters does.** -/
theorem skipBytes_place {p : UInt8 → Bool} {q : Char → Bool} (hp : Agrees p q)
    (h : c.IsPlaceOf text) : skipBytes text p c.offset = .ok (c.skipWhile q).offset := by
  rw [skipBytes_eq p (offset_le_size h), h.drop_bytes, takeWhile_encode hp, Utf8.length_encode]
  rfl

theorem isPlaceOf_skipWhile (h : c.IsPlaceOf text) (q : Char → Bool) :
    (c.skipWhile q).IsPlaceOf text := h.reaches (Cursor.reaches_skipWhile q c)

theorem isPlaceOf_step (h : c.IsPlaceOf text) : c.step.IsPlaceOf text :=
  h.reaches (Cursor.reaches_step c)

/-- Behind a narrow character the offset is one more. -/
theorem offset_step_narrow {x : Char} {r : List Char} (hr : c.rest = x :: r) (hx : x.toNat < 0x80) :
    c.step.offset = c.offset + 1 := by
  rw [(Cursor.passes_step hr).offset, byteWidth_cons, Utf8.utf8Size_of_narrow hx]
  rfl

end Places

/-! ## 4. Comments and the starts of tags

The small pieces that are asked for at a `<`.  Words are compared up to case, on bytes by lowering
the bytes of capital letters.  A wide character has no such byte, so on both sides only ASCII
letters have two cases. -/

section Pieces

variable {text : String} {c d : Cursor}

theorem ok_bind {α β : Type} (a : α) (f : α → Except Fault β) : (Except.ok a >>= f) = f a := rfl

theorem pure_eq {α : Type} (a : α) : (pure a : Except Fault α) = .ok a := rfl

/-- The sign that opens a comment is narrow, and is compared as it is. -/
theorem startsComment_place (h : c.IsPlaceOf text) :
    startsComment text c.offset = .ok (c.starts Block.commentOpen) := by
  have hnarrow : ∀ x ∈ Block.commentOpen, x.toNat < 0x80 := by
    simp [Block.commentOpen]
  rw [startsComment, bytesFrom_place h]
  exact congrArg Except.ok (isPrefixOf_encode hnarrow c.rest)

/-- The place behind a word, and the number of bytes before the word. -/
theorem findPast_eq (word : List Char) (offset : Nat) (cs : List Char) :
    (Cursor.findPast word offset cs).map Cursor.offset
      = (findText word cs).map fun n => offset + n + byteWidth word := by
  induction cs generalizing offset with
  | nil =>
    rw [Cursor.findPast, findText]
    split
    · next hempty =>
      rw [List.isEmpty_iff.mp hempty]
      rfl
    · rfl
  | cons x r ih =>
    rw [Cursor.findPast, findText]
    split
    · rfl
    · rw [ih, Option.map_map]
      refine congrArg (fun f => Option.map f (findText word r)) (funext fun n => ?_)
      show offset + x.utf8Size + n + _ = offset + (x.utf8Size + n) + _
      omega

/-- What starts with the sign of a comment can be looked at behind that sign. -/
theorem pastComment?_place (h : c.IsPlaceOf text) (hc : c.starts Block.commentOpen = true) :
    pastComment? text c.offset = .ok ((Block.pastComment? c).map Cursor.offset) := by
  obtain ⟨r, hr⟩ := List.isPrefixOf_iff_prefix.mp hc
  have hskip : c.Passes Block.commentOpen (c.skip 4) := Cursor.passes_skip hr.symm rfl
  have hoffset : (c.skip 4).offset = c.offset + 4 := hskip.offset
  have hrest := textFrom_place (h.reaches hskip.reaches)
  rw [hoffset] at hrest
  rw [pastComment?, hrest, ok_bind, Block.pastComment?, Cursor.past?, findPast_eq, hoffset]
  rfl

/-- Narrow letters are the same up to case if their bytes are. -/
theorem lowerByte_eq_iff {w x : Char} (hw : w.toNat < 0x80) (hx : x.toNat < 0x80) :
    Utf8.lowerByte (UInt8.ofNat x.toNat) = Utf8.lowerByte (UInt8.ofNat w.toNat) ↔
      w.toLower = x.toLower := by
  rw [Utf8.lowerByte_of_narrow hx, Utf8.lowerByte_of_narrow hw]
  constructor
  · intro heq
    have hmem : UInt8.ofNat w.toLower.toNat ∈ String.utf8EncodeChar x.toLower := by
      rw [Utf8.encodeChar_of_narrow (Utf8.toLower_narrow hx), heq]
      exact List.mem_singleton_self _
    exact (Utf8.eq_of_mem_encodeChar (Utf8.toLower_narrow hw) hmem).symm
  · intro heq
    rw [heq]

/-- The first byte of a wide character is wide, and stays so. -/
theorem lowerByte_firstByte_ne {w x : Char} (hw : w.toNat < 0x80) (hx : 0x80 ≤ x.toNat) :
    Utf8.lowerByte (firstByte x) ≠ Utf8.lowerByte (UInt8.ofNat w.toNat) := by
  have hwide := Utf8.le_of_mem_encodeChar hx (firstByte_mem x)
  have hlower := Utf8.toLower_narrow hw
  rw [Utf8.lowerByte_of_narrow hw, Utf8.lowerByte, if_neg]
  · intro hfirst
    have hnat := congrArg UInt8.toNat hfirst
    rw [UInt8.toNat_ofNat'] at hnat
    omega
  · rintro ⟨-, hle⟩
    have hle' := UInt8.le_iff_toNat_le.mp hle
    have hz : (0x5A : UInt8).toNat = 0x5A := rfl
    omega

/-- The first letters of a text are those of a word, up to case, as their bytes are. -/
theorem map_lowerByte_take_iff {word cs : List Char} (hword : ∀ x ∈ word, x.toNat < 0x80)
    (hlength : word.length ≤ byteWidth cs) :
    ((Utf8.encode cs).take word.length).map Utf8.lowerByte = (Utf8.encode word).map Utf8.lowerByte ↔
      Text.startsWithWord word cs = true := by
  induction word generalizing cs with
  | nil => simp [Text.startsWithWord]
  | cons w word ih =>
    have hw : w.toNat < 0x80 := hword w List.mem_cons_self
    have hwords : ∀ x ∈ word, x.toNat < 0x80 := fun x hx => hword x (List.mem_cons_of_mem _ hx)
    cases cs with
    | nil =>
      rw [byteWidth_nil, List.length_cons] at hlength
      omega
    | cons x cs =>
      rw [Utf8.encode_cons, Utf8.encode_cons, Utf8.encodeChar_of_narrow hw, List.singleton_append,
        List.length_cons, List.map_cons, Text.startsWithWord, Text.sameLetter, Bool.and_eq_true,
        beq_iff_eq]
      by_cases hx : x.toNat < 0x80
      · rw [byteWidth_cons, Utf8.utf8Size_of_narrow hx, List.length_cons] at hlength
        rw [Utf8.encodeChar_of_narrow hx, List.singleton_append, List.take_succ_cons,
          List.map_cons, List.cons.injEq, ih hwords (by omega), lowerByte_eq_iff hw hx]
      · obtain ⟨tail, htail⟩ := encodeChar_eq_cons x
        refine iff_of_false ?_ ?_
        · rw [htail, List.cons_append, List.take_succ_cons, List.map_cons, List.cons.injEq]
          rintro ⟨hfirst, -⟩
          exact lowerByte_firstByte_ne hw (Nat.le_of_not_lt hx) hfirst
        · rintro ⟨hletter, -⟩
          exact hx (Utf8.narrow_of_toLower (hletter ▸ Utf8.toLower_narrow hw))

/-- A character and its first byte answer alike. -/
theorem any_firstByte {p : UInt8 → Bool} {q : Char → Bool} (hp : Agrees p q) (o : Option Char) :
    (o.map firstByte).any p = o.any q := by
  cases o with
  | none => rfl
  | some x => exact hp.firstByte x

/-- Narrow characters have one byte each. -/
theorem byteWidth_of_narrow {cs : List Char} (h : ∀ x ∈ cs, x.toNat < 0x80) :
    byteWidth cs = cs.length := by
  induction cs with
  | nil => rfl
  | cons x cs ih =>
    rw [byteWidth_cons, Utf8.utf8Size_of_narrow (h x List.mem_cons_self),
      ih fun y hy => h y (List.mem_cons_of_mem _ hy), List.length_cons, Nat.add_comm]

/-- A word of narrow characters is as wide in either case. -/
theorem passes_startsWithWord {word : List Char} (hword : ∀ x ∈ word, x.toNat < 0x80)
    (h : Text.startsWithWord word c.rest = true) :
    (c.skip word.length).offset = c.offset + word.length ∧
      (c.skip word.length).rest = c.rest.drop word.length := by
  obtain ⟨u, r, hrest, hu⟩ := Text.startsWithWord_spec h
  have hnarrow : ∀ x ∈ u, x.toNat < 0x80 := by
    intro x hx
    have hmem : x.toLower ∈ word.map Char.toLower := hu ▸ List.mem_map_of_mem hx
    obtain ⟨w, hw, hwx⟩ := List.mem_map.mp hmem
    exact Utf8.narrow_of_toLower (hwx ▸ Utf8.toLower_narrow (hword w hw))
  have hcount : u.length = word.length := by simpa using congrArg List.length hu
  have hskip : c.Passes u (c.skip word.length) := Cursor.passes_skip hrest hcount
  constructor
  · rw [hskip.offset, byteWidth_of_narrow hnarrow, hcount]
  · rw [hskip.rest, ← hcount, List.drop_left]

/-- The start of a tag is found by bytes where it is found by characters.  It is a word up to case
and then a character that is not part of a name, or the end of the text. -/
theorem startsTag_place (h : c.IsPlaceOf text) {word : List Char}
    (hword : ∀ x ∈ word, x.toNat < 0x80) :
    startsTag text c.offset (Utf8.encode word) = .ok (Block.startsTag word c) := by
  have hsize := offset_add_byteWidth h
  have hlength : (Utf8.encode word).length = word.length := by
    rw [Utf8.length_encode, byteWidth_of_narrow hword]
  simp only [startsTag, hlength, Block.startsTag]
  by_cases hfits : c.offset + word.length ≤ size text
  · have hbytes : bytesBetween text c.offset (c.offset + word.length)
        = .ok ((Utf8.encode c.rest).take word.length) := by
      rw [bytesBetween, if_pos ⟨Nat.le_add_right _ _, hfits⟩, List.drop_take, h.drop_bytes,
        Nat.add_sub_cancel_left]
    have hwide : word.length ≤ byteWidth c.rest := by omega
    have hletters := map_lowerByte_take_iff hword hwide
    rw [if_pos hfits, hbytes, ok_bind, pure_eq]
    by_cases hstarts : Text.startsWithWord word c.rest = true
    · obtain ⟨hoffset, hrest⟩ := passes_startsWithWord hword hstarts
      have hbehind := byteAt?_place (h.reaches (Cursor.reaches_skip word.length c))
      rw [hoffset, hrest] at hbehind
      rw [hletters.mpr hstarts, hstarts, hbehind, any_firstByte agrees_name, beq_self_eq_true]
    · have hno : ¬ ((Utf8.encode c.rest).take word.length).map Utf8.lowerByte
          = (Utf8.encode word).map Utf8.lowerByte := fun heq => hstarts (hletters.mp heq)
      rw [beq_eq_false_iff_ne.mpr hno, Bool.eq_false_iff.mpr hstarts]
      rfl
  · have hno : ¬ Text.startsWithWord word c.rest = true := by
      intro hstarts
      have h1 := Text.length_le_of_startsWithWord hstarts
      have h2 := length_le_byteWidth c.rest
      omega
    rw [if_neg hfits, Bool.eq_false_iff.mpr hno]
    rfl

/-- Whether a letter follows a `<` is asked of the byte behind it. -/
theorem letterFollows_place (h : c.IsPlaceOf text) {r : List Char} (hr : c.rest = '<' :: r) :
    letterFollows text c.offset = Block.letterFollows c := by
  rw [letterFollows, ← offset_step_narrow hr (by decide), byteAt?_place (isPlaceOf_step h),
    any_firstByte agrees_alpha]
  rfl

end Pieces

end ComponentHost.ByteScan
