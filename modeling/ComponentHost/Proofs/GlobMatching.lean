/-
# What a pattern leaves of a path

A pattern is matched with all its rests at once: a token turns a list of texts into the list of
what it can leave of them, and of rests of the same length only one is kept.  To reason about a
pattern one wants a single text and a single rest.  This file gives both:

* whatever a token leaves is an end of the text (`suffix_of_mem_restsOf`), so of the ends of one
  text none is lost (`mem_distinct`) and tokens in a row can be taken apart
  (`mem_restsOfAll_cons`, `mem_restsOfAll_append`);
* what a pattern does with a text it does with any longer text, leaving the addition too
  (`append_mem_restsOf`).  So a pattern that ends in `/**` matches whatever lies below what it
  matches (`matches_below`, `matches_below_of_treeEnd`);
* a pattern that begins with plain characters and a slash matches only texts that do
  (`starts_of_matches`).

Texts are bytes here, since that is what a pattern runs over.  A token for a character takes the
bytes of the character; `?` takes ONE byte, and `*` any number of them, so a match may end within a
character.  Nothing below depends on where it ends, until paths are compared as characters again.
-/
import ComponentHost.Glob.Match
import ComponentHost.Proofs.Encoding

namespace ComponentHost.Glob

/-! ## 1. Rests are ends of the text

What each token can leave.  Only two facts are needed of the helpers that enumerate ends of a text:
a plain word leaves exactly one rest, and all the others leave ends of the text, with or without a
slash passed on the way. -/

theorem mem_tails {text rest : Bytes} : rest ∈ tails text ↔ rest <:+ text := by
  induction text with
  | nil => simp [tails]
  | cons b r ih => rw [tails, List.mem_cons, ih, List.suffix_cons_iff]

/-- `*` that stops at a slash leaves an end, though not every one. -/
theorem suffix_of_mem_tailsWithin {text rest : Bytes} (h : rest ∈ tailsWithin text) :
    rest <:+ text := by
  induction text with
  | nil => simpa [tailsWithin] using h
  | cons b r ih =>
    rw [tailsWithin, List.mem_cons] at h
    rcases h with rfl | h
    · exact List.suffix_refl _
    · split at h
      · cases h
      · exact (ih h).trans (List.suffix_cons b r)

/-- `**/` leaves what stands behind one of the slashes. -/
theorem suffix_of_mem_tailsAfterSlash {text rest : Bytes} (h : rest ∈ tailsAfterSlash text) :
    rest <:+ text := by
  induction text with
  | nil => cases h
  | cons b r ih =>
    rw [tailsAfterSlash] at h
    refine List.IsSuffix.trans ?_ (List.suffix_cons b r)
    split at h
    · rcases List.mem_cons.mp h with rfl | h
      · exact List.suffix_refl _
      · exact ih h
    · exact ih h

/-- A token for one byte leaves the rest behind it. -/
theorem mem_restAfter {good : UInt8 → Bool} {text rest : Bytes} :
    rest ∈ restAfter good text ↔ ∃ b, good b = true ∧ text = b :: rest := by
  cases text with
  | nil => simp [restAfter]
  | cons b r =>
    rw [restAfter]
    split
    · next hb =>
      rw [List.mem_singleton]
      constructor
      · rintro rfl
        exact ⟨b, hb, rfl⟩
      · rintro ⟨b', -, heq⟩
        exact (List.cons.inj heq).2.symm
    · next hb =>
      refine iff_of_false List.not_mem_nil ?_
      rintro ⟨b', hb', heq⟩
      rw [(List.cons.inj heq).1] at hb
      exact hb hb'

/-- A token for a word leaves the rest behind the word. -/
theorem mem_restAfterText {word text rest : Bytes} :
    rest ∈ restAfterText word text ↔ text = word ++ rest := by
  induction word generalizing text with
  | nil => simp [restAfterText, eq_comm]
  | cons b word ih =>
    cases text with
    | nil => simp [restAfterText]
    | cons c r =>
      rw [restAfterText, List.cons_append, List.cons.injEq]
      split
      · next hb => rw [ih, and_iff_right (beq_iff_eq.mp hb).symm]
      · next hb => exact iff_of_false List.not_mem_nil fun h => hb (beq_iff_eq.mpr h.1.symm)

/-- Keeping one rest of each length adds nothing. -/
theorem of_mem_distinct {rests : List Bytes} {rest : Bytes} (h : rest ∈ distinct rests) :
    rest ∈ rests := by
  induction rests with
  | nil => cases h
  | cons r rests ih =>
    rw [distinct, List.foldr_cons] at h
    split at h
    · exact List.mem_cons_of_mem _ (ih h)
    · rcases List.mem_cons.mp h with rfl | h
      · exact List.mem_cons_self
      · exact List.mem_cons_of_mem _ (ih h)

mutual

/-- What a token leaves is an end of the text. -/
theorem suffix_of_mem_restsOf {stops : Bool} : ∀ {t : GlobToken} {text rest : Bytes},
    rest ∈ restsOf stops t text → rest <:+ text
  | .literal _, _, _, h => by
    rw [restsOf, mem_restAfterText] at h
    exact ⟨_, h.symm⟩
  | .any, _, _, h => by
    rw [restsOf, mem_restAfter] at h
    obtain ⟨b, -, rfl⟩ := h
    exact List.suffix_cons _ _
  | .star, _, _, h => by
    rw [restsOf] at h
    split at h
    · exact suffix_of_mem_tailsWithin h
    · exact mem_tails.mp h
  | .treeStart, _, _, h => by
    rw [restsOf, List.mem_cons] at h
    rcases h with rfl | h
    · exact List.suffix_refl _
    · exact suffix_of_mem_tailsAfterSlash h
  | .treeEnd, _, _, h => by
    rw [restsOf, List.mem_flatMap] at h
    obtain ⟨mid, hmid, h⟩ := h
    obtain ⟨b, -, rfl⟩ := mem_restAfter.mp hmid
    exact (mem_tails.mp h).trans (List.suffix_cons _ _)
  | .treeBetween, _, _, h => by
    rw [restsOf, List.mem_flatMap] at h
    obtain ⟨mid, hmid, h⟩ := h
    obtain ⟨b, -, rfl⟩ := mem_restAfter.mp hmid
    refine List.IsSuffix.trans ?_ (List.suffix_cons _ _)
    rcases List.mem_cons.mp h with rfl | h
    · exact List.suffix_refl _
    · exact suffix_of_mem_tailsAfterSlash h
  | .oneOf _ _, _, _, h => by
    rw [restsOf, mem_restAfter] at h
    obtain ⟨b, -, rfl⟩ := h
    exact List.suffix_cons _ _
  | .alternatives branches, _, _, h => by
    rw [restsOf] at h
    split at h
    · rw [List.mem_singleton] at h
      exact h ▸ List.suffix_refl _
    · exact suffix_of_mem_restsOfBranches h

theorem suffix_of_mem_restsOfBranches {stops : Bool} : ∀ {branches : List (List GlobToken)}
    {text rest : Bytes}, rest ∈ restsOfBranches stops branches text → rest <:+ text
  | [], _, _, h => by
    rw [restsOfBranches] at h
    cases h
  | branch :: branches, _, _, h => by
    rw [restsOfBranches, List.mem_append] at h
    rcases h with h | h
    · split at h
      · cases h
      · obtain ⟨text, htext, hrest⟩ := suffix_of_mem_restsOfAll h
        rw [List.mem_singleton] at htext
        exact htext ▸ hrest
    · exact suffix_of_mem_restsOfBranches h

theorem suffix_of_mem_restsOfAll {stops : Bool} : ∀ {ts : List GlobToken} {texts : List Bytes}
    {rest : Bytes}, rest ∈ restsOfAll stops ts texts → ∃ text ∈ texts, rest <:+ text
  | [], _, rest, h => by
    rw [restsOfAll] at h
    exact ⟨rest, h, List.suffix_refl _⟩
  | t :: ts, _, _, h => by
    rw [restsOfAll] at h
    obtain ⟨mid, hmid, hrest⟩ := suffix_of_mem_restsOfAll h
    obtain ⟨text, htext, hmid⟩ := List.mem_flatMap.mp (of_mem_distinct hmid)
    exact ⟨text, htext, hrest.trans (suffix_of_mem_restsOf hmid)⟩

end

/-! ## 2. One text and one rest

The matcher keeps a list of rests and drops one that has the length of another.  That loses nothing
as long as all rests are ends of ONE text, for an end is determined by its length.  So a row of
tokens can be followed from a single text to a single rest, as if the tokens were relations that are
composed. -/

/-- Ends of one text are told apart by their lengths. -/
theorem mem_distinct {whole : Bytes} {rests : List Bytes} (h : ∀ r ∈ rests, r <:+ whole)
    {rest : Bytes} : rest ∈ distinct rests ↔ rest ∈ rests := by
  refine ⟨of_mem_distinct, fun hrest => ?_⟩
  induction rests with
  | nil => cases hrest
  | cons r rests ih =>
    have hrests : ∀ r ∈ rests, r <:+ whole := fun r hr => h r (List.mem_cons_of_mem _ hr)
    rw [distinct, List.foldr_cons]
    split
    · next hany =>
      rcases List.mem_cons.mp hrest with rfl | hrest
      · -- a rest of the same length is the same rest
        obtain ⟨found, hfound, hlength⟩ := List.any_eq_true.mp hany
        have hsame : found.length = rest.length := by simpa using hlength
        have hends := hrests found (of_mem_distinct hfound)
        have heq : found = rest :=
          (List.suffix_of_suffix_length_le hends (h rest List.mem_cons_self)
            (Nat.le_of_eq hsame)).eq_of_length hsame
        exact heq ▸ hfound
      · exact ih hrests hrest
    · rcases List.mem_cons.mp hrest with rfl | hrest
      · exact List.mem_cons_self
      · exact List.mem_cons_of_mem _ (ih hrests hrest)

section Rests

variable {stops : Bool}

/-- The texts are followed one by one. -/
theorem mem_restsOfAll {whole : Bytes} {ts : List GlobToken} {texts : List Bytes} {rest : Bytes}
    (h : ∀ text ∈ texts, text <:+ whole) :
    rest ∈ restsOfAll stops ts texts ↔ ∃ text ∈ texts, rest ∈ restsOfAll stops ts [text] := by
  induction ts generalizing texts with
  | nil => simp [restsOfAll]
  | cons t ts ih =>
    have hends : ∀ texts : List Bytes, (∀ text ∈ texts, text <:+ whole) →
        ∀ mid ∈ texts.flatMap (restsOf stops t), mid <:+ whole := by
      intro texts htexts mid hmid
      obtain ⟨text, htext, hmid⟩ := List.mem_flatMap.mp hmid
      exact (suffix_of_mem_restsOf hmid).trans (htexts text htext)
    -- the first token from one of the texts, the other tokens from one rest of it; used for all the
    -- texts and for one alone
    have hstep : ∀ texts : List Bytes, (∀ text ∈ texts, text <:+ whole) →
        (rest ∈ restsOfAll stops (t :: ts) texts ↔
          ∃ text ∈ texts, ∃ mid ∈ restsOf stops t text, rest ∈ restsOfAll stops ts [mid]) := by
      intro texts htexts
      rw [restsOfAll, ih fun mid hmid => hends texts htexts mid (of_mem_distinct hmid)]
      constructor
      · rintro ⟨mid, hmid, hrest⟩
        obtain ⟨text, htext, hmid⟩ := List.mem_flatMap.mp (of_mem_distinct hmid)
        exact ⟨text, htext, mid, hmid, hrest⟩
      · rintro ⟨text, htext, mid, hmid, hrest⟩
        have hmem := List.mem_flatMap.mpr ⟨text, htext, hmid⟩
        exact ⟨mid, (mem_distinct (hends texts htexts)).mpr hmem, hrest⟩
    rw [hstep texts h]
    constructor
    · rintro ⟨text, htext, hmid⟩
      have hone : ∀ x ∈ [text], x <:+ whole := by simpa using h text htext
      exact ⟨text, htext, (hstep [text] hone).mpr ⟨text, List.mem_singleton_self _, hmid⟩⟩
    · rintro ⟨text, htext, hrest⟩
      have hone : ∀ x ∈ [text], x <:+ whole := by simpa using h text htext
      obtain ⟨text', htext', hmid⟩ := (hstep [text] hone).mp hrest
      rw [List.mem_singleton] at htext'
      exact ⟨text, htext, htext' ▸ hmid⟩

variable {text rest : Bytes}

theorem mem_restsOfAll_nil : rest ∈ restsOfAll stops [] [text] ↔ rest = text := by
  rw [restsOfAll, List.mem_singleton]

/-- **A token and then the others.** -/
theorem mem_restsOfAll_cons {t : GlobToken} {ts : List GlobToken} :
    rest ∈ restsOfAll stops (t :: ts) [text] ↔
      ∃ mid ∈ restsOf stops t text, rest ∈ restsOfAll stops ts [mid] := by
  have hends : ∀ mid ∈ restsOf stops t text, mid <:+ text := fun mid => suffix_of_mem_restsOf
  rw [restsOfAll, List.flatMap_singleton,
    mem_restsOfAll fun mid hmid => hends mid (of_mem_distinct hmid)]
  simp only [mem_distinct hends]

/-- **A pattern and then another one.** -/
theorem mem_restsOfAll_append {ts us : List GlobToken} :
    rest ∈ restsOfAll stops (ts ++ us) [text] ↔
      ∃ mid ∈ restsOfAll stops ts [text], rest ∈ restsOfAll stops us [mid] := by
  induction ts generalizing text with
  | nil => simp [mem_restsOfAll_nil]
  | cons t ts ih =>
    simp only [List.cons_append, mem_restsOfAll_cons, ih]
    constructor
    · rintro ⟨first, hfirst, mid, hmid, hrest⟩
      exact ⟨mid, ⟨first, hfirst, hmid⟩, hrest⟩
    · rintro ⟨mid, ⟨first, hfirst, hmid⟩, hrest⟩
      exact ⟨first, hfirst, mid, hmid, hrest⟩

end Rests

/-! ## 3. Longer texts

A token looks at the bytes it takes and at none behind them; in particular `*` and the tree tokens
may stop anywhere, and need not go on to the end.  So whatever a pattern leaves of a text, it leaves
with some more bytes behind if these stand behind the text. -/

/-- A `*` that stops at a slash stops at the same place. -/
theorem append_mem_tailsWithin {text rest : Bytes} (h : rest ∈ tailsWithin text) (more : Bytes) :
    rest ++ more ∈ tailsWithin (text ++ more) := by
  induction text with
  | nil =>
    have hnil : rest = [] := by simpa [tailsWithin] using h
    subst hnil
    cases more <;> simp [tailsWithin]
  | cons b r ih =>
    rw [List.cons_append, tailsWithin, List.mem_cons]
    rw [tailsWithin, List.mem_cons] at h
    rcases h with rfl | h
    · exact Or.inl rfl
    · refine Or.inr ?_
      split at h
      · cases h
      · next hb =>
        rw [if_neg hb]
        exact ih h

/-- The slashes of a text are among those of a longer one. -/
theorem append_mem_tailsAfterSlash {text rest : Bytes} (h : rest ∈ tailsAfterSlash text)
    (more : Bytes) : rest ++ more ∈ tailsAfterSlash (text ++ more) := by
  induction text with
  | nil => cases h
  | cons b r ih =>
    rw [List.cons_append, tailsAfterSlash]
    rw [tailsAfterSlash] at h
    split
    · next hb =>
      rw [if_pos hb] at h
      rcases List.mem_cons.mp h with rfl | h
      · exact List.mem_cons_self
      · exact List.mem_cons_of_mem _ (ih h)
    · next hb =>
      rw [if_neg hb] at h
      exact ih h

theorem append_mem_restAfter {good : UInt8 → Bool} {text rest : Bytes}
    (h : rest ∈ restAfter good text) (more : Bytes) :
    rest ++ more ∈ restAfter good (text ++ more) := by
  obtain ⟨b, hb, rfl⟩ := mem_restAfter.mp h
  exact mem_restAfter.mpr ⟨b, hb, rfl⟩

mutual

/-- **What a token can do with a text it can do with a longer one.** -/
theorem append_mem_restsOf {stops : Bool} (more : Bytes) : ∀ {t : GlobToken} {text rest : Bytes},
    rest ∈ restsOf stops t text → rest ++ more ∈ restsOf stops t (text ++ more)
  | .literal _, _, _, h => by
    rw [restsOf, mem_restAfterText] at h ⊢
    rw [h, List.append_assoc]
  | .any, _, _, h => by
    rw [restsOf] at h ⊢
    exact append_mem_restAfter h more
  | .star, _, _, h => by
    rw [restsOf] at h ⊢
    split at h
    · next hstops =>
      rw [if_pos hstops]
      exact append_mem_tailsWithin h more
    · next hstops =>
      rw [if_neg hstops, mem_tails]
      obtain ⟨before, rfl⟩ := mem_tails.mp h
      exact ⟨before, (List.append_assoc _ _ _).symm⟩
  | .treeStart, _, _, h => by
    rw [restsOf, List.mem_cons] at h ⊢
    rcases h with rfl | h
    · exact Or.inl rfl
    · exact Or.inr (append_mem_tailsAfterSlash h more)
  | .treeEnd, _, _, h => by
    rw [restsOf, List.mem_flatMap] at h ⊢
    obtain ⟨mid, hmid, h⟩ := h
    obtain ⟨before, rfl⟩ := mem_tails.mp h
    exact ⟨_, append_mem_restAfter hmid more,
      mem_tails.mpr ⟨before, (List.append_assoc _ _ _).symm⟩⟩
  | .treeBetween, _, _, h => by
    rw [restsOf, List.mem_flatMap] at h ⊢
    obtain ⟨mid, hmid, h⟩ := h
    refine ⟨_, append_mem_restAfter hmid more, ?_⟩
    rcases List.mem_cons.mp h with rfl | h
    · exact List.mem_cons_self
    · exact List.mem_cons_of_mem _ (append_mem_tailsAfterSlash h more)
  | .oneOf _ _, _, _, h => by
    rw [restsOf] at h ⊢
    exact append_mem_restAfter h more
  | .alternatives branches, _, _, h => by
    rw [restsOf] at h ⊢
    split at h
    · next hvoid =>
      rw [List.mem_singleton] at h
      rw [if_pos hvoid, h]
      exact List.mem_singleton_self _
    · next hvoid =>
      rw [if_neg hvoid]
      exact append_mem_restsOfBranches more h

theorem append_mem_restsOfBranches {stops : Bool} (more : Bytes) :
    ∀ {branches : List (List GlobToken)} {text rest : Bytes},
      rest ∈ restsOfBranches stops branches text →
        rest ++ more ∈ restsOfBranches stops branches (text ++ more)
  | [], _, _, h => by
    rw [restsOfBranches] at h
    cases h
  | branch :: branches, _, _, h => by
    rw [restsOfBranches, List.mem_append] at h ⊢
    rcases h with h | h
    · split at h
      · cases h
      · next hvoid =>
        rw [if_neg hvoid]
        exact Or.inl (append_mem_restsOfAll more h)
    · exact Or.inr (append_mem_restsOfBranches more h)

theorem append_mem_restsOfAll {stops : Bool} (more : Bytes) :
    ∀ {ts : List GlobToken} {text rest : Bytes}, rest ∈ restsOfAll stops ts [text] →
      rest ++ more ∈ restsOfAll stops ts [text ++ more]
  | [], _, _, h => by
    rw [mem_restsOfAll_nil] at h ⊢
    rw [h]
  | t :: ts, _, _, h => by
    rw [mem_restsOfAll_cons] at h ⊢
    obtain ⟨mid, hmid, hrest⟩ := h
    exact ⟨mid ++ more, append_mem_restsOf more hmid, append_mem_restsOfAll more hrest⟩

end

/-! ## 4. Matches

A path is matched if nothing is left of it.  The pattern `**` alone is an exception in the matcher,
which answers without looking at the text, so it is set apart here. -/

/-- A pattern other than `**` alone matches if it can leave nothing. -/
theorem matchesBytes_iff {g : Glob} (h : g.tokens ≠ [.treeStart]) {text : Bytes} :
    g.matchesBytes text = true ↔ [] ∈ restsOfAll g.stopsAtSlash g.tokens [text] := by
  rw [matchesBytes]
  split
  · next heq => exact absurd heq h
  · rw [List.any_eq_true]
    constructor
    · rintro ⟨rest, hrest, hempty⟩
      rw [List.isEmpty_iff] at hempty
      exact hempty ▸ hrest
    · intro hrest
      exact ⟨[], hrest, rfl⟩

section Below

variable {stops : Bool} {ts : List GlobToken} {text : Bytes}

/-- **Below what a pattern matches, the pattern with `/**` matches.** -/
theorem matches_below (h : [] ∈ restsOfAll stops ts [text]) (more : Bytes) :
    [] ∈ restsOfAll stops (ts ++ [.treeEnd]) [text ++ slash :: more] := by
  have hrest : slash :: more ∈ restsOfAll stops ts [text ++ slash :: more] :=
    append_mem_restsOfAll (slash :: more) h
  refine mem_restsOfAll_append.mpr ⟨_, hrest, mem_restsOfAll_cons.mpr ⟨[], ?_, ?_⟩⟩
  · rw [restsOf, List.mem_flatMap]
    exact ⟨more, mem_restAfter.mpr ⟨slash, beq_self_eq_true _, rfl⟩,
      mem_tails.mpr (List.nil_suffix)⟩
  · exact mem_restsOfAll_nil.mpr rfl

/-- **A pattern that ends in `/**` matches all that goes on from what it matches.** -/
theorem matches_below_of_treeEnd (h : [] ∈ restsOfAll stops (ts ++ [.treeEnd]) [text])
    (more : Bytes) : [] ∈ restsOfAll stops (ts ++ [.treeEnd]) [text ++ more] := by
  obtain ⟨mid, hmid, hend⟩ := mem_restsOfAll_append.mp h
  obtain ⟨rest, hrest, -⟩ := mem_restsOfAll_cons.mp hend
  rw [restsOf, List.mem_flatMap] at hrest
  obtain ⟨after, hafter, -⟩ := hrest
  refine mem_restsOfAll_append.mpr ⟨_, append_mem_restsOfAll more hmid,
    mem_restsOfAll_cons.mpr ⟨[], ?_, mem_restsOfAll_nil.mpr rfl⟩⟩
  rw [restsOf, List.mem_flatMap]
  exact ⟨_, append_mem_restAfter hafter more, mem_tails.mpr (List.nil_suffix)⟩

end Below

/-! ## 5. Plain characters

The path of a directory is made a pattern by escaping it: a character that means something in a
pattern is put in brackets.  In what follows such a pattern stands before one that the user wrote,
and it takes exactly the path it was made of. -/

/-- The token that a character of an escaped text is read as. -/
def spell (c : Char) : GlobToken := if isSpecial c then .oneOf false [(c, c)] else .literal c

/-- Does the token take a slash first? -/
def takesSlash : GlobToken → Bool
  | .literal c => c == '/'
  | .treeBetween | .treeEnd => true
  | _ => false

section Plain

variable {stops : Bool} {text rest : Bytes}

theorem narrow_of_isSpecial {c : Char} (h : isSpecial c = true) : c.toNat < 0x80 := by
  have hmem : c = '?' ∨ c = '*' ∨ c = '[' ∨ c = ']' ∨ c = '{' ∨ c = '}' := by
    simpa [isSpecial] using h
  rcases hmem with rfl | rfl | rfl | rfl | rfl | rfl <;> decide

theorem charBytes_eq_encode (c : Char) : Utf8.charBytes c = Utf8.encode [c] := by
  rw [Utf8.charBytes, Utf8.bytes_eq_encode, String.toList_singleton]

theorem mem_restsOf_literal {c : Char} :
    rest ∈ restsOf stops (.literal c) text ↔ text = Utf8.encode [c] ++ rest := by
  rw [restsOf, mem_restAfterText, charBytes_eq_encode]

/-- A character in brackets takes that character. -/
theorem mem_restsOf_spell {c : Char} :
    rest ∈ restsOf stops (spell c) text ↔ text = Utf8.encode [c] ++ rest := by
  rw [spell]
  split
  · next hspecial =>
    have hnarrow := narrow_of_isSpecial hspecial
    have hbytes : Utf8.charBytes c = [UInt8.ofNat c.toNat] := by
      rw [charBytes_eq_encode, Utf8.encode_cons, Utf8.encode_nil, List.append_nil,
        Utf8.encodeChar_of_narrow hnarrow]
    -- a range from a byte to itself has that byte alone
    have hone : ∀ b, (inBrackets [(c, c)] b != false) = true ↔ b = UInt8.ofNat c.toNat := by
      intro b
      have hrange : (inBrackets [(c, c)] b != false) = true ↔
          UInt8.ofNat c.toNat ≤ b ∧ b ≤ UInt8.ofNat c.toNat := by
        simp [inBrackets, byteRanges, hbytes]
      rw [hrange]
      constructor
      · rintro ⟨hlow, hhigh⟩
        exact UInt8.le_antisymm hhigh hlow
      · rintro rfl
        exact ⟨UInt8.le_refl _, UInt8.le_refl _⟩
    rw [restsOf, mem_restAfter, ← charBytes_eq_encode, hbytes]
    constructor
    · rintro ⟨b, hb, rfl⟩
      rw [(hone b).mp hb]
      rfl
    · rintro rfl
      exact ⟨_, (hone _).mpr rfl, rfl⟩
  · exact mem_restsOf_literal

/-- A row of tokens for characters takes the bytes of these characters. -/
theorem mem_restsOfAll_map {token : Char → GlobToken} (htoken : ∀ {c text rest},
      rest ∈ restsOf stops (token c) text ↔ text = Utf8.encode [c] ++ rest) {cs : List Char} :
    rest ∈ restsOfAll stops (cs.map token) [text] ↔ text = Utf8.encode cs ++ rest := by
  induction cs generalizing text with
  | nil => exact mem_restsOfAll_nil.trans eq_comm
  | cons c cs ih =>
    have hcons : Utf8.encode (c :: cs) ++ rest = Utf8.encode [c] ++ (Utf8.encode cs ++ rest) := by
      rw [← List.append_assoc, ← Utf8.encode_append]
      rfl
    rw [List.map_cons, mem_restsOfAll_cons, hcons]
    simp only [htoken, ih]
    constructor
    · rintro ⟨mid, rfl, rfl⟩
      rfl
    · rintro rfl
      exact ⟨_, rfl, rfl⟩

/-- The tokens `/**/` and `/**` at the end take a slash before all else, as the slash itself does.
-/
theorem of_mem_restsOf_takesSlash {t : GlobToken} (ht : takesSlash t = true)
    (h : rest ∈ restsOf stops t text) : ∃ more, text = slash :: more := by
  match t with
  | .literal c =>
    have hc : c = '/' := by simpa [takesSlash] using ht
    subst hc
    exact ⟨rest, mem_restsOf_literal.mp h⟩
  | .treeBetween | .treeEnd =>
    rw [restsOf, List.mem_flatMap] at h
    obtain ⟨mid, hmid, -⟩ := h
    obtain ⟨b, hb, rfl⟩ := mem_restAfter.mp hmid
    rw [beq_iff_eq.mp hb]
    exact ⟨mid, rfl⟩

/-- **Plain characters and a slash at the start of a pattern stand at the start of what it
matches.** -/
theorem starts_of_matches {escaped plain : List Char} {t : GlobToken} {ts : List GlobToken}
    (ht : takesSlash t = true)
    (h : rest ∈ restsOfAll stops (escaped.map spell ++ (plain.map .literal ++ t :: ts)) [text]) :
    ∃ more, text = Utf8.encode (escaped ++ plain) ++ slash :: more := by
  obtain ⟨first, hfirst, h⟩ := mem_restsOfAll_append.mp h
  obtain ⟨second, hsecond, h⟩ := mem_restsOfAll_append.mp h
  obtain ⟨third, hthird, -⟩ := mem_restsOfAll_cons.mp h
  obtain ⟨more, rfl⟩ := of_mem_restsOf_takesSlash ht hthird
  refine ⟨more, ?_⟩
  rw [(mem_restsOfAll_map mem_restsOf_spell).mp hfirst,
    (mem_restsOfAll_map mem_restsOf_literal).mp hsecond, Utf8.encode_append, List.append_assoc]

end Plain

end ComponentHost.Glob
