/-
# Places by line and column

An editor names a place by its line and its column in UTF-16 units; the library names it by an
offset in bytes.  Neither says all that the other does.  An offset may lie inside a character or
between the two signs of a line end, and a column may lie inside a pair of units or past the end
of its line.  This file says what survives the way from one to the other and back.

Both directions are measured against a cut of the text, `LineCut`: what stands before a line, the
part of the line up to the cut, and the rest.  It knows nothing of the index.  A cut of a line is
the place that the halving search and the count of units find (`position_of_cut`), and the search
for a column goes through exactly the cuts in the content of the line (`offset?_of_cut`).

The exception to the round trip is the end of a line: a cut behind the carriage return that ends
it is outside the content, so the way back ends one byte earlier.
-/
import ComponentHost.Proofs.ProjectionBytes

namespace ComponentHost

/-! ## 1. Measures

A character has one to four bytes and one or two units. -/

@[simp] theorem unitWidth_nil : unitWidth [] = 0 := rfl

@[simp] theorem unitWidth_cons (c : Char) (cs : List Char) :
    unitWidth (c :: cs) = unitSize c + unitWidth cs := rfl

@[simp] theorem unitWidth_append (a b : List Char) :
    unitWidth (a ++ b) = unitWidth a + unitWidth b := by
  induction a with
  | nil => simp
  | cons c cs ih => simp [ih, Nat.add_assoc]

theorem unitSize_pos (c : Char) : 0 < unitSize c := by
  unfold unitSize
  split <;> decide

/-- No character has more units than bytes. -/
theorem unitSize_le_utf8Size (c : Char) : unitSize c ≤ c.utf8Size := by
  have hpos := c.utf8Size_pos
  unfold unitSize
  split
  · exact hpos
  · next hwide =>
    -- two units are written for the characters of four bytes only
    have hnot : ∀ n : UInt32, n.toNat ≤ 0xFFFF → ¬ c.val ≤ n := by
      intro n hn hle
      exact hwide (Nat.le_trans (UInt32.le_iff_toNat_le.mp hle) hn)
    have hfour : c.utf8Size = 4 := by
      unfold Char.utf8Size
      rw [if_neg (hnot _ (by decide)), if_neg (hnot _ (by decide)), if_neg (hnot _ (by decide))]
    rw [hfour]
    decide

theorem unitWidth_le_byteWidth (cs : List Char) : unitWidth cs ≤ byteWidth cs := by
  induction cs with
  | nil => exact Nat.le_refl _
  | cons c cs ih => exact Nat.add_le_add (unitSize_le_utf8Size c) ih

/-! ## 2. Lines

The index splits a text into lines and records where each begins.  A line is named here by what
stands before it: its number is the number of line feeds there, its start their bytes, and its
characters are those up to the next line feed. -/

namespace Line

/-- The first line of some characters, with its line feed. -/
def first (cs : List Char) : List Char := (split cs).headD []

theorem split_feed (r : List Char) : split ('\n' :: r) = ['\n'] :: split r := rfl

/-- There is a line, even in an empty text. -/
theorem split_ne_nil (cs : List Char) : split cs ≠ [] := by
  cases cs with
  | nil => simp [split]
  | cons c r =>
    unfold split
    split
    · exact List.cons_ne_nil _ _
    · split <;> exact List.cons_ne_nil _ _

theorem split_eq (cs : List Char) : split cs = first cs :: (split cs).tail := by
  unfold first
  cases h : split cs with
  | nil => exact absurd h (split_ne_nil cs)
  | cons l ls => rfl

theorem split_other {c : Char} (hc : c ≠ '\n') (r : List Char) :
    split (c :: r) = (c :: first r) :: (split r).tail := by
  rw [split, if_neg (by simpa using hc)]
  rw [split_eq r]
  rfl

theorem first_feed (r : List Char) : first ('\n' :: r) = ['\n'] := rfl

theorem first_other {c : Char} (hc : c ≠ '\n') (r : List Char) : first (c :: r) = c :: first r := by
  rw [first, split_other hc]
  rfl

/-- Characters without a line feed stay on the line of what follows them. -/
theorem first_append {a : List Char} (ha : '\n' ∉ a) (b : List Char) :
    first (a ++ b) = a ++ first b := by
  induction a with
  | nil => rfl
  | cons c a ih =>
    obtain ⟨hc, ha⟩ := not_or.mp fun h => ha (List.mem_cons.mpr h)
    rw [List.cons_append, first_other (Ne.symm hc), ih ha]
    rfl

/-- The first line ends with the first line feed, or with the text. -/
theorem first_cases (cs : List Char) :
    ∃ body r, '\n' ∉ body ∧
      (cs = body ++ '\n' :: r ∧ first cs = body ++ ['\n'] ∨ cs = body ∧ first cs = body) := by
  induction cs with
  | nil => exact ⟨[], [], List.not_mem_nil, Or.inr ⟨rfl, rfl⟩⟩
  | cons c cs ih =>
    by_cases hc : c = '\n'
    · subst hc
      exact ⟨[], cs, List.not_mem_nil, Or.inl ⟨rfl, rfl⟩⟩
    · obtain ⟨body, r, hbody, h⟩ := ih
      refine ⟨c :: body, r, ?_, ?_⟩
      · rintro (_ | ⟨_, h⟩)
        · exact hc rfl
        · exact hbody h
      · rw [first_other hc]
        rcases h with ⟨rfl, hfirst⟩ | ⟨rfl, hfirst⟩
        · exact Or.inl ⟨rfl, by rw [hfirst]; rfl⟩
        · exact Or.inr ⟨rfl, by rw [hfirst]⟩

/-- There is one line more than there are line feeds. -/
theorem length_split (cs : List Char) : (split cs).length = cs.count '\n' + 1 := by
  induction cs with
  | nil => rfl
  | cons c cs ih =>
    by_cases hc : c = '\n'
    · subst hc
      rw [split_feed, List.length_cons, ih, List.count_cons_self]
    · rw [split_other hc, List.length_cons, List.length_tail, ih, List.count_cons_of_ne hc]
      rfl

theorem length_place (o : Nat) (ls : List (List Char)) : (place o ls).length = ls.length := by
  induction ls generalizing o with
  | nil => rfl
  | cons l ls ih => rw [place, List.length_cons, ih, List.length_cons]

/-- A line begins after these characters. -/
def Begins (before : List Char) : Prop := before = [] ∨ ∃ b, before = b ++ ['\n']

/-- The line behind some line feed has as its number the feeds up to there. -/
theorem getElem?_place_feed (b rest : List Char) (o : Nat) :
    (place o (split (b ++ '\n' :: rest)))[b.count '\n' + 1]?
      = some ⟨o + byteWidth b + 1, first rest⟩ := by
  induction b generalizing o with
  | nil =>
    rw [List.nil_append, split_feed, split_eq rest]
    rfl
  | cons c b ih =>
    by_cases hc : c = '\n'
    · subst hc
      rw [List.cons_append, split_feed, place, List.getElem?_cons_succ, List.count_cons_self, ih]
      have hsize : byteWidth ['\n'] = Char.utf8Size '\n' := rfl
      rw [hsize, byteWidth_cons, ← Nat.add_assoc]
    · -- the first line is longer by a character, and the lines behind it stay where they are
      have hnext := ih (o + c.utf8Size)
      rw [split_eq (b ++ '\n' :: rest), place, List.getElem?_cons_succ] at hnext
      rw [List.cons_append, split_other hc, place, List.getElem?_cons_succ,
        List.count_cons_of_ne hc, byteWidth_cons, byteWidth_cons, ← Nat.add_assoc, ← Nat.add_assoc,
        hnext]

/-- **The line that begins after some characters**: its number, its start and its characters. -/
theorem getElem?_place {before : List Char} (h : Begins before) (rest : List Char) :
    (place 0 (split (before ++ rest)))[before.count '\n']?
      = some ⟨byteWidth before, first rest⟩ := by
  rcases h with rfl | ⟨b, rfl⟩
  · rw [List.nil_append, split_eq rest]
    rfl
  · rw [List.append_assoc, List.count_append, List.cons_append, List.nil_append]
    have h := getElem?_place_feed b rest 0
    rw [Nat.zero_add] at h
    rw [byteWidth_append]
    exact h

/-! ## 3. The content of a line

The content leaves out the line feed and a carriage return before it.  A carriage return anywhere
else belongs to the content, and at the end of the text one is left out without a line feed as well;
this is what makes the exceptions to the round trip. -/

/-- The characters without a given one at the end. -/
def dropEnd (x : Char) (l : List Char) : List Char :=
  if l.getLast? = some x then l.dropLast else l

/-- The content of a line, by its end signs. -/
theorem contentOf_eq (l : List Char) : contentOf l = dropEnd '\r' (dropEnd '\n' l) := by
  unfold contentOf
  extract_lets body
  have hbody : body = dropEnd '\n' l := by
    unfold body dropEnd
    split
    · next h => rw [if_pos h]
    · next h => rw [if_neg h]
  rw [← hbody]
  generalize body = body
  unfold dropEnd
  split
  · next h => rw [if_pos h]
  · next h => rw [if_neg h]

theorem dropEnd_concat (x : Char) (l : List Char) : dropEnd x (l ++ [x]) = l := by
  rw [dropEnd, if_pos List.getLast?_concat, List.dropLast_concat]

theorem dropEnd_of_not_mem {x : Char} {l : List Char} (h : x ∉ l) : dropEnd x l = l := by
  refine if_neg fun hlast => h ?_
  exact List.mem_of_getLast? hlast

/-- Only what stands last can be left out. -/
theorem dropEnd_append (x : Char) (a : List Char) {b : List Char} (hb : b ≠ []) :
    dropEnd x (a ++ b) = a ++ dropEnd x b := by
  unfold dropEnd
  have hlast : (a ++ b).getLast? = b.getLast? := by
    rw [List.getLast?_append, List.getLast?_eq_some_getLast hb, Option.some_or]
  rw [hlast, List.dropLast_append_of_ne_nil hb]
  split <;> rfl

theorem dropEnd_isPrefix (x : Char) (l : List Char) : dropEnd x l <+: l := by
  unfold dropEnd
  split
  · exact List.dropLast_prefix l
  · exact List.prefix_refl l

/-- The content of a first line is the line up to its feed, without a carriage return there. -/
theorem contentOf_first (cs : List Char) :
    ∃ body, '\n' ∉ body ∧ contentOf (first cs) = dropEnd '\r' body ∧
      ∃ r, cs = body ++ r ∧ (r = [] ∨ r.head? = some '\n') := by
  obtain ⟨body, r, hbody, ⟨rfl, hfirst⟩ | ⟨rfl, hfirst⟩⟩ := first_cases cs
  · refine ⟨body, hbody, ?_, '\n' :: r, rfl, Or.inr rfl⟩
    rw [hfirst, contentOf_eq, dropEnd_concat]
  · refine ⟨cs, hbody, ?_, [], (List.append_nil cs).symm, Or.inl rfl⟩
    rw [hfirst, contentOf_eq, dropEnd_of_not_mem hbody]

/-- A cut of a line, between `inside` and `after`, lies in its content: it is not behind the
carriage return that ends the line. -/
def InContent (inside after : List Char) : Prop :=
  ¬ (inside.getLast? = some '\r' ∧ (after = [] ∨ after.head? = some '\n'))

/-- **The cuts in the content of a line are the starts of the content.** -/
theorem inContent_iff {inside after : List Char} (hfeed : '\n' ∉ inside) :
    InContent inside after ↔ inside <+: contentOf (first (inside ++ after)) := by
  obtain ⟨body, hbody, hcontent, r, rfl, hr⟩ := contentOf_first after
  have hline : contentOf (first (inside ++ (body ++ r))) = dropEnd '\r' (inside ++ body) := by
    have hfirst : first (body ++ r) = body ++ first r := first_append hbody r
    rw [first_append hfeed, hfirst, ← List.append_assoc, contentOf_eq]
    refine congrArg (dropEnd '\r') ?_
    have hnone : '\n' ∉ inside ++ body := fun h => (List.mem_append.mp h).elim hfeed hbody
    rcases hr with rfl | hr
    · rw [show first [] = [] from rfl, List.append_nil, dropEnd_of_not_mem hnone]
    · obtain ⟨r', rfl⟩ := List.head?_eq_some_iff.mp hr
      rw [first_feed, dropEnd_concat]
  rw [hline]
  cases body with
  | nil =>
    -- the cut is at the end of the line: only the last character before it matters
    rw [List.append_nil, List.nil_append]
    unfold InContent dropEnd
    split
    · next hlast =>
      refine iff_of_false (fun h => h ⟨hlast, hr⟩) fun hprefix => ?_
      have hlength := hprefix.length_le
      have hne : inside ≠ [] := by
        rintro rfl
        cases hlast
      have := List.length_pos_iff.mpr hne
      rw [List.length_dropLast] at hlength
      omega
    · next hlast => exact iff_of_true (fun h => hlast h.1) (List.prefix_refl _)
  | cons x body =>
    rw [dropEnd_append _ _ (List.cons_ne_nil x body)]
    refine iff_of_true ?_ (List.prefix_append _ _)
    rintro ⟨-, h | h⟩
    · cases h
    · obtain rfl : x = '\n' := Option.some.inj h
      exact hbody List.mem_cons_self

/-- The content of a line that ends with a carriage return ends before it. -/
theorem contentOf_return {m after : List Char} (hfeed : '\n' ∉ m ++ ['\r'])
    (hends : after = [] ∨ after.head? = some '\n') :
    contentOf (first (m ++ ['\r'] ++ after)) = m := by
  rw [first_append hfeed, contentOf_eq]
  rcases hends with rfl | hends
  · rw [show first [] = [] from rfl, List.append_nil, dropEnd_of_not_mem hfeed, dropEnd_concat]
  · obtain ⟨r, rfl⟩ := List.head?_eq_some_iff.mp hends
    rw [first_feed, dropEnd_concat, dropEnd_concat]

/-- The content is the start of what its line starts with, and has no line feed. -/
theorem contentOf_first_prefix (cs : List Char) : contentOf (first cs) <+: cs := by
  obtain ⟨body, -, hcontent, r, rfl, -⟩ := contentOf_first cs
  rw [hcontent]
  exact (dropEnd_isPrefix _ _).trans (List.prefix_append _ _)

theorem not_mem_contentOf_first (cs : List Char) : '\n' ∉ contentOf (first cs) := by
  obtain ⟨body, hbody, hcontent, -⟩ := contentOf_first cs
  rw [hcontent]
  exact fun h => hbody ((dropEnd_isPrefix _ _).subset h)

/-! ## 4. Counting through a line

One count goes by bytes and adds up units, the other goes by units and adds up bytes.  Both look at
the cuts of the line one by one; the first takes the last cut before its bound, the second the first
one at or past it. -/

/-- The units up to an offset are those of the whole characters before it. -/
theorem unitsUpTo_eq {pre post : List Char} {here offset : Nat}
    (hle : here + byteWidth pre ≤ offset)
    (hlt : ∀ c ∈ post.head?, offset < here + byteWidth pre + c.utf8Size) :
    unitsUpTo offset here (pre ++ post) = unitWidth pre := by
  induction pre generalizing here with
  | nil =>
    cases post with
    | nil => rfl
    | cons c post =>
      have := hlt c rfl
      rw [byteWidth_nil, Nat.add_zero] at this
      rw [List.nil_append, unitsUpTo, if_neg (by omega)]
      rfl
  | cons c pre ih =>
    rw [byteWidth_cons, ← Nat.add_assoc] at hle
    rw [List.cons_append, unitsUpTo, if_pos (by omega), unitWidth_cons, ih hle]
    intro x hx
    have := hlt x hx
    rw [byteWidth_cons] at this
    omega

/-- The offset of a column is that of some cut: the first at or past the column, or the last. -/
theorem offsetAt_spec (column here units : Nat) (cs : List Char) :
    ∃ pre post, cs = pre ++ post ∧ offsetAt column here units cs = here + byteWidth pre ∧
      (column ≤ units + unitWidth pre ∨ post = []) ∧
      ∀ a b, cs = a ++ b → column ≤ units + unitWidth a → byteWidth pre ≤ byteWidth a := by
  induction cs generalizing here units with
  | nil => exact ⟨[], [], rfl, rfl, Or.inr rfl, fun _ _ _ _ => Nat.zero_le _⟩
  | cons c cs ih =>
    unfold offsetAt
    split
    · next hreached => exact ⟨[], c :: cs, rfl, rfl, Or.inl hreached, fun _ _ _ _ => Nat.zero_le _⟩
    · next hreached =>
      obtain ⟨pre, post, rfl, hoffset, hstop, hleast⟩ := ih (here + c.utf8Size) (units + unitSize c)
      refine ⟨c :: pre, post, rfl, ?_, ?_, ?_⟩
      · rw [hoffset, byteWidth_cons, Nat.add_assoc]
      · rw [unitWidth_cons, ← Nat.add_assoc]
        exact hstop
      · intro a b hab hcolumn
        cases a with
        | nil => exact absurd hcolumn hreached
        | cons x a =>
          obtain ⟨rfl, hrest⟩ := List.cons.inj hab
          rw [unitWidth_cons, ← Nat.add_assoc] at hcolumn
          exact Nat.add_le_add_left (hleast a b hrest hcolumn) _

/-- The offset of the column of a cut is that of the cut. -/
theorem offsetAt_unitWidth (pre post : List Char) (here units : Nat) :
    offsetAt (units + unitWidth pre) here units (pre ++ post) = here + byteWidth pre := by
  induction pre generalizing here units with
  | nil =>
    cases post with
    | nil => rfl
    | cons c post => exact if_pos (Nat.le_refl units)
  | cons c pre ih =>
    have hpos := unitSize_pos c
    rw [List.cons_append, offsetAt, unitWidth_cons, if_neg (by omega), ← Nat.add_assoc, ih,
      byteWidth_cons, Nat.add_assoc]

/-- A column past all of a line is the end of the line. -/
theorem offsetAt_past {column units : Nat} (here : Nat) {cs : List Char}
    (h : units + unitWidth cs ≤ column) : offsetAt column here units cs = here + byteWidth cs := by
  induction cs generalizing here units with
  | nil => rfl
  | cons c cs ih =>
    have hpos := unitSize_pos c
    rw [unitWidth_cons, ← Nat.add_assoc] at h
    rw [offsetAt, if_neg (by omega), ih _ h, byteWidth_cons, Nat.add_assoc]

end Line

/-! ## 5. Cuts of a text

Every place of a text lies in one line, and is a cut of it.  For an offset that lies in a character
the last cut before it is taken.  The lines up to a cut are compared by their numbers and by their
offsets, and both comparisons come to the same: one text is the start of another. -/

/-- A text cut in line `n`: what stands before the line, the part of the line up to the cut, and
the rest. -/
structure LineCut (text : String) (n : Nat) (before inside after : List Char) : Prop where
  chars : text.toList = before ++ (inside ++ after)
  begins : Line.Begins before
  number : before.count '\n' = n
  no_feed : '\n' ∉ inside

/-- A character boundary in the content of line `n`, with its column. -/
def LineBoundary (text : String) (n offset column : Nat) : Prop :=
  ∃ before inside after, LineCut text n before inside after ∧ Line.InContent inside after ∧
    offset = byteWidth (before ++ inside) ∧ column = unitWidth inside

/-- What stands before a cut ends with the part of its line. -/
theorem exists_begins (pre : List Char) :
    ∃ before inside, pre = before ++ inside ∧ Line.Begins before ∧ '\n' ∉ inside := by
  induction pre with
  | nil => exact ⟨[], [], rfl, Or.inl rfl, List.not_mem_nil⟩
  | cons c pre ih =>
    obtain ⟨before, inside, rfl, hbegins, hfeed⟩ := ih
    rcases hbegins with rfl | ⟨b, rfl⟩
    · by_cases hc : c = '\n'
      · subst hc
        exact ⟨['\n'], inside, rfl, Or.inr ⟨[], rfl⟩, hfeed⟩
      · refine ⟨[], c :: inside, rfl, Or.inl rfl, ?_⟩
        rintro (_ | ⟨_, h⟩)
        · exact hc rfl
        · exact hfeed h
    · exact ⟨c :: b ++ ['\n'], inside, rfl, Or.inr ⟨c :: b, rfl⟩, hfeed⟩

/-- Wherever a text is cut, the cut is in one of its lines. -/
theorem exists_lineCut {text : String} {pre post : List Char} (h : text.toList = pre ++ post) :
    ∃ before inside, pre = before ++ inside ∧
      LineCut text (pre.count '\n') before inside post := by
  obtain ⟨before, inside, rfl, hbegins, hfeed⟩ := exists_begins pre
  refine ⟨before, inside, rfl, ?_, hbegins, ?_, hfeed⟩
  · rw [h, List.append_assoc]
  · rw [List.count_append, List.count_eq_zero_of_not_mem hfeed]
    rfl

/-- There is a line for each number up to the number of line feeds. -/
theorem exists_begins_count {cs : List Char} {n : Nat} (h : n ≤ cs.count '\n') :
    ∃ before rest, cs = before ++ rest ∧ Line.Begins before ∧ before.count '\n' = n := by
  induction cs generalizing n with
  | nil => exact ⟨[], [], rfl, Or.inl rfl, (Nat.le_zero.mp h).symm⟩
  | cons c cs ih =>
    cases n with
    | zero => exact ⟨[], c :: cs, rfl, Or.inl rfl, rfl⟩
    | succ n =>
      by_cases hc : c = '\n'
      · subst hc
        rw [List.count_cons_self] at h
        obtain ⟨before, rest, rfl, hbegins, hnumber⟩ := ih (Nat.le_of_succ_le_succ h)
        refine ⟨'\n' :: before, rest, rfl, Or.inr ?_, by rw [List.count_cons_self, hnumber]⟩
        rcases hbegins with rfl | ⟨b, rfl⟩
        · exact ⟨[], rfl⟩
        · exact ⟨'\n' :: b, rfl⟩
      · rw [List.count_cons_of_ne hc] at h
        obtain ⟨before, rest, rfl, hbegins, hnumber⟩ := ih h
        refine ⟨c :: before, rest, rfl, Or.inr ?_, by rw [List.count_cons_of_ne hc, hnumber]⟩
        rcases hbegins with rfl | ⟨b, rfl⟩
        · cases hnumber
        · exact ⟨c :: b, rfl⟩

/-- The last cut at or before an offset. -/
theorem exists_floor (cs : List Char) (offset : Nat) :
    ∃ pre post, cs = pre ++ post ∧ byteWidth pre ≤ offset ∧
      ∀ c ∈ post.head?, offset < byteWidth pre + c.utf8Size := by
  induction cs generalizing offset with
  | nil => exact ⟨[], [], rfl, Nat.zero_le _, fun _ h => by cases h⟩
  | cons c cs ih =>
    by_cases hc : c.utf8Size ≤ offset
    · obtain ⟨pre, post, rfl, hle, hlt⟩ := ih (offset - c.utf8Size)
      refine ⟨c :: pre, post, rfl, ?_, fun x hx => ?_⟩
      · rw [byteWidth_cons]
        omega
      · have := hlt x hx
        rw [byteWidth_cons]
        omega
    · refine ⟨[], c :: cs, rfl, Nat.zero_le _, fun x hx => ?_⟩
      obtain rfl : c = x := Option.some.inj hx
      rw [byteWidth_nil, Nat.zero_add]
      exact Nat.lt_of_not_le hc

/-- The cuts at or before an offset are those up to the last of them. -/
theorem byteWidth_le_iff_isPrefix {pre post b rest : List Char} {offset : Nat}
    (h : pre ++ post = b ++ rest) (hle : byteWidth pre ≤ offset)
    (hlt : ∀ c ∈ post.head?, offset < byteWidth pre + c.utf8Size) :
    byteWidth b ≤ offset ↔ b <+: pre := by
  rcases List.append_eq_append_iff.mp h with ⟨m, rfl, hm⟩ | ⟨m, rfl, -⟩
  · cases m with
    | nil => simp [hle]
    | cons c m =>
      refine iff_of_false ?_ ?_
      · have := hlt c (by rw [hm]; rfl)
        rw [byteWidth_append, byteWidth_cons]
        omega
      · intro hprefix
        have hlength := hprefix.length_le
        rw [List.length_append, List.length_cons] at hlength
        omega
  · refine iff_of_true (Nat.le_trans ?_ hle) (List.prefix_append _ _)
    rw [byteWidth_append]
    exact Nat.le_add_right _ _

/-- The starts of lines up to a cut are those with no more line feeds before them. -/
theorem prefix_iff_count_le {pre post b rest : List Char} (h : pre ++ post = b ++ rest)
    (hb : Line.Begins b) : b <+: pre ↔ b.count '\n' ≤ pre.count '\n' := by
  constructor
  · exact fun hprefix => hprefix.sublist.count_le _
  · intro hcount
    have hpre : pre <+: b ++ rest := ⟨post, h⟩
    rcases List.prefix_or_prefix_of_prefix hpre (List.prefix_append b rest) with hpre | hpre
    · rcases hb with rfl | ⟨b, rfl⟩
      · exact List.nil_prefix
      · rcases List.prefix_concat_iff.mp hpre with rfl | hpre
        · exact List.prefix_refl _
        · have hless : pre.count '\n' ≤ b.count '\n' := hpre.sublist.count_le _
          rw [List.count_append, List.count_singleton_self] at hcount
          omega
    · exact hpre

/-! ## 6. The index

The index finds a line by halving, which needs that the starts of the lines grow.  What it finds is
described by the two lines around the offset, and these single out the line of the cut. -/

namespace LineIndex

variable {text : String} {n : Nat} {before inside after : List Char}

/-- The line of a cut, as the index has it. -/
theorem getElem?_lines (h : LineCut text n before inside after) :
    (ofText text).lines[n]? = some ⟨byteWidth before, Line.first (inside ++ after)⟩ := by
  rw [ofText, List.getElem?_toArray, h.chars, ← h.number]
  exact Line.getElem?_place h.begins _

/-- There is one line more than there are line feeds. -/
theorem count_ofText (text : String) : (ofText text).count = text.toList.count '\n' + 1 := by
  rw [count, ofText, List.size_toArray, Line.length_place, Line.length_split]

theorem exists_cut_of_lt (h : n < (ofText text).count) :
    ∃ before rest, LineCut text n before [] rest := by
  rw [count_ofText] at h
  obtain ⟨before, rest, hchars, hbegins, hnumber⟩ := exists_begins_count (Nat.le_of_lt_succ h)
  exact ⟨before, rest, hchars, hbegins, hnumber, List.not_mem_nil⟩

theorem lt_count (h : LineCut text n before inside after) : n < (ofText text).count :=
  (Array.getElem?_eq_some_iff.mp (getElem?_lines h)).1

theorem startOf_eq (h : LineCut text n before inside after) :
    (ofText text).startOf n = byteWidth before := by
  rw [startOf, getElem?_lines h]
  rfl

/-- **Halving finds the last line that starts at or before the offset**, if the first of the
lines between which it searches does, and what follows the last of them does not. -/
theorem lineBetween_spec {ix : LineIndex} {offset lo hi : Nat} (hlt : lo < hi)
    (hlo : ix.startOf lo ≤ offset) (hhi : hi < ix.count → offset < ix.startOf hi) :
    ix.lineBetween offset lo hi < hi ∧ ix.startOf (ix.lineBetween offset lo hi) ≤ offset ∧
      (ix.lineBetween offset lo hi + 1 < ix.count →
        offset < ix.startOf (ix.lineBetween offset lo hi + 1)) := by
  fun_induction lineBetween ix offset lo hi with
  | case1 lo hi h middle hmiddle ih => exact ih (by omega) hmiddle hhi
  | case2 lo hi h middle hmiddle ih =>
    obtain ⟨hbelow, hspec⟩ := ih (by omega) hlo fun _ => Nat.lt_of_not_le hmiddle
    exact ⟨by omega, hspec⟩
  | case3 lo hi h =>
    obtain rfl : hi = lo + 1 := by omega
    exact ⟨hlt, hlo, hhi⟩

/-- The lines that start at or before an offset are those up to the line of the last cut there. -/
theorem startOf_le_iff (h : LineCut text n before inside after) {offset : Nat}
    (hle : byteWidth (before ++ inside) ≤ offset)
    (hlt : ∀ c ∈ after.head?, offset < byteWidth (before ++ inside) + c.utf8Size)
    {i : Nat} (hi : i < (ofText text).count) : (ofText text).startOf i ≤ offset ↔ i ≤ n := by
  obtain ⟨b, rest, hcut⟩ := exists_cut_of_lt hi
  have hchars : (before ++ inside) ++ after = b ++ rest := by
    rw [List.append_assoc, ← h.chars]
    exact hcut.chars
  have hnumber : (before ++ inside).count '\n' = n := by
    rw [List.count_append, h.number, List.count_eq_zero_of_not_mem h.no_feed]
    rfl
  rw [startOf_eq hcut, byteWidth_le_iff_isPrefix hchars hle hlt,
    prefix_iff_count_le hchars hcut.begins, hcut.number, hnumber]

/-- The line of an offset is the line of the last cut at or before it. -/
theorem lineOf_eq (h : LineCut text n before inside after) {offset : Nat}
    (hle : byteWidth (before ++ inside) ≤ offset)
    (hlt : ∀ c ∈ after.head?, offset < byteWidth (before ++ inside) + c.utf8Size) :
    (ofText text).lineOf offset = n := by
  have hn := lt_count h
  have hpos : 0 < (ofText text).count := Nat.zero_lt_of_lt hn
  have hzero : (ofText text).startOf 0 ≤ offset :=
    (startOf_le_iff h hle hlt hpos).mpr (Nat.zero_le n)
  obtain ⟨hbelow, hstart, hnext⟩ := lineBetween_spec hpos hzero
    fun hself => absurd hself (Nat.lt_irrefl _)
  have hupper : (ofText text).lineOf offset ≤ n := (startOf_le_iff h hle hlt hbelow).mp hstart
  refine Nat.le_antisymm hupper (Nat.le_of_not_lt fun hless => ?_)
  -- the line behind the one that was found would start at or before the offset as well
  have hcount : (ofText text).lineOf offset + 1 < (ofText text).count :=
    Nat.lt_of_le_of_lt hless hn
  have hbehind := (startOf_le_iff h hle hlt hcount).mpr hless
  exact absurd hbehind (Nat.not_le_of_lt (hnext hcount))

/-- **The place of an offset** is the line of the last cut at or before it, and the units up to
the cut. -/
theorem position_of_cut (h : LineCut text n before inside after) {offset : Nat}
    (hle : byteWidth (before ++ inside) ≤ offset)
    (hlt : ∀ c ∈ after.head?, offset < byteWidth (before ++ inside) + c.utf8Size) :
    (ofText text).position offset = ⟨n, unitWidth inside⟩ := by
  have hsize : (ofText text).size = byteWidth (before ++ inside) + byteWidth after := by
    show byteWidth text.toList = _
    rw [h.chars, ← List.append_assoc, byteWidth_append]
  have hle' : byteWidth (before ++ inside) ≤ min offset (ofText text).size := by omega
  have hlt' : ∀ c ∈ after.head?,
      min offset (ofText text).size < byteWidth (before ++ inside) + c.utf8Size :=
    fun c hc => Nat.lt_of_le_of_lt (Nat.min_le_left _ _) (hlt c hc)
  simp only [position, lineOf_eq h hle' hlt', getElem?_lines h]
  rw [Line.first_append h.no_feed, Line.unitsUpTo_eq]
  · rw [← byteWidth_append]
    exact hle'
  · intro c hc
    rw [← byteWidth_append]
    -- the first character behind the cut is the first of what is left of the line
    refine hlt' c ?_
    cases after with
    | nil => cases hc
    | cons x after =>
      by_cases hx : x = '\n'
      · subst hx
        exact hc
      · rw [Line.first_other hx] at hc
        exact hc

/-- **The offset of a column** is searched in the content of the line. -/
theorem offset?_of_cut (h : LineCut text n before inside after) (column : Nat) :
    (ofText text).offset? ⟨n, column⟩ = some (Line.offsetAt column (byteWidth before) 0
      (Line.contentOf (Line.first (inside ++ after)))) := by
  rw [offset?, getElem?_lines h]
  rfl

/-- The boundaries of a line are the starts of its content. -/
theorem lineBoundary_iff {rest : List Char} (h : LineCut text n before [] rest)
    {offset column : Nat} :
    LineBoundary text n offset column ↔
      ∃ inside, inside <+: Line.contentOf (Line.first rest) ∧
        offset = byteWidth before + byteWidth inside ∧ column = unitWidth inside := by
  constructor
  · rintro ⟨before', inside, after, hcut, hin, rfl, rfl⟩
    -- the index has one line of this number, so both cuts are of the same line
    have hline := (getElem?_lines hcut).symm.trans (getElem?_lines h)
    obtain ⟨hstart, hfirst⟩ := Line.mk.inj (Option.some.inj hline)
    refine ⟨inside, ?_, by rw [byteWidth_append, hstart], rfl⟩
    have hprefix := (Line.inContent_iff hcut.no_feed).mp hin
    rw [hfirst] at hprefix
    exact hprefix
  · rintro ⟨inside, hinside, rfl, rfl⟩
    obtain ⟨after, rfl⟩ := hinside.trans (Line.contentOf_first_prefix rest)
    have hfeed : '\n' ∉ inside := fun hmem =>
      Line.not_mem_contentOf_first _ (hinside.subset hmem)
    refine ⟨before, inside, after, ⟨h.chars, h.begins, h.number, hfeed⟩, ?_, ?_, rfl⟩
    · exact (Line.inContent_iff hfeed).mpr hinside
    · rw [byteWidth_append]

/-- A boundary in the content of a line and its place name each other. -/
theorem of_lineBoundary {offset column : Nat} (h : LineBoundary text n offset column) :
    (ofText text).offset? ⟨n, column⟩ = some offset ∧
      (ofText text).position offset = ⟨n, column⟩ := by
  obtain ⟨before, inside, after, hcut, hin, rfl, rfl⟩ := h
  refine ⟨?_, position_of_cut hcut (Nat.le_refl _) fun c _ => ?_⟩
  · obtain ⟨post, hpost⟩ := (Line.inContent_iff hcut.no_feed).mp hin
    have hcolumn := Line.offsetAt_unitWidth inside post (byteWidth before) 0
    rw [Nat.zero_add] at hcolumn
    rw [offset?_of_cut hcut, ← hpost, hcolumn, byteWidth_append]
  · have := c.utf8Size_pos
    omega

/-- The offset that a place stands for: the first boundary of its line at or past its column, or
the last boundary of the line if there is none. -/
def Resolves (text : String) (p : Position) (offset : Nat) : Prop :=
  (∃ column, LineBoundary text p.line offset column ∧ p.character ≤ column ∧
      ∀ o c, LineBoundary text p.line o c → p.character ≤ c → offset ≤ o) ∨
    ((∃ column, LineBoundary text p.line offset column) ∧
      ∀ o c, LineBoundary text p.line o c → c < p.character ∧ o ≤ offset)

/-- **Every place in a line of the text stands for some offset**, which is the one it has. -/
theorem exists_resolves {p : Position} (h : p.line < (ofText text).count) :
    ∃ offset, (ofText text).offset? p = some offset ∧ Resolves text p offset := by
  obtain ⟨before, rest, hcut⟩ := exists_cut_of_lt h
  obtain ⟨pre, post, hcontent, hoffset, hstop, hleast⟩ := Line.offsetAt_spec p.character
    (byteWidth before) 0 (Line.contentOf (Line.first rest))
  have hboundary : LineBoundary text p.line (byteWidth before + byteWidth pre) (unitWidth pre) :=
    (lineBoundary_iff hcut).mpr ⟨pre, ⟨post, hcontent.symm⟩, rfl, rfl⟩
  refine ⟨byteWidth before + byteWidth pre, ?_, ?_⟩
  · rw [← hoffset]
    exact offset?_of_cut hcut p.character
  · simp only [Nat.zero_add] at hstop hleast
    by_cases hreached : p.character ≤ unitWidth pre
    · refine Or.inl ⟨_, hboundary, hreached, fun o c hoc hc => ?_⟩
      obtain ⟨inside, ⟨after, hafter⟩, rfl, rfl⟩ := (lineBoundary_iff hcut).mp hoc
      exact Nat.add_le_add_left (hleast inside after hafter.symm hc) _
    · refine Or.inr ⟨⟨_, hboundary⟩, fun o c hoc => ?_⟩
      obtain ⟨inside, ⟨after, hafter⟩, rfl, rfl⟩ := (lineBoundary_iff hcut).mp hoc
      -- the search went through the whole content
      obtain rfl : post = [] := hstop.resolve_left hreached
      have hpre : inside ++ after = pre := by rw [hafter, hcontent, List.append_nil]
      rw [← hpre, unitWidth_append] at hreached
      rw [← hpre, byteWidth_append]
      omega

theorem offset?_eq_none_iff {p : Position} :
    (ofText text).offset? p = none ↔ (ofText text).count ≤ p.line := by
  rw [offset?, Option.map_eq_none_iff, Array.getElem?_eq_none_iff]
  rfl

/-! ## 7. There and back

The exceptions are stated in bytes, so that they can be decided without the index.  They are then
shown to be the cuts outside the content of their line. -/

/-- The offset stands behind a carriage return that ends a line or the text. -/
def BehindReturn (text : String) (offset : Nat) : Prop :=
  0 < offset ∧ (Utf8.bytes text)[offset - 1]? = some '\r'.toUInt8 ∧
    (offset = (Utf8.bytes text).length ∨ (Utf8.bytes text)[offset]? = some '\n'.toUInt8)

instance (text : String) (offset : Nat) : Decidable (BehindReturn text offset) :=
  inferInstanceAs (Decidable (_ ∧ _))

/-- The byte at a cut is the narrow character behind it. -/
theorem getElem?_bytes_iff {pre post : List Char} (h : text.toList = pre ++ post) {x : Char}
    (hx : x.toNat < 0x80) :
    (Utf8.bytes text)[byteWidth pre]? = some (UInt8.ofNat x.toNat) ↔ post.head? = some x := by
  rw [Utf8.bytes_eq_encode, h, Utf8.encode_append, ← Utf8.length_encode,
    List.getElem?_append_right (Nat.le_refl _), Nat.sub_self]
  cases post with
  | nil => simp
  | cons c r =>
    obtain ⟨b, tail, hbytes, -⟩ := Utf8.step_encodeChar c []
    rw [Utf8.encode_cons, hbytes, List.cons_append, List.getElem?_cons_zero, List.head?_cons]
    constructor
    · intro hb
      have hmem : UInt8.ofNat x.toNat ∈ String.utf8EncodeChar c := by
        rw [hbytes, Option.some.inj hb]
        exact List.mem_cons_self
      rw [Utf8.eq_of_mem_encodeChar hx hmem]
    · intro hc
      obtain rfl : c = x := Option.some.inj hc
      rw [Utf8.encodeChar_of_narrow hx] at hbytes
      rw [(List.cons.inj hbytes).1]

/-- The byte before a cut is the narrow character before it. -/
theorem getElem?_bytes_before_iff {pre post : List Char} (h : text.toList = pre ++ post) {x : Char}
    (hx : x.toNat < 0x80) :
    0 < byteWidth pre ∧ (Utf8.bytes text)[byteWidth pre - 1]? = some (UInt8.ofNat x.toNat) ↔
      pre.getLast? = some x := by
  rcases List.eq_nil_or_concat pre with rfl | ⟨p, c, rfl⟩
  · simp
  · rw [List.concat_eq_append] at h ⊢
    have hpos := c.utf8Size_pos
    have hwidth : byteWidth (p ++ [c]) = byteWidth p + c.utf8Size := by
      rw [byteWidth_append, byteWidth_cons, byteWidth_nil, Nat.add_zero]
    have hbyte : (Utf8.bytes text)[byteWidth (p ++ [c]) - 1]?
        = (String.utf8EncodeChar c)[c.utf8Size - 1]? := by
      rw [Utf8.bytes_eq_encode, h, List.append_assoc, Utf8.encode_append, hwidth,
        List.getElem?_append_right (by rw [Utf8.length_encode]; omega), Utf8.length_encode,
        List.cons_append, Utf8.encode_cons,
        List.getElem?_append_left (by rw [String.length_utf8EncodeChar]; omega)]
      exact congrArg (fun i => (String.utf8EncodeChar c)[i]?) (by omega)
    rw [hbyte, List.getLast?_concat]
    constructor
    · rintro ⟨-, hb⟩
      rw [Utf8.eq_of_mem_encodeChar hx (List.mem_of_getElem? hb)]
    · intro hc
      obtain rfl : c = x := Option.some.inj hc
      refine ⟨by omega, ?_⟩
      rw [Utf8.utf8Size_of_narrow hx, Utf8.encodeChar_of_narrow hx]
      rfl

/-- A cut stands behind the carriage return that ends its line if it is outside the content. -/
theorem behindReturn_iff (h : LineCut text n before inside after) :
    BehindReturn text (byteWidth (before ++ inside)) ↔ ¬ Line.InContent inside after := by
  have hchars : text.toList = (before ++ inside) ++ after := by rw [h.chars, List.append_assoc]
  have hlast : (before ++ inside).getLast? = some '\r' ↔ inside.getLast? = some '\r' := by
    rcases List.eq_nil_or_concat inside with rfl | ⟨m, c, rfl⟩
    · rcases h.begins with rfl | ⟨b, rfl⟩
      · rfl
      · simp
    · rw [List.concat_eq_append, ← List.append_assoc, List.getLast?_concat, List.getLast?_concat]
  have hend : byteWidth (before ++ inside) = (Utf8.bytes text).length ↔ after = [] := by
    rw [Utf8.length_bytes, hchars, byteWidth_append (before ++ inside)]
    constructor
    · intro hwidth
      have hzero : after.length ≤ 0 := Nat.le_trans (length_le_byteWidth after) (by omega)
      exact List.length_eq_zero_iff.mp (Nat.le_zero.mp hzero)
    · rintro rfl
      rfl
  have hbefore := getElem?_bytes_before_iff hchars (x := '\r') (by decide)
  have hat := getElem?_bytes_iff hchars (x := '\n') (by decide)
  rw [BehindReturn, Line.InContent, Classical.not_not, ← hlast, ← hbefore, ← hat, hend, and_assoc]
  rfl

/-- **From an offset to its place and back.**  The way ends at the last cut at or before the
offset, or one byte earlier if a carriage return ends the line there. -/
theorem offset?_position (h : LineCut text n before inside after) {offset : Nat}
    (hle : byteWidth (before ++ inside) ≤ offset)
    (hlt : ∀ c ∈ after.head?, offset < byteWidth (before ++ inside) + c.utf8Size) :
    (ofText text).offset? ((ofText text).position offset) = some
      (if BehindReturn text (byteWidth (before ++ inside)) then byteWidth (before ++ inside) - 1
        else byteWidth (before ++ inside)) := by
  rw [position_of_cut h hle hlt]
  by_cases hin : Line.InContent inside after
  · rw [if_neg fun hbehind => (behindReturn_iff h).mp hbehind hin]
    exact (of_lineBoundary ⟨before, inside, after, h, hin, rfl, rfl⟩).1
  · rw [if_pos ((behindReturn_iff h).mpr hin)]
    obtain ⟨hreturn, hends⟩ := Classical.not_not.mp hin
    obtain ⟨m, rfl⟩ := List.getLast?_eq_some_iff.mp hreturn
    rw [offset?_of_cut h, Line.contentOf_return h.no_feed hends,
      Line.offsetAt_past _ (by rw [unitWidth_append]; omega)]
    have hsize : byteWidth (before ++ (m ++ ['\r'])) = byteWidth before + byteWidth m + 1 := by
      rw [byteWidth_append, byteWidth_append, ← Nat.add_assoc]
      rfl
    rw [hsize, Nat.add_sub_cancel]

/-- Lines and columns are no more than the bytes of the text, so those of a text shorter than
`2 ^ 32` bytes are numbers of 32 bits. -/
theorem position_le (text : String) (offset : Nat) :
    ((ofText text).position offset).line + ((ofText text).position offset).character
      ≤ byteWidth text.toList := by
  obtain ⟨pre, post, hchars, hle, hlt⟩ := exists_floor text.toList offset
  obtain ⟨before, inside, rfl, hcut⟩ := exists_lineCut hchars
  rw [position_of_cut hcut hle hlt, hchars, byteWidth_append, byteWidth_append, ← hcut.number]
  have hfeeds : before.count '\n' ≤ byteWidth before :=
    Nat.le_trans List.count_le_length (length_le_byteWidth before)
  have hunits := unitWidth_le_byteWidth inside
  show before.count '\n' + unitWidth inside ≤ _
  omega

/-- **Offsets and places of a text.**  A character boundary is found back from its place, except
behind the carriage return that ends a line, from where the way leads one byte back.  A place has
no offset exactly if its line is not there; otherwise it resolves to the first boundary in the
content of the line at or past its column, or to the end of the content, and a place with the
column of such a boundary is found back from its offset.  All numbers of places are bounded by
the length of the text. -/
theorem position_roundTrip (text : String) :
    (∀ o, String.Pos.Raw.IsValid text ⟨o⟩ →
      (ofText text).offset? ((ofText text).position o)
        = some (if BehindReturn text o then o - 1 else o)) ∧
    (∀ p, (ofText text).offset? p = none ↔ (ofText text).count ≤ p.line) ∧
    (∀ p, p.line < (ofText text).count →
      ∃ o, (ofText text).offset? p = some o ∧ Resolves text p o) ∧
    (∀ p o, LineBoundary text p.line o p.character →
      (ofText text).offset? p = some o ∧ (ofText text).position o = p) ∧
    (ofText text).count = text.toList.count '\n' + 1 ∧
    ∀ o, ((ofText text).position o).line + ((ofText text).position o).character
      ≤ (Utf8.bytes text).length := by
  refine ⟨fun o ho => ?_, fun p => offset?_eq_none_iff, fun p hp => exists_resolves hp,
    fun p o ho => of_lineBoundary ho, count_ofText text, fun o => ?_⟩
  · obtain ⟨pre, post, hchars, rfl⟩ := split_of_isValid ho
    obtain ⟨before, inside, rfl, hcut⟩ := exists_lineCut hchars
    refine offset?_position hcut (Nat.le_refl _) fun c _ => ?_
    have := c.utf8Size_pos
    omega
  · rw [Utf8.length_bytes]
    exact position_le text o

/-- Wide characters, a line feed with a carriage return, and the place between the two. -/
theorem position_roundTrip_carriage :
    (ofText "é😀\r\nx").position 7 = ⟨0, 4⟩ ∧
      (ofText "é😀\r\nx").offset? ((ofText "é😀\r\nx").position 7) = some 6 ∧
      (ofText "é😀\r\nx").offset? ((ofText "é😀\r\nx").position 6) = some 6 := by
  have hvalid : ∀ i o, (String.ofList ("é😀\r\nx".toList.take i)).utf8ByteSize = o →
      String.Pos.Raw.IsValid "é😀\r\nx" ⟨o⟩ := by
    rintro i o rfl
    exact String.Pos.Raw.isValid_iff_exists_take_toList.mpr ⟨i, rfl⟩
  refine ⟨by decide +kernel, ?_, ?_⟩
  · rw [(position_roundTrip "é😀\r\nx").1 7 (hvalid 3 7 (by decide +kernel))]
    decide +kernel
  · rw [(position_roundTrip "é😀\r\nx").1 6 (hvalid 2 6 (by decide +kernel))]
    decide +kernel

end LineIndex

end ComponentHost
