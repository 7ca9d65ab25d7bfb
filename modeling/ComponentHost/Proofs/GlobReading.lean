/-
# How patterns of whole paths are read

The reader of a pattern goes from character to character with a draft, and looks ahead where it
must: behind a bracket for its end, behind two stars for a slash.  Two facts about its tokens are
needed, and both have to get past this:

* A pattern that begins with an escaped directory, plain parts and a slash is read into the tokens
  of these characters and then into one that takes a slash, whatever follows.  The slash may have
  been turned into part of a `/**/` since.  What is kept is that the tokens outside of all groups
  STAND on those of the beginning (`Stands`), and no token that is taken in changes that
  (`Stands.advance`).
* With `/**` behind it, a pattern is read into the same tokens and one more for the `/**`
  (`read_below`); only a pattern that ends in `/**` already stays the same.  And behind any text
  `/**` is read as such (`read_of_below`): it cannot be inside of brackets, and a token cannot have
  taken more of it than the slash (`Ahead`).

Both are proved over a run of the reader that stops in the middle of the text (`run`), with the
characters that are still to come given to it, because the reader looks at them.  A run has three
kinds of lemmas: what taking ONE character can do (`Effect`), what it keeps (`Stands.effect`), and
how far ahead it has reached (`Ahead`); each is a case split over the characters that mean
something, made once, and the lemma about whole runs is an induction that does not look at
characters any more.
-/
import ComponentHost.Proofs.GlobMatching

namespace ComponentHost.Glob

/-! ## 1. Reading in pieces

The reader as it is written goes to the end of the text and gives its tokens.  To say what it has in
between, a character is taken by `advance` and some characters by `run`, and the reader is a run of
all the characters.  What follows the characters is an argument of its own: it is looked at, not
taken. -/

namespace Draft

variable {lenient : Bool} {d d' : Draft} {c : Char} {rest : List Char}

/-- Takes or skips one character, given those after it. -/
def advance (lenient : Bool) (d : Draft) (c : Char) (rest : List Char) : Option Draft :=
  if d.skip = 0 then (d.take lenient c rest).map fun d => { d with last := some c }
  else some { d with last := some c, skip := d.skip - 1 }

/-- Takes or skips some characters, given those after them. -/
def run (lenient : Bool) : Draft → List Char → List Char → Option Draft
  | d, [], _ => some d
  | d, c :: rest, after => (d.advance lenient c (rest ++ after)).bind fun d => run lenient d rest after

/-- Reading takes one character and reads on. -/
theorem read_cons (lenient : Bool) (d : Draft) (c : Char) (rest : List Char) :
    read lenient d (c :: rest) = (d.advance lenient c rest).bind fun d => read lenient d rest := by
  rw [read, advance]
  split
  · cases d.take lenient c rest <;> rfl
  · rfl

/-- **A text is read in two pieces**, the first with the second in view. -/
theorem read_append (lenient : Bool) (d : Draft) (cs after : List Char) :
    read lenient d (cs ++ after) = (run lenient d cs after).bind fun d => read lenient d after := by
  induction cs generalizing d with
  | nil => rfl
  | cons c cs ih =>
    rw [List.cons_append, read_cons, run, Option.bind_assoc]
    exact congrArg _ (funext ih)

/-- Runs compose in the same way. -/
theorem run_append (lenient : Bool) (d : Draft) (a b after : List Char) :
    run lenient d (a ++ b) after
      = (run lenient d a (b ++ after)).bind fun d => run lenient d b after := by
  induction a generalizing d with
  | nil => rfl
  | cons c a ih =>
    rw [List.cons_append, run, run, Option.bind_assoc, List.append_assoc]
    exact congrArg _ (funext ih)

/-- What the reader has, once it has read everything. -/
theorem read_eq_some_iff {cs : List Char} {ts : List GlobToken} :
    read lenient d cs = some ts ↔
      ∃ d', run lenient d cs [] = some d' ∧ d'.groups = [] ∧ ts = d'.tokens.reverse := by
  have hread := read_append lenient d cs []
  rw [List.append_nil] at hread
  rw [hread, Option.bind_eq_some_iff]
  refine exists_congr fun d' => and_congr_right fun _ => ?_
  rw [read]
  split
  · next hgroups =>
    rw [Option.some.injEq, and_iff_right (List.isEmpty_iff.mp hgroups)]
    exact eq_comm
  · next hgroups =>
    refine iff_of_false nofun fun h => hgroups ?_
    rw [h.1]
    rfl

/-! ## 2. Plain characters

An escaped directory and the plain parts behind it are read one character at a time, with no group
open and nothing taken ahead. -/

/-- Does the character stand for itself outside of groups?  So does a closing brace, but there it
makes the pattern invalid. -/
def isPlain (c : Char) : Bool := !(['*', '?', '[', '{', '\\'].contains c)

/-- A plain character is a token of its own.  A closing brace would be one inside of a group only.
-/
theorem take_of_isPlain (hc : isPlain c = true) (hbrace : c ≠ '}') (hgroups : d.groups = []) :
    d.take lenient c rest = some (d.push (.literal c)) := by
  unfold take
  split
  · cases hc
  · cases hc
  · cases hc
  · cases hc
  · exact absurd rfl hbrace
  · rw [nextBranch, hgroups]
  · cases hc
  · rfl

/-- Plain characters are read one by one. -/
theorem run_plain {ts : List GlobToken} {last : Option Char} {b : Bool} {cs after : List Char}
    (hcs : ∀ c ∈ cs, isPlain c = true)
    (h : run lenient ⟨ts, [], last, 0, b⟩ cs after = some d) :
    ∃ last', d = ⟨(cs.map .literal).reverse ++ ts, [], last', 0, b⟩ := by
  induction cs generalizing ts last with
  | nil =>
    rw [run, Option.some.injEq] at h
    exact ⟨last, h.symm⟩
  | cons c cs ih =>
    have hrest : ∀ c ∈ cs, isPlain c = true := fun c hc => hcs c (List.mem_cons_of_mem _ hc)
    rw [run, advance, if_pos rfl] at h
    by_cases hbrace : c = '}'
    · subst hbrace
      cases h
    · rw [take_of_isPlain (hcs c List.mem_cons_self) hbrace rfl] at h
      obtain ⟨last', rfl⟩ := ih hrest h
      refine ⟨last', ?_⟩
      rw [List.map_cons, List.reverse_cons, List.append_assoc]
      rfl

/-- Plain characters are read if none of them is a closing brace. -/
theorem isSome_run_plain {ts : List GlobToken} {last : Option Char} {b : Bool} {cs after : List Char}
    (hcs : ∀ c ∈ cs, isPlain c = true) :
    (run lenient ⟨ts, [], last, 0, b⟩ cs after).isSome = true ↔ '}' ∉ cs := by
  induction cs generalizing ts last with
  | nil => exact iff_of_true rfl List.not_mem_nil
  | cons c cs ih =>
    have hrest : ∀ c ∈ cs, isPlain c = true := fun c hc => hcs c (List.mem_cons_of_mem _ hc)
    rw [run, advance, if_pos rfl, List.mem_cons, not_or]
    by_cases hbrace : c = '}'
    · subst hbrace
      exact iff_of_false Bool.false_ne_true fun h => h.1 rfl
    · rw [take_of_isPlain (hcs c List.mem_cons_self) hbrace rfl, and_iff_right (Ne.symm hbrace)]
      exact ih hrest

/-- The characters of an escaped text. -/
theorem toList_escape (cs : List Char) : (escape (String.ofList cs)).toList
    = cs.flatMap fun c => if isSpecial c then ['[', c, ']'] else [c] := by
  rw [escape, String.toList_ofList, String.toList_ofList]

/-- A special character in brackets. -/
theorem bracket_of_isSpecial (hc : isSpecial c = true) :
    d.bracket lenient (c :: ']' :: rest) = some (d.pushPast (.oneOf false [(c, c)]) 2) := by
  have hmark : c ≠ '!' := by
    rintro rfl
    cases hc
  have hcaret : c ≠ '^' := by
    rintro rfl
    cases hc
  have hnegated : Bracket.isNegated (c :: ']' :: rest) = false := by
    simp [Bracket.isNegated, hmark, hcaret]
  have hread : Bracket.read (c :: ']' :: rest) = .closed [(c, c)] 2 := by
    simp [Bracket.read, hnegated, Bracket.scan, Bracket.take, Bracket.finish]
  rw [bracket, hread, hnegated]

/-- An escaped text is read character by character.  A special character is written in brackets,
which are read as one token; a backslash cannot be written that way, and is excluded. -/
theorem run_escaped {ts : List GlobToken} {last : Option Char} {cs after : List Char}
    (hcs : '\\' ∉ cs) :
    ∃ last', run lenient ⟨ts, [], last, 0, false⟩ (escape (String.ofList cs)).toList after
      = some ⟨(cs.map spell).reverse ++ ts, [], last', 0, false⟩ := by
  rw [toList_escape]
  induction cs generalizing ts last with
  | nil => exact ⟨last, rfl⟩
  | cons c cs ih =>
    rw [List.mem_cons, not_or] at hcs
    rw [List.flatMap_cons, run_append, List.map_cons, List.reverse_cons, List.append_assoc,
      List.singleton_append, spell]
    by_cases hc : isSpecial c = true
    · rw [if_pos hc, if_pos hc]
      simp only [run, advance, if_pos, take, List.cons_append, List.nil_append,
        bracket_of_isSpecial hc]
      exact ih hcs.2
    · have hplain : isPlain c = true ∧ c ≠ '}' := by
        simp only [isSpecial, List.contains_iff_mem, List.mem_cons, not_or, List.not_mem_nil] at hc
        obtain ⟨hquestion, hstar, hopen, -, hbrace, hclose, -⟩ := hc
        refine ⟨?_, hclose⟩
        simp [isPlain, hquestion, hstar, hopen, hbrace, Ne.symm hcs.1]
      rw [if_neg hc, if_neg hc]
      simp only [run, advance, if_pos, take_of_isPlain hplain.1 hplain.2]
      exact ih hcs.2

/-! ## 3. What stands before all groups

Inside of a group the reader works on the tokens of an alternative, and has put the ones outside
away on a stack.  Those outside of ALL groups are then at the bottom of the stack.  What is shown of
them is that they keep their beginning: a token may be put behind them, and `**` may take the place
of the last, but the last is never one of the beginning, for after that comes a token with a slash
in it. -/

@[simp] theorem groups_pushTree (d : Draft) (t : GlobToken) (n : Nat) :
    (d.pushTree t n).groups = d.groups := by
  unfold pushTree
  split <;> rfl

@[simp] theorem skip_pushTree (d : Draft) (t : GlobToken) (n : Nat) : (d.pushTree t n).skip = n := by
  unfold pushTree
  split <;> rfl

/-- `**` takes the place of the last token, unless that is a `**` at the end. -/
theorem tokens_pushTree {t : GlobToken} {before : List GlobToken} (htokens : d.tokens = t :: before)
    (ht : t ≠ .treeStart) (s : GlobToken) (n : Nat) :
    ∃ u, (d.pushTree s n).tokens = u :: before ∧ (s = .treeEnd → u = .treeEnd) := by
  unfold pushTree
  rw [htokens]
  split
  · next heq => exact absurd (List.cons.inj heq).1 ht
  · next heq => exact ⟨t, rfl, fun _ => (List.cons.inj heq).1⟩
  · next heq =>
    rw [← (List.cons.inj heq).2]
    exact ⟨s, rfl, id⟩
  · next heq => cases heq

/-- What taking one character can do to a draft. -/
inductive Effect (d : Draft) : Draft → Prop
  | token {t : GlobToken} {n : Nat} {b : Bool} (ht : t ≠ .treeStart) :
      Effect d { d with tokens := t :: d.tokens, skip := n, plainBrackets := b }
  | stars : Effect d d.twoStars
  /-- `**` at the start of a pattern or of an alternative. -/
  | start {n : Nat} (h : d.tokens = []) : Effect d (d.pushPast .treeStart n)
  | tree {t : GlobToken} {n : Nat} (ht : t = .treeEnd ∨ t = .treeBetween) : Effect d (d.pushTree t n)
  | opens : Effect d { d with tokens := [], groups := ⟨d.tokens, []⟩ :: d.groups }
  | branch {g : Group} {outer : List Group} (h : d.groups = g :: outer) : Effect d d.nextBranch
  | closes {g : Group} {outer : List Group} {t : GlobToken} (h : d.groups = g :: outer)
      (ht : t ≠ .treeStart) : Effect d { d with tokens := t :: g.before, groups := outer }

/-- Two stars are a tree token only as a whole part: at the start of the pattern or behind a slash,
and at its end or before a slash.  Elsewhere they are two stars. -/
theorem effect_doubleStar (next : Option Char) : Effect d (d.doubleStar next) := by
  unfold doubleStar
  split
  · next hempty =>
    rw [List.isEmpty_iff] at hempty
    split
    · exact .start hempty
    · split
      · exact .start hempty
      · exact .stars
  · split
    · split
      · exact .tree (Or.inl rfl)
      · split
        · exact .tree (Or.inr rfl)
        · split
          · exact .tree (Or.inl rfl)
          · exact .stars
    · exact .stars

/-- A bracket is one token, or a plain character where brackets that are not closed are let through.
-/
theorem effect_bracket (h : d.bracket lenient rest = some d') : Effect d d' := by
  unfold bracket at h
  split at h
  · cases h
    exact .token nofun
  · split at h
    · cases h
      exact .token nofun
    · cases h
  · cases h

/-- **All that taking a character can do.**  The cases of the reader are gone through here and not
again. -/
theorem effect_take (h : d.take lenient c rest = some d') : Effect d d' := by
  have hpush : ∀ {t : GlobToken}, t ≠ .treeStart → Effect d (d.push t) := fun ht => .token ht
  unfold take at h
  split at h
  · cases h
    exact hpush nofun
  · split at h
    · cases h
      exact effect_doubleStar _
    · cases h
      exact hpush nofun
  · split at h
    · cases h
      exact hpush nofun
    · exact effect_bracket h
  · cases h
    exact .opens
  · unfold closeGroup at h
    split at h
    · next hgroups =>
      cases h
      exact .closes hgroups nofun
    · cases h
  · cases h
    match hgroups : d.groups with
    | [] =>
      have hcomma : d.nextBranch = d.push (.literal ',') := by rw [nextBranch, hgroups]
      rw [hcomma]
      exact hpush nofun
    | g :: outer => exact .branch hgroups
  · obtain ⟨x, -, rfl⟩ := Option.map_eq_some_iff.mp h
    exact .token nofun
  · cases h
    exact hpush nofun

/-- The tokens outside of all groups, last first. -/
def base (d : Draft) : List GlobToken := (d.groups.getLast?.map Group.before).getD d.tokens

/-- The tokens outside of all groups stand on some others: right after those comes one that takes
a slash, and no `**` that starts a pattern follows. -/
def Stands (below : List GlobToken) (d : Draft) : Prop :=
  ∃ ts t, d.base = ts ++ t :: below ∧ takesSlash t = true ∧ .treeStart ∉ ts

section Stands

variable {below : List GlobToken}

theorem base_of_groups_eq_nil (h : d.groups = []) : d.base = d.tokens := by
  rw [base, h]
  rfl

theorem base_of_getLast? {g : Group} (h : d.groups.getLast? = some g) : d.base = g.before := by
  rw [base, h]
  rfl

/-- Inside of a group the tokens outside are out of reach. -/
theorem base_of_groups_ne_nil (h : d.groups ≠ []) (hgroups : d'.groups.getLast? = d.groups.getLast?) :
    d'.base = d.base := by
  have hlast := List.getLast?_eq_some_getLast h
  rw [base_of_getLast? hlast, base_of_getLast? (hgroups.trans hlast)]

theorem Stands.of_base (h : Stands below d) (hbase : d'.base = d.base) : Stands below d' := by
  rwa [Stands, hbase]

theorem base_ne_nil (h : Stands below d) : d.base ≠ [] := by
  obtain ⟨ts, t, hbase, -⟩ := h
  rw [hbase]
  exact List.append_ne_nil_of_right_ne_nil _ (List.cons_ne_nil _ _)

/-- A token that is put behind the others stands on what they stand on.  In a group it is not even
behind them. -/
theorem Stands.cons {t : GlobToken} (h : Stands below d) (ht : t ≠ .treeStart)
    (hgroups : d'.groups = d.groups) (htokens : d'.tokens = t :: d.tokens) : Stands below d' := by
  by_cases hnil : d.groups = []
  · obtain ⟨ts, s, hbase, hs, hts⟩ := h
    rw [base_of_groups_eq_nil hnil] at hbase
    refine ⟨t :: ts, s, ?_, hs, ?_⟩
    · rw [base_of_groups_eq_nil (hgroups.trans hnil), htokens, hbase, List.cons_append]
    · exact List.not_mem_cons_of_ne_of_not_mem (Ne.symm ht) hts
  · exact h.of_base (base_of_groups_ne_nil hnil (by rw [hgroups]))

theorem takesSlash_ne {t : GlobToken} (h : takesSlash t = true) : t ≠ .treeStart := by
  rintro rfl
  cases h

/-- With no group open, the last token does not start a pattern. -/
theorem Stands.top (h : Stands below d) (hgroups : d.groups = []) :
    ∃ t before, d.tokens = t :: before ∧ t ≠ .treeStart := by
  obtain ⟨ts, s, hbase, hs, hts⟩ := h
  rw [base_of_groups_eq_nil hgroups] at hbase
  cases ts with
  | nil => exact ⟨s, below, hbase, takesSlash_ne hs⟩
  | cons t ts => exact ⟨t, _, hbase, fun heq => hts (heq ▸ List.mem_cons_self)⟩

/-- `**` takes the place of the last token: of the slash that it stands behind, or of a token that
came later. -/
theorem Stands.pushTree {t : GlobToken} {n : Nat} (h : Stands below d)
    (ht : t = .treeEnd ∨ t = .treeBetween) : Stands below (d.pushTree t n) := by
  have htakes : takesSlash t = true := by
    rcases ht with rfl | rfl <;> rfl
  have hgroups := groups_pushTree d t n
  by_cases hnil : d.groups = []
  · obtain ⟨ts, s, hbase, hs, hts⟩ := h
    rw [base_of_groups_eq_nil hnil] at hbase
    rw [Stands, base_of_groups_eq_nil (hgroups.trans hnil)]
    unfold Draft.pushTree
    split
    · exact ⟨ts, s, hbase, hs, hts⟩
    · exact ⟨ts, s, hbase, hs, hts⟩
    · next x before _ _ htokens =>
      rw [htokens] at hbase
      cases ts with
      | nil =>
        obtain ⟨-, rfl⟩ := List.cons.inj hbase
        exact ⟨[], t, rfl, htakes, List.not_mem_nil⟩
      | cons y ts =>
        obtain ⟨-, rfl⟩ := List.cons.inj hbase
        rw [List.mem_cons, not_or] at hts
        refine ⟨t :: ts, s, rfl, hs, ?_⟩
        exact List.not_mem_cons_of_ne_of_not_mem (takesSlash_ne htakes).symm hts.2
    · next htokens =>
      rw [htokens] at hbase
      exact absurd hbase.symm (List.append_ne_nil_of_right_ne_nil _ (List.cons_ne_nil _ _))
  · exact h.of_base (base_of_groups_ne_nil hnil (by rw [hgroups]))

/-- **One effect after another**, in all its cases. -/
theorem Stands.effect (h : Stands below d) (he : Effect d d') : Stands below d' := by
  cases he with
  | token ht => exact h.cons ht rfl rfl
  | stars =>
    have hstar : GlobToken.star ≠ .treeStart := nofun
    have hone : Stands below (d.push .star) := h.cons hstar rfl rfl
    exact hone.cons hstar rfl rfl
  | start hempty =>
    -- no tokens yet: this is the start of an alternative
    refine h.of_base (base_of_groups_ne_nil (fun hnil => ?_) rfl)
    exact base_ne_nil h ((base_of_groups_eq_nil hnil).trans hempty)
  | tree ht => exact h.pushTree ht
  | opens =>
    refine h.of_base ?_
    cases hgroups : d.groups with
    | nil => rw [base_of_groups_eq_nil hgroups, base_of_getLast? (List.getLast?_singleton)]
    | cons g outer =>
      refine base_of_groups_ne_nil (by simp [hgroups]) ?_
      rw [hgroups, List.getLast?_cons_cons]
  | @branch g outer hgroups =>
    refine h.of_base ?_
    rw [nextBranch, hgroups]
    cases outer with
    | nil =>
      have hlast : d.groups.getLast? = some g := by rw [hgroups, List.getLast?_singleton]
      rw [base_of_getLast? hlast, base_of_getLast? (List.getLast?_singleton)]
    | cons g' outer =>
      refine base_of_groups_ne_nil (by simp [hgroups]) ?_
      rw [hgroups, List.getLast?_cons_cons, List.getLast?_cons_cons]
  -- the alternatives become one token, outside of all groups if this was the only one
  | @closes g outer t hgroups ht =>
    cases outer with
    | nil =>
      have hlast : d.groups.getLast? = some g := by rw [hgroups, List.getLast?_singleton]
      obtain ⟨ts, s, hbase, hs, hts⟩ := h
      refine ⟨t :: ts, s, ?_, hs, List.not_mem_cons_of_ne_of_not_mem (Ne.symm ht) hts⟩
      rw [base_of_groups_eq_nil rfl, ← base_of_getLast? hlast, hbase, List.cons_append]
    | cons g' outer =>
      refine h.of_base (base_of_groups_ne_nil (by simp [hgroups]) ?_)
      rw [hgroups, List.getLast?_cons_cons]

/-- **No character that is taken in changes what the tokens stand on.** -/
theorem Stands.advance (h : Stands below d) (ha : d.advance lenient c rest = some d') :
    Stands below d' := by
  rw [Draft.advance] at ha
  split at ha
  · obtain ⟨taken, htaken, rfl⟩ := Option.map_eq_some_iff.mp ha
    have hstands : Stands below taken := h.effect (effect_take htaken)
    exact hstands
  · cases ha
    exact h

/-- No run of characters changes what stands below. -/
theorem Stands.run {cs after : List Char} (h : Stands below d)
    (hrun : run lenient d cs after = some d') : Stands below d' := by
  induction cs generalizing d with
  | nil =>
    cases hrun
    exact h
  | cons c cs ih =>
    rw [Draft.run, Option.bind_eq_some_iff] at hrun
    obtain ⟨next, hnext, hrun⟩ := hrun
    exact ih (h.advance hnext) hrun

end Stands

/-! ## 4. Looking ahead

The reader takes some characters at once: a bracket with all that is in it, the character behind a
backslash, and `**/`.  It notes how many it still has to skip.  When `/**` is put behind a pattern
the question is how much of it may have been taken in this way.  At most the slash: what is taken
ahead ends in a `]`, is one character, or is the two characters `*/`. -/

/-- So many characters are taken ahead: all of them are there, and they are one sign, the rest of a
bracket or the rest of `**/`. -/
def Ahead (n : Nat) (rest : List Char) : Prop :=
  n ≤ rest.length ∧ (n ≤ 1 ∨ rest[n - 1]? = some ']' ∨ n = 2 ∧ rest.head? = some '*')

theorem ahead_zero (rest : List Char) : Ahead 0 rest :=
  ⟨Nat.zero_le _, Or.inl (Nat.zero_le _)⟩

/-- After one of the characters there is one less to skip, and the condition is about the same end.
-/
theorem Ahead.tail {n : Nat} (h : Ahead n (c :: rest)) : Ahead (n - 1) rest := by
  obtain ⟨hlength, hcase⟩ := h
  rw [List.length_cons] at hlength
  refine ⟨by omega, ?_⟩
  rcases hcase with hsmall | hbracket | ⟨rfl, -⟩
  · exact Or.inl (by omega)
  · match n with
    | 0 => exact Or.inl (Nat.zero_le _)
    | 1 => exact Or.inl (Nat.zero_le _)
    | n + 2 => exact Or.inr (Or.inl hbracket)
  · exact Or.inl (Nat.le_refl _)

/-- A bracket ends at its closing sign, and what follows that does not matter.  The scan counts the
characters from the opening sign on, so the place of the closing one is given from there. -/
theorem scan_closed {b : Bracket} {first : Bool} {n m : Nat} {ranges : List (Char × Char)}
    (h : b.scan first n rest = .closed ranges m) :
    n < m ∧ rest[m - n - 1]? = some ']' ∧
      ∀ after, b.scan first n (rest ++ after) = .closed ranges m := by
  induction rest generalizing b first n with
  | nil => cases h
  | cons c rest ih =>
    rw [Bracket.scan] at h
    split at h
    · next hclose =>
      cases h
      have hc : c = ']' := by
        rw [Bool.and_eq_true] at hclose
        exact beq_iff_eq.mp hclose.1
      refine ⟨Nat.lt_succ_self _, ?_, fun after => ?_⟩
      · rw [Nat.add_sub_cancel_left]
        exact congrArg some hc
      · rw [List.cons_append, Bracket.scan, if_pos hclose]
    · next hclose =>
      split at h
      · next b' hb' =>
        obtain ⟨hlt, hsign, hmore⟩ := ih h
        refine ⟨by omega, ?_, fun after => ?_⟩
        · have hindex : m - n - 1 = (m - (n + 1) - 1) + 1 := by omega
          rw [hindex, List.getElem?_cons_succ]
          exact hsign
        · rw [List.cons_append, Bracket.scan, if_neg hclose, hb']
          exact hmore after
      · cases h

/-- The same for a bracket from its start, where a sign that negates it may stand. -/
theorem read_closed {m : Nat} {ranges : List (Char × Char)}
    (h : Bracket.read rest = .closed ranges m) :
    0 < m ∧ rest[m - 1]? = some ']' ∧ ∀ after, Bracket.read (rest ++ after) = .closed ranges m ∧
      Bracket.isNegated (rest ++ after) = Bracket.isNegated rest := by
  cases rest with
  | nil => cases h
  | cons c rest =>
    have hsame : ∀ after, Bracket.isNegated (c :: rest ++ after) = Bracket.isNegated (c :: rest) :=
      fun _ => rfl
    rw [Bracket.read] at h
    split at h
    · next hnegated =>
      obtain ⟨hlt, hsign, hmore⟩ := scan_closed h
      refine ⟨by omega, ?_, fun after => ⟨?_, hsame after⟩⟩
      · have hindex : m - 1 = (m - 1 - 1) + 1 := by omega
        rw [hindex, List.getElem?_cons_succ]
        exact hsign
      · rw [Bracket.read, hsame, if_pos hnegated]
        exact hmore after
    · next hnegated =>
      obtain ⟨hlt, hsign, hmore⟩ := scan_closed h
      refine ⟨hlt, hsign, fun after => ⟨?_, hsame after⟩⟩
      rw [Bracket.read, hsame, if_neg hnegated]
      exact hmore after

/-- Two stars take the second star, and the slash if one follows. -/
theorem ahead_doubleStar (d : Draft) (rest : List Char) :
    Ahead (d.doubleStar rest.head?).skip ('*' :: rest) := by
  have hone : Ahead 1 ('*' :: rest) := ⟨Nat.succ_le_succ (Nat.zero_le _), Or.inl (Nat.le_refl _)⟩
  have htwo : ∀ {x : Char}, rest.head? = some x → Ahead 2 ('*' :: rest) := by
    intro x hx
    refine ⟨?_, Or.inr (Or.inr ⟨rfl, rfl⟩)⟩
    cases rest with
    | nil => cases hx
    | cons _ _ => exact Nat.le_add_left _ _
  unfold doubleStar
  split
  · split
    · exact hone
    · next hx =>
      split
      · exact htwo hx
      · exact hone
  · split
    · split
      · rw [skip_pushTree]
        exact hone
      · next hx =>
        split
        · rw [skip_pushTree]
          exact htwo hx
        · split
          · rw [skip_pushTree]
            exact hone
          · exact hone
    · exact hone

/-- **What is taken ahead is there**, whichever character takes it. -/
theorem ahead_take (hskip : d.skip = 0) (h : d.take lenient c rest = some d') :
    Ahead d'.skip rest := by
  -- most characters take nothing ahead
  have hstay : ∀ {e : Draft}, e.skip = d.skip → Ahead e.skip rest := by
    intro e he
    rw [he, hskip]
    exact ahead_zero rest
  unfold take at h
  split at h
  · cases h
    exact hstay rfl
  · split at h
    · next hstar =>
      cases h
      cases rest with
      | nil => cases hstar
      | cons x rest =>
        have hx : x = '*' := by simpa using hstar
        subst hx
        exact ahead_doubleStar d rest
    · cases h
      exact hstay rfl
  · split at h
    · cases h
      exact hstay rfl
    · unfold bracket at h
      split at h
      · next ranges m hread =>
        cases h
        obtain ⟨hpos, hsign, -⟩ := read_closed hread
        have hlt : m - 1 < rest.length := (List.getElem?_eq_some_iff.mp hsign).1
        exact ⟨by show m ≤ _; omega, Or.inr (Or.inl hsign)⟩
      · split at h
        · cases h
          exact hstay rfl
        · cases h
      · cases h
  · cases h
    exact hstay rfl
  · unfold closeGroup at h
    split at h
    · cases h
      exact hstay rfl
    · cases h
  · cases h
    refine hstay ?_
    unfold nextBranch
    split <;> rfl
  · obtain ⟨x, hx, rfl⟩ := Option.map_eq_some_iff.mp h
    cases rest with
    | nil => cases hx
    | cons _ _ => exact ⟨Nat.le_add_left _ _, Or.inl (Nat.le_refl _)⟩
  · cases h
    exact hstay rfl

theorem Ahead.advance (h : Ahead d.skip (c :: rest)) (ha : d.advance lenient c rest = some d') :
    Ahead d'.skip rest := by
  rw [Draft.advance] at ha
  split at ha
  · next hskip =>
    obtain ⟨taken, htaken, rfl⟩ := Option.map_eq_some_iff.mp ha
    have hahead : Ahead taken.skip rest := ahead_take hskip htaken
    exact hahead
  · cases ha
    exact h.tail

/-- Along a run the condition is handed on from one place to the next. -/
theorem Ahead.run {cs after : List Char} (h : Ahead d.skip (cs ++ after))
    (hrun : run lenient d cs after = some d') : Ahead d'.skip after := by
  induction cs generalizing d with
  | nil =>
    cases hrun
    exact h
  | cons c cs ih =>
    rw [Draft.run, Option.bind_eq_some_iff] at hrun
    obtain ⟨next, hnext, hrun⟩ := hrun
    exact ih (h.advance hnext) hrun

/-! ## 5. Everything below

`/**` behind a pattern.  The pattern is run with and without it.  Both runs agree up to the last two
characters, as no character but a star looks at what follows the pattern; and two stars at its end
are read as `/**` in the one case and as `/**/` in the other. -/

/-- What is put behind a pattern to mean everything below. -/
def everythingBelow : List Char := ['/', '*', '*']

theorem mem_everythingBelow : ∀ c ∈ everythingBelow, c = '/' ∨ c = '*' := by
  simp [everythingBelow]

/-- The slash of `/**` may be taken already, as the end of a token before it. -/
theorem skip_le_one (h : Ahead d.skip everythingBelow) : d.skip ≤ 1 := by
  obtain ⟨hlength, hsmall | hbracket | ⟨-, hstar⟩⟩ := h
  · exact hsmall
  · have hno : ∀ n < 3, everythingBelow[n]? ≠ some ']' := by decide
    have hlt : d.skip ≤ 3 := hlength
    exact absurd hbracket (hno _ (by omega))
  · cases hstar

/-- Two stars behind a slash and at the end. -/
theorem doubleStar_none (hlast : d.last = some '/') (htokens : d.tokens ≠ []) :
    d.doubleStar none = d.pushTree .treeEnd 1 := by
  have hstarts : d.startsComponent = true := by
    rw [startsComponent, hlast]
    rfl
  rw [doubleStar, if_neg (by simpa using htokens), if_pos hstarts]

/-- Read behind a slash, they take the place of the slash. -/
theorem read_stars (d : Draft) (hskip : d.skip = 0) (hlast : d.last = some '/')
    (hgroups : d.groups = []) {t : GlobToken} {before : List GlobToken}
    (htokens : d.tokens = t :: before) (ht : t ≠ .treeStart) :
    read lenient d ['*', '*'] = some (before.reverse ++ [.treeEnd]) := by
  obtain ⟨u, hu, hend⟩ := tokens_pushTree htokens ht .treeEnd 1
  have htake : d.take lenient '*' ['*'] = some (d.pushTree .treeEnd 1) := by
    show some (d.doubleStar none) = some (d.pushTree .treeEnd 1)
    rw [doubleStar_none hlast (by simp [htokens])]
  rw [read_cons, advance, if_pos hskip, htake]
  simp only [Option.map_some, Option.bind_some]
  rw [read_cons, advance, if_neg (by simp)]
  simp only [Option.bind_some, read, groups_pushTree, hgroups, hu, hend, List.isEmpty_nil, if_true,
    List.reverse_cons]

/-- `/**` behind a draft with no open group.  If the slash was taken ahead, as the end of a `/**/`,
that token gives way to the new one; otherwise the slash is a token first and gives way itself. -/
theorem read_everythingBelow {below : List GlobToken} (h : Stands below d) (hgroups : d.groups = [])
    (hskip : d.skip ≤ 1) : read lenient d everythingBelow
      = some ((if d.skip = 0 then d.tokens else d.tokens.tail).reverse ++ [.treeEnd]) := by
  obtain ⟨t, before, htokens, ht⟩ := h.top hgroups
  rw [everythingBelow, read_cons, advance]
  split
  · next hzero =>
    rw [take_of_isPlain (by decide) (by decide) hgroups]
    simp only [Option.map_some, Option.bind_some]
    have hslash : GlobToken.literal '/' ≠ .treeStart := nofun
    exact read_stars { d.push (.literal '/') with last := some '/' } hzero rfl hgroups rfl hslash
  · next hone =>
    have hpast : d.skip - 1 = 0 := by omega
    rw [htokens, List.tail_cons, ← htokens, Option.bind_some]
    exact read_stars { d with last := some '/', skip := d.skip - 1 } hpast rfl hgroups htokens ht

/-- Two stars open and close no group. -/
theorem groups_doubleStar (d : Draft) (next : Option Char) :
    (d.doubleStar next).groups = d.groups := by
  unfold doubleStar
  split
  · split
    · rfl
    · split <;> rfl
  · split
    · split
      · exact groups_pushTree d _ _
      · split
        · exact groups_pushTree d _ _
        · split
          · exact groups_pushTree d _ _
          · rfl
    · rfl

/-- Slashes and stars leave the groups alone. -/
theorem groups_advance (hc : c = '/' ∨ c = '*') (h : d.advance lenient c rest = some d') :
    d'.groups = d.groups := by
  rw [advance] at h
  split at h
  · obtain ⟨taken, htaken, rfl⟩ := Option.map_eq_some_iff.mp h
    show taken.groups = d.groups
    rcases hc with rfl | rfl
    · cases htaken
      rfl
    · simp only [take] at htaken
      split at htaken
      · cases htaken
        exact groups_doubleStar d _
      · cases htaken
        rfl
  · cases h
    rfl

/-- A group that is open before `/**` is open behind it, and then the pattern is not read at all. -/
theorem groups_run {cs after : List Char} (hcs : ∀ c ∈ cs, c = '/' ∨ c = '*')
    (h : run lenient d cs after = some d') : d'.groups = d.groups := by
  induction cs generalizing d with
  | nil =>
    cases h
    rfl
  | cons c cs ih =>
    rw [run, Option.bind_eq_some_iff] at h
    obtain ⟨next, hnext, h⟩ := h
    rw [ih (fun x hx => hcs x (List.mem_cons_of_mem _ hx)) h,
      groups_advance (hcs c List.mem_cons_self) hnext]

/-- **`/**` at the end of a pattern is read as such**, whatever stands before it. -/
theorem read_of_below {below ts : List GlobToken} {cs : List Char} (h : Stands below d)
    (hskip : d.skip = 0) (hread : read lenient d (cs ++ everythingBelow) = some ts) :
    ∃ ts', ts = ts' ++ [.treeEnd] := by
  rw [read_append, Option.bind_eq_some_iff] at hread
  obtain ⟨e, he, hread⟩ := hread
  have hahead : Ahead d.skip (cs ++ everythingBelow) := by
    rw [hskip]
    exact ahead_zero _
  obtain ⟨f, hf, hfgroups, -⟩ := read_eq_some_iff.mp hread
  have hgroups : e.groups = [] := (groups_run mem_everythingBelow hf).symm.trans hfgroups
  rw [read_everythingBelow (h.run he) hgroups (skip_le_one (hahead.run he)), Option.some.injEq] at hread
  exact ⟨_, hread.symm⟩

/-- Only two stars at the end of the pattern see what is put behind it.  A star looks at the next
character to see whether it is a star, and two stars look at the one behind them. -/
theorem take_append {after : List Char} (hafter : after.head? ≠ some '*')
    (h : d.take false c rest = some d') :
    c = '*' ∧ rest = ['*'] ∨ d.take false c (rest ++ after) = some d' := by
  by_cases hstar : c = '*'
  · subst hstar
    match rest with
    | [] =>
      refine Or.inr ?_
      rw [← h]
      show (if after.head? == some '*' then _ else _) = _
      rw [if_neg (by simpa using hafter)]
      rfl
    | [x] =>
      by_cases hx : x = '*'
      · exact Or.inl ⟨rfl, by rw [hx]⟩
      · refine Or.inr ?_
        rw [← h]
        have hno : ¬ (some x == some '*') = true := by simpa using hx
        show (if some x == some '*' then _ else _) = (if some x == some '*' then _ else _)
        rw [if_neg hno, if_neg hno]
    | x :: y :: rest => exact Or.inr h
  · refine Or.inr ?_
    rw [← h]
    unfold take
    split
    · rfl
    · exact absurd rfl hstar
    · split
      · rfl
      · next hbrackets =>
        -- a bracket that is closed is closed before the end
        simp only [take, if_neg hbrackets, bracket] at h
        simp only [bracket]
        cases hread : Bracket.read rest with
        | closed ranges m =>
          obtain ⟨-, -, hmore⟩ := read_closed hread
          rw [(hmore after).1, (hmore after).2]
        | unclosed =>
          rw [hread] at h
          cases h
        | reversed =>
          rw [hread] at h
          cases h
    · rfl
    · rfl
    · rfl
    · cases rest with
      | nil => cases h
      | cons x rest => rfl
    · rfl

/-- What the two stars at the end of a pattern become with `/**` behind them: the same tokens, or
`/**/` in the place of `/**`. -/
theorem run_stars {below : List GlobToken} {e : Draft} (h : Stands below d) (hskip : d.skip = 0)
    (hrun : run false d ['*', '*'] [] = some e) (hgroups : e.groups = []) :
    run false d ['*', '*'] everythingBelow = some e ∧ e.skip = 0 ∨
      ∃ f t before, run false d ['*', '*'] everythingBelow = some f ∧ f.groups = [] ∧ f.skip = 1 ∧
        f.tokens = t :: before ∧ e.tokens = .treeEnd :: before := by
  have hopen : d.groups = [] := (groups_run (by simp) hrun).symm.trans hgroups
  obtain ⟨t, before, htokens, ht⟩ := h.top hopen
  have hends : ∀ {x : Draft} {n : Nat} {after : List Char}, x.skip = n + 1 →
      d.take false '*' ('*' :: after) = some x →
      run false d ['*', '*'] after = some { x with last := some '*', skip := n } := by
    intro x n after hx htake
    simp only [run, advance, if_pos hskip, List.cons_append, List.nil_append, htake, Option.map_some,
      Option.bind_some, hx, Nat.succ_ne_zero, if_false, Nat.add_sub_cancel]
  have hfirst : d.take false '*' ['*'] = some (d.doubleStar none) := rfl
  have hsecond : d.take false '*' ('*' :: everythingBelow) = some (d.doubleStar (some '/')) := rfl
  have hsome : ¬ d.tokens.isEmpty = true := by simp [htokens]
  unfold doubleStar at hfirst hsecond
  rw [if_neg hsome] at hfirst hsecond
  by_cases hstarts : d.startsComponent = true
  · rw [if_pos hstarts] at hfirst hsecond
    rw [hends (skip_pushTree d _ _) hfirst, Option.some.injEq] at hrun
    refine Or.inr ?_
    obtain ⟨u, hu, hend⟩ := tokens_pushTree htokens ht .treeEnd 1
    obtain ⟨v, hv, -⟩ := tokens_pushTree htokens ht .treeBetween 2
    refine ⟨_, v, before, hends (skip_pushTree d _ _) hsecond, ?_, rfl, hv, ?_⟩
    · exact (groups_pushTree d _ _).trans hopen
    · rw [← hrun]
      exact hend rfl ▸ hu
  · rw [if_neg hstarts] at hfirst hsecond
    rw [hends rfl hfirst, Option.some.injEq] at hrun
    refine Or.inl ?_
    rw [hends rfl hsecond, ← hrun]
    exact ⟨rfl, rfl⟩

/-- **A pattern with and without `/**` behind it.**  By induction along the characters: as long as
two stars at the end are not reached the runs are the same, and those are what `run_stars` is about.
-/
theorem run_below {below : List GlobToken} {cs : List Char} {e : Draft} (h : Stands below d)
    (ha : Ahead d.skip cs) (hrun : run false d cs [] = some e) (hgroups : e.groups = []) :
    run false d cs everythingBelow = some e ∧ e.skip = 0 ∨
      ∃ f t before, run false d cs everythingBelow = some f ∧ f.groups = [] ∧ f.skip = 1 ∧
        f.tokens = t :: before ∧ e.tokens = .treeEnd :: before := by
  induction cs generalizing d with
  | nil =>
    cases hrun
    exact Or.inl ⟨rfl, Nat.le_zero.mp ha.1⟩
  | cons c cs ih =>
    by_cases hstars : d.skip = 0 ∧ c = '*' ∧ cs = ['*']
    · obtain ⟨hskip, rfl, rfl⟩ := hstars
      exact run_stars h hskip hrun hgroups
    · rw [run, Option.bind_eq_some_iff, List.append_nil] at hrun
      obtain ⟨next, hnext, hrun⟩ := hrun
      have hsame : d.advance false c (cs ++ everythingBelow) = some next := by
        rw [advance] at hnext ⊢
        split
        · next hskip =>
          rw [if_pos hskip] at hnext
          obtain ⟨taken, htaken, rfl⟩ := Option.map_eq_some_iff.mp hnext
          have hhead : everythingBelow.head? ≠ some '*' := by decide
          rcases take_append hhead htaken with hno | htaken
          · exact absurd ⟨hskip, hno⟩ hstars
          · rw [htaken]
            rfl
        · next hskip =>
          rw [if_neg hskip] at hnext
          exact hnext
      rw [run, hsame, Option.bind_some]
      exact ih (h.advance hnext) (ha.advance hnext) hrun

/-- **With `/**` behind it a pattern has one token more**, unless it ends in `/**` already. -/
theorem read_below {below ts : List GlobToken} {cs : List Char} (h : Stands below d)
    (hskip : d.skip = 0) (hread : read false d cs = some ts) :
    ∃ ts', read false d (cs ++ everythingBelow) = some (ts' ++ [.treeEnd]) ∧
      (ts = ts' ∨ ts = ts' ++ [.treeEnd]) := by
  obtain ⟨e, hrun, hgroups, rfl⟩ := read_eq_some_iff.mp hread
  have hahead : Ahead d.skip cs := by
    rw [hskip]
    exact ahead_zero _
  rw [read_append]
  rcases run_below h hahead hrun hgroups with
    ⟨hsame, hzero⟩ | ⟨f, t, before, hf, hfgroups, hone, hftokens, htokens⟩
  · refine ⟨e.tokens.reverse, ?_, Or.inl rfl⟩
    rw [hsame, Option.bind_some, read_everythingBelow (h.run hrun) hgroups (by omega), if_pos hzero]
  · refine ⟨before.reverse, ?_, Or.inr ?_⟩
    · rw [hf, Option.bind_some, read_everythingBelow (h.run hf) hfgroups (by omega),
        if_neg (by omega), hftokens, List.tail_cons]
    · rw [htokens, List.reverse_cons]

end Draft

end ComponentHost.Glob
