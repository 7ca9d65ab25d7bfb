/-
# The pair of numbers that a version is read from

A requirement such as `^2.5.17` is read as the first pair of digit runs with a point between them.
The search goes run by run: a run behind which no point and digit stand is passed as a whole.  Two
other descriptions of the pair are proved to give the same.

* The pattern: one or more digits, a point, one or more digits, matched by trying.  Each place of
  the text is a start in turn, a run takes as many digits as it can and gives them back one by one,
  and the first way that works counts (`firstMatch?`).
* The text: of all places where a whole run of digits stands in front of a point and a digit, the
  leftmost (`FirstPairAt`).

Both follow from one induction, over what the search passes (`firstPair?_induction`).  A pair that
is found is the one that counts, so a number out of range ends the reading: no later pair is tried.
-/
import ComponentHost.Script.BridgeDeclaration

namespace ComponentHost

/-! ## 1. Patterns

A small model of matching by trying: a pattern is a list of parts, each part has its ways in order,
and the first way of all parts together that works is the match. -/

namespace Text

/-- A part of a pattern. -/
inductive PatternPart where
  /-- One or more characters of a class. -/
  | run (p : Char → Bool)
  /-- A character. -/
  | char (c : Char)

/-- The ways to take one or more characters of a class from the front of a text, each with what it
leaves; the longest first. -/
def runs (p : Char → Bool) : List Char → List (List Char × List Char)
  | [] => []
  | c :: r => if p c then (runs p r).map (fun way => (c :: way.1, way.2)) ++ [([c], r)] else []

/-- The ways to take a part of a pattern from the front of a text, in the order they are tried. -/
def PatternPart.ways : PatternPart → List Char → List (List Char × List Char)
  | run p, cs => runs p cs
  | char _, [] => []
  | char c, d :: r => if d = c then [([c], r)] else []

/-- The ways to match a pattern at the front of a text, in the order they are tried; each as what
the parts take. -/
def matchesAt : List PatternPart → List Char → List (List (List Char))
  | [], _ => [[]]
  | part :: parts, cs =>
    (part.ways cs).flatMap fun way => (matchesAt parts way.2).map (way.1 :: ·)

/-- The match of a pattern in a text: the first way at the leftmost place where there is one. -/
def firstMatch? (parts : List PatternPart) : List Char → Option (List (List Char))
  | [] => (matchesAt parts []).head?
  | c :: r => (matchesAt parts (c :: r)).head?.or (firstMatch? parts r)

theorem runs_eq_nil {p : Char → Bool} {cs : List Char} (h : ∀ c ∈ cs.head?, p c = false) :
    runs p cs = [] := by
  cases cs with
  | nil => rfl
  | cons c r => simp [runs, h c rfl]

end Text

namespace Version

open ComponentHost.Text (isDigit runs PatternPart matchesAt firstMatch?)

/-! ## 2. Runs of digits

A text is cut into runs of digits and other characters.  The search passes both, and stops at a run
in front of a point and a digit.  The induction over this is stated for any relation between a text
and the pair found in it, to be used twice. -/

/-- A run of digits and what stands behind it.  The run is as long as it can be. -/
structure IsRun (run rest : List Char) : Prop where
  ne_nil : run ≠ []
  digits : ∀ c ∈ run, isDigit c = true
  ends : ∀ c ∈ rest.head?, isDigit c = false

namespace IsRun

variable {run rest run' rest' : List Char}

theorem takeWhile_eq (h : IsRun run rest) : (run ++ rest).takeWhile isDigit = run := by
  rw [List.takeWhile_append_of_pos h.digits]
  cases rest with
  | nil => simp
  | cons c r => simp [h.ends c rfl]

/-- A text begins with one run only. -/
theorem unique (h : IsRun run rest) (h' : IsRun run' rest') (heq : run ++ rest = run' ++ rest') :
    run = run' ∧ rest = rest' := by
  have hrun : run = run' := by rw [← h.takeWhile_eq, heq, h'.takeWhile_eq]
  subst hrun
  exact ⟨rfl, List.append_cancel_left heq⟩

/-- The run at the front of a text that begins with a digit. -/
theorem of_digit {c : Char} (h : isDigit c = true) (r : List Char) :
    IsRun (c :: r.takeWhile isDigit) (r.dropWhile isDigit) := by
  refine ⟨by simp, fun d hd => ?_, fun d hd => ?_⟩
  · rcases List.mem_cons.mp hd with rfl | hd
    · exact h
    · exact List.all_eq_true.mp List.all_takeWhile d hd
  · have := List.head?_dropWhile_not isDigit r
    rw [Option.mem_def.mp hd] at this
    simpa using this

end IsRun

/-- No pair begins in the first of the two texts: it is a character other than a digit, or a whole
run of digits behind which no point and digit stand. -/
inductive Passed : List Char → List Char → Prop
  | other {c : Char} (h : isDigit c = false) (rest : List Char) : Passed [c] rest
  | run {run rest : List Char} (h : IsRun run rest)
      (alone : ∀ d after, rest = '.' :: d :: after → isDigit d = false) : Passed run rest

/-- **The induction over what the search passes.**  What holds of the empty text and no pair, is not
changed by what is passed, and holds of each text with a pair at its front, holds of every text and
the pair that is found in it. -/
theorem firstPair?_induction {P : List Char → Option (List Char × List Char) → Prop}
    (nil : P [] none)
    (passed : ∀ {front rest pair?}, Passed front rest → P rest pair? → P (front ++ rest) pair?)
    (found : ∀ {major minor after}, IsRun major ('.' :: (minor ++ after)) → IsRun minor after →
      P (major ++ '.' :: (minor ++ after)) (some (major, minor)))
    (cs : List Char) : P cs (firstPair? cs) := by
  fun_induction firstPair? cs with
  | case1 => exact nil
  | case2 c r hc run d after hrest hd =>
    have hmajor := IsRun.of_digit hc r
    have hminor := IsRun.of_digit hd after
    rw [hrest] at hmajor
    have hafter : d :: after = (d :: after.takeWhile isDigit) ++ after.dropWhile isDigit := by simp
    have hr : c :: r = (c :: r.takeWhile isDigit) ++ '.' :: d :: after := by
      rw [← hrest]
      simp
    rw [hafter] at hmajor hr
    rw [hr]
    exact found hmajor hminor
  | case3 c r hc d after hrest hd ih =>
    have hr : c :: r = (c :: r.takeWhile isDigit) ++ r.dropWhile isDigit := by simp
    rw [hr]
    refine passed (.run (IsRun.of_digit hc r) fun d' after' heq => ?_) ih
    rw [hrest] at heq
    obtain ⟨rfl, -⟩ := List.cons.inj (List.cons.inj heq).2
    simpa using hd
  | case4 c r hc hrest ih =>
    have hr : c :: r = (c :: r.takeWhile isDigit) ++ r.dropWhile isDigit := by simp
    rw [hr]
    exact passed (.run (IsRun.of_digit hc r) fun d after heq => absurd heq (hrest d after)) ih
  | case5 c r hc ih => exact passed (.other (by simpa using hc) r) ih

/-! ## 3. The pattern

Trying comes to the same because a run that is cut short is followed by a digit, and no point.  So
of all ways to take digits only the longest one goes on, and a run that fails at its start fails at
all its digits. -/

/-- One or more digits, a point, one or more digits. -/
def pairPattern : List PatternPart := [.run isDigit, .char '.', .run isDigit]

/-- The version that the parts of a match write. -/
def ofMatch? : List (List Char) → Option Version
  | [major, _, minor] => do return ⟨← number? major, ← number? minor⟩
  | _ => none

/-- The longest way is tried first. -/
theorem head?_runs {run rest : List Char} (h : IsRun run rest) :
    (runs isDigit (run ++ rest)).head? = some (run, rest) := by
  obtain ⟨hne, hdigits, hends⟩ := h
  induction run with
  | nil => exact absurd rfl hne
  | cons c run ih =>
    rw [List.cons_append, runs, if_pos (hdigits c List.mem_cons_self)]
    cases run with
    | nil => simp [Text.runs_eq_nil hends]
    | cons d run =>
      have hrest := ih (by simp) fun e he => hdigits e (List.mem_cons_of_mem _ he)
      rw [List.head?_append, List.head?_map, hrest]
      rfl

/-- Where nothing goes on in front of a digit, only the whole run counts: behind the digits of a
shorter one stands a digit that is given back. -/
theorem flatMap_runs {β : Type} {goOn : List Char × List Char → List β} {run rest : List Char}
    (h : IsRun run rest)
    (hgoOn : ∀ taken c r, isDigit c = true → goOn (taken, c :: r) = []) :
    (runs isDigit (run ++ rest)).flatMap goOn = goOn (run, rest) := by
  obtain ⟨hne, hdigits, hends⟩ := h
  induction run generalizing goOn with
  | nil => exact absurd rfl hne
  | cons c run ih =>
    rw [List.cons_append, runs, if_pos (hdigits c List.mem_cons_self)]
    cases run with
    | nil => simp [Text.runs_eq_nil hends]
    | cons d run =>
      have hd := hdigits d (by simp)
      rw [List.flatMap_append, List.flatMap_map,
        ih (fun taken e r he => hgoOn (c :: taken) e r he) (by simp)
          fun e he => hdigits e (List.mem_cons_of_mem _ he)]
      simp [hgoOn [c] d _ hd]

/-- In front of a run only the whole of it can be taken. -/
theorem matchesAt_run {run rest : List Char} (h : IsRun run rest) :
    matchesAt pairPattern (run ++ rest)
      = (matchesAt [.char '.', .run isDigit] rest).map (run :: ·) := by
  refine flatMap_runs h fun taken c r hc => ?_
  have hpoint : c ≠ '.' := by
    rintro rfl
    exact absurd hc (by decide)
  simp [matchesAt, PatternPart.ways, hpoint]

theorem matchesAt_eq_nil {cs : List Char} (h : ∀ c ∈ cs.head?, isDigit c = false) :
    matchesAt pairPattern cs = [] := by
  rw [pairPattern, matchesAt, PatternPart.ways, Text.runs_eq_nil h]
  rfl

/-- There is no match in a run of digits behind which no point and digit stand, and none at its
later digits either. -/
theorem firstMatch?_run {run rest : List Char} (h : IsRun run rest)
    (alone : ∀ d after, rest = '.' :: d :: after → isDigit d = false) :
    firstMatch? pairPattern (run ++ rest) = firstMatch? pairPattern rest := by
  have hrest : matchesAt [.char '.', .run isDigit] rest = [] := by
    rcases rest with _ | ⟨c, _ | ⟨d, after⟩⟩
    · rfl
    · by_cases hc : c = '.' <;> simp [matchesAt, PatternPart.ways, runs, hc]
    · by_cases hc : c = '.'
      · subst hc
        simp [matchesAt, PatternPart.ways, runs, alone d after rfl]
      · simp [matchesAt, PatternPart.ways, hc]
  obtain ⟨hne, hdigits, hends⟩ := h
  induction run with
  | nil => exact absurd rfl hne
  | cons c run ih =>
    have hnone := matchesAt_run ⟨hne, hdigits, hends⟩
    rw [hrest] at hnone
    rw [List.cons_append, firstMatch?, ← List.cons_append, hnone]
    cases run with
    | nil => rfl
    | cons d run => exact ih (by simp) fun e he => hdigits e (List.mem_cons_of_mem _ he)

/-- **The search finds the match of the pattern.** -/
theorem firstMatch?_pairPattern (cs : List Char) :
    firstMatch? pairPattern cs = (firstPair? cs).map fun pair => [pair.1, ['.'], pair.2] := by
  refine firstPair?_induction
    (P := fun cs pair? => firstMatch? pairPattern cs = pair?.map fun pair => [pair.1, ['.'], pair.2])
    rfl ?_ ?_ cs
  · intro front rest pair? hpassed ih
    rw [← ih]
    cases hpassed with
    | other h =>
      rw [List.singleton_append, firstMatch?, matchesAt_eq_nil (by simpa using h)]
      rfl
    | run h alone => exact firstMatch?_run h alone
  · intro major minor after hmajor hminor
    have hmatch : (matchesAt pairPattern (major ++ '.' :: (minor ++ after))).head?
        = some [major, ['.'], minor] := by
      have hpoint : matchesAt [.char '.', .run isDigit] ('.' :: (minor ++ after))
          = (runs isDigit (minor ++ after)).map fun way => [['.'], way.1] := by
        simp [matchesAt, PatternPart.ways, ← List.map_eq_flatMap]
      rw [matchesAt_run hmajor, hpoint, List.head?_map, List.head?_map, head?_runs hminor]
      rfl
    cases major with
    | nil => exact absurd rfl hmajor.ne_nil
    | cons c major =>
      rw [List.cons_append, firstMatch?, ← List.cons_append, hmatch]
      rfl

/-! ## 4. The text

The leftmost pair is described without any search.  Where something is passed no pair begins, so the
pairs of a text are those of what is left. -/

/-- A pair of digit runs with a point between them, and what stands around it; both runs are as
long as they can be. -/
structure PairAt (cs before major minor after : List Char) : Prop where
  text : cs = before ++ (major ++ '.' :: (minor ++ after))
  starts : ∀ c ∈ before.getLast?, isDigit c = false
  major : IsRun major ('.' :: (minor ++ after))
  minor : IsRun minor after

/-- The leftmost pair. -/
structure FirstPairAt (cs before major minor after : List Char) : Prop
    extends PairAt cs before major minor after where
  leftmost : ∀ {before' major' minor' after'}, PairAt cs before' major' minor' after' →
    before.length ≤ before'.length

/-- A text with a pair at its front has no other pair there. -/
theorem PairAt.front_unique {major minor after major' minor' after' : List Char}
    (hmajor : IsRun major ('.' :: (minor ++ after))) (hminor : IsRun minor after)
    (h : PairAt (major ++ '.' :: (minor ++ after)) [] major' minor' after') :
    major = major' ∧ minor = minor' := by
  obtain ⟨hmajors, hrest⟩ := hmajor.unique h.major h.text
  exact ⟨hmajors, (hminor.unique h.minor (List.cons.inj hrest).2).1⟩

/-- No pair begins inside what is passed: it would begin with a character other than a digit, or
behind a digit, or be the run behind which no point and digit stand. -/
theorem Passed.not_inside {before inside rest major minor after : List Char}
    (h : Passed (before ++ inside) rest) (hinside : inside ≠ [])
    (hpair : PairAt (before ++ inside ++ rest) before major minor after) : False := by
  have htext : inside ++ rest = major ++ '.' :: (minor ++ after) := by
    have htext := hpair.text
    rw [List.append_assoc] at htext
    exact List.append_cancel_left htext
  generalize hfront : before ++ inside = front at h
  cases h with
  | @other c hc =>
    obtain ⟨m, ms, hm⟩ := List.exists_cons_of_ne_nil hpair.major.ne_nil
    obtain ⟨i, is, rfl⟩ := List.exists_cons_of_ne_nil hinside
    obtain ⟨rfl, hi⟩ : before = [] ∧ i :: is = [c] := by
      rcases List.append_eq_singleton_iff.mp hfront with h | h
      · exact h
      · exact absurd h.2 hinside
    rw [hm, hi] at htext
    obtain ⟨rfl, -⟩ := List.cons.inj htext
    have hdigit := hpair.major.digits c (by simp [hm])
    rw [hc] at hdigit
    cases hdigit
  | run h alone =>
    subst hfront
    rcases List.eq_nil_or_concat before with rfl | ⟨before, last, rfl⟩
    · obtain ⟨-, hrest⟩ := h.unique hpair.major htext
      obtain ⟨d, minor, rfl⟩ := List.exists_cons_of_ne_nil hpair.minor.ne_nil
      have hdigit := hpair.minor.digits d List.mem_cons_self
      rw [alone d _ hrest] at hdigit
      cases hdigit
    · have hdigit := h.digits last (by simp)
      rw [hpair.starts last (by simp)] at hdigit
      cases hdigit

/-- **The pairs of a text are those behind what is passed.** -/
theorem pairAt_passed {front rest before major minor after : List Char} (h : Passed front rest) :
    PairAt (front ++ rest) before major minor after ↔
      ∃ before', before = front ++ before' ∧ PairAt rest before' major minor after := by
  constructor
  · intro hpair
    rcases List.append_eq_append_iff.mp hpair.text with ⟨behind, rfl, hrest⟩ | ⟨inside, rfl, hrest⟩
    · refine ⟨behind, rfl, hrest, fun c hc => hpair.starts c ?_, hpair.major, hpair.minor⟩
      rw [List.getLast?_append, Option.mem_def.mp hc]
      rfl
    · by_cases hinside : inside = []
      · subst hinside
        exact ⟨[], by simp, by simpa using hrest.symm, by simp, hpair.major, hpair.minor⟩
      · exact (h.not_inside hinside hpair).elim
  · rintro ⟨before', rfl, hpair⟩
    refine ⟨by rw [hpair.text, List.append_assoc], fun c hc => ?_, hpair.major, hpair.minor⟩
    rw [List.getLast?_append] at hc
    cases hlast : before'.getLast? with
    | some last =>
      rw [hlast] at hc
      cases hc
      exact hpair.starts c hlast
    | none =>
      rw [hlast] at hc
      cases h with
      | other h =>
        cases hc
        exact h
      | run h =>
        -- the pair would stand right behind the run, with a digit at its front
        have hnil := List.getLast?_eq_none_iff.mp hlast
        obtain ⟨m, ms, rfl⟩ := List.exists_cons_of_ne_nil hpair.major.ne_nil
        have hends := h.ends m (by rw [hpair.text, hnil]; rfl)
        rw [hpair.major.digits m List.mem_cons_self] at hends
        cases hends

/-- The leftmost pair is that behind what is passed. -/
theorem firstPairAt_passed {front rest before major minor after : List Char}
    (h : Passed front rest) : FirstPairAt (front ++ rest) before major minor after ↔
      ∃ before', before = front ++ before' ∧ FirstPairAt rest before' major minor after := by
  constructor
  · rintro ⟨hpair, hleftmost⟩
    obtain ⟨before', rfl, hrest⟩ := (pairAt_passed h).mp hpair
    refine ⟨before', rfl, hrest, fun hother => ?_⟩
    have := hleftmost ((pairAt_passed h).mpr ⟨_, rfl, hother⟩)
    simpa using this
  · rintro ⟨before', rfl, hpair, hleftmost⟩
    refine ⟨(pairAt_passed h).mpr ⟨before', rfl, hpair⟩, fun hother => ?_⟩
    obtain ⟨before'', rfl, hrest⟩ := (pairAt_passed h).mp hother
    simpa using hleftmost hrest

/-- **The search finds the leftmost pair.** -/
theorem firstPair?_eq_some_iff (cs : List Char) : ∀ major minor,
    firstPair? cs = some (major, minor) ↔
      ∃ before after, FirstPairAt cs before major minor after := by
  refine firstPair?_induction (P := fun cs pair? => ∀ major minor, pair? = some (major, minor) ↔
    ∃ before after, FirstPairAt cs before major minor after) ?_ ?_ ?_ cs
  · intro major minor
    simp only [reduceCtorEq, false_iff]
    rintro ⟨before, after, hpair, -⟩
    simpa using hpair.text
  · intro front rest pair? hpassed ih major minor
    rw [ih]
    constructor
    · rintro ⟨before, after, hpair⟩
      exact ⟨_, after, (firstPairAt_passed hpassed).mpr ⟨before, rfl, hpair⟩⟩
    · rintro ⟨before, after, hpair⟩
      obtain ⟨before', -, hrest⟩ := (firstPairAt_passed hpassed).mp hpair
      exact ⟨before', after, hrest⟩
  · intro major minor after hmajor hminor major' minor'
    have hfront : PairAt (major ++ '.' :: (minor ++ after)) [] major minor after :=
      ⟨rfl, by simp, hmajor, hminor⟩
    constructor
    · rintro ⟨⟩
      exact ⟨[], after, hfront, by simp⟩
    · rintro ⟨before, after', hpair, hleftmost⟩
      have hnil : before = [] := List.length_eq_zero_iff.mp (Nat.le_zero.mp (hleftmost hfront))
      subst hnil
      obtain ⟨rfl, rfl⟩ := PairAt.front_unique hmajor hminor hpair
      rfl

/-! ## 5. The numbers

The runs are read as numbers.  Digits of other scripts count as digits for the search and make a
number that cannot be read, so texts with such digits are set apart. -/

/-- The number of a run of Latin digits, if it is below the bound. -/
theorem number?_eq_some_iff {run : List Char} (hne : run ≠ []) (h : ∀ c ∈ run, c.isDigit)
    {n : Nat} : number? run = some n ↔ Nat.ofDigitChars 10 run 0 = n ∧ n < limit := by
  have hvalue : run.foldl (fun n c => n * 10 + (c.toNat - '0'.toNat)) 0
      = Nat.ofDigitChars 10 run 0 := by
    simp only [Nat.ofDigitChars, Nat.mul_comm]
  have hdecimal : Text.decimal? run = some (Nat.ofDigitChars 10 run 0) := by
    rw [Text.decimal?, if_neg (by simpa [hne] using h), hvalue]
  rw [number?, hdecimal, Option.filter_eq_some_iff, Option.some.injEq, decide_eq_true_iff]

theorem parse?_eq_some_iff {text : String} {a b : Nat} : parse? text = some ⟨a, b⟩ ↔
    ∃ major minor, firstPair? text.toList = some (major, minor) ∧ number? major = some a ∧
      number? minor = some b := by
  simp [parse?, Option.bind_eq_some_iff]

theorem parse?_eq_ofMatch? (text : String) :
    parse? text = (firstMatch? pairPattern text.toList).bind ofMatch? := by
  rw [firstMatch?_pairPattern, parse?]
  cases firstPair? text.toList <;> rfl

/-- The Latin digits are digits. -/
theorem isDigit_of_latin {c : Char} (h : c.isDigit = true) : isDigit c = true := by
  obtain ⟨hlow, hhigh⟩ : 48 ≤ c.toNat ∧ c.toNat ≤ 57 := Char.isDigit_iff_toNat.mp h
  simp [isDigit, Text.digitRanges, Text.inRanges, hlow, hhigh]

/-- The digits of a number are a run, where no digit follows. -/
theorem isRun_toDigits (n : Nat) {rest : List Char} (h : ∀ c ∈ rest.head?, isDigit c = false) :
    IsRun (Nat.toDigits 10 n) rest :=
  ⟨List.ne_nil_of_length_pos Nat.length_toDigits_pos,
    fun _ hc => isDigit_of_latin (Nat.isDigit_of_mem_toDigits (by decide) (by decide) hc), h⟩

theorem number?_toDigits {n : Nat} (h : n < limit) : number? (Nat.toDigits 10 n) = some n :=
  (number?_eq_some_iff (List.ne_nil_of_length_pos Nat.length_toDigits_pos)
    fun _ hc => Nat.isDigit_of_mem_toDigits (by decide) (by decide) hc).mpr
    ⟨Nat.ofDigitChars_ten_toDigits, h⟩

/-- A pair at the front of a text stays the first behind characters other than digits. -/
theorem firstPairAt_of_no_digits {start major minor after : List Char}
    (h : ∀ c ∈ start, isDigit c = false) (hmajor : IsRun major ('.' :: (minor ++ after)))
    (hminor : IsRun minor after) :
    FirstPairAt (start ++ (major ++ '.' :: (minor ++ after))) start major minor after := by
  induction start with
  | nil => exact ⟨⟨rfl, by simp, hmajor, hminor⟩, by simp⟩
  | cons c start ih =>
    have hrest := ih fun d hd => h d (List.mem_cons_of_mem _ hd)
    exact (firstPairAt_passed (.other (h c List.mem_cons_self) _)).mpr ⟨start, rfl, hrest⟩

/-- What is read from a text without digits of other scripts. -/
theorem parse?_eq_some_iff_firstPairAt {text : String} {a b : Nat}
    (hlatin : ∀ c ∈ text.toList, isDigit c = true → c.isDigit = true) :
    parse? text = some ⟨a, b⟩ ↔
      ∃ before major minor after, FirstPairAt text.toList before major minor after ∧
        (Nat.ofDigitChars 10 major 0 = a ∧ a < limit) ∧
        (Nat.ofDigitChars 10 minor 0 = b ∧ b < limit) := by
  have hnumbers : ∀ {before major minor after}, FirstPairAt text.toList before major minor after →
      (number? major = some a ↔ Nat.ofDigitChars 10 major 0 = a ∧ a < limit) ∧
      (number? minor = some b ↔ Nat.ofDigitChars 10 minor 0 = b ∧ b < limit) := by
    intro before major minor after hpair
    have hmem : ∀ c, c ∈ major ∨ c ∈ minor → c ∈ text.toList := by
      intro c hc
      rw [hpair.text]
      rcases hc with hc | hc <;> simp [hc]
    exact ⟨number?_eq_some_iff hpair.major.ne_nil fun c hc =>
        hlatin c (hmem c (.inl hc)) (hpair.major.digits c hc),
      number?_eq_some_iff hpair.minor.ne_nil fun c hc =>
        hlatin c (hmem c (.inr hc)) (hpair.minor.digits c hc)⟩
  rw [parse?_eq_some_iff]
  constructor
  · rintro ⟨major, minor, hfirst, hmajor, hminor⟩
    obtain ⟨before, after, hpair⟩ := (firstPair?_eq_some_iff _ _ _).mp hfirst
    exact ⟨before, major, minor, after, hpair, (hnumbers hpair).1.mp hmajor,
      (hnumbers hpair).2.mp hminor⟩
  · rintro ⟨before, major, minor, after, hpair, hmajor, hminor⟩
    exact ⟨major, minor, (firstPair?_eq_some_iff _ _ _).mpr ⟨before, after, hpair⟩,
      (hnumbers hpair).1.mpr hmajor, (hnumbers hpair).2.mpr hminor⟩

/-- Two numbers that are written with a point between them are read back. -/
theorem parse?_written {a b : Nat} {start rest : String} (ha : a < limit) (hb : b < limit)
    (hstart : ∀ c ∈ start.toList, isDigit c = false)
    (hrest : ∀ c ∈ rest.toList.head?, isDigit c = false) :
    parse? (start ++ toString a ++ "." ++ toString b ++ rest) = some ⟨a, b⟩ := by
  have hminor := isRun_toDigits b hrest
  have hmajor : IsRun (Nat.toDigits 10 a) ('.' :: (Nat.toDigits 10 b ++ rest.toList)) := by
    refine isRun_toDigits a fun c hc => ?_
    cases hc
    decide
  have htext : (start ++ toString a ++ "." ++ toString b ++ rest).toList
      = start.toList ++ (Nat.toDigits 10 a ++ '.' :: (Nat.toDigits 10 b ++ rest.toList)) := by
    simp
  refine parse?_eq_some_iff.mpr ⟨_, _, (firstPair?_eq_some_iff _ _ _).mpr
    ⟨start.toList, rest.toList, ?_⟩, number?_toDigits ha, number?_toDigits hb⟩
  rw [htext]
  exact firstPairAt_of_no_digits hstart hmajor hminor

/-- **A version is read from the first pair of numbers.**  Reading is matching the pattern.  In a
text without digits of other scripts it gives the numbers of the leftmost whole run of digits in
front of a point and a digit and of the run behind the point, if both are in range, and nothing
otherwise.  So two numbers in range with a point between them are read, if no digit stands anywhere
before them or right behind them. -/
theorem parse?_eq_first_pair :
    (∀ text : String, parse? text = (firstMatch? pairPattern text.toList).bind ofMatch?) ∧
    (∀ text : String, (∀ c ∈ text.toList, isDigit c = true → c.isDigit = true) →
      ∀ a b, parse? text = some ⟨a, b⟩ ↔
        ∃ before major minor after, FirstPairAt text.toList before major minor after ∧
          (Nat.ofDigitChars 10 major 0 = a ∧ a < limit) ∧
          (Nat.ofDigitChars 10 minor 0 = b ∧ b < limit)) ∧
    ∀ (a b : Nat) (start rest : String), a < limit → b < limit →
      (∀ c ∈ start.toList, isDigit c = false) → (∀ c ∈ rest.toList.head?, isDigit c = false) →
      parse? (start ++ toString a ++ "." ++ toString b ++ rest) = some ⟨a, b⟩ :=
  ⟨parse?_eq_ofMatch?, fun _ hlatin _ _ => parse?_eq_some_iff_firstPairAt hlatin,
    fun _ _ _ _ => parse?_written⟩

/-- A bare point behind the first run, zeros in front of a number, and a third number: the second
run begins the pair.  A number that is out of range is not made up for by a later pair. -/
theorem parse?_eq_first_pair_second_run :
    let text := String.ofList ['1', '.', 'x', ' ', '0', '2', '.', '1', '0', '.', '3']
    (∀ c ∈ text.toList, isDigit c = true → c.isDigit = true) ∧ parse? text = some ⟨2, 10⟩ ∧
      (∃ before major minor after, FirstPairAt text.toList before major minor after ∧
        Nat.ofDigitChars 10 major 0 = 2 ∧ Nat.ofDigitChars 10 minor 0 = 10) ∧
      parse? ("^" ++ toString 4294967295 ++ "." ++ toString 0 ++ "-rc.1")
        = some ⟨4294967295, 0⟩ ∧
      parse? (String.ofList ['4', '2', '9', '4', '9', '6', '7', '2', '9', '6', '.', '0', ' ', '2',
        '.', '5']) = none := by
  intro text
  obtain ⟨hmatch, hfirst, hwritten⟩ := parse?_eq_first_pair
  have hlatin : ∀ c ∈ text.toList, isDigit c = true → c.isDigit = true := by
    have hall : text.toList.all (fun c => !isDigit c || c.isDigit) = true := by
      rw [String.toList_ofList]
      decide
    intro c hc hdigit
    simpa [hdigit] using List.all_eq_true.mp hall c hc
  have hparse : parse? text = some ⟨2, 10⟩ := by
    rw [hmatch, String.toList_ofList]
    decide +kernel
  have hstart : ∀ c ∈ "^".toList, isDigit c = false := by simpa using (by decide)
  have hrest : ∀ c ∈ "-rc.1".toList.head?, isDigit c = false := by simpa using (by decide)
  refine ⟨hlatin, hparse, ?_, hwritten _ _ _ _ (by decide) (by decide) hstart hrest, ?_⟩
  · obtain ⟨before, major, minor, after, hpair, ha, hb⟩ := (hfirst text hlatin 2 10).mp hparse
    exact ⟨before, major, minor, after, hpair, ha.1, hb.1⟩
  · rw [hmatch, String.toList_ofList]
    decide +kernel

end Version

end ComponentHost
