/-
# Patterns that name a directory

A pattern to include that names a directory means all that is below it.  It can be written in many
ways: with `./` and `../` in front, and with a slash behind.  One expects of all of them that they
list what the pattern `**/*` lists in the directory they denote.

This is so for patterns that have a part (`filesOfConfig_directory`).  The search goes to the
directory above for each `../`, and `/**/*` behind the parts matches what is below them and nothing
else (`isMatch_allBelow`).  Three things are in the way of the rest:

* without a part, as in `./`, the slash of `/**/*` stands behind another one, and no normal path has
  two slashes in a row: nothing is listed (`filesOfConfig_here`), not even if the search has left
  for the root of the tree, as with `.//`, where the second slash is read as that of a whole path;
* with a closing brace in a part the pattern is not valid, and nothing is listed either;
* the directory above a path is found by dropping its last segment, so if the configuration's own
  directory is written with a `..` the search may go elsewhere.
-/
import ComponentHost.Proofs.StraightPaths
import ComponentHost.Proofs.WalkRoots

namespace ComponentHost

/-! ## 1. Spellings

The patterns that are talked of are given by their pieces, and their text is computed from these.
The pieces are chosen so that each text has one reading: a part has no sign that would make it a
step, a wildcard or more than one part.  A closing brace is no such sign, since a name may well have
one. -/

/-- A step in front of a pattern. -/
inductive PathStep where
  | stay
  | up
deriving DecidableEq, Repr

namespace PathStep

/-- The segment of a step. -/
def segment : PathStep → List Char
  | .stay => Path.dot
  | .up => Path.dots

/-- Where a step leads. -/
def apply (dir : String) : PathStep → String
  | .stay => dir
  | .up => Path.above dir

end PathStep

/-- Characters that the name of a directory is not expected to have. -/
def partSigns : List Char := ['/', '.', '*', '?', '[', '{', '\\']

/-- Is it a name without such characters? -/
def isPlainPart (s : List Char) : Bool := s ≠ [] && s.all fun c => !(partSigns.contains c)

/-- A pattern that names a directory: steps, parts, and perhaps a slash behind them. -/
structure DirectoryPattern where
  steps : List PathStep
  parts : List (List Char)
  slash : Bool
  plain : parts.all isPlainPart = true

namespace DirectoryPattern

variable (p : DirectoryPattern)

/-- The parts as they are written, with the slash behind them. -/
def ending : List Char := Path.joinSegments p.parts ++ if p.slash then ['/'] else []

/-- The pattern as it is written. -/
def text : String :=
  String.ofList ((p.steps.map PathStep.segment).flatMap (· ++ ['/']) ++ p.ending)

/-- The directory that the pattern denotes. -/
def denoted (dir : String) : String := Path.rooted (Path.resolved (dir ++ "/" ++ p.text))

/-- The directory that the steps lead to. -/
def climbed (dir : String) : String := p.steps.foldl PathStep.apply dir

/-- The directory that the search goes to if there is a part. -/
def reached (dir : String) : String := Path.chain (p.climbed dir) p.parts

/-- The patterns that it acts as in the directory: everything below, or nothing at all. -/
def meaning : List String :=
  if p.parts = [] ∨ p.parts.any (·.contains '}') then [] else ["**/*"]

end DirectoryPattern

/-! ## 2. Reading the spelling

The search takes the spelling apart character by character: it drops each `./`, goes up for each
`../`, and cuts the slashes at the end.  These are followed along the pieces, first the steps by
induction and then what stands behind them. -/

section Parts

variable {s : List Char} {c : Char}

theorem no_sign_of_isPlainPart (hs : isPlainPart s = true) (hc : c ∈ s) : c ∉ partSigns := by
  rw [isPlainPart, Bool.and_eq_true] at hs
  simpa using List.all_eq_true.mp hs.2 c hc

/-- A part is a name that a path can have. -/
theorem isName_of_isPlainPart (hs : isPlainPart s = true) : Path.IsName s := by
  have hnone : ∀ c ∈ partSigns, c ∉ s := fun c hsign hc => no_sign_of_isPlainPart hs hc hsign
  have hdot : '.' ∉ s := hnone '.' (by simp [partSigns])
  refine ⟨?_, ?_, ?_, hnone '/' (by simp [partSigns])⟩
  · rw [isPlainPart, Bool.and_eq_true] at hs
    simpa using hs.1
  · rintro rfl
    exact hdot (by simp [Path.dot])
  · rintro rfl
    exact hdot (by simp [Path.dots])

/-- In a pattern the characters of a part stand for themselves. -/
theorem isPlain_of_isPlainPart (hs : isPlainPart s = true) (hc : c ∈ s) :
    Glob.Draft.isPlain c = true := by
  have hne := no_sign_of_isPlainPart hs hc
  simp only [partSigns, List.mem_cons, List.not_mem_nil, or_false, not_or] at hne
  obtain ⟨-, -, hstar, hquestion, hbracket, hbrace, hback⟩ := hne
  simp [Glob.Draft.isPlain, hstar, hquestion, hbracket, hbrace, hback]

/-- Text without signs is neither a pattern with wildcards nor the name of a file with an ending. -/
theorem hasWildcard_of_no_sign {cs : List Char} (h : ∀ c ∈ cs, c ∉ partSigns.tail) :
    hasWildcard cs = false ∧ cs.contains '.' = false := by
  constructor
  · refine List.any_eq_false.mpr fun c hc => ?_
    have hne := h c hc
    simp only [partSigns, List.tail_cons, List.mem_cons, List.not_mem_nil, or_false, not_or] at hne
    simp [hne]
  · rw [← Bool.not_eq_true, List.contains_iff_mem]
    exact fun hdot => h '.' hdot (by simp [partSigns])

end Parts

/-- Each of the parts, with a slash behind it. -/
theorem splitSegments_parts {parts : List (List Char)} (h : ∀ s ∈ parts, '/' ∉ s) (cs : List Char) :
    Path.splitSegments (parts.flatMap (· ++ ['/']) ++ cs) = parts ++ Path.splitSegments cs := by
  induction parts with
  | nil => rfl
  | cons s parts ih =>
    rw [List.flatMap_cons, List.append_assoc, List.append_assoc, List.singleton_append,
      Path.splitSegments_append (h s List.mem_cons_self),
      ih fun t ht => h t (List.mem_cons_of_mem _ ht)]
    rfl

theorem length_dropDots_le (cs : List Char) : (dropDots cs).length ≤ cs.length := by
  fun_induction dropDots cs with
  | case1 r ih => simp only [List.length_cons]; omega
  | case2 cs => exact Nat.le_refl _

theorem dropDots_of_head? {cs : List Char} (h : cs.head? ≠ some '.') : dropDots cs = cs := by
  unfold dropDots
  split
  · exact absurd rfl h
  · rfl

/-- **The steps go into the directory.**  What is left are the characters behind them. -/
theorem climb_steps (steps : List PathStep) (dir : String) {fuel : Nat} {cs : List Char}
    (hcs : cs.head? ≠ some '.')
    (hfuel : (dropDots ((steps.map PathStep.segment).flatMap (· ++ ['/']) ++ cs)).length ≤ fuel) :
    climb fuel dir (dropDots ((steps.map PathStep.segment).flatMap (· ++ ['/']) ++ cs))
      = (steps.foldl PathStep.apply dir, cs) := by
  induction steps generalizing fuel dir with
  | nil =>
    rw [List.map_nil, List.flatMap_nil, List.nil_append, dropDots_of_head? hcs]
    unfold climb
    split
    · exact absurd rfl hcs
    · rfl
  | cons step steps ih =>
    cases step with
    | stay => exact ih dir hfuel
    | up =>
      have hdrop : ∀ r, dropDots ('.' :: '.' :: '/' :: r) = '.' :: '.' :: '/' :: r := fun r => rfl
      simp only [List.map_cons, List.flatMap_cons, PathStep.segment, Path.dots, List.cons_append,
        List.nil_append, hdrop, List.length_cons] at hfuel ⊢
      obtain ⟨fuel, rfl⟩ : ∃ n, fuel = n + 1 := ⟨fuel - 1, by omega⟩
      rw [climb, List.foldl_cons]
      refine ih _ ?_
      have hle := length_dropDots_le ((steps.map PathStep.segment).flatMap (· ++ ['/']) ++ cs)
      omega

/-- A slash that follows the steps `./` stands behind all the steps. -/
theorem eq_of_dropDots_steps (steps : List PathStep) {cs rest : List Char}
    (hdot : cs.head? ≠ some '.')
    (h : dropDots ((steps.map PathStep.segment).flatMap (· ++ ['/']) ++ cs) = '/' :: rest) :
    cs = '/' :: rest := by
  induction steps with
  | nil =>
    rw [List.map_nil, List.flatMap_nil, List.nil_append, dropDots_of_head? hdot] at h
    exact h
  | cons step steps ih =>
    cases step with
    | stay => exact ih h
    | up =>
      have hhead : some '.' = some '/' := congrArg List.head? h
      exact absurd hhead (by decide)

namespace DirectoryPattern

variable {p : DirectoryPattern} {dir : String}

theorem isPlainPart_of_mem {s : List Char} (hs : s ∈ p.parts) : isPlainPart s = true :=
  List.all_eq_true.mp p.plain s hs

theorem isName_of_mem {s : List Char} (hs : s ∈ p.parts) : Path.IsName s :=
  isName_of_isPlainPart (isPlainPart_of_mem hs)

/-- With a part, the text behind the steps begins with a character of the part. -/
theorem head?_ending (hparts : p.parts ≠ []) {sign : Char} (hsign : sign ∈ partSigns) :
    p.ending.head? ≠ some sign := by
  obtain ⟨s, parts, hcons⟩ := List.exists_cons_of_ne_nil hparts
  have hs : s ∈ p.parts := hcons ▸ List.mem_cons_self
  obtain ⟨c, rest, rfl⟩ := List.exists_cons_of_ne_nil (isName_of_mem hs).ne_nil
  have hc := no_sign_of_isPlainPart (isPlainPart_of_mem hs) List.mem_cons_self
  have hhead : (Path.joinSegments p.parts).head? = some c := by
    rw [hcons]
    cases parts <;> rfl
  rw [ending, List.head?_append, hhead]
  intro heq
  exact hc (Option.some.inj heq ▸ hsign)

theorem ending_of_nil (hparts : p.parts = []) : p.ending = if p.slash then ['/'] else [] := by
  rw [ending, hparts]
  rfl

theorem head?_ending_ne_dot : p.ending.head? ≠ some '.' := by
  by_cases hparts : p.parts = []
  · rw [ending_of_nil hparts]
    split <;> decide
  · exact head?_ending hparts (by simp [partSigns])

/-- Only the slash behind the parts is dropped. -/
theorem dropSlashes_ending : dropSlashes p.ending = Path.joinSegments p.parts := by
  have hslash : ∀ cs, dropSlashes (cs ++ ['/']) = dropSlashes cs := by simp [dropSlashes]
  have hend : ∀ cs c, c ≠ '/' → dropSlashes (cs ++ [c]) = cs ++ [c] := by
    intro cs c hc
    simp [dropSlashes, hc]
  by_cases hnil : p.parts = []
  · rw [ending_of_nil hnil, hnil]
    split <;> decide
  · -- a joined list of names ends in the last character of the last one
    obtain ⟨before, last, hparts⟩ : ∃ before last, p.parts = before ++ [last] :=
      ⟨_, _, (List.dropLast_concat_getLast hnil).symm⟩
    have hlast : Path.IsName last := isName_of_mem (hparts ▸ List.mem_append_right _ (by simp))
    obtain ⟨front, c, rfl⟩ : ∃ front c, last = front ++ [c] :=
      ⟨_, _, (List.dropLast_concat_getLast hlast.ne_nil).symm⟩
    have hc : c ≠ '/' := by
      rintro rfl
      exact hlast.no_slash (by simp)
    have hkeep : dropSlashes (Path.joinSegments p.parts) = Path.joinSegments p.parts := by
      rw [hparts, joinSegments_append (by simp), Path.joinSegments, ← List.append_assoc,
        hend _ _ hc]
    rw [ending]
    split
    · rw [hslash, hkeep]
    · rw [List.append_nil, hkeep]

theorem climb_text : climb (dropDots p.text.toList).length dir (dropDots p.text.toList)
    = (p.climbed dir, p.ending) := by
  rw [text, String.toList_ofList]
  exact climb_steps p.steps dir head?_ending_ne_dot (Nat.le_refl _)

/-- **The directory and the pattern below it**, if there is a part. -/
theorem anchor_text (hparts : p.parts ≠ []) : anchor dir p.text
    = (p.climbed dir, String.ofList (Path.joinSegments p.parts)) := by
  have hslash : ∀ rest, dropDots p.text.toList ≠ '/' :: rest := by
    intro rest heq
    rw [text, String.toList_ofList] at heq
    have hending := eq_of_dropDots_steps p.steps head?_ending_ne_dot heq
    exact head?_ending hparts (by simp [partSigns]) (congrArg List.head? hending)
  unfold anchor
  dsimp only
  split
  · next rest heq => exact absurd heq (hslash rest)
  · rw [climb_text, dropSlashes_ending]

/-- Without a part nothing is left of the pattern.  The directory is the one that the steps lead to,
or the root of the tree if a slash follows steps that all stay. -/
theorem anchor_text_of_nil (hparts : p.parts = []) :
    anchor dir p.text = (p.climbed dir, "") ∨ anchor dir p.text = ("/", "") := by
  unfold anchor
  dsimp only
  split
  · next rest heq =>
    rw [text, String.toList_ofList] at heq
    have hending := eq_of_dropDots_steps p.steps head?_ending_ne_dot heq
    rw [ending_of_nil hparts] at hending
    have hrest : rest = [] := by
      split at hending
      · exact (List.cons.inj hending).2.symm
      · cases hending
    rw [hrest]
    exact Or.inr rfl
  · rw [climb_text, dropSlashes_ending, hparts]
    exact Or.inl rfl

end DirectoryPattern

/-! ## 3. Everything below some parts

The pattern that is matched in the end has three pieces: the escaped path of the directory, the
parts as literal characters, and the tokens of `/**/*`.  The first two match themselves and no more,
so the question is left to the third, which takes a slash and all that follows. -/

/-- The pattern of everything below some parts. -/
def allBelow (parts : List (List Char)) : String :=
  String.ofList (parts.flatMap (· ++ ['/']) ++ ['*', '*', '/', '*'])

theorem joinSegments_slash {parts : List (List Char)} (hne : parts ≠ []) :
    Path.joinSegments parts ++ ['/'] = parts.flatMap (· ++ ['/']) := by
  have happend := joinSegments_append (a := parts) (b := [[]]) (by simp)
  rw [Path.joinSegments_append_singleton hne] at happend
  simpa [Path.joinSegments] using happend

/-- Plain text is the name of a directory, and means everything below it. -/
theorem expanded_ofList {cs : List Char} (h : ∀ c ∈ cs, c ∉ partSigns.tail) :
    expanded (String.ofList cs) = allBelow (Path.splitSegments cs) := by
  have hlast : ∀ c ∈ (cs.reverse.takeWhile (· != '/')).reverse, c ∉ partSigns.tail := by
    intro c hc
    rw [List.mem_reverse] at hc
    exact h c (List.mem_reverse.mp ((List.takeWhile_sublist _).mem hc))
  obtain ⟨hwild, hpoint⟩ := hasWildcard_of_no_sign hlast
  rw [expanded, String.toList_ofList]
  simp only [hwild, hpoint, Bool.or_self, Bool.false_eq_true, if_false]
  rw [allBelow, ← joinSegments_slash (Path.splitSegments_ne_nil cs),
    Path.joinSegments_splitSegments, List.append_assoc, String.ofList_append]
  rfl

section Below

variable {dir path : String} {parts : List (List Char)}

/-- The walk for everything below some parts starts from these parts. -/
theorem rootParts_allBelow (hslash : ∀ s ∈ parts, '/' ∉ s)
    (hwild : ∀ s ∈ parts, hasWildcard s = false) : rootParts (allBelow parts) = parts := by
  have hstars : Path.splitSegments ['*', '*', '/', '*'] = [['*', '*'], ['*']] := by decide
  have hsplit : parts ++ [['*', '*'], ['*']] = (parts ++ [['*', '*']]) ++ [['*']] := by simp
  have hparts : ∀ s ∈ parts, (!hasWildcard s) = true := by
    intro s hs
    rw [hwild s hs]
    rfl
  rw [rootParts, allBelow, String.toList_ofList, splitSegments_parts hslash, hstars, hsplit,
    List.dropLast_concat, List.takeWhile_append_of_pos hparts,
    List.takeWhile_cons_of_neg (by decide), List.append_nil]

namespace Glob

open Draft

/-- The end of the pattern is read as two tokens, whatever was read before. -/
theorem read_allBelow (ts : List GlobToken) (last : Option Char) :
    read false ⟨ts, [], last, 0, false⟩ ['/', '*', '*', '/', '*']
      = some (ts.reverse ++ [.treeBetween, .star]) := by
  have hread : read false ⟨ts, [], last, 0, false⟩ ['/', '*', '*', '/', '*']
      = some (GlobToken.star :: .treeBetween :: ts).reverse := rfl
  rw [hread]
  simp

/-- The tokens `/**/` and `*` take what starts with a slash. -/
theorem nil_mem_restsOfAll_below {stops : Bool} {text : Bytes} (h : stops = false) :
    [] ∈ restsOfAll stops [.treeBetween, .star] [text] ↔ ∃ more, text = slash :: more := by
  subst h
  rw [mem_restsOfAll_cons]
  constructor
  · rintro ⟨mid, hmid, -⟩
    exact of_mem_restsOf_takesSlash rfl hmid
  · rintro ⟨more, rfl⟩
    refine ⟨more, ?_, mem_restsOfAll_cons.mpr ⟨[], ?_, mem_restsOfAll_nil.mpr rfl⟩⟩
    · rw [restsOf, List.mem_flatMap]
      exact ⟨more, mem_restAfter.mpr ⟨slash, beq_self_eq_true _, rfl⟩, List.mem_cons_self⟩
    · rw [restsOf]
      exact mem_tails.mpr List.nil_suffix

/-- A directory and plain characters, with everything below. -/
theorem isMatch_tokens_iff {escaped plain : List Char} :
    (⟨escaped.map spell ++ (plain.map .literal ++ [.treeBetween, .star]), false⟩ : Glob).isMatch
      path = true ↔ ∃ more, path.toList = escaped ++ plain ++ '/' :: more := by
  have hlone : escaped.map spell ++ (plain.map .literal ++ [.treeBetween, .star])
      ≠ [.treeStart] := by
    intro heq
    have hlength := congrArg List.length heq
    simp only [List.length_append, List.length_map, List.length_cons, List.length_nil] at hlength
    omega
  have hslash : Utf8.encode ['/'] = [slash] := rfl
  rw [isMatch, matchesBytes_iff hlone, mem_restsOfAll_append]
  simp only [mem_restsOfAll_append, mem_restsOfAll_map mem_restsOf_spell,
    mem_restsOfAll_map mem_restsOf_literal, nil_mem_restsOfAll_below, Utf8.bytes_eq_encode]
  constructor
  · rintro ⟨first, hfirst, second, rfl, more, rfl⟩
    rw [← List.append_assoc, ← Utf8.encode_append, ← List.singleton_append, ← hslash,
      ← List.append_assoc, ← Utf8.encode_append] at hfirst
    obtain ⟨rest, hrest⟩ := Utf8.exists_of_encode_eq hfirst
    exact ⟨rest, by simpa using hrest⟩
  · rintro ⟨more, hmore⟩
    refine ⟨_, ?_, _, rfl, Utf8.encode more, rfl⟩
    rw [hmore, Utf8.encode_append, Utf8.encode_append, List.append_assoc]
    rfl

/-- **Everything below some parts of a directory, and nothing else, is matched**; or nothing at all,
if there is a closing brace. -/
theorem isMatch_allBelow (hplain : ∀ s ∈ parts, ∀ c ∈ s, isPlain c = true) :
    (parse? (globText dir (allBelow parts))).any (·.isMatch path) = true ↔
      '}' ∉ Path.lead parts ∧
        ∃ more, path.toList = patternDir dir ++ Path.lead parts ++ '/' :: more := by
  have hlead : ∀ c ∈ Path.lead parts, isPlain c = true := by
    intro c hc
    obtain ⟨s, hs, hc⟩ := List.mem_flatMap.mp hc
    rcases List.mem_cons.mp hc with rfl | hc
    · rfl
    · exact hplain s hs c hc
  have htext : (globText dir (allBelow parts)).toList
      = (escape (String.ofList (patternDir dir))).toList
        ++ (Path.lead parts ++ ['/', '*', '*', '/', '*']) := by
    have hslash := slash_parts parts
    rw [toList_globText, allBelow, String.toList_ofList, ← List.cons_append, hslash,
      List.append_assoc]
    rfl
  obtain ⟨last, hrun⟩ : ∃ last, run false {} (escape (String.ofList (patternDir dir))).toList
      (Path.lead parts ++ ['/', '*', '*', '/', '*'])
        = some ⟨((patternDir dir).map spell).reverse ++ [], [], last, 0, false⟩ :=
    run_escaped (no_backslash_patternDir dir)
  rw [List.append_nil] at hrun
  rw [parse?, htext, read_append, hrun, Option.bind_some, read_append]
  cases hparts : run false ⟨((patternDir dir).map spell).reverse, [], last, 0, false⟩
      (Path.lead parts) ['/', '*', '*', '/', '*'] with
  | none =>
    have hbrace : ¬ '}' ∉ Path.lead parts := by
      rw [← isSome_run_plain hlead, hparts]
      exact Bool.false_ne_true
    exact iff_of_false Bool.false_ne_true fun h => hbrace h.1
  | some d =>
    have hbrace : '}' ∉ Path.lead parts := by
      rw [← isSome_run_plain hlead, hparts]
      rfl
    obtain ⟨last', rfl⟩ := run_plain hlead hparts
    rw [Option.bind_some, read_allBelow, Option.map_some, Option.any_some, and_iff_right hbrace,
      ← isMatch_tokens_iff]
    simp

end Glob

end Below

/-! ## 4. All spellings of a directory

Now the listings are compared.  A listing is a walk from some root, of which the matching files are
kept.  The walk for parts starts from their directory, so it is the walk for `**/*` there, and both
patterns match what is below.  This gives the directory that the search goes to; that it is the
denoted one is a separate matter, and needs that the path of the configuration has no steps up. -/

theorem patternDir_eq_lead {dir : String} (habsolute : Path.isAbsolute dir) :
    patternDir dir = Path.lead (Path.shown dir) := by
  rw [patternDir, Path.normalize_eq_rooted_shown habsolute,
    dropSlashes_rooted (Path.isName_shown dir)]

/-- No normal path has two slashes in a row behind the path of a directory. -/
theorem toList_normalize_ne {dir path : String} (hdir : Path.isAbsolute dir)
    (hpath : Path.isAbsolute path) (more : List Char) :
    (Path.normalize path).toList ≠ patternDir dir ++ Path.lead [[]] ++ '/' :: more := by
  intro heq
  rw [Path.normalize_eq_rooted_shown hpath, patternDir_eq_lead hdir, ← Path.lead_append] at heq
  by_cases hne : Path.shown path = []
  · rw [hne] at heq
    have hlength := congrArg List.length heq
    simp only [Path.toList_rooted, Path.joinSegments, Path.lead_append, Path.lead_cons,
      List.length_append, List.length_cons, List.length_nil] at hlength
    omega
  · rw [Path.toList_rooted_eq_lead hne] at heq
    have hslash : ∀ s ∈ Path.shown dir ++ [[]], '/' ∉ s := by
      intro s hs
      rcases List.mem_append.mp hs with hs | hs
      · exact (Path.isName_shown dir s hs).no_slash
      · rw [List.mem_singleton.mp hs]
        exact List.not_mem_nil
    obtain ⟨others, hothers⟩ := Path.exists_of_lead_eq
      (fun s hs => (Path.isName_shown path s hs).no_slash) hslash heq
    exact (Path.isName_shown path [] (by simp [hothers])).ne_nil rfl

/-- The files that one pattern chooses. -/
theorem filesMatching_singleton (disk : FileTree) (dir pattern : String) (excluding : FileList)
    (o : CompilerOptions) : filesMatching disk ⟨dir, [pattern]⟩ excluding o
      = ((disk.filesKeeping
          (fun below => !Glob.anyMatch (exclusionGlobs excluding) (Path.normalize below))
          (Inclusion.of dir pattern).root).map Path.normalize).filter fun name =>
        o.admits name && (Inclusion.of dir pattern).glob.any (·.isMatch name) := by
  have hone : ∀ root : String, [root].eraseDups = [root] := fun root => rfl
  have hany : ∀ name, Glob.anyMatch ([Inclusion.of dir pattern].filterMap (·.glob)) name
      = (Inclusion.of dir pattern).glob.any (·.isMatch name) := by
    intro name
    cases hglob : (Inclusion.of dir pattern).glob <;> simp [Glob.anyMatch, hglob]
  simp only [filesMatching, List.map_cons, List.map_nil, hone, List.flatMap_singleton, hany]
  rfl

theorem filesMatching_nil (disk : FileTree) (dir : String) (excluding : FileList)
    (o : CompilerOptions) : filesMatching disk ⟨dir, []⟩ excluding o = [] := rfl

section Everything

variable {disk : FileTree} {excluding : FileList} {o : CompilerOptions} {a b : String}

/-- `**/*` in a directory: the walk starts there, and all that is below is matched. -/
theorem inclusion_everything (dir : String) : (Inclusion.of dir "**/*").root = dir ∧
    ∀ name, (Inclusion.of dir "**/*").glob.any (·.isMatch name) = true ↔
      ∃ more, name.toList = patternDir dir ++ '/' :: more := by
  have hanchor : anchor dir "**/*" = (dir, allBelow []) := rfl
  have hexpanded : expanded (allBelow []) = allBelow [] := by decide
  constructor
  · rw [root_of, hanchor, hexpanded, rootParts_allBelow (by simp) (by simp)]
    rfl
  · intro name
    rw [glob_of, hanchor, hexpanded, Glob.isMatch_allBelow (by simp)]
    simp

/-- **Everything below a directory is the same under each of its spellings.** -/
theorem filesMatching_everything_congr (ha : Path.isAbsolute a) (hb : Path.isAbsolute b)
    (hshown : Path.shown a = Path.shown b) (hfind : disk.find? a = disk.find? b) :
    filesMatching disk ⟨a, ["**/*"]⟩ excluding o
      = filesMatching disk ⟨b, ["**/*"]⟩ excluding o := by
  obtain ⟨hroota, hmatcha⟩ := inclusion_everything a
  obtain ⟨hrootb, hmatchb⟩ := inclusion_everything b
  have hfound := FileTree.map_filesKeeping_congr
    (fun name => !Glob.anyMatch (exclusionGlobs excluding) name) ha hb hshown hfind
  rw [filesMatching_singleton, filesMatching_singleton, hroota, hrootb, hfound]
  refine List.filter_congr fun name _ => congrArg _ ?_
  rw [Bool.eq_iff_iff, hmatcha, hmatchb, patternDir_eq_lead ha, patternDir_eq_lead hb, hshown]

end Everything

namespace DirectoryPattern

variable {p : DirectoryPattern} {dir : String} {disk : FileTree} {excluding : FileList}
  {o : CompilerOptions}

theorem no_backslash_of_mem {s : List Char} (hs : s ∈ p.parts) : '\\' ∉ s :=
  fun hc => no_sign_of_isPlainPart (isPlainPart_of_mem hs) hc (by simp [partSigns])

theorem hasWildcard_of_mem {s : List Char} (hs : s ∈ p.parts) : hasWildcard s = false :=
  (hasWildcard_of_no_sign fun _ hc hsign =>
    no_sign_of_isPlainPart (isPlainPart_of_mem hs) hc (List.mem_of_mem_tail hsign)).1

theorem expanded_parts : expanded (String.ofList (Path.joinSegments p.parts))
    = allBelow (Path.splitSegments (Path.joinSegments p.parts)) := by
  refine expanded_ofList fun c hc => ?_
  rcases Path.mem_joinSegments hc with rfl | ⟨s, hs, hc⟩
  · simp [partSigns]
  · exact fun hsign =>
      no_sign_of_isPlainPart (isPlainPart_of_mem hs) hc (List.mem_of_mem_tail hsign)

/-- Steps do not lead out of the tree. -/
theorem isAbsolute_climbed (habsolute : Path.isAbsolute dir) : Path.isAbsolute (p.climbed dir) := by
  rw [climbed]
  induction p.steps generalizing dir with
  | nil => exact habsolute
  | cons step steps ih =>
    cases step with
    | stay => exact ih habsolute
    | up => exact ih (Path.isAbsolute_above habsolute)

/-- The pattern `./` and its like match nothing: behind the directory they have two slashes. -/
theorem filesMatching_text_of_nil (habsolute : Path.isAbsolute dir) (hparts : p.parts = []) :
    filesMatching disk ⟨dir, [p.text]⟩ excluding o = [] := by
  obtain ⟨above, habove, hanchor⟩ : ∃ above, Path.isAbsolute above ∧
      anchor dir p.text = (above, "") := by
    rcases anchor_text_of_nil hparts with hanchor | hanchor
    · exact ⟨_, isAbsolute_climbed habsolute, hanchor⟩
    · exact ⟨_, Path.isAbsolute_iff.mpr rfl, hanchor⟩
  have hexpanded : expanded "" = allBelow [[]] :=
    expanded_ofList fun c hc => absurd hc List.not_mem_nil
  have hroot : Path.isAbsolute (Inclusion.of dir p.text).root := by
    rw [root_of, hanchor, hexpanded, rootParts_allBelow (by simp) (by simp [hasWildcard])]
    exact Path.isAbsolute_child habove _
  rw [filesMatching_singleton]
  refine List.filter_eq_nil_iff.mpr fun name hname hkept => ?_
  obtain ⟨path, hpath, rfl⟩ := List.mem_map.mp hname
  have hmatch := (Bool.and_eq_true_iff.mp hkept).2
  rw [glob_of, hanchor, hexpanded, Glob.isMatch_allBelow (by simp)] at hmatch
  obtain ⟨-, more, hmore⟩ := hmatch
  exact toList_normalize_ne habove (FileTree.isAbsolute_of_mem_filesKeeping hroot hpath) more hmore

theorem isPlain_of_mem {s : List Char} (hs : s ∈ p.parts) : ∀ c ∈ s, Glob.Draft.isPlain c = true :=
  fun _ hc => isPlain_of_isPlainPart (isPlainPart_of_mem hs) hc

theorem splitSegments_parts_eq (hparts : p.parts ≠ []) :
    Path.splitSegments (Path.joinSegments p.parts) = p.parts :=
  Path.splitSegments_joinSegments hparts fun _ hs => (isName_of_mem hs).no_slash

theorem mem_lead_iff {c : Char} (hc : c ≠ '/') :
    c ∈ Path.lead p.parts ↔ p.parts.any (·.contains c) = true := by
  simp [Path.lead, hc]

/-- A pattern with a closing brace is not valid, and lists nothing. -/
theorem filesMatching_text_of_brace (hparts : p.parts ≠ [])
    (hbrace : p.parts.any (·.contains '}') = true) :
    filesMatching disk ⟨dir, [p.text]⟩ excluding o = [] := by
  rw [filesMatching_singleton, glob_of, anchor_text hparts, expanded_parts,
    splitSegments_parts_eq hparts]
  refine List.filter_eq_nil_iff.mpr fun name _ hkept => ?_
  have hmatch := (Glob.isMatch_allBelow fun _ hs => isPlain_of_mem hs).mp
    (Bool.and_eq_true_iff.mp hkept).2
  exact hmatch.1 ((mem_lead_iff (by decide)).mpr hbrace)

/-- In a pattern of whole paths, the directory of the search has the parts behind the steps. -/
theorem patternDir_reached (habsolute : Path.isAbsolute dir) :
    patternDir (p.reached dir) = patternDir (p.climbed dir) ++ Path.lead p.parts := by
  have hclimbed : Path.isAbsolute (p.climbed dir) := isAbsolute_climbed habsolute
  have hnames : ∀ s ∈ p.parts, Path.IsName s := fun s hs => isName_of_mem hs
  rw [reached, patternDir_eq_lead (Path.isAbsolute_chain hclimbed hnames),
    Path.shown_chain_of_no_backslash hclimbed hnames fun s hs => no_backslash_of_mem hs,
    Path.lead_append, ← patternDir_eq_lead hclimbed]

/-- **The spelling lists everything below the directory that the search goes to**, or nothing. -/
theorem filesMatching_text (habsolute : Path.isAbsolute dir) :
    filesMatching disk ⟨dir, [p.text]⟩ excluding o
      = filesMatching disk ⟨p.reached dir, p.meaning⟩ excluding o := by
  rw [meaning]
  split
  · next hnothing =>
    rw [filesMatching_nil]
    by_cases hparts : p.parts = []
    · exact filesMatching_text_of_nil habsolute hparts
    · exact filesMatching_text_of_brace hparts (hnothing.resolve_left hparts)
  · next hmeaning =>
    obtain ⟨hparts, hbrace⟩ := not_or.mp hmeaning
    obtain ⟨hroot, hbelow⟩ := inclusion_everything (p.reached dir)
    -- both walks start from the directory and its parts, so only the patterns are to be compared
    rw [filesMatching_singleton, filesMatching_singleton, hroot, root_of, glob_of,
      anchor_text hparts, expanded_parts, splitSegments_parts_eq hparts,
      rootParts_allBelow (fun s hs => (isName_of_mem hs).no_slash)
        fun s hs => hasWildcard_of_mem hs]
    refine List.filter_congr fun name _ => congrArg _ ?_
    rw [Bool.eq_iff_iff, Glob.isMatch_allBelow fun s hs => isPlain_of_mem hs, hbelow,
      patternDir_reached habsolute, mem_lead_iff (by decide), and_iff_right hbrace]

/-- The steps lead to where their segments lead, if the directory is straight. -/
theorem straight_climbed (h : Path.Straight dir) : Path.Straight (p.climbed dir) ∧
    (Path.resolved (p.climbed dir)).reverse
      = (p.steps.map PathStep.segment).foldl (Path.push true) (Path.resolved dir).reverse := by
  rw [climbed]
  induction p.steps generalizing dir with
  | nil => exact ⟨h, rfl⟩
  | cons step steps ih =>
    cases step with
    | stay => exact ih h
    | up =>
      obtain ⟨hstraight, hnames⟩ := h.above
      have hpush : Path.push true (Path.resolved dir).reverse Path.dots
          = (Path.resolved (Path.above dir)).reverse := by
        rw [hnames]
        rcases List.eq_nil_or_concat (Path.resolved dir) with hnil | ⟨before, last, hlast⟩
        · rw [hnil]
          rfl
        · rw [List.concat_eq_append] at hlast
          have hname : last ≠ Path.dots := by
            refine (Path.isName_resolved dir last ?_).ne_dots
            simp [hlast]
          rw [hlast, List.dropLast_concat, List.reverse_append]
          exact if_neg hname
      rw [List.map_cons, List.foldl_cons, List.foldl_cons]
      rw [PathStep.segment, hpush]
      exact ih hstraight

/-- Of the segments behind the steps only the parts lead on. -/
theorem splitSegments_ending : Path.dots ∉ Path.splitSegments p.ending ∧
    (Path.splitSegments p.ending).filter Path.leadsOn = p.parts := by
  have hdots : Path.dots ∉ p.parts := fun hmem => (isName_of_mem hmem).ne_dots rfl
  have hnames : p.parts.filter Path.leadsOn = p.parts :=
    List.filter_eq_self.mpr fun s hs => Path.leadsOn_of_isName (isName_of_mem hs)
  by_cases hnil : p.parts = []
  · rw [ending_of_nil hnil, hnil]
    split <;> decide
  · rw [ending]
    split
    · rw [Path.splitSegments_append_slash, splitSegments_parts_eq hnil, List.filter_append, hnames]
      constructor
      · rw [List.mem_append, not_or]
        exact ⟨hdots, by decide⟩
      · exact List.append_nil _
    · rw [List.append_nil, splitSegments_parts_eq hnil]
      exact ⟨hdots, hnames⟩

/-- **The search goes to the directory that is denoted.** -/
theorem resolved_denoted (h : Path.Straight dir) :
    Path.resolved (dir ++ "/" ++ p.text) = Path.resolved (p.climbed dir) ++ p.parts := by
  have hsteps : ∀ s ∈ p.steps.map PathStep.segment, '/' ∉ s := by
    intro s hs
    obtain ⟨step, -, rfl⟩ := List.mem_map.mp hs
    cases step <;> decide
  have hdir : (Path.splitSegments dir.toList).foldl (Path.push true) []
      = (Path.resolved dir).reverse := by
    rw [Path.resolved, Path.resolve, List.reverse_reverse]
  obtain ⟨hdots, hparts⟩ := splitSegments_ending (p := p)
  rw [Path.resolved, Path.toList_append_slash, Path.splitSegments_append_slash, text,
    String.toList_ofList, splitSegments_parts hsteps, Path.resolve, List.foldl_append,
    List.foldl_append, hdir, ← (straight_climbed h).2, Path.foldl_push_of_no_dots hdots, hparts]
  simp

/-- The directory that the search goes to and the denoted one have one normal form and lead to one
entry, so they are two spellings of the same directory. -/
theorem filesMatching_denoted (h : Path.Straight dir) :
    filesMatching disk ⟨p.reached dir, p.meaning⟩ excluding o
      = filesMatching disk ⟨p.denoted dir, p.meaning⟩ excluding o := by
  rw [meaning]
  split
  · rw [filesMatching_nil, filesMatching_nil]
  · next hmeaning =>
    have hne : p.parts ≠ [] := fun hnil => hmeaning (Or.inl hnil)
    have hnames : ∀ s ∈ p.parts, Path.IsName s := fun s hs => isName_of_mem hs
    have hstraight := (straight_climbed (p := p) h).1
    have hdenoted : p.denoted dir = Path.rooted (Path.resolved (p.climbed dir) ++ p.parts) := by
      rw [denoted, resolved_denoted h]
    have hreached : Path.Straight (p.reached dir) := hstraight.chain hnames
    have hresolved : Path.resolved (p.reached dir) = Path.resolved (p.climbed dir) ++ p.parts :=
      Path.resolved_chain hstraight.absolute hnames
    have hall : ∀ s ∈ Path.resolved (p.climbed dir) ++ p.parts, Path.IsName s := by
      rw [← hresolved]
      exact Path.isName_resolved _
    have hrooted := Path.straight_rooted hall
    rw [hdenoted]
    refine filesMatching_everything_congr hreached.absolute hrooted.absolute ?_ ?_
    · rw [Path.shown_of_straight hreached, Path.shown_of_straight hrooted, hresolved,
        Path.resolved_rooted hall]
    · exact FileTree.find?_chain_eq_rooted hstraight hnames hne

/-- **All spellings of a directory list the same files.**  A pattern that names a directory lists
what its meaning lists there: everything below, unless it has no part, or a closing brace in one.
The directory is the one that the search goes to, and that is the denoted one if the configuration's
own directory is written without steps up. -/
theorem filesOfConfig_directory (p : DirectoryPattern) {dir : String}
    (habsolute : Path.isAbsolute dir) (disk : FileTree) (files excluding : FileList)
    (o : CompilerOptions) :
    filesOfConfig disk files ⟨dir, [p.text]⟩ excluding o
        = filesOfConfig disk files ⟨p.reached dir, p.meaning⟩ excluding o ∧
      (Path.dots ∉ Path.splitSegments dir.toList →
        filesOfConfig disk files ⟨dir, [p.text]⟩ excluding o
          = filesOfConfig disk files ⟨p.denoted dir, p.meaning⟩ excluding o) := by
  have hreached : filesOfConfig disk files ⟨dir, [p.text]⟩ excluding o
      = filesOfConfig disk files ⟨p.reached dir, p.meaning⟩ excluding o := by
    rw [filesOfConfig, filesOfConfig, filesMatching_text habsolute]
  refine ⟨hreached, fun hdots => hreached.trans ?_⟩
  rw [filesOfConfig, filesOfConfig, filesMatching_denoted ⟨habsolute, hdots⟩]

/-- A directory beside that of the configuration, with a step that stays and a slash behind it. -/
def beside : DirectoryPattern := ⟨[.up, .stay], [['s', 'r', 'c']], true, rfl⟩

theorem filesOfConfig_directory_beside :
    Path.isAbsolute "/ws/app" = true ∧ Path.dots ∉ Path.splitSegments "/ws/app".toList ∧
      filesOfConfig workspaceTree ⟨"/ws/app", []⟩ ⟨"/ws/app", [".././src/"]⟩ ⟨"/ws/app", []⟩ {}
        = filesOfConfig workspaceTree ⟨"/ws/app", []⟩ ⟨"/ws/src", ["**/*"]⟩ ⟨"/ws/app", []⟩ {} ∧
      "/ws/src/a.ts" ∈
        filesOfConfig workspaceTree ⟨"/ws/app", []⟩ ⟨"/ws/src", ["**/*"]⟩ ⟨"/ws/app", []⟩ {} := by
  have habsolute : Path.isAbsolute "/ws/app" = true := by decide +kernel
  have hdots : Path.dots ∉ Path.splitSegments "/ws/app".toList := by decide +kernel
  have hspelling : beside.text = ".././src/" ∧ beside.denoted "/ws/app" = "/ws/src" ∧
      beside.meaning = ["**/*"] := by decide +kernel
  have hsame := (filesOfConfig_directory beside habsolute workspaceTree ⟨"/ws/app", []⟩
    ⟨"/ws/app", []⟩ {}).2 hdots
  rw [hspelling.1, hspelling.2.1, hspelling.2.2] at hsame
  exact ⟨habsolute, hdots, hsame, mem_filesOfConfig_of_matching (by decide +kernel)⟩

/-- Above `app/..` the search goes to `app`. -/
example : let p : DirectoryPattern := ⟨[.up], [['l', 'i', 'b']], false, rfl⟩
    p.denoted "/ws/app/.." = "/lib" ∧ p.reached "/ws/app/.." = "/ws/app/lib" := by
  decide +kernel

/-- With one slash too many a pattern is read from the root of the tree. -/
example : let p : DirectoryPattern := ⟨[.stay], [], true, rfl⟩
    p.text = ".//" ∧ anchor "/ws/app" p.text = ("/", "") ∧ p.meaning = [] := by
  decide +kernel

/-- **The pattern `./` lists nothing**, though all that is below is there to be listed. -/
theorem filesOfConfig_here :
    let here : DirectoryPattern := ⟨[.stay], [], false, rfl⟩
    here.text = "./" ∧ here.denoted "/ws" = "/ws" ∧
      filesOfConfig workspaceTree ⟨"/ws", []⟩ ⟨"/ws", ["./"]⟩ ⟨"/ws", []⟩ {} = [] ∧
      "/ws/src/a.ts"
        ∈ filesOfConfig workspaceTree ⟨"/ws", []⟩ ⟨"/ws", ["**/*"]⟩ ⟨"/ws", []⟩ {} := by
  have hnone : filesMatching workspaceTree ⟨"/ws", ["./"]⟩ ⟨"/ws", []⟩ {} = [] := by decide +kernel
  refine ⟨by decide +kernel, by decide +kernel, ?_,
    mem_filesOfConfig_of_matching (by decide +kernel)⟩
  rw [filesOfConfig, hnone, List.map_nil, List.append_nil, sortedNames, List.mergeSort_nil]
  rfl

end DirectoryPattern

end ComponentHost
