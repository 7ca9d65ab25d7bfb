/-
# Absolute paths and the directories above them

A normal absolute path is a slash and some names with slashes between them.  That is what `rooted`
writes, and every normal absolute path is written so (`exists_rooted`): steps up never survive at
the root, and empty segments and steps that stay never survive anywhere.

Going up from a path takes its last name away (`directoryOf_rooted`).  The walk up goes on until it
would stay where it is, which happens at the root and nowhere else; so it visits each directory
above a file once, and the root last (`directoriesAbove_directoryOf`).

A path is handled as the list of its segments throughout.  A segment is anything between two
slashes; a NAME is one that stands for an entry of a directory, so it is not empty, not `.` and not
`..`.  The normal form of an absolute path has names only.  That of a relative one may begin with
steps up, as it is not known what they lead to; `IsRead` covers both, because the same reader makes
both.
-/
import ComponentHost.Proofs.ComponentNames
import ComponentHost.Resolve
import Mathlib.Data.List.Infix

namespace ComponentHost.Path

/-! ## 1. Names

Reading a path pushes its segments on a stack one by one.  An empty segment and a `.` are dropped, a
`..` takes the last name away or, if there is none, is kept in a relative path and dropped in an
absolute one.  What is on the stack keeps one shape all the time. -/

/-- A segment that names an entry of a directory. -/
structure IsName (s : List Char) : Prop where
  ne_nil : s ≠ []
  ne_dot : s ≠ dot
  ne_dots : s ≠ dots
  no_slash : '/' ∉ s

/-- Even the empty path has a segment, the empty one. -/
theorem splitSegments_ne_nil (cs : List Char) : splitSegments cs ≠ [] := by
  cases cs with
  | nil => simp [splitSegments]
  | cons c cs =>
    unfold splitSegments
    split
    · simp
    · split <;> simp

theorem splitSegments_of_no_slash {s : List Char} (h : '/' ∉ s) : splitSegments s = [s] := by
  rw [splitSegments_eq_splitAt, Text.splitAt_of_notMem h]

/-- The first segment goes up to the first slash. -/
theorem splitSegments_append {s : List Char} (h : '/' ∉ s) (rest : List Char) :
    splitSegments (s ++ '/' :: rest) = s :: splitSegments rest := by
  induction s with
  | nil => simp [splitSegments]
  | cons c s ih =>
    rw [List.mem_cons, not_or] at h
    obtain ⟨hc, hs⟩ := h
    have hne : (c == '/') = false := beq_eq_false_iff_ne.mpr (Ne.symm hc)
    rw [List.cons_append, splitSegments, ih hs, hne]
    rfl

/-- No segment has a slash in it, which is one of the things that a name is. -/
theorem no_slash_of_mem_splitSegments {cs s : List Char} (h : s ∈ splitSegments cs) :
    '/' ∉ s := by
  induction cs generalizing s with
  | nil =>
    rw [splitSegments, List.mem_singleton] at h
    rw [h]
    exact List.not_mem_nil
  | cons c cs ih =>
    unfold splitSegments at h
    split at h
    · rcases List.mem_cons.mp h with rfl | hrest
      · exact List.not_mem_nil
      · exact ih hrest
    · next hc =>
      have hslash : '/' ≠ c := by
        rintro rfl
        exact hc rfl
      split at h
      · next hnil => exact absurd hnil (splitSegments_ne_nil cs)
      · next first rest hsplit =>
        rw [hsplit] at ih
        rcases List.mem_cons.mp h with rfl | hrest
        · intro hmem
          rcases List.mem_cons.mp hmem with heq | hfirst
          · exact hslash heq
          · exact ih List.mem_cons_self hfirst
        · exact ih (List.mem_cons_of_mem _ hrest)

/-- What is read of a path, backwards: names, and before them the steps up that nothing cancels.  An
absolute path has none of these. -/
inductive IsRead (absolute : Bool) : List (List Char) → Prop
  | ups (n : Nat) (h : absolute = true → n = 0) : IsRead absolute (List.replicate n dots)
  | name {s : List Char} {read : List (List Char)} (hs : IsName s) (hread : IsRead absolute read) :
    IsRead absolute (s :: read)

theorem IsRead.nil (absolute : Bool) : IsRead absolute [] := .ups 0 fun _ => rfl

/-- Of an absolute path only names are read. -/
theorem isRead_true_iff {read : List (List Char)} :
    IsRead true read ↔ ∀ s ∈ read, IsName s := by
  constructor
  · intro h
    induction h with
    | ups n h =>
      rw [h rfl]
      exact fun s hs => absurd hs List.not_mem_nil
    | name hs _ ih => exact List.forall_mem_cons.mpr ⟨hs, ih⟩
  · intro h
    induction read with
    | nil => exact .nil true
    | cons s read ih =>
      obtain ⟨hs, hread⟩ := List.forall_mem_cons.mp h
      exact .name hs (ih hread)

/-- **One segment**: what is read stays names behind steps up. -/
theorem IsRead.push {absolute : Bool} {read : List (List Char)} (hread : IsRead absolute read)
    {s : List Char} (hs : '/' ∉ s) : IsRead absolute (Path.push absolute read s) := by
  unfold Path.push
  split
  · exact hread
  · next hstep =>
    rw [not_or] at hstep
    obtain ⟨hnil, hdot⟩ := hstep
    split
    · cases hread with
      | name hlast hread =>
        simp only [hlast.ne_dots, if_false]
        exact hread
      | ups n h =>
        -- nothing is there to cancel: a relative path keeps the step, at the root it is lost
        cases absolute with
        | true =>
          rw [h rfl]
          exact .nil true
        | false =>
          cases n with
          | zero => exact .ups 1 fun habsolute => absurd habsolute Bool.false_ne_true
          | succ n => exact .ups (n + 2) fun habsolute => absurd habsolute Bool.false_ne_true
    · next hdots => exact .name ⟨hnil, hdot, hdots, hs⟩ hread

/-- **All segments.** -/
theorem IsRead.foldl_push {absolute : Bool} {segments read : List (List Char)}
    (hread : IsRead absolute read) (h : ∀ s ∈ segments, '/' ∉ s) :
    IsRead absolute (segments.foldl (Path.push absolute) read) := by
  induction segments generalizing read with
  | nil => exact hread
  | cons s segments ih =>
    obtain ⟨hs, hsegments⟩ := List.forall_mem_cons.mp h
    exact ih (hread.push hs) hsegments

theorem isName_push {read : List (List Char)} (hread : ∀ s ∈ read, IsName s) {s : List Char}
    (hs : '/' ∉ s) : ∀ s' ∈ push true read s, IsName s' :=
  isRead_true_iff.mp ((isRead_true_iff.mpr hread).push hs)

/-- **The names of an absolute path are names.** -/
theorem isName_resolve {segments : List (List Char)} (h : ∀ s ∈ segments, '/' ∉ s) :
    ∀ s ∈ resolve true segments, IsName s := by
  intro s hs
  exact isRead_true_iff.mp ((IsRead.nil true).foldl_push h) s (List.mem_reverse.mp hs)

theorem push_of_isName (absolute : Bool) (read : List (List Char)) {s : List Char} (h : IsName s) :
    push absolute read s = s :: read := by
  have hstep : ¬ (s = [] ∨ s = dot) := not_or.mpr ⟨h.ne_nil, h.ne_dot⟩
  unfold push
  rw [if_neg hstep, if_neg h.ne_dots]

/-- The last segment goes back to the last slash. -/
theorem splitSegments_concat {name : List Char} (h : '/' ∉ name) (before : List Char) :
    splitSegments (before ++ '/' :: name) = splitSegments before ++ [name] := by
  induction before with
  | nil => simp [splitSegments, splitSegments_of_no_slash h]
  | cons c before ih =>
    rw [List.cons_append, splitSegments, splitSegments, ih]
    by_cases hc : c = '/'
    · simp [hc]
    · cases hsplit : splitSegments before with
      | nil => exact absurd hsplit (splitSegments_ne_nil before)
      | cons first rest => simp [hc]

theorem slashed_append (a b : List Char) : slashed (a ++ '/' :: b) = slashed a ++ '/' :: slashed b := by
  simp [slashed]

/-- Backslashes are made slashes before all else; without any the path stays as it is. -/
theorem slashed_of_no_backslash {cs : List Char} (h : '\\' ∉ cs) : slashed cs = cs := by
  have hsame : ∀ c ∈ cs, (if c == '\\' then '/' else c) = c := by
    intro c hc
    rw [if_neg]
    rw [beq_iff_eq]
    rintro rfl
    exact h hc
  rw [slashed, List.map_congr_left hsame, List.map_id']

/-- **The normal form of a path keeps its last name.** -/
theorem suffix_normalizeChars {name : List Char} (h : IsName name) (hback : '\\' ∉ name)
    (before : List Char) : name <:+ normalizeChars (before ++ '/' :: name) := by
  have hslashed : slashed (before ++ '/' :: name) = slashed before ++ '/' :: name := by
    rw [slashed_append, slashed_of_no_backslash hback]
  have hbody : ∀ absolute, name <:+ joinSegments
      (resolve absolute (splitSegments (slashed (before ++ '/' :: name)))) := by
    intro absolute
    rw [hslashed, splitSegments_concat h.no_slash, resolve, List.foldl_append, List.foldl_cons,
      List.foldl_nil, push_of_isName absolute _ h, List.reverse_cons]
    exact joinSegments_concat _ _
  unfold normalizeChars
  dsimp only
  split
  · exact (hbody _).trans (List.suffix_cons _ _)
  · exact hbody _

/-! ## 2. Normal absolute paths

A list of names is written as an absolute path by `rooted`, and read back by `namesOf`.  The names
are what statements about directories are made of. -/

/-- The absolute path of some names. -/
def rooted (names : List (List Char)) : String := String.ofList ('/' :: joinSegments names)

theorem toList_rooted (names : List (List Char)) :
    (rooted names).toList = '/' :: joinSegments names :=
  String.toList_ofList

theorem isAbsolute_iff {path : String} : isAbsolute path ↔ path.toList.head? = some '/' := by
  rw [isAbsolute, Text.startsWith_iff]
  exact List.singleton_prefix_iff_head?_eq_some

theorem toList_append_slash (a b : String) :
    (a ++ "/" ++ b).toList = a.toList ++ '/' :: b.toList := by
  rw [String.toList_append, String.toList_append, List.append_assoc]
  rfl

/-- A path with one more name ends with that name. -/
theorem suffix_join (dir name : String) (h : IsName name.toList)
    (hback : '\\' ∉ name.toList) : name.toList <:+ (join dir name).toList := by
  have hrelative : ¬ name.startsWith "/" := by
    intro habsolute
    exact h.no_slash (List.mem_of_head? (isAbsolute_iff.mp habsolute))
  rw [join, if_neg hrelative, normalize, String.toList_ofList, toList_append_slash]
  exact suffix_normalizeChars h hback _

/-- **A normal absolute path is a path of names.** -/
theorem exists_rooted {path : String} (hnormal : normalize path = path)
    (habsolute : isAbsolute path) : ∃ names, (∀ s ∈ names, IsName s) ∧ path = rooted names := by
  have hhead : (slashed path.toList).head? = some '/' := by
    rw [slashed, List.head?_map, isAbsolute_iff.mp habsolute]
    rfl
  refine ⟨resolve true (splitSegments (slashed path.toList)), ?_, ?_⟩
  · apply isName_resolve
    intro s hs
    exact no_slash_of_mem_splitSegments hs
  · have hchars : normalizeChars path.toList
        = '/' :: joinSegments (resolve true (splitSegments (slashed path.toList))) := by
      simp only [normalizeChars, hhead, beq_self_eq_true, if_true]
    rw [rooted, ← hchars]
    exact hnormal.symm

/-- The names that a path goes through. -/
def namesOf (path : String) : List (List Char) := (splitSegments path.toList).filter (· ≠ [])

/-- Segments that are joined by slashes are split there again; only of no segments at all one is
made. -/
theorem splitSegments_joinSegments {names : List (List Char)} (hne : names ≠ [])
    (h : ∀ s ∈ names, '/' ∉ s) : splitSegments (joinSegments names) = names := by
  induction names with
  | nil => exact absurd rfl hne
  | cons s names ih =>
    have hs := h s List.mem_cons_self
    cases names with
    | nil => exact splitSegments_of_no_slash hs
    | cons s' names =>
      rw [joinSegments, splitSegments_append hs, ih (by simp)]
      · intro s'' hs''
        exact h s'' (List.mem_cons_of_mem _ hs'')
      · simp

/-- **The names of a path are those that it was written from**, at the root too, where there are
none. -/
theorem namesOf_rooted {names : List (List Char)} (h : ∀ s ∈ names, IsName s) :
    namesOf (rooted names) = names := by
  have hsplit : splitSegments ('/' :: joinSegments names)
      = [] :: splitSegments (joinSegments names) := splitSegments_append List.not_mem_nil _
  rw [namesOf, toList_rooted, hsplit, List.filter_cons_of_neg (by simp)]
  by_cases hne : names = []
  · rw [hne]
    rfl
  · rw [splitSegments_joinSegments hne fun s hs => (h s hs).no_slash]
    apply List.filter_eq_self.mpr
    intro s hs
    exact decide_eq_true (h s hs).ne_nil

/-! ## 3. Going up

Going up drops what stands behind the last slash, and the slash; at the root it changes nothing.
The walk up stops when it comes to the same directory twice, so it ends at the root. -/

/-- A last name is written behind a slash. -/
theorem joinSegments_append_singleton {names : List (List Char)} (hne : names ≠ [])
    (s : List Char) : joinSegments (names ++ [s]) = joinSegments names ++ '/' :: s := by
  induction names with
  | nil => exact absurd rfl hne
  | cons first names ih =>
    cases names with
    | nil => rfl
    | cons second names =>
      have hstep : joinSegments (first :: second :: names ++ [s])
          = first ++ '/' :: joinSegments (second :: names ++ [s]) := rfl
      have hself : joinSegments (first :: second :: names)
          = first ++ '/' :: joinSegments (second :: names) := rfl
      rw [hstep, hself, ih (by simp), List.append_assoc]
      rfl

/-- A path is split at its last slash, if the part behind it has none. -/
theorem splitLast_append {name : List Char} (h : '/' ∉ name) (dir : List Char) :
    splitLast (dir ++ '/' :: name) = some (dir, name) := by
  have hall : ∀ c ∈ name.reverse, (c != '/') = true := by
    intro c hc
    rw [bne_iff_ne]
    rintro rfl
    exact h (List.mem_reverse.mp hc)
  have hname : ((dir ++ '/' :: name).reverse.takeWhile (· != '/')).reverse = name := by
    rw [List.reverse_append, List.reverse_cons, List.append_assoc,
      List.takeWhile_append_of_pos hall]
    simp
  have hshorter : name.length ≠ (dir ++ '/' :: name).length := by
    rw [List.length_append, List.length_cons]
    omega
  have hdir : (dir ++ '/' :: name).length - name.length - 1 = dir.length := by
    rw [List.length_append, List.length_cons]
    omega
  unfold splitLast
  simp only [hname, beq_eq_false_iff_ne.mpr hshorter, hdir, List.take_left, Bool.false_eq_true,
    if_false]

/-- **The directory of a path is the path without its last name**; that of the root is the root. -/
theorem directoryOf_rooted {names : List (List Char)} (h : ∀ s ∈ names, IsName s) :
    directoryOf (rooted names) = rooted names.dropLast := by
  rcases List.eq_nil_or_concat names with rfl | ⟨before, s, rfl⟩
  · decide
  · rw [List.concat_eq_append] at h ⊢
    have hs := (h s (List.mem_append_right _ List.mem_cons_self)).no_slash
    rw [List.dropLast_concat]
    by_cases hbefore : before = []
    · subst hbefore
      have hsplit : splitLast (rooted ([] ++ [s])).toList = some ([], s) := by
        rw [toList_rooted]
        exact splitLast_append hs []
      rw [directoryOf, hsplit]
      rfl
    · have hsplit : splitLast (rooted (before ++ [s])).toList
          = some ('/' :: joinSegments before, s) := by
        rw [toList_rooted, joinSegments_append_singleton hbefore, ← List.cons_append]
        exact splitLast_append hs _
      rw [directoryOf, hsplit]
      rfl

/-- **The walk up** goes through the first names of a directory, fewer at each step.  By induction
on the names: with one less the walk is the rest of the walk. -/
theorem directoriesAbove_rooted {names : List (List Char)} (h : ∀ s ∈ names, IsName s) :
    directoriesAbove (rooted names) = names.inits.reverse.map rooted := by
  induction names using List.reverseRecOn with
  | nil =>
    have hroot : directoryOf (rooted []) = rooted [] := directoryOf_rooted h
    rw [directoriesAbove, dif_pos (Or.inl hroot)]
    rfl
  | append_singleton before s ih =>
    have hbefore : ∀ s ∈ before, IsName s := fun s' hs' => h s' (List.mem_append_left _ hs')
    have hup : directoryOf (rooted (before ++ [s])) = rooted before := by
      rw [directoryOf_rooted h, List.dropLast_concat]
    -- above the root the walk neither stays nor leaves what is known
    have hmoves : ¬ (rooted before = rooted (before ++ [s]) ∨ rooted before = ".") := by
      rintro (hstays | hleaves)
      · have hnames := congrArg namesOf hstays
        rw [namesOf_rooted hbefore, namesOf_rooted h] at hnames
        exact absurd (congrArg List.length hnames) (by simp)
      · have hchars := congrArg String.toList hleaves
        rw [toList_rooted] at hchars
        exact absurd (List.cons.inj hchars).1 (by decide)
    have hinits : (before ++ [s]).inits = before.inits ++ [before ++ [s]] := by
      rw [List.inits_append]
      rfl
    rw [directoriesAbove, hup, dif_neg hmoves, ih hbefore, hinits, List.reverse_append,
      List.map_append]
    rfl

/-- The directories that a file lies in, by the names that its path goes through: the nearest first,
and the root last. -/
def directoriesOf (file : String) : List String :=
  (namesOf file).dropLast.inits.reverse.map rooted

/-- **The walk up from a file** visits each directory that the file lies in, and the root last. -/
theorem directoriesAbove_directoryOf {file : String} (hnormal : normalize file = file)
    (habsolute : isAbsolute file) :
    directoriesAbove (directoryOf file) = directoriesOf file := by
  obtain ⟨names, hnames, rfl⟩ := exists_rooted hnormal habsolute
  rw [directoryOf_rooted hnames, directoriesOf, namesOf_rooted hnames, directoriesAbove_rooted]
  intro s hs
  exact hnames s (List.mem_of_mem_dropLast hs)

end ComponentHost.Path
