/-
# Ways through a tree of files

A path is looked up segment by segment, and put into its normal form segment by segment.  Both
treat a segment alike: nothing and `.` stay, `..` goes up, every other segment is a name.  So where
a path leads, the names on the way are those of the normal form (`Place.names_of_locate`).

With this the two ways to a file can be compared, the one that its own path spells and the one of a
walk that starts at some path above it:

* `below?` follows names from a tree down, and finds what `locate` finds (`below?_names`);
* a path with names behind it leads to where these names lead (`locate_chain`,
  `below?_of_locate_chain`), and has them in its normal form (`normalize_chain`);
* a walk finds each file that names lead to, if all entries on the way are kept (`mem_walk`);
* the directory that holds a directory is there (`hasDirectory_parent`).

A tree has no links, so there is one way to each entry, and a path that goes up and down again leads
back to where it was.  What can still differ is the spelling: slashes in a row, `.` segments, a
slash at the end, and detours.  All of these are gone in the names, which is why statements about
files are made of names here and only turned into paths at the end.  Backslashes are the one thing
that the comparison does not bear: the normal form makes them slashes, and the look-up takes them as
characters of a name.
-/
import ComponentHost.FileTree
import ComponentHost.Proofs.PathPatterns

namespace ComponentHost

/-! ## 1. Segments

What a path is made of.  A child of a directory is written behind it with one slash, a chain of
names one after another, and going up drops the last segment.  The three are described by the
segments that they give, which is all that the sections below need of them. -/

namespace Path

/-- A slash ends the segments before it. -/
theorem splitSegments_append_slash (a b : List Char) :
    splitSegments (a ++ '/' :: b) = splitSegments a ++ splitSegments b := by
  induction a with
  | nil => rfl
  | cons c a ih =>
    rw [List.cons_append, splitSegments, splitSegments, ih]
    by_cases hc : c = '/'
    · simp [hc]
    · cases hsplit : splitSegments a with
      | nil => exact absurd hsplit (splitSegments_ne_nil a)
      | cons first rest => simp [hc]

/-- Nothing is lost in the segments, empty ones included. -/
theorem joinSegments_splitSegments (cs : List Char) : joinSegments (splitSegments cs) = cs := by
  induction cs with
  | nil => rfl
  | cons c cs ih =>
    rw [splitSegments]
    cases hsplit : splitSegments cs with
    | nil => exact absurd hsplit (splitSegments_ne_nil cs)
    | cons first rest =>
      rw [hsplit] at ih
      split
      · next hc =>
        rw [joinSegments_cons_cons, ih, beq_iff_eq.mp hc]
        rfl
      · cases rest with
        | nil => exact congrArg (c :: ·) ih
        | cons second rest => exact congrArg (c :: ·) ih

/-- The names of the normal form of an absolute path without backslashes. -/
def resolved (path : String) : List (List Char) := resolve true (splitSegments path.toList)

theorem isName_resolved (path : String) : ∀ s ∈ resolved path, IsName s :=
  isName_resolve fun _ hs => no_slash_of_mem_splitSegments hs

/-- The normal form is the root with the names behind it. -/
theorem normalize_eq_rooted {path : String} (habsolute : isAbsolute path)
    (hback : '\\' ∉ path.toList) : normalize path = rooted (resolved path) := by
  have hhead : (path.toList.head? == some '/') = true := by
    rw [isAbsolute_iff.mp habsolute]
    rfl
  rw [normalize, normalizeChars, slashed_of_no_backslash hback, hhead, if_pos rfl]
  rfl

section Child

variable {dir : String} {s : List Char}

/-- A path with a relative one behind it.  The slash at the end of the path, if there is one, is the
one in front of the other. -/
theorem toList_child_of_relative (habsolute : isAbsolute dir) {name : String}
    (hname : ¬ isAbsolute name) :
    ∃ before, (dir.toList = before ∨ dir.toList = before ++ ['/']) ∧
      (child dir name).toList = before ++ '/' :: name.toList := by
  have hempty : ¬ (dir.isEmpty || isAbsolute name) = true := by
    rw [Bool.or_eq_true, not_or]
    refine ⟨fun hempty => ?_, hname⟩
    have hhead := isAbsolute_iff.mp habsolute
    rw [String.isEmpty_iff.mp hempty] at hhead
    cases hhead
  rw [child, if_neg hempty]
  split
  · next hends =>
    obtain ⟨before, hbefore⟩ := Text.endsWith_iff.mp hends
    refine ⟨before, Or.inr hbefore.symm, ?_⟩
    rw [String.toList_append, ← hbefore, List.append_assoc]
    rfl
  · exact ⟨dir.toList, Or.inl rfl, toList_append_slash dir name⟩

theorem not_isAbsolute_of_isName (hs : IsName s) : ¬ isAbsolute (String.ofList s) := by
  intro hslash
  have hhead := isAbsolute_iff.mp hslash
  rw [String.toList_ofList] at hhead
  exact hs.no_slash (List.mem_of_head? hhead)

/-- A path with one more name. -/
theorem toList_child (habsolute : isAbsolute dir) (hs : IsName s) :
    ∃ before, (dir.toList = before ∨ dir.toList = before ++ ['/']) ∧
      (child dir (String.ofList s)).toList = before ++ '/' :: s := by
  obtain ⟨before, hdir, hchild⟩ := toList_child_of_relative habsolute (not_isAbsolute_of_isName hs)
  rw [String.toList_ofList] at hchild
  exact ⟨before, hdir, hchild⟩

/-- The segments of a child are those of the directory and the name; a slash at the end of the
directory is an empty segment, which the name replaces. -/
theorem splitSegments_child (habsolute : isAbsolute dir) (hs : IsName s) :
    ∃ segments, (splitSegments dir.toList = segments ∨ splitSegments dir.toList = segments ++ [[]]) ∧
      splitSegments (child dir (String.ofList s)).toList = segments ++ [s] := by
  obtain ⟨before, hdir, hchild⟩ := toList_child habsolute hs
  refine ⟨splitSegments before, ?_, ?_⟩
  · rcases hdir with hdir | hdir
    · exact Or.inl (by rw [hdir])
    · refine Or.inr ?_
      rw [hdir, splitSegments_append_slash]
      rfl
  · rw [hchild, splitSegments_concat hs.no_slash]

/-- A name that is absolute itself replaces the directory, so this holds of any name. -/
theorem isAbsolute_child (habsolute : isAbsolute dir) (name : String) :
    isAbsolute (child dir name) := by
  by_cases hname : isAbsolute name
  · rw [child, if_pos (by simp [hname])]
    exact hname
  · obtain ⟨before, hdir, hchild⟩ := toList_child_of_relative habsolute hname
    have hhead := isAbsolute_iff.mp habsolute
    rw [isAbsolute_iff, hchild]
    cases before with
    | nil => rfl
    | cons c before => rcases hdir with hdir | hdir <;> simpa [hdir] using hhead

/-- Only behind an absolute path does a name stand in one. -/
theorem isAbsolute_of_child (hs : IsName s) (h : isAbsolute (child dir (String.ofList s))) :
    isAbsolute dir := by
  have hname := not_isAbsolute_of_isName hs
  unfold child at h
  split at h
  · exact absurd h hname
  · next hempty =>
    have hne : dir.toList ≠ [] := by
      intro hnil
      exact hempty (by simp [String.toList_eq_nil_iff.mp hnil])
    obtain ⟨c, rest, hdir⟩ := List.exists_cons_of_ne_nil hne
    rw [isAbsolute_iff] at h ⊢
    split at h
    · simpa [hdir] using h
    · simpa [hdir] using h

theorem no_backslash_child (habsolute : isAbsolute dir) (hs : IsName s)
    (hdir : '\\' ∉ dir.toList) (hback : '\\' ∉ s) :
    '\\' ∉ (child dir (String.ofList s)).toList := by
  obtain ⟨before, hbefore, hchild⟩ := toList_child habsolute hs
  rw [hchild, List.mem_append, List.mem_cons]
  rintro (hmem | hslash | hmem)
  · rcases hbefore with heq | heq
    · exact hdir (heq ▸ hmem)
    · exact hdir (heq ▸ List.mem_append_left _ hmem)
  · cases hslash
  · exact hback hmem

/-- A name below a directory is the last of the names. -/
theorem resolved_child (habsolute : isAbsolute dir) (hs : IsName s) :
    resolved (child dir (String.ofList s)) = resolved dir ++ [s] := by
  obtain ⟨segments, hdir, hchild⟩ := splitSegments_child habsolute hs
  have hsame : resolved dir = resolve true segments := by
    rcases hdir with hdir | hdir
    · rw [resolved, hdir]
    · rw [resolved, hdir, resolve, List.foldl_append]
      rfl
  rw [hsame, resolved, hchild, resolve, List.foldl_append, List.foldl_cons, List.foldl_nil,
    push_of_isName true _ hs, List.reverse_cons]
  rfl

end Child

/-- The path of names behind a directory. -/
def chain (dir : String) (names : List (List Char)) : String :=
  names.foldl (fun root s => child root (String.ofList s)) dir

section Chain

variable {dir : String} {names : List (List Char)}

/-- Each name is written behind an absolute path, so the chain is one. -/
theorem isAbsolute_chain (habsolute : isAbsolute dir) (hnames : ∀ s ∈ names, IsName s) :
    isAbsolute (chain dir names) := by
  induction names generalizing dir with
  | nil => exact habsolute
  | cons s names ih =>
    exact ih (isAbsolute_child habsolute _)
      fun t ht => hnames t (List.mem_cons_of_mem _ ht)

/-- No backslash comes in but with the directory or with a name. -/
theorem no_backslash_chain (habsolute : isAbsolute dir) (hnames : ∀ s ∈ names, IsName s)
    (hdir : '\\' ∉ dir.toList) (hback : ∀ s ∈ names, '\\' ∉ s) :
    '\\' ∉ (chain dir names).toList := by
  induction names generalizing dir with
  | nil => exact hdir
  | cons s names ih =>
    have hs := hnames s List.mem_cons_self
    exact ih (isAbsolute_child habsolute _) (fun t ht => hnames t (List.mem_cons_of_mem _ ht))
      (no_backslash_child habsolute hs hdir (hback s List.mem_cons_self))
      fun t ht => hback t (List.mem_cons_of_mem _ ht)

/-- The names of a chain are those of the directory and the ones behind it. -/
theorem resolved_chain (habsolute : isAbsolute dir) (hnames : ∀ s ∈ names, IsName s) :
    resolved (chain dir names) = resolved dir ++ names := by
  induction names generalizing dir with
  | nil => exact (List.append_nil _).symm
  | cons s names ih =>
    have hs := hnames s List.mem_cons_self
    have hrest := ih (isAbsolute_child habsolute (String.ofList s))
      fun t ht => hnames t (List.mem_cons_of_mem _ ht)
    rw [resolved_child habsolute hs, List.append_assoc] at hrest
    exact hrest

/-- **A path with names behind it has them in its normal form.** -/
theorem normalize_chain (habsolute : isAbsolute dir) (hnames : ∀ s ∈ names, IsName s)
    (hdir : '\\' ∉ dir.toList) (hback : ∀ s ∈ names, '\\' ∉ s) :
    normalize (chain dir names) = rooted (resolved dir ++ names) := by
  rw [normalize_eq_rooted (isAbsolute_chain habsolute hnames)
    (no_backslash_chain habsolute hnames hdir hback), resolved_chain habsolute hnames]

end Chain

/-! Going up from a path drops its last name, and slashes and `.` around it.  It works on the
characters from the end: they are trimmed, the name is dropped up to its slash, and what is left is
trimmed again.  Only the slash of the root is kept, which is why most statements have two cases. -/

/-- Only the root keeps the slash that it ends in. -/
theorem trimBackwards_slash_eq_self {r : List Char} (h : '/' :: r = trimBackwards ('/' :: r)) :
    trimBackwards ('/' :: r) = ['/'] := by
  rw [trimBackwards] at h ⊢
  split at h
  · next hr => rw [if_pos hr]
  · have hlength := length_trimBackwards_le r
    rw [← h, List.length_cons] at hlength
    omega

/-- What is dropped at the end of a path, which is read backwards: up to a slash, unless only the
root is left. -/
theorem trimBackwards_spec (cs : List Char) : ∃ dropped, cs = dropped ++ trimBackwards cs ∧
    (dropped = [] ∨ trimBackwards cs = ['/'] ∨ dropped.getLast? = some '/') := by
  fun_induction trimBackwards cs with
  | case1 r hr =>
    rw [List.isEmpty_iff.mp hr]
    exact ⟨[], rfl, Or.inl rfl⟩
  | case2 r hr ih =>
    obtain ⟨dropped, hcs, hcase⟩ := ih
    refine ⟨'/' :: dropped, ?_, ?_⟩
    · rw [List.cons_append, ← hcs]
    · rcases hcase with rfl | hroot | hlast
      · exact Or.inr (Or.inr rfl)
      · exact Or.inr (Or.inl hroot)
      · refine Or.inr (Or.inr ?_)
        rw [List.getLast?_cons, hlast]
        rfl
  | case3 r ih =>
    obtain ⟨dropped, hcs, hcase⟩ := ih
    refine ⟨'.' :: dropped, ?_, ?_⟩
    · rw [List.cons_append, ← hcs]
    · rcases hcase with rfl | hroot | hlast
      · exact Or.inr (Or.inl (trimBackwards_slash_eq_self hcs))
      · exact Or.inr (Or.inl hroot)
      · refine Or.inr (Or.inr ?_)
        rw [List.getLast?_cons, hlast]
        rfl
  | case4 cs => exact ⟨[], rfl, Or.inl rfl⟩

/-- Something is left of a path that is not empty. -/
theorem trimBackwards_ne_nil {cs : List Char} (h : cs ≠ []) : trimBackwards cs ≠ [] := by
  fun_induction trimBackwards cs with
  | case1 r hr => exact List.cons_ne_nil _ _
  | case2 r hr ih => exact ih (by simpa using hr)
  | case3 r ih => exact ih (List.cons_ne_nil _ _)
  | case4 cs => exact h

/-- A slash at the end is dropped, unless it is the root. -/
theorem trimBackwards_slash (r : List Char) : trimBackwards ('/' :: r) = ['/'] ∨
    ∃ dropped, '/' :: r = dropped ++ '/' :: trimBackwards ('/' :: r) := by
  obtain ⟨dropped, hcs, rfl | hroot | hlast⟩ := trimBackwards_spec ('/' :: r)
  · exact Or.inl (trimBackwards_slash_eq_self hcs)
  · exact Or.inl hroot
  · obtain ⟨before, rfl⟩ := List.getLast?_eq_some_iff.mp hlast
    rw [List.append_assoc] at hcs
    exact Or.inr ⟨before, hcs⟩

theorem dropWhile_slash {cs : List Char} (h : '/' ∈ cs) :
    ∃ r, cs.dropWhile (· != '/') = '/' :: r := by
  induction cs with
  | nil => cases h
  | cons c cs ih =>
    by_cases hc : c = '/'
    · exact ⟨cs, by simp [hc]⟩
    · rw [List.dropWhile_cons_of_pos (by simpa using hc)]
      exact ih (by simpa [Ne.symm hc] using h)

/-- What is trimmed ends in a slash only if it is the root, and never in `/.`. -/
theorem trimBackwards_trimmed (cs : List Char) :
    (∀ r, trimBackwards cs = '/' :: r → r = []) ∧ ∀ r, trimBackwards cs ≠ '.' :: '/' :: r := by
  fun_induction trimBackwards cs with
  | case1 r hr =>
    refine ⟨fun r h => (List.cons.inj h).2.symm, fun r h => ?_⟩
    have hchar : '/' = '.' := (List.cons.inj h).1
    exact absurd hchar (by decide)
  | case2 r hr ih => exact ih
  | case3 r ih => exact ih
  | case4 cs hslash hdot => exact ⟨fun r h => absurd h (hslash r), hdot⟩

/-- The path above an absolute path ends before the slash in front of its last segment.  That
segment is neither empty nor a `.`, as these are trimmed; it may be a `..`, and then going up leads
down. -/
theorem exists_of_parent? {dir above : String} (habsolute : isAbsolute dir)
    (h : parent? dir = some above) : ∃ r last, '/' ∉ last ∧ last ≠ [] ∧ last ≠ dot ∧
      trimBackwards dir.toList.reverse = last.reverse ++ '/' :: r ∧
      above.toList = (trimBackwards ('/' :: r)).reverse := by
  obtain ⟨outer, houter, -⟩ := trimBackwards_spec dir.toList.reverse
  obtain ⟨hroot, hdot⟩ := trimBackwards_trimmed dir.toList.reverse
  unfold parent? at h
  split at h
  · cases h
  · cases h
  · next x before hne htrim =>
    rw [htrim] at houter hroot hdot ⊢
    cases h
    have hx : x ≠ '/' := by
      rintro rfl
      exact hne rfl (hroot before rfl)
    -- an absolute path begins with a slash, which is the last character of those read backwards
    have hslash : '/' ∈ before := by
      have hhead := isAbsolute_iff.mp habsolute
      rw [← List.getLast?_reverse, houter, List.getLast?_append,
        List.getLast?_eq_some_getLast (List.cons_ne_nil _ _), Option.some_or,
        ← List.getLast?_eq_some_getLast (List.cons_ne_nil _ _)] at hhead
      cases before with
      | nil => exact absurd (by simpa using hhead) hx
      | cons y before =>
        rw [List.getLast?_cons_cons] at hhead
        exact List.mem_of_getLast? hhead
    obtain ⟨r, hr⟩ := dropWhile_slash hslash
    have hsplit : before.takeWhile (· != '/') ++ '/' :: r = before := by
      rw [← hr]
      exact List.takeWhile_append_dropWhile
    refine ⟨r, (x :: before.takeWhile (· != '/')).reverse, ?_, by simp, ?_, ?_, ?_⟩
    · rw [List.mem_reverse, List.mem_cons, not_or]
      exact ⟨Ne.symm hx, fun hmem => by simpa using List.all_eq_true.mp List.all_takeWhile _ hmem⟩
    · intro hlast
      rw [List.reverse_eq_iff] at hlast
      obtain ⟨rfl, hnil⟩ := List.cons.inj hlast
      rw [hnil] at hsplit
      exact hdot r (congrArg _ hsplit.symm)
    · rw [List.reverse_reverse, List.cons_append, hsplit]
    · rw [String.toList_ofList, hr]

/-- **The path of the directory above** is the root, or what stands before some slash. -/
theorem parent?_spec {dir above : String} (habsolute : isAbsolute dir) (h : parent? dir = some above) :
    isAbsolute above ∧ (∀ c ∈ above.toList, c ∈ dir.toList) ∧
      (above = "/" ∨ ∃ rest, dir.toList = above.toList ++ '/' :: rest) := by
  obtain ⟨r, last, -, -, -, htrim, habove⟩ := exists_of_parent? habsolute h
  obtain ⟨outer, houter, -⟩ := trimBackwards_spec dir.toList.reverse
  obtain ⟨after, hdir⟩ : ∃ after, dir.toList = ('/' :: r).reverse ++ after := by
    refine ⟨last ++ outer.reverse, ?_⟩
    rw [htrim, List.reverse_eq_iff] at houter
    simp [houter]
  rcases trimBackwards_slash r with hroot | ⟨dropped, hdropped⟩
  · have hslash : above = "/" := by
      rw [← String.toList_inj, habove, hroot]
      rfl
    subst hslash
    refine ⟨isAbsolute_iff.mpr rfl, ?_, Or.inl rfl⟩
    intro c hc
    have hc' : c = '/' := List.mem_singleton.mp hc
    rw [hc', hdir]
    simp
  · have hdir' : dir.toList = above.toList ++ '/' :: (dropped.reverse ++ after) := by
      have hreverse : ('/' :: r).reverse = above.toList ++ '/' :: dropped.reverse := by
        rw [habove]
        conv => lhs; rw [hdropped]
        simp
      rw [hdir, hreverse, List.append_assoc]
      rfl
    refine ⟨?_, ?_, Or.inr ⟨_, hdir'⟩⟩
    · have hhead := isAbsolute_iff.mp habsolute
      obtain ⟨c, rest, hrest⟩ := List.exists_cons_of_ne_nil
        (List.reverse_ne_nil_iff.mpr (trimBackwards_ne_nil (List.cons_ne_nil '/' r)))
      rw [hdir', habove, hrest] at hhead
      rw [isAbsolute_iff, habove, hrest]
      exact hhead
    · intro c hc
      rw [hdir']
      exact List.mem_append_left _ hc

end Path

/-! ## 2. Where a path leads

The look-up keeps the place it is at, with the way that led there, and goes up by dropping the last
step of the way.  The names on the way are therefore a stack, and each segment does to it what
`push` does to the names of the normal form. -/

namespace FileTree

theorem entry?_eq_lookup (tree : FileTree) (name : String) :
    tree.entry? name = tree.entries.lookup name := by
  cases tree <;> rfl

/-- What stands below a tree, name by name. -/
def below? (tree : FileTree) : List (List Char) → Option FileTree
  | [] => some tree
  | s :: names => (tree.entry? (String.ofList s)).bind fun t => below? t names

/-- Names can be followed in two stretches. -/
theorem below?_append (tree : FileTree) (a b : List (List Char)) :
    tree.below? (a ++ b) = (tree.below? a).bind fun t => t.below? b := by
  induction a generalizing tree with
  | nil => rfl
  | cons s a ih =>
    rw [List.cons_append, below?, below?, Option.bind_assoc]
    exact congrArg _ (funext ih)

/-- The names on the way to a place, from the root on. -/
def Place.names (p : Place) : List (List Char) := (p.way.map (·.1.toList)).reverse

/-- The way of a place is kept in reverse, from the place up. -/
theorem below?_of_leads {root tree : FileTree} {way : List (String × FileTree)}
    (h : Leads root tree way) : root.below? (way.map (·.1.toList)).reverse = some tree := by
  induction way generalizing tree with
  | nil =>
    cases h
    rfl
  | cons e way ih =>
    obtain ⟨name, above⟩ := e
    rw [List.map_cons, List.reverse_cons, below?_append, ih h.2, Option.bind_some, below?,
      String.ofList_toList, entry?_eq_lookup, h.1]
    rfl

/-- The names on the way lead to the place. -/
theorem below?_names {root : FileTree} {path : String} {p : Place} (h : root.locate path = .ok p) :
    root.below? p.names = some p.tree := below?_of_leads (leads_of_locate h)

theorem ofList_eq_iff {cs : List Char} {text : String} : String.ofList cs = text ↔ cs = text.toList := by
  constructor
  · rintro rfl
    exact String.toList_ofList.symm
  · rintro rfl
    exact String.ofList_toList

/-- **One segment is looked up as it is read.**  The two are compared case by case; that a name on
the way is never `..` is what makes a step up drop a name in both. -/
theorem names_step {p q : Place} {s : List Char} (hp : ∀ t ∈ p.names, Path.IsName t)
    (h : p.step (String.ofList s) = .ok q) :
    q.way.map (·.1.toList) = Path.push true (p.way.map (·.1.toList)) s := by
  have hstay : (String.ofList s = "" ∨ String.ofList s = ".") ↔ (s = [] ∨ s = Path.dot) := by
    rw [ofList_eq_iff, ofList_eq_iff]
    rfl
  have hup : String.ofList s = ".." ↔ s = Path.dots := ofList_eq_iff
  unfold Place.step at h
  split at h
  · cases h
  · next entries htree =>
    simp only [hstay, hup] at h
    unfold Path.push
    split at h
    · next hs =>
      cases h
      rw [if_pos hs]
    · next hs =>
      rw [if_neg hs]
      split at h
      · next hs =>
        rw [if_pos hs]
        split at h
        · next hway =>
          cases h
          rw [hway]
          rfl
        · next name above way hway =>
          cases h
          have hname : name.toList ≠ Path.dots := by
            refine (hp name.toList ?_).ne_dots
            simp [Place.names, hway]
          rw [hway, List.map_cons]
          exact (if_neg hname).symm
      · next hs =>
        rw [if_neg hs]
        split at h
        · cases h
          rw [List.map_cons, String.toList_ofList]
        · cases h

/-- All segments in turn.  A segment has no slash, so one that is a name stays a name on the way. -/
theorem names_foldlM {p q : Place} {segments : List (List Char)} (hp : ∀ t ∈ p.names, Path.IsName t)
    (hsegments : ∀ s ∈ segments, '/' ∉ s)
    (h : (segments.map String.ofList).foldlM Place.step p = .ok q) :
    q.way.map (·.1.toList) = segments.foldl (Path.push true) (p.way.map (·.1.toList)) := by
  induction segments generalizing p with
  | nil =>
    cases h
    rfl
  | cons s segments ih =>
    rw [List.map_cons, List.foldlM_cons] at h
    match hs : p.step (String.ofList s) with
    | .error e =>
      rw [hs] at h
      cases h
    | .ok r =>
      rw [hs] at h
      have hr := names_step hp hs
      rw [List.foldl_cons, ← hr]
      refine ih ?_ (fun t ht => hsegments t (List.mem_cons_of_mem _ ht)) h
      intro t ht
      rw [Place.names, List.mem_reverse, hr] at ht
      refine Path.isName_push ?_ (hsegments s List.mem_cons_self) t ht
      intro t ht
      exact hp t (List.mem_reverse.mpr ht)

/-- **Where a path leads, the names on the way are those of its normal form.** -/
theorem Place.names_of_locate {root : FileTree} {path : String} {p : Place}
    (h : root.locate path = .ok p) : p.names = Path.resolved path := by
  unfold locate at h
  split at h
  · rw [Place.names, names_foldlM (by simp [Place.names])
      (fun s hs => Path.no_slash_of_mem_splitSegments hs) h]
    rfl
  · cases h

/-- A relative path leads nowhere. -/
theorem isAbsolute_of_locate {root : FileTree} {path : String} {p : Place}
    (h : root.locate path = .ok p) : Path.isAbsolute path := by
  unfold locate at h
  split at h
  · next habsolute => exact habsolute
  · cases h

/-! ## 3. Names behind a path

A walk builds the paths of what it finds by writing names behind the path that it started from,
which need not be normal.  Looking up such a path goes to the start first and then follows the
names. -/

section Down

variable {root : FileTree} {dir : String} {p : Place} {s : List Char} {names : List (List Char)}

/-- An empty segment changes nothing about the one after it. -/
theorem step_empty_bind (p : Place) (segment : String) :
    (p.step "" >>= fun q => q.step segment) = p.step segment := by
  cases htree : p.tree with
  | file content =>
    have hfile : ∀ segment, p.step segment = .error .notDirectory := by
      intro segment
      rw [Place.step, htree]
    rw [hfile, hfile]
    rfl
  | directory entries =>
    have hstay : p.step "" = .ok p := by
      rw [Place.step, htree]
      exact if_pos (Or.inl rfl)
    rw [hstay]
    rfl

/-- Looking up a child: the directory, and then the name among its entries. -/
theorem locate_child (habsolute : Path.isAbsolute dir) (hs : Path.IsName s) :
    root.locate (Path.child dir (String.ofList s))
      = root.locate dir >>= fun p => p.step (String.ofList s) := by
  obtain ⟨segments, hdir, hchild⟩ := Path.splitSegments_child habsolute hs
  rw [locate, locate, if_pos habsolute, if_pos (Path.isAbsolute_child habsolute _), hchild,
    List.map_append, List.foldlM_append]
  rcases hdir with hdir | hdir
  · rw [hdir]
    simp only [List.map_cons, List.map_nil, List.foldlM_cons, List.foldlM_nil, bind_pure]
  · rw [hdir, List.map_append, List.foldlM_append, bind_assoc]
    refine congrArg _ (funext fun p => ?_)
    simp only [List.map_cons, List.map_nil, List.foldlM_cons, List.foldlM_nil, bind_pure]
    exact (step_empty_bind p _).symm

/-- A name is looked up among the entries. -/
theorem step_eq_ok_iff {q : Place} (hs : Path.IsName s) :
    p.step (String.ofList s) = .ok q ↔
      ∃ t, p.tree.entry? (String.ofList s) = some t ∧ q = ⟨t, (String.ofList s, p.tree) :: p.way⟩ := by
  have hstay : ¬ (String.ofList s = "" ∨ String.ofList s = ".") := by
    rw [ofList_eq_iff, ofList_eq_iff, not_or]
    exact ⟨hs.ne_nil, hs.ne_dot⟩
  have hup : ¬ String.ofList s = ".." := by
    rw [ofList_eq_iff]
    exact hs.ne_dots
  rw [Place.step]
  cases htree : p.tree with
  | file content => simp [ entry?]
  | directory entries =>
    simp only [if_neg hstay, if_neg hup, entry?]
    cases entries.lookup (String.ofList s) with
    | none => simp
    | some t => simp [eq_comm]

/-- **A path with names behind it leads to where the names lead.** -/
theorem locate_chain (hp : root.locate dir = .ok p) (hnames : ∀ s ∈ names, Path.IsName s)
    {t : FileTree} (h : p.tree.below? names = some t) :
    ∃ q, root.locate (Path.chain dir names) = .ok q ∧ q.tree = t := by
  induction names generalizing dir p with
  | nil => exact ⟨p, hp, Option.some.inj h⟩
  | cons s names ih =>
    have hs := hnames s List.mem_cons_self
    rw [below?, Option.bind_eq_some_iff] at h
    obtain ⟨t', hentry, h⟩ := h
    have hchild : root.locate (Path.child dir (String.ofList s))
        = .ok ⟨t', (String.ofList s, p.tree) :: p.way⟩ := by
      rw [locate_child (isAbsolute_of_locate hp) hs, hp]
      exact (step_eq_ok_iff hs).mpr ⟨t', hentry, rfl⟩
    exact ih hchild (fun t ht => hnames t (List.mem_cons_of_mem _ ht)) h

/-- **Where a path with names behind it leads, the names lead from the path.** -/
theorem below?_of_locate_chain {q : Place} (hnames : ∀ s ∈ names, Path.IsName s)
    (h : root.locate (Path.chain dir names) = .ok q) :
    ∃ p, root.locate dir = .ok p ∧ p.tree.below? names = some q.tree := by
  induction names generalizing dir with
  | nil => exact ⟨q, h, rfl⟩
  | cons s names ih =>
    have hs := hnames s List.mem_cons_self
    obtain ⟨p', hp', hbelow⟩ := ih (fun t ht => hnames t (List.mem_cons_of_mem _ ht)) h
    have habsolute : Path.isAbsolute dir := Path.isAbsolute_of_child hs (isAbsolute_of_locate hp')
    rw [locate_child habsolute hs] at hp'
    cases hp : root.locate dir with
    | error e =>
      rw [hp] at hp'
      cases hp'
    | ok p =>
      rw [hp] at hp'
      obtain ⟨t, hentry, rfl⟩ := (step_eq_ok_iff hs).mp hp'
      exact ⟨p, rfl, by rw [below?, hentry, Option.bind_some, hbelow]⟩

/-- **A walk finds every file** that names lead to, if no entry on the way is left out.  The entries
on the way are the chains of some first names, and the file itself is the last of them. -/
theorem mem_walk {keep : String → Bool} {tree : FileTree} {content : List UInt8}
    (h : tree.below? names = some (.file content))
    (hkeep : ∀ first others, names = first ++ others → first ≠ [] → keep (Path.chain dir first) = true) :
    Path.chain dir names ∈ walk (fun _ _ _ => ()) (fun _ below _ _ => keep below) () dir tree := by
  induction names generalizing dir tree with
  | nil =>
    cases h
    rw [walk]
    exact List.mem_singleton_self _
  | cons s names ih =>
    rw [below?, Option.bind_eq_some_iff] at h
    obtain ⟨t, hentry, h⟩ := h
    cases tree with
    | file _ => cases hentry
    | directory entries =>
      rw [walk]
      refine mem_walkEntries hentry (hkeep [s] names rfl (List.cons_ne_nil _ _)) (ih h ?_)
      intro first others hsplit _
      refine hkeep (s :: first) others ?_ (List.cons_ne_nil _ _)
      rw [hsplit, List.cons_append]

end Down

/-! ## 4. The directory that holds a directory

A path on the way to a directory leads to a directory.  The path above another is on the way to it,
or is the root. -/

/-- There is a directory at the end of the path. -/
def HasDirectory (root : FileTree) (path : String) : Prop :=
  ∃ p entries, root.locate path = .ok p ∧ p.tree = .directory entries

/-- The question that programs ask, and what it means. -/
theorem hasDirectory_iff {root : FileTree} {path : String} :
    root.isDirectory path = true ↔ root.HasDirectory path := by
  rw [isDirectory, find?]
  cases hlocate : root.locate path with
  | error e =>
    refine iff_of_false nofun ?_
    rintro ⟨p, entries, hp, -⟩
    rw [hlocate] at hp
    cases hp
  | ok p =>
    simp only [Except.toOption, Option.map_some]
    constructor
    · intro h
      cases htree : p.tree with
      | file content =>
        rw [htree] at h
        cases h
      | directory entries => exact ⟨p, entries, hlocate, htree⟩
    · rintro ⟨q, entries, hq, htree⟩
      rw [hlocate, Except.ok.injEq] at hq
      rw [hq, htree]

/-- Only a directory can be gone on from. -/
theorem exists_directory_of_foldlM {p q : Place} {segments : List String} (hne : segments ≠ [])
    (h : segments.foldlM Place.step p = .ok q) : ∃ entries, p.tree = .directory entries := by
  cases segments with
  | nil => exact absurd rfl hne
  | cons s segments =>
    cases htree : p.tree with
    | file content =>
      have hstep : p.step s = .error .notDirectory := by rw [Place.step, htree]
      rw [List.foldlM_cons, hstep] at h
      cases h
    | directory entries => exact ⟨entries, rfl⟩

/-- Any directory at all is below the root. -/
theorem hasDirectory_root {root : FileTree} {path : String} (h : root.HasDirectory path) :
    root.HasDirectory "/" := by
  obtain ⟨p, entries, hp, -⟩ := h
  rw [locate, if_pos (isAbsolute_of_locate hp)] at hp
  have hne : (Path.splitSegments path.toList).map String.ofList ≠ [] := by
    simpa using Path.splitSegments_ne_nil path.toList
  obtain ⟨entries, hroot⟩ := exists_directory_of_foldlM hne hp
  have htree : root = .directory entries := hroot
  subst htree
  have hslash : Path.isAbsolute "/" := Path.isAbsolute_iff.mpr rfl
  have hsegments : (Path.splitSegments "/".toList).map String.ofList = ["", ""] := rfl
  refine ⟨⟨.directory entries, []⟩, entries, ?_, rfl⟩
  rw [locate, if_pos hslash, hsegments]
  rfl

/-- What stands before a slash is on the way: the look-up has been there. -/
theorem hasDirectory_of_append {root : FileTree} {dir above : String} {rest : List Char}
    (h : root.HasDirectory dir) (habsolute : Path.isAbsolute above)
    (hdir : dir.toList = above.toList ++ '/' :: rest) : root.HasDirectory above := by
  obtain ⟨p, entries, hp, -⟩ := h
  rw [locate, if_pos (isAbsolute_of_locate hp), hdir, Path.splitSegments_append_slash,
    List.map_append, List.foldlM_append] at hp
  match hq : ((Path.splitSegments above.toList).map String.ofList).foldlM Place.step ⟨root, []⟩ with
  | .error e =>
    rw [hq] at hp
    cases hp
  | .ok q =>
    rw [hq] at hp
    have hne : (Path.splitSegments rest).map String.ofList ≠ [] := by
      simpa using Path.splitSegments_ne_nil rest
    obtain ⟨entries, htree⟩ := exists_directory_of_foldlM hne hp
    refine ⟨q, entries, ?_, htree⟩
    rw [locate, if_pos habsolute, hq]

/-- **The directory that holds a directory is there.** -/
theorem hasDirectory_parent {root : FileTree} {dir above : String} (h : root.HasDirectory dir)
    (hparent : Path.parent? dir = some above) : root.HasDirectory above := by
  have habsolute : Path.isAbsolute dir := by
    obtain ⟨p, entries, hp, -⟩ := h
    exact isAbsolute_of_locate hp
  obtain ⟨habove, -, rfl | ⟨rest, hdir⟩⟩ := Path.parent?_spec habsolute hparent
  · exact hasDirectory_root h
  · exact hasDirectory_of_append h habove hdir

end FileTree

end ComponentHost
