/-
# Paths as they are shown

A file is matched and listed under the normal form of its path.  There a backslash is a slash, while
on disk it is part of a name.  So one name on disk can stand for several names of the normal form,
or for none; and with `..` between its backslashes it leads out of the directory that holds it.

What is shown of a path is read segment by segment all the same (`shown_eq_foldl`), and it goes on
from what is shown of its directory (`shown_child`).  A name that leads below its directory
(`leadsBelow`) adds its parts and takes nothing away (`shown_chain`).  Every name without a
backslash is of that kind (`leadsBelow_of_no_backslash`).

So two walks that start from different spellings of a path list the same, if what is left out is
decided by what is shown (`map_filesKeeping_congr`).
-/
import ComponentHost.Proofs.FileWays

namespace ComponentHost

namespace Path

/-! ## 1. Names that are shown

The normal form is computed from all segments at once, after the backslashes were made slashes.  To
follow a path from directory to entry it is needed one segment at a time.  That is possible because
a slash stays where it is, so each segment on disk gives some segments of the normal form, and these
are read in turn. -/

/-- The names of the normal form of an absolute path. -/
def shown (path : String) : List (List Char) := resolve true (splitSegments (slashed path.toList))

theorem isName_shown (path : String) : ∀ s ∈ shown path, IsName s :=
  isName_resolve fun _ hs => no_slash_of_mem_splitSegments hs

/-- The normal form of an absolute path is made of the names that are shown. -/
theorem normalize_eq_rooted_shown {path : String} (habsolute : isAbsolute path) :
    normalize path = rooted (shown path) := by
  have hhead : (slashed path.toList).head? = some '/' := by
    simp [slashed, isAbsolute_iff.mp habsolute]
  simp only [normalize, normalizeChars, hhead, beq_self_eq_true, if_true]
  rfl

/-- Takes one more segment of a path on disk, with its backslashes as separators. -/
def pushShown (read : List (List Char)) (s : List Char) : List (List Char) :=
  (splitSegments (slashed s)).foldl (push true) read

@[simp] theorem pushShown_nil (read : List (List Char)) : pushShown read [] = read := by
  simp [pushShown, slashed, splitSegments, push]

@[simp] theorem pushShown_dot (read : List (List Char)) : pushShown read dot = read := by
  simp [pushShown, slashed, splitSegments, push, dot]

theorem foldl_push_append (read : List (List Char)) (a b : List Char) :
    (splitSegments (slashed (a ++ '/' :: b))).foldl (push true) read
      = pushShown (pushShown read a) b := by
  rw [slashed_append, splitSegments_append_slash, List.foldl_append]
  rfl

/-- **What is shown of a path is read segment by segment.** -/
theorem shown_eq_foldl (path : String) :
    shown path = ((splitSegments path.toList).foldl pushShown []).reverse := by
  have hfold : ∀ (segments : List (List Char)) (read : List (List Char)), segments ≠ [] →
      pushShown read (joinSegments segments) = segments.foldl pushShown read := by
    intro segments
    induction segments with
    | nil => exact fun read hne => absurd rfl hne
    | cons s segments ih =>
      intro read _
      cases segments with
      | nil => rfl
      | cons s' segments =>
        rw [joinSegments_cons_cons, List.foldl_cons, ← ih _ (by simp)]
        exact foldl_push_append read s _
  rw [← hfold _ _ (splitSegments_ne_nil _), joinSegments_splitSegments]
  rfl

section Child

variable {dir name : String}

/-- **What is shown of an entry goes on from what is shown of its directory.** -/
theorem shown_child (habsolute : isAbsolute dir) (hname : ¬ isAbsolute name) :
    shown (child dir name) = (pushShown (shown dir).reverse name.toList).reverse := by
  obtain ⟨before, hdir, hchild⟩ := toList_child_of_relative habsolute hname
  have hbefore : (shown dir).reverse = pushShown [] before := by
    rw [shown, resolve, List.reverse_reverse]
    rcases hdir with hdir | hdir
    · rw [hdir]
      rfl
    · rw [hdir, foldl_push_append, pushShown_nil]
  rw [hbefore, shown, resolve, hchild, foldl_push_append]

/-- Two spellings of a directory that are shown alike have entries that are shown alike. -/
theorem shown_child_congr {dir' : String} (habsolute : isAbsolute dir) (habsolute' : isAbsolute dir')
    (h : shown dir = shown dir') (name : String) : shown (child dir name) = shown (child dir' name) := by
  by_cases hname : isAbsolute name
  · rw [child, child, if_pos (by simp [hname]), if_pos (by simp [hname])]
  · rw [shown_child habsolute hname, shown_child habsolute' hname, h]

end Child

/-! ## 2. Names that lead below their directory

Whether a name leads below its directory can be told without the directory: it is read as a relative
path.  If that does not leave its start, no step up in it has reached what stands before, and then
it is read in the same way behind anything. -/

/-- The parts of a name, with backslashes as separators and steps up resolved. -/
def partsOf (s : List Char) : List (List Char) := resolve false (splitSegments (slashed s))

/-- Does a name lead below the directory that holds it, if its backslashes are separators? -/
def leadsBelow (s : List Char) : Bool := partsOf s ≠ [] && dots ∉ partsOf s

/-- A step up that leaves a relative path behind is kept for good. -/
theorem dots_mem_push {read : List (List Char)} (s : List Char) (h : dots ∈ read) :
    dots ∈ push false read s := by
  unfold push
  split
  · exact h
  · split
    · cases read with
      | nil => cases h
      | cons last before =>
        by_cases hlast : last = dots
        · simp [hlast]
        · simpa [hlast, Ne.symm hlast] using h
    · exact List.mem_cons_of_mem _ h

theorem dots_mem_foldl_push (segments : List (List Char)) {read : List (List Char)} (h : dots ∈ read) :
    dots ∈ segments.foldl (push false) read := by
  induction segments generalizing read with
  | nil => exact h
  | cons s segments ih => exact ih (dots_mem_push s h)

/-- One segment of a relative path that does not leave its start is read as behind any path. -/
theorem push_append {read behind : List (List Char)} {s : List Char}
    (h : dots ∉ push false read s) : push true (read ++ behind) s = push false read s ++ behind := by
  unfold push at h ⊢
  split
  · rfl
  · next hstays =>
    rw [if_neg hstays] at h
    split
    · next hup =>
      rw [if_pos hup] at h
      cases read with
      | nil => simp at h
      | cons last before =>
        by_cases hlast : last = dots
        · simp [hlast] at h
        · simp [hlast]
    · rfl

/-- Segments that do not leave their start are read as behind any other path. -/
theorem foldl_push_behind {segments read behind : List (List Char)}
    (h : dots ∉ segments.foldl (push false) read) :
    segments.foldl (push true) (read ++ behind) = segments.foldl (push false) read ++ behind := by
  induction segments generalizing read with
  | nil => rfl
  | cons s segments ih =>
    have hs : dots ∉ push false read s := fun hmem => h (dots_mem_foldl_push segments hmem)
    rw [List.foldl_cons, List.foldl_cons, push_append hs, ih h]

/-- **A name that leads below its directory adds its parts**, and takes nothing away. -/
theorem pushShown_of_leadsBelow {s : List Char} (h : leadsBelow s = true)
    (read : List (List Char)) : pushShown read s = (partsOf s).reverse ++ read := by
  have hdots : dots ∉ (splitSegments (slashed s)).foldl (push false) [] := by
    have hparts : dots ∉ partsOf s := by
      rw [leadsBelow, Bool.and_eq_true] at h
      simpa using h.2
    simpa [partsOf, resolve] using hparts
  rw [pushShown, partsOf, resolve, List.reverse_reverse, ← foldl_push_behind hdots, List.nil_append]

theorem partsOf_ne_nil {s : List Char} (h : leadsBelow s = true) : partsOf s ≠ [] := by
  rw [leadsBelow, Bool.and_eq_true] at h
  simpa using h.1

/-- A name without a backslash has one part, itself. -/
theorem partsOf_of_no_backslash {s : List Char} (hs : IsName s) (hback : '\\' ∉ s) :
    partsOf s = [s] := by
  rw [partsOf, slashed_of_no_backslash hback, splitSegments_of_no_slash hs.no_slash, resolve,
    List.foldl_cons, List.foldl_nil, push_of_isName _ _ hs]
  rfl

theorem leadsBelow_of_no_backslash {s : List Char} (hs : IsName s) (hback : '\\' ∉ s) :
    leadsBelow s = true := by
  simp [leadsBelow, partsOf_of_no_backslash hs hback, Ne.symm hs.ne_dots]

/-- **A path with names behind it that lead below shows the parts of these names.** -/
theorem shown_chain {dir : String} {names : List (List Char)} (habsolute : isAbsolute dir)
    (hnames : ∀ s ∈ names, IsName s) (hbelow : ∀ s ∈ names, leadsBelow s = true) :
    shown (chain dir names) = shown dir ++ names.flatMap partsOf := by
  induction names generalizing dir with
  | nil => simp [chain]
  | cons s names ih =>
    have hs := hnames s List.mem_cons_self
    have hrest := ih (isAbsolute_child habsolute (String.ofList s))
      (fun t ht => hnames t (List.mem_cons_of_mem _ ht))
      fun t ht => hbelow t (List.mem_cons_of_mem _ ht)
    have hchild : shown (child dir (String.ofList s)) = shown dir ++ partsOf s := by
      rw [shown_child habsolute (not_isAbsolute_of_isName hs), String.toList_ofList,
        pushShown_of_leadsBelow (hbelow s List.mem_cons_self)]
      simp
    rw [hchild, List.append_assoc] at hrest
    exact hrest

theorem shown_chain_of_no_backslash {dir : String} {names : List (List Char)}
    (habsolute : isAbsolute dir) (hnames : ∀ s ∈ names, IsName s) (hback : ∀ s ∈ names, '\\' ∉ s) :
    shown (chain dir names) = shown dir ++ names := by
  have hbelow : ∀ s ∈ names, leadsBelow s = true := fun s hs =>
    leadsBelow_of_no_backslash (hnames s hs) (hback s hs)
  have hparts : names.flatMap partsOf = names := by
    rw [List.flatMap_congr fun s hs => partsOf_of_no_backslash (hnames s hs) (hback s hs)]
    exact List.flatMap_singleton' names
  rw [shown_chain habsolute hnames hbelow, hparts]

end Path

/-! ## 3. Walks from two spellings of a path

A walk builds the paths of the files from that of its root.  So two walks of one tree differ in
nothing but how the root is spelled, and what is shown does not depend on it. -/

namespace FileTree

section Absolute

variable {keep : String → Bool} {x : String}

mutual

/-- The paths of a walk are absolute. -/
theorem isAbsolute_of_mem_walk : ∀ {tree : FileTree} {dir : String}, Path.isAbsolute dir →
    x ∈ walk (fun _ _ _ => ()) (fun _ below _ _ => keep below) () dir tree → Path.isAbsolute x
  | .file content, dir, hdir, hx => by
    rw [walk, List.mem_singleton] at hx
    exact hx ▸ hdir
  | .directory entries, dir, hdir, hx => by
    rw [walk] at hx
    exact isAbsolute_of_mem_walkEntries hdir hx

theorem isAbsolute_of_mem_walkEntries : ∀ {entries : List (String × FileTree)} {dir : String},
    Path.isAbsolute dir →
    x ∈ walkEntries (fun _ _ _ => ()) (fun _ below _ _ => keep below) () dir entries →
    Path.isAbsolute x
  | [], dir, _, hx => by
    rw [walkEntries] at hx
    cases hx
  | (name, tree) :: entries, dir, hdir, hx => by
    rw [walkEntries, List.mem_append] at hx
    rcases hx with hx | hx
    · split at hx
      · exact isAbsolute_of_mem_walk (Path.isAbsolute_child hdir name) hx
      · cases hx
    · exact isAbsolute_of_mem_walkEntries hdir hx

end

theorem isAbsolute_of_mem_filesKeeping {root : FileTree} {dir : String}
    (hdir : Path.isAbsolute dir) (hx : x ∈ root.filesKeeping keep dir) : Path.isAbsolute x := by
  rw [filesKeeping] at hx
  split at hx
  · exact isAbsolute_of_mem_walk hdir hx
  · cases hx

end Absolute

section Shown

variable {good : String → Bool}

mutual

/-- **Two walks from paths that are shown alike find files that are shown alike**, if only what is
shown decides what is left out. -/
theorem map_walk_congr : ∀ {tree : FileTree} {a b : String}, Path.isAbsolute a → Path.isAbsolute b →
    Path.shown a = Path.shown b →
    (walk (fun _ _ _ => ()) (fun _ below _ _ => good (Path.normalize below)) () a tree).map Path.normalize
      = (walk (fun _ _ _ => ()) (fun _ below _ _ => good (Path.normalize below)) () b tree).map
        Path.normalize
  | .file content, a, b, ha, hb, h => by
    rw [walk, walk, List.map_singleton, List.map_singleton, Path.normalize_eq_rooted_shown ha,
      Path.normalize_eq_rooted_shown hb, h]
  | .directory entries, a, b, ha, hb, h => by
    rw [walk, walk]
    exact map_walkEntries_congr ha hb h

theorem map_walkEntries_congr : ∀ {entries : List (String × FileTree)} {a b : String},
    Path.isAbsolute a → Path.isAbsolute b → Path.shown a = Path.shown b →
    (walkEntries (fun _ _ _ => ()) (fun _ below _ _ => good (Path.normalize below)) () a entries).map
        Path.normalize
      = (walkEntries (fun _ _ _ => ()) (fun _ below _ _ => good (Path.normalize below)) () b entries).map
        Path.normalize
  | [], a, b, _, _, _ => by rw [walkEntries, walkEntries]
  | (name, tree) :: entries, a, b, ha, hb, h => by
    have ha' := Path.isAbsolute_child ha name
    have hb' := Path.isAbsolute_child hb name
    have hchild := Path.shown_child_congr ha hb h name
    have hsame : Path.normalize (Path.child a name) = Path.normalize (Path.child b name) := by
      rw [Path.normalize_eq_rooted_shown ha', Path.normalize_eq_rooted_shown hb', hchild]
    rw [walkEntries, walkEntries, List.map_append, List.map_append, map_walkEntries_congr ha hb h]
    refine congrArg (· ++ _) ?_
    simp only [hsame]
    split
    · exact map_walk_congr ha' hb' hchild
    · rfl

end

/-- **Two spellings of a path that are shown alike and lead to the same entry list the same files.**
-/
theorem map_filesKeeping_congr (good : String → Bool) {root : FileTree} {a b : String} (ha : Path.isAbsolute a)
    (hb : Path.isAbsolute b) (hshown : Path.shown a = Path.shown b)
    (hfind : root.find? a = root.find? b) :
    (root.filesKeeping (fun below => good (Path.normalize below)) a).map Path.normalize
      = (root.filesKeeping (fun below => good (Path.normalize below)) b).map Path.normalize := by
  rw [filesKeeping, filesKeeping, hfind]
  split
  · exact map_walk_congr ha hb hshown
  · rfl

end Shown

end FileTree

end ComponentHost
