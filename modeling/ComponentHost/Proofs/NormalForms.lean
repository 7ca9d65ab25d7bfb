/-
# The normal form of a path

Every table of the host is kept under normal paths, so all spellings of a path must have one normal
form.  What a normal path is, is said here by its text (`Normal`), and which paths are spellings of
it by rules that drop segments (`Shortens`): a segment that is empty or stays, a name with the step
up behind it, and a step up at the root.

* The normal form of a path is normal, the path shortens to it, and it is the only such path
  (`eq_normalize_iff`).
* So a normal path is its own normal form (`Normal.normalize_eq`).
* An absolute path may be brought to its normal form at any slash, before what follows is read
  (`normalize_append_slash`).  Relative paths may not: the normal form of `.` is empty, and a slash
  behind it would lead to the root.
-/
import ComponentHost.Proofs.ShownPaths
import Mathlib.Logic.Relation

namespace ComponentHost.Path

open Relation (ReflTransGen)

/-! ## 1. Shortening

The rules may be applied in any order and anywhere in a path; the reader goes through the segments
once, from the left.  Each of its steps is a use of one rule or of none.  And no rule changes what
the reader makes of the path, so all ways of shortening end in the same normal path. -/

/-- One rule applied to the segments of a path. -/
inductive Shortens (absolute : Bool) : List (List Char) → List (List Char) → Prop
  | empty (before after : List (List Char)) :
    Shortens absolute (before ++ [] :: after) (before ++ after)
  | stay (before after : List (List Char)) :
    Shortens absolute (before ++ dot :: after) (before ++ after)
  | turn (before after : List (List Char)) {s : List Char} (hs : IsName s) :
    Shortens absolute (before ++ s :: dots :: after) (before ++ after)
  | root (after : List (List Char)) (h : absolute = true) : Shortens absolute (dots :: after) after

section Rules

variable {absolute : Bool}

/-- What is read of a path, forwards. -/
theorem isRead_reverse_iff {segments : List (List Char)} :
    IsRead absolute segments.reverse ↔ ∃ n names, segments = List.replicate n dots ++ names ∧
      (∀ s ∈ names, IsName s) ∧ (absolute = true → n = 0) := by
  constructor
  · intro h
    obtain ⟨read, rfl⟩ : ∃ read : List (List Char), segments = read.reverse :=
      ⟨_, segments.reverse_reverse.symm⟩
    rw [List.reverse_reverse] at h
    induction h with
    | ups n h =>
      refine ⟨n, [], ?_, fun s hs => absurd hs List.not_mem_nil, h⟩
      rw [List.reverse_replicate, List.append_nil]
    | @name s read hs _ ih =>
      obtain ⟨n, names, hread, hnames, hups⟩ := ih
      refine ⟨n, names ++ [s], ?_, ?_, hups⟩
      · rw [List.reverse_cons, hread, List.append_assoc]
      · intro t ht
        rcases List.mem_append.mp ht with ht | ht
        · exact hnames t ht
        · exact List.mem_singleton.mp ht ▸ hs
  · rintro ⟨n, names, rfl, hnames, hups⟩
    rw [List.reverse_append, List.reverse_replicate]
    induction names using List.reverseRecOn with
    | nil => exact .ups n hups
    | append_singleton names s ih =>
      rw [List.reverse_append]
      refine .name (hnames s (by simp)) (ih ?_)
      exact fun t ht => hnames t (List.mem_append_left _ ht)

/-- What is read of a path can be written between slashes. -/
theorem IsRead.ne_nil_and_no_slash {read : List (List Char)} (h : IsRead absolute read) :
    ∀ s ∈ read, s ≠ [] ∧ '/' ∉ s := by
  induction h with
  | ups n _ =>
    intro s hs
    rw [List.eq_of_mem_replicate hs]
    decide
  | name hs _ ih => exact List.forall_mem_cons.mpr ⟨⟨hs.ne_nil, hs.no_slash⟩, ih⟩

/-- A step up cancels the name before it. -/
theorem push_dots_of_isName {s : List Char} (hs : IsName s) (read : List (List Char)) :
    push absolute (s :: read) dots = read := by
  have hup : ¬ (dots = [] ∨ dots = dot) := by decide
  unfold push
  rw [if_neg hup, if_pos rfl]
  exact if_neg hs.ne_dots

/-- **One segment** is read by the rules. -/
theorem shortens_push {read : List (List Char)} (hread : IsRead absolute read) (s : List Char)
    (rest : List (List Char)) :
    ReflTransGen (Shortens absolute) (read.reverse ++ s :: rest)
      ((push absolute read s).reverse ++ rest) := by
  have hkept : (s :: read).reverse ++ rest = read.reverse ++ s :: rest := by simp
  unfold push
  split
  · next hstays =>
    rcases hstays with rfl | rfl
    · exact .single (.empty _ _)
    · exact .single (.stay _ _)
  · split
    · next hdots =>
      subst hdots
      cases hread with
      | @name last before hlast hbefore =>
        simp only [hlast.ne_dots, if_false, List.reverse_cons, List.append_assoc,
          List.singleton_append]
        exact .single (.turn _ _ hlast)
      | ups n h =>
        cases absolute with
        | true =>
          rw [h rfl]
          exact .single (.root rest rfl)
        | false =>
          cases n with
          | zero => exact .refl
          | succ n => exact hkept ▸ .refl
    · exact hkept ▸ .refl

/-- **All segments**: a path shortens to what is left of it. -/
theorem shortens_foldl_push {segments read : List (List Char)} (hread : IsRead absolute read)
    (h : ∀ s ∈ segments, '/' ∉ s) :
    ReflTransGen (Shortens absolute) (read.reverse ++ segments)
      (segments.foldl (push absolute) read).reverse := by
  induction segments generalizing read with
  | nil =>
    rw [List.append_nil]
    exact .refl
  | cons s segments ih =>
    obtain ⟨hs, hsegments⟩ := List.forall_mem_cons.mp h
    exact (shortens_push hread s segments).trans (ih (hread.push hs) hsegments)

/-- No rule changes what is left of a path. -/
theorem Shortens.resolve_eq {segments shorter : List (List Char)}
    (h : Shortens absolute segments shorter) :
    resolve absolute segments = resolve absolute shorter := by
  cases h with
  | empty before after => simp [resolve, push]
  | stay before after => simp [resolve, push]
  | turn before after hs => simp [resolve, push_of_isName absolute _ hs, push_dots_of_isName hs]
  | root after hroot =>
    subst hroot
    simp [resolve, push, dots, dot]

theorem resolve_eq_of_shortens {segments shorter : List (List Char)}
    (h : ReflTransGen (Shortens absolute) segments shorter) :
    resolve absolute segments = resolve absolute shorter := by
  induction h with
  | refl => rfl
  | tail _ hlast ih => exact ih.trans hlast.resolve_eq

/-- Steps up of a relative path that nothing cancels are kept. -/
theorem foldl_push_ups (n : Nat) :
    (List.replicate n dots).foldl (push false) [] = List.replicate n dots := by
  induction n with
  | zero => rfl
  | succ n ih =>
    calc (List.replicate (n + 1) dots).foldl (push false) []
        = push false ((List.replicate n dots).foldl (push false) []) dots := by
          rw [List.replicate_succ', List.foldl_append]
          rfl
      _ = push false (List.replicate n dots) dots := by rw [ih]
      _ = List.replicate (n + 1) dots := by cases n <;> rfl

/-- Reading again what was read: the steps up are kept, and the names are put behind them. -/
theorem IsRead.foldl_push_reverse {read : List (List Char)} (h : IsRead absolute read) :
    read.reverse.foldl (Path.push absolute) [] = read := by
  induction h with
  | name hs _ ih =>
    rw [List.reverse_cons, List.foldl_append, ih]
    exact push_of_isName absolute _ hs
  | ups n h =>
    rw [List.reverse_replicate]
    cases absolute with
    | true =>
      rw [h rfl]
      rfl
    | false => exact foldl_push_ups n

/-- What is left of a path stays as it is, if it is read again. -/
theorem IsRead.resolve_eq {segments : List (List Char)} (h : IsRead absolute segments.reverse) :
    resolve absolute segments = segments := by
  have hfold := h.foldl_push_reverse
  rw [List.reverse_reverse] at hfold
  rw [resolve, hfold, List.reverse_reverse]

end Rules

/-! ## 2. Segments of a text

A normal path is a text, and its segments are read off it.  The root and the empty path have none,
although splitting them gives an empty one. -/

/-- What a path says behind the slash that it may begin with. -/
def bodyOf (path : String) : List Char :=
  if isAbsolute path then path.toList.tail else path.toList

/-- The segments of a path as it is written.  The root and the empty path have none. -/
def segmentsOf (path : String) : List (List Char) :=
  if bodyOf path = [] then [] else splitSegments (bodyOf path)

/-- The path that has given segments. -/
def spelled (absolute : Bool) (segments : List (List Char)) : String :=
  String.ofList (if absolute then '/' :: joinSegments segments else joinSegments segments)

theorem toList_eq_bodyOf (path : String) :
    path.toList = if isAbsolute path then '/' :: bodyOf path else bodyOf path := by
  by_cases habsolute : isAbsolute path
  · rw [if_pos habsolute, bodyOf, if_pos habsolute]
    exact (List.cons_head?_tail (isAbsolute_iff.mp habsolute)).symm
  · rw [if_neg habsolute, bodyOf, if_neg habsolute]

/-- A path is what its segments spell. -/
theorem spelled_segmentsOf (path : String) :
    spelled (isAbsolute path) (segmentsOf path) = path := by
  have hbody : joinSegments (segmentsOf path) = bodyOf path := by
    unfold segmentsOf
    split
    · next hnil => rw [hnil]; rfl
    · exact joinSegments_splitSegments _
  rw [spelled, hbody, ← toList_eq_bodyOf, String.ofList_toList]

/-- Segments have no slash. -/
theorem no_slash_of_mem_segmentsOf {path : String} {s : List Char} (h : s ∈ segmentsOf path) :
    '/' ∉ s := by
  unfold segmentsOf at h
  split at h
  · cases h
  · exact no_slash_of_mem_splitSegments h

section Spelled

variable {absolute : Bool} {segments : List (List Char)}

/-- The body of a path does not begin with a slash. -/
theorem head?_joinSegments_ne (h : ∀ s ∈ segments, s ≠ [] ∧ '/' ∉ s) :
    (joinSegments segments).head? ≠ some '/' := by
  cases segments with
  | nil => simp [joinSegments]
  | cons s segments =>
    obtain ⟨hne, hslash⟩ := h s List.mem_cons_self
    obtain ⟨c, cs, rfl⟩ := List.exists_cons_of_ne_nil hne
    have hc : c ≠ '/' := by
      rintro rfl
      exact hslash List.mem_cons_self
    cases segments <;> simp [joinSegments, hc]

theorem joinSegments_ne_nil (hne : segments ≠ []) (h : ∀ s ∈ segments, s ≠ [] ∧ '/' ∉ s) :
    joinSegments segments ≠ [] := by
  intro hnil
  have hsplit := splitSegments_joinSegments hne fun s hs => (h s hs).2
  rw [hnil] at hsplit
  exact (h [] (hsplit ▸ List.mem_cons_self)).1 rfl

/-- Whether a path is absolute can be told from its text, as no segment is empty. -/
theorem isAbsolute_spelled (h : ∀ s ∈ segments, s ≠ [] ∧ '/' ∉ s) :
    isAbsolute (spelled absolute segments) = absolute := by
  rw [Bool.eq_iff_iff, isAbsolute_iff, spelled, String.toList_ofList]
  cases absolute with
  | true => simp
  | false => simpa using head?_joinSegments_ne h

/-- The segments of what is spelled are those it was spelled from. -/
theorem segmentsOf_spelled (h : ∀ s ∈ segments, s ≠ [] ∧ '/' ∉ s) :
    segmentsOf (spelled absolute segments) = segments := by
  have hbody : bodyOf (spelled absolute segments) = joinSegments segments := by
    rw [bodyOf, isAbsolute_spelled h, spelled, String.toList_ofList]
    cases absolute <;> rfl
  rw [segmentsOf, hbody]
  by_cases hne : segments = []
  · rw [hne]
    rfl
  · rw [if_neg (joinSegments_ne_nil hne h), splitSegments_joinSegments hne fun s hs => (h s hs).2]

end Spelled

/-! ## 3. Normal paths

What the text of a normal path is like, and that it is what the reader leaves. -/

/-- A path in the form under which files are kept. -/
structure Normal (path : String) : Prop where
  no_backslash : '\\' ∉ path.toList
  no_empty : [] ∉ segmentsOf path
  no_dot : dot ∉ segmentsOf path
  /-- Steps up come first, and in an absolute path not at all. -/
  ups_first : ∃ n names, segmentsOf path = List.replicate n dots ++ names ∧ dots ∉ names ∧
    (isAbsolute path → n = 0)

/-- The segments of a normal path are as the reader leaves them. -/
theorem Normal.isRead {path : String} (h : Normal path) :
    IsRead (isAbsolute path) (segmentsOf path).reverse := by
  obtain ⟨n, names, hsegments, hdots, hups⟩ := h.ups_first
  have hnames : ∀ s ∈ names, IsName s := by
    intro s hs
    have hmem : s ∈ segmentsOf path := hsegments ▸ List.mem_append_right _ hs
    refine ⟨?_, ?_, ?_, no_slash_of_mem_segmentsOf hmem⟩
    · rintro rfl
      exact h.no_empty hmem
    · rintro rfl
      exact h.no_dot hmem
    · rintro rfl
      exact hdots hs
  exact isRead_reverse_iff.mpr ⟨n, names, hsegments, hnames, hups⟩

/-- What the reader leaves spells a normal path. -/
theorem normal_spelled {absolute : Bool} {segments : List (List Char)}
    (h : IsRead absolute segments.reverse) (hback : '\\' ∉ (spelled absolute segments).toList) :
    Normal (spelled absolute segments) := by
  have hparts : ∀ s ∈ segments, s ≠ [] ∧ '/' ∉ s := fun s hs =>
    h.ne_nil_and_no_slash s (List.mem_reverse.mpr hs)
  obtain ⟨n, names, hsegments, hnames, hups⟩ := isRead_reverse_iff.mp h
  have hspelled : segmentsOf (spelled absolute segments) = segments := segmentsOf_spelled hparts
  refine ⟨hback, ?_, ?_, n, names, hspelled.trans hsegments, ?_, ?_⟩
  · rw [hspelled]
    exact fun hmem => (hparts [] hmem).1 rfl
  · rw [hspelled, hsegments, List.mem_append, not_or]
    refine ⟨fun hmem => ?_, fun hmem => (hnames dot hmem).ne_dot rfl⟩
    exact absurd (List.eq_of_mem_replicate hmem) (by decide)
  · exact fun hmem => (hnames dots hmem).ne_dots rfl
  · rw [isAbsolute_spelled hparts]
    exact hups

/-- Only the root ends with a slash. -/
theorem Normal.not_endsWith_slash {path : String} (h : Normal path) (hroot : path ≠ "/") :
    ¬ path.endsWith "/" := by
  intro hends
  obtain ⟨before, hbefore⟩ := Text.endsWith_iff.mp hends
  have hbody : ∃ front, bodyOf path = front ++ '/' :: [] := by
    unfold bodyOf
    split
    · cases before with
      | nil => exact absurd (String.toList_inj.mp hbefore.symm) hroot
      | cons c before => exact ⟨before, by rw [← hbefore]; rfl⟩
    · exact ⟨before, hbefore.symm⟩
  obtain ⟨front, hfront⟩ := hbody
  refine h.no_empty ?_
  rw [segmentsOf, hfront, if_neg (by simp), splitSegments_append_slash]
  exact List.mem_append_right _ List.mem_cons_self

/-! ## 4. The normal form

The normal form of a path is normal because it is spelled from what was read, and a path shortens to
it because reading is shortening.  It is the only one: another normal path is read as it stands, and
shortening does not change what is read. -/

/-- Does a path begin with a slash of either sort? -/
def startsAtRoot (path : String) : Bool := (slashed path.toList).head? == some '/'

theorem startsAtRoot_iff {path : String} :
    startsAtRoot path ↔ path.startsWith "/" ∨ path.startsWith "\\" := by
  have hslash : "/".toList = ['/'] := rfl
  have hback : "\\".toList = ['\\'] := rfl
  rw [Text.startsWith_iff, Text.startsWith_iff, hslash, hback,
    List.singleton_prefix_iff_head?_eq_some, List.singleton_prefix_iff_head?_eq_some, startsAtRoot,
    beq_iff_eq, slashed, List.head?_map]
  cases path.toList.head? with
  | none => simp
  | some c => by_cases hc : c = '\\' <;> simp [hc]

theorem normalize_eq_spelled (path : String) :
    normalize path = spelled (startsAtRoot path)
      (resolve (startsAtRoot path) (splitSegments (slashed path.toList))) := rfl

/-- A path is a spelling of another: both begin at the root or neither does, and its segments
shorten to those of the other. -/
structure ShortensTo (path short : String) : Prop where
  root : isAbsolute short = startsAtRoot path
  segments : ReflTransGen (Shortens (isAbsolute short)) (splitSegments (slashed path.toList))
    (segmentsOf short)

theorem isRead_resolve (absolute : Bool) (cs : List Char) :
    IsRead absolute (resolve absolute (splitSegments cs)).reverse := by
  rw [resolve, List.reverse_reverse]
  exact (IsRead.nil absolute).foldl_push fun _ hs => no_slash_of_mem_splitSegments hs

theorem normal_normalize (path : String) : Normal (normalize path) :=
  normal_spelled (isRead_resolve _ _) (no_backslash_normalize path)

/-- A path shortens to its normal form. -/
theorem shortensTo_normalize (path : String) : ShortensTo path (normalize path) := by
  have hparts : ∀ s ∈ resolve (startsAtRoot path) (splitSegments (slashed path.toList)),
      s ≠ [] ∧ '/' ∉ s := fun s hs =>
    (isRead_resolve _ _).ne_nil_and_no_slash s (List.mem_reverse.mpr hs)
  have hroot : isAbsolute (normalize path) = startsAtRoot path := isAbsolute_spelled hparts
  refine ⟨hroot, ?_⟩
  rw [hroot, normalize_eq_spelled, segmentsOf_spelled hparts]
  exact shortens_foldl_push (.nil _) fun _ hs => no_slash_of_mem_splitSegments hs

/-- **The normal form of a path is the normal path that it is a spelling of.** -/
theorem eq_normalize_iff {path short : String} :
    short = normalize path ↔ Normal short ∧ ShortensTo path short := by
  constructor
  · rintro rfl
    exact ⟨normal_normalize path, shortensTo_normalize path⟩
  · rintro ⟨hnormal, hshort⟩
    -- no rule changes what is left of the path, and of a normal path everything is left
    have hsegments : segmentsOf short
        = resolve (startsAtRoot path) (splitSegments (slashed path.toList)) := by
      rw [← hshort.root, resolve_eq_of_shortens hshort.segments, hnormal.isRead.resolve_eq]
    rw [← spelled_segmentsOf short, hsegments, hshort.root, normalize_eq_spelled]

/-- The parts of a text shorten to its segments. -/
theorem shortens_segmentsOf (path : String) :
    ReflTransGen (Shortens (isAbsolute path)) (splitSegments path.toList) (segmentsOf path) := by
  have hbody : ReflTransGen (Shortens (isAbsolute path)) (splitSegments (bodyOf path))
      (segmentsOf path) := by
    unfold segmentsOf
    split
    · next hnil =>
      rw [hnil]
      exact .single (.empty [] [])
    · exact .refl
  rw [toList_eq_bodyOf path]
  split
  · -- nothing stands before the first slash
    exact .head (.empty [] (splitSegments (bodyOf path))) hbody
  · exact hbody

/-- **A normal path is its own normal form.** -/
theorem Normal.normalize_eq {path : String} (h : Normal path) : normalize path = path := by
  have hslashed := slashed_of_no_backslash h.no_backslash
  refine (eq_normalize_iff.mpr ⟨h, ?_, ?_⟩).symm
  · rw [Bool.eq_iff_iff, isAbsolute_iff, startsAtRoot, hslashed, beq_iff_eq]
  · rw [hslashed]
    exact shortens_segmentsOf path

/-- **Every path has one normal form**: it has no backslash, no segment that is empty or stays and
no slash at the end unless it is the root; steps up stand in front only, and only in relative paths.
It begins with a slash if the path begins with one of either sort, and is its own normal form.  No
other normal path is one that the path shortens to. -/
theorem normalize_canonical (path : String) :
    Normal (normalize path) ∧
      ((normalize path).startsWith "/" ↔ path.startsWith "/" ∨ path.startsWith "\\") ∧
      (normalize path ≠ "/" → ¬ (normalize path).endsWith "/") ∧
      normalize (normalize path) = normalize path ∧
      ∀ short, short = normalize path ↔ Normal short ∧ ShortensTo path short := by
  have hnormal := normal_normalize path
  refine ⟨hnormal, ?_, hnormal.not_endsWith_slash, hnormal.normalize_eq, fun _ => eq_normalize_iff⟩
  rw [← startsAtRoot_iff, ← (shortensTo_normalize path).root]
  rfl

example : normalize "..\\a/../.././b//" = "../../b" := by decide

/-! ## 5. Joined paths

A join is a normal form of two paths with a slash between them, or of the second alone if it is
absolute. -/

/-- What is shown behind a slash goes on from what is shown before it. -/
theorem shown_append_slash (a b : String) :
    shown (a ++ "/" ++ b) = (pushShown (shown a).reverse b.toList).reverse := by
  have ha : (shown a).reverse = pushShown [] a.toList := by
    rw [shown, resolve, List.reverse_reverse]
    rfl
  rw [ha, shown, resolve, toList_append_slash, foldl_push_append]

theorem isAbsolute_normalize {path : String} (habsolute : isAbsolute path) :
    isAbsolute (normalize path) := by
  rw [(shortensTo_normalize path).root, startsAtRoot_iff]
  exact Or.inl habsolute

/-- The normal form shows what the path shows. -/
theorem shown_normalize {path : String} (habsolute : isAbsolute path) :
    shown (normalize path) = shown path := by
  have hnormal : normalize (normalize path) = normalize path := (normal_normalize path).normalize_eq
  rw [normalize_eq_rooted_shown (isAbsolute_normalize habsolute),
    normalize_eq_rooted_shown habsolute] at hnormal
  have hnames := congrArg namesOf hnormal
  rwa [namesOf_rooted (isName_shown _), namesOf_rooted (isName_shown _),
    ← normalize_eq_rooted_shown habsolute] at hnames

theorem isAbsolute_append {a : String} (habsolute : isAbsolute a) (b : String) :
    isAbsolute (a ++ b) := by
  rw [isAbsolute, Text.startsWith_iff] at habsolute ⊢
  rw [String.toList_append]
  exact habsolute.trans (List.prefix_append _ _)

/-- **An absolute path may be brought to its normal form at any slash.**  What follows the slash is
read from the names before it, and these are the same. -/
theorem normalize_append_slash {a : String} (habsolute : isAbsolute a) (b : String) :
    normalize (normalize a ++ "/" ++ b) = normalize (a ++ "/" ++ b) := by
  have hnormal : isAbsolute (normalize a ++ "/" ++ b) :=
    isAbsolute_append (isAbsolute_append (isAbsolute_normalize habsolute) _) _
  have hplain : isAbsolute (a ++ "/" ++ b) := isAbsolute_append (isAbsolute_append habsolute _) _
  rw [normalize_eq_rooted_shown hnormal, normalize_eq_rooted_shown hplain, shown_append_slash,
    shown_append_slash, shown_normalize habsolute]

theorem join_of_relative {dir name : String} (h : ¬ isAbsolute name) :
    join dir name = normalize (dir ++ "/" ++ name) := if_neg h

/-- A relative path stays relative with more behind it, unless it is empty. -/
theorem not_isAbsolute_append_slash {first : String} (hne : first ≠ "") (h : ¬ isAbsolute first)
    (second : String) : ¬ isAbsolute (first ++ "/" ++ second) := by
  obtain ⟨c, cs, hfirst⟩ := List.exists_cons_of_ne_nil (mt String.toList_eq_nil_iff.mp hne)
  rw [isAbsolute_iff, hfirst] at h
  rwa [isAbsolute_iff, toList_append_slash, hfirst]

/-- **Joins compose** behind an absolute directory: two relative paths can be joined one after the
other or at once, the directory may be in normal form or not, and the result is an absolute path in
normal form, which the paths written one behind the other shorten to. -/
theorem join_join {dir first second : String} (hdir : dir.startsWith "/") (hne : first ≠ "")
    (hfirst : ¬ first.startsWith "/") (hsecond : ¬ second.startsWith "/") :
    join (join dir first) second = join dir (first ++ "/" ++ second) ∧
      join (normalize dir) first = join dir first ∧
      (join dir first).startsWith "/" ∧ Normal (join dir first) ∧
      normalize (join dir first) = join dir first ∧
      ShortensTo (dir ++ "/" ++ first) (join dir first) := by
  have hjoined : isAbsolute (dir ++ "/" ++ first) := isAbsolute_append (isAbsolute_append hdir _) _
  rw [join_of_relative hsecond, join_of_relative (not_isAbsolute_append_slash hne hfirst second),
    join_of_relative hfirst, join_of_relative hfirst]
  have hnormal := normal_normalize (dir ++ "/" ++ first)
  refine ⟨?_, normalize_append_slash hdir first, isAbsolute_normalize hjoined, hnormal,
    hnormal.normalize_eq, shortensTo_normalize _⟩
  rw [normalize_append_slash hjoined]
  simp only [String.append_assoc]

/-- Steps up take names of the directory away, and stop at the root. -/
theorem join_join_past_root :
    "/p/q".startsWith "/" ∧ "../../../a" ≠ "" ∧ ¬ "../../../a".startsWith "/" ∧
      ¬ "../b".startsWith "/" ∧ join "/p/q" "../../../a" = "/a" ∧
      join (join "/p/q" "../../../a") "../b" = join "/p/q" ("../../../a" ++ "/" ++ "../b") := by
  have hdir : isAbsolute "/p/q" := isAbsolute_iff.mpr rfl
  have hne : "../../../a" ≠ "" := by decide
  have hfirst : ¬ isAbsolute "../../../a" := fun h => absurd (isAbsolute_iff.mp h) (by decide)
  have hsecond : ¬ isAbsolute "../b" := fun h => absurd (isAbsolute_iff.mp h) (by decide)
  have hjoined : join "/p/q" "../../../a" = "/a" := (join_of_relative hfirst).trans (by decide)
  exact ⟨hdir, hne, hfirst, hsecond, hjoined, (join_join hdir hne hfirst hsecond).1⟩

end ComponentHost.Path
