/-
# Paths without steps up

Two spellings of a path lead to the same place if they differ only in slashes and in `.`, as long as
neither goes up: then the names of both are their segments without the empty ones and `.`
(`resolved_of_straight`).  A step up is a different matter, since the directory above a path is
found by dropping its last segment, and that may be a `..`.

So for straight paths everything can be said in terms of their names: what is shown of them
(`shown_of_straight`), what they lead to (`find?_of_straight`), and that the path above has the
names but the last (`Straight.above`).

This is used where the program goes up by dropping a segment and the user means a step up.  For a
straight directory both are the same, and only there: above `/a/..` the program finds `/a`, and the
directory is the root.
-/
import ComponentHost.Proofs.ShownPaths

namespace ComponentHost

namespace Path

/-! ## 1. Names of straight paths

Without a `..` the stack of names only grows, so reading the segments amounts to a filter.  The
plain form of a path, a slash before each name, is straight and has these names; chains of names are
compared through it. -/

/-- An absolute path without steps up. -/
structure Straight (path : String) : Prop where
  absolute : isAbsolute path
  no_dots : dots ∉ splitSegments path.toList

/-- Does a segment lead on? -/
def leadsOn (s : List Char) : Bool := s ≠ [] && s ≠ dot

theorem leadsOn_eq_true {s : List Char} : leadsOn s = true ↔ s ≠ [] ∧ s ≠ dot := by
  simp [leadsOn]

theorem leadsOn_eq_false {s : List Char} : leadsOn s = false ↔ s = [] ∨ s = dot := by
  rw [← Bool.not_eq_true, leadsOn_eq_true, not_and_or, not_not, not_not]

theorem leadsOn_of_isName {s : List Char} (hs : IsName s) : leadsOn s = true :=
  leadsOn_eq_true.mpr ⟨hs.ne_nil, hs.ne_dot⟩

/-- With no step up each segment that leads on is pushed, and none is taken away. -/
theorem foldl_push_of_no_dots {segments : List (List Char)} (h : dots ∉ segments)
    (read : List (List Char)) :
    segments.foldl (push true) read = (segments.filter leadsOn).reverse ++ read := by
  induction segments generalizing read with
  | nil => rfl
  | cons s segments ih =>
    rw [List.mem_cons, not_or] at h
    rw [List.foldl_cons, ih h.2]
    cases hs : leadsOn s with
    | false =>
      have hstays : push true read s = read := by
        unfold push
        rw [if_pos (leadsOn_eq_false.mp hs)]
      rw [List.filter_cons_of_neg (by simp [hs]), hstays]
    | true =>
      have hgoes : push true read s = s :: read := by
        unfold push
        rw [if_neg (by simp [← leadsOn_eq_false, hs]), if_neg (Ne.symm h.1)]
      rw [List.filter_cons_of_pos hs, hgoes, List.reverse_cons, List.append_assoc]
      rfl

/-- **The names of a straight path are the segments that lead on.** -/
theorem resolved_of_straight {path : String} (h : Straight path) :
    resolved path = (splitSegments path.toList).filter leadsOn := by
  rw [resolved, resolve, foldl_push_of_no_dots h.no_dots, List.append_nil, List.reverse_reverse]

/-- **What is shown of a straight path depends on its names.** -/
theorem shown_of_straight {path : String} (h : Straight path) :
    shown path = ((resolved path).foldl pushShown []).reverse := by
  have hfold : ∀ segments read : List (List Char),
      (segments.filter leadsOn).foldl pushShown read = segments.foldl pushShown read := by
    intro segments
    induction segments with
    | nil => exact fun read => rfl
    | cons s segments ih =>
      intro read
      cases hs : leadsOn s with
      | false =>
        rw [List.filter_cons_of_neg (by simp [hs]), ih, List.foldl_cons]
        rcases leadsOn_eq_false.mp hs with rfl | rfl
        · rw [pushShown_nil]
        · rw [pushShown_dot]
      | true => rw [List.filter_cons_of_pos hs, List.foldl_cons, List.foldl_cons, ih]
  rw [shown_eq_foldl, resolved_of_straight h, hfold]

/-- Names behind a straight path make no step up. -/
theorem Straight.chain {dir : String} {names : List (List Char)} (h : Straight dir)
    (hnames : ∀ s ∈ names, IsName s) : Straight (chain dir names) := by
  induction names generalizing dir with
  | nil => exact h
  | cons s names ih =>
    have hs := hnames s List.mem_cons_self
    refine ih ⟨isAbsolute_child h.absolute _, ?_⟩ fun t ht => hnames t (List.mem_cons_of_mem _ ht)
    obtain ⟨segments, hdir, hchild⟩ := splitSegments_child h.absolute hs
    have hsegments : dots ∉ segments := by
      intro hmem
      refine h.no_dots ?_
      rcases hdir with hdir | hdir
      · exact hdir ▸ hmem
      · exact hdir ▸ List.mem_append_left _ hmem
    rw [hchild, List.mem_append, List.mem_singleton, not_or]
    exact ⟨hsegments, Ne.symm hs.ne_dots⟩

theorem splitSegments_rooted {names : List (List Char)} (hne : names ≠ [])
    (h : ∀ s ∈ names, IsName s) : splitSegments (rooted names).toList = [] :: names := by
  have hsplit : splitSegments ('/' :: joinSegments names)
      = [] :: splitSegments (joinSegments names) := splitSegments_append List.not_mem_nil _
  rw [toList_rooted, hsplit, splitSegments_joinSegments hne fun s hs => (h s hs).no_slash]

/-- The plain form is straight, the root included. -/
theorem straight_rooted {names : List (List Char)} (h : ∀ s ∈ names, IsName s) :
    Straight (rooted names) := by
  refine ⟨isAbsolute_iff.mpr (by rw [toList_rooted]; rfl), ?_⟩
  by_cases hne : names = []
  · subst hne
    decide
  · rw [splitSegments_rooted hne h, List.mem_cons, not_or]
    exact ⟨nofun, fun hmem => (h _ hmem).ne_dots rfl⟩

/-- Its names are those that it was made of. -/
theorem resolved_rooted {names : List (List Char)} (h : ∀ s ∈ names, IsName s) :
    resolved (rooted names) = names := by
  rw [resolved_of_straight (straight_rooted h)]
  by_cases hne : names = []
  · subst hne
    decide
  · rw [splitSegments_rooted hne h, List.filter_cons_of_neg (by decide)]
    exact List.filter_eq_self.mpr fun s hs => leadsOn_of_isName (h s hs)

/-- One more name in the plain form of a path. -/
theorem child_rooted {names : List (List Char)} {s : List Char} (h : ∀ t ∈ names, IsName t)
    (hs : IsName s) : child (rooted names) (String.ofList s) = rooted (names ++ [s]) := by
  have hrooted : (rooted (names ++ [s])).toList = lead names ++ '/' :: s := by
    rw [toList_rooted_eq_lead (by simp), lead_append, lead_cons, lead_nil, List.append_nil]
  have hrelative : ¬ ((rooted names).isEmpty || isAbsolute (String.ofList s)) = true := by
    rw [Bool.or_eq_true, not_or, String.isEmpty_iff, ← String.toList_eq_nil_iff, toList_rooted]
    exact ⟨by simp, not_isAbsolute_of_isName hs⟩
  have hname : (String.ofList s).toList = s := String.toList_ofList
  rw [← String.toList_inj, hrooted, child, if_neg hrelative]
  rcases List.eq_nil_or_concat names with rfl | ⟨before, last, rfl⟩
  · have hends : (rooted []).endsWith "/" := Text.endsWith_iff.mpr List.suffix_rfl
    rw [if_pos hends, String.toList_append, toList_rooted, hname]
    rfl
  · rw [List.concat_eq_append] at h ⊢
    have hlast := h last (by simp)
    have hends : ¬ (rooted (before ++ [last])).endsWith "/" := by
      rw [Text.endsWith_iff, toList_rooted_eq_lead (by simp), lead_append, lead_cons, lead_nil,
        List.append_nil]
      rintro ⟨front, hfront⟩
      obtain ⟨c, hc⟩ := Option.ne_none_iff_exists'.mp (mt List.getLast?_eq_none_iff.mp hlast.ne_nil)
      have hslash := congrArg List.getLast? hfront
      obtain rfl : '/' = c := by simpa [List.getLast?_append, List.getLast?_cons, hc] using hslash
      exact hlast.no_slash (List.mem_of_getLast? hc)
    rw [if_neg hends, String.toList_append, String.toList_append, toList_rooted_eq_lead (by simp),
      hname, List.append_assoc]
    rfl

/-- The names behind the plain form of a path. -/
theorem chain_rooted {names behind : List (List Char)} (h : ∀ s ∈ names, IsName s)
    (hbehind : ∀ s ∈ behind, IsName s) : chain (rooted names) behind = rooted (names ++ behind) := by
  induction behind generalizing names with
  | nil => rw [List.append_nil]; rfl
  | cons s behind ih =>
    have hs := hbehind s List.mem_cons_self
    have hnames : ∀ t ∈ names ++ [s], IsName t := by
      simpa [or_imp, forall_and] using ⟨h, hs⟩
    rw [chain, List.foldl_cons, child_rooted h hs, ← chain,
      ih hnames fun t ht => hbehind t (List.mem_cons_of_mem _ ht), List.append_assoc]
    rfl

/-! ## 2. The path above

The path above is found by dropping characters from the end: slashes and `.` segments, then a
segment, then slashes and `.` again.  On the names this drops exactly the last. -/

/-- The path above, or the path itself if there is none. -/
def above (dir : String) : String := (parent? dir).getD dir

/-- Above an absolute path is an absolute one; the root is above itself. -/
theorem isAbsolute_above {dir : String} (habsolute : isAbsolute dir) : isAbsolute (above dir) := by
  cases hparent : parent? dir with
  | none => rwa [above, hparent]
  | some parent =>
    rw [above, hparent]
    exact (parent?_spec habsolute hparent).1

/-- Trimming drops no name. -/
theorem filter_trimBackwards (cs : List Char) :
    (splitSegments (trimBackwards cs).reverse).filter leadsOn
      = (splitSegments cs.reverse).filter leadsOn := by
  have hlast : ∀ (r s : List Char), '/' ∉ s → leadsOn s = false →
      (splitSegments (r.reverse ++ '/' :: s)).filter leadsOn
        = (splitSegments r.reverse).filter leadsOn := by
    intro r s hslash hs
    rw [splitSegments_concat hslash, List.filter_append, List.filter_cons_of_neg (by simp [hs])]
    simp
  fun_induction trimBackwards cs with
  | case1 r hr => rw [List.isEmpty_iff.mp hr]
  | case2 r hr ih =>
    rw [ih, List.reverse_cons]
    exact (hlast r [] List.not_mem_nil (by decide)).symm
  | case3 r ih =>
    have hdot := hlast r dot (by decide) (by decide)
    have hslash := hlast r [] List.not_mem_nil (by decide)
    rw [ih, List.reverse_cons, List.reverse_cons, List.reverse_cons, List.append_assoc]
    exact hslash.trans hdot.symm
  | case4 cs => rfl

/-- **The path above a straight path is straight, and has its names but the last.** -/
theorem Straight.above {dir : String} (h : Straight dir) :
    Straight (above dir) ∧ resolved (above dir) = (resolved dir).dropLast := by
  have htrimmed := filter_trimBackwards dir.toList.reverse
  rw [List.reverse_reverse, ← resolved_of_straight h] at htrimmed
  cases hparent : parent? dir with
  | none =>
    have habove : Path.above dir = dir := by rw [Path.above, hparent, Option.getD_none]
    -- only the root has no path above it
    have hroot : resolved dir = [] := by
      rw [← htrimmed]
      unfold parent? at hparent
      split at hparent
      · next htrim => rw [htrim]; rfl
      · next htrim => rw [htrim]; rfl
      · cases hparent
    rw [habove, hroot]
    exact ⟨h, rfl⟩
  | some parent =>
    have habove : Path.above dir = parent := by rw [Path.above, hparent, Option.getD_some]
    have hstraight : Straight parent := by
      obtain ⟨habsolute, -, rfl | ⟨rest, hdir⟩⟩ := parent?_spec h.absolute hparent
      · have hroot : Straight (rooted []) := straight_rooted fun s hs => absurd hs List.not_mem_nil
        exact hroot
      · refine ⟨habsolute, fun hmem => h.no_dots ?_⟩
        rw [hdir, splitSegments_append_slash]
        exact List.mem_append_left _ hmem
    obtain ⟨r, last, hslash, hne, hdot, htrim, hparent⟩ := exists_of_parent? h.absolute hparent
    rw [habove]
    refine ⟨hstraight, ?_⟩
    have hdir : resolved dir = (splitSegments r.reverse).filter leadsOn ++ [last] := by
      rw [← htrimmed, htrim]
      simp only [List.reverse_append, List.reverse_cons, List.reverse_reverse, List.append_assoc,
        List.singleton_append, splitSegments_concat hslash, List.filter_append]
      rw [List.filter_cons_of_pos (leadsOn_eq_true.mpr ⟨hne, hdot⟩)]
      rfl
    have hup : resolved parent = (splitSegments r.reverse).filter leadsOn := by
      rw [resolved_of_straight hstraight, hparent, filter_trimBackwards, List.reverse_cons]
      show (splitSegments (r.reverse ++ '/' :: [])).filter leadsOn = _
      rw [splitSegments_append_slash, List.filter_append]
      exact List.append_nil _
    rw [hdir, hup, List.dropLast_concat]

end Path

/-! ## 3. Where straight paths lead

Looking up a path makes one difference that the names do not show: a slash or a `.` behind a FILE is
an error, while behind a directory it does nothing.  A path that ends in a name has none at its end,
and those before are behind directories, or the look-up fails for want of the next name anyway. -/

namespace FileTree

/-- A name is looked up among the entries. -/
theorem toOption_step {p : Place} {s : List Char} (hs : Path.IsName s) :
    (p.step (String.ofList s)).toOption = (p.tree.entry? (String.ofList s)).map
      fun t => ⟨t, (String.ofList s, p.tree) :: p.way⟩ := by
  cases hstep : p.step (String.ofList s) with
  | ok q =>
    obtain ⟨t, hentry, rfl⟩ := (step_eq_ok_iff hs).mp hstep
    rw [hentry]
    rfl
  | error e =>
    cases hentry : p.tree.entry? (String.ofList s) with
    | none => rfl
    | some t =>
      rw [(step_eq_ok_iff hs).mpr ⟨t, hentry, rfl⟩] at hstep
      cases hstep

/-- A segment that does not lead on stays in a directory, and fails at a file. -/
theorem toOption_step_of_stays {p : Place} {s : List Char} (hs : Path.leadsOn s = false) :
    (p.step (String.ofList s)).toOption = if p.tree.isBranch then some p else none := by
  have hstay : String.ofList s = "" ∨ String.ofList s = "." := by
    rw [ofList_eq_iff, ofList_eq_iff]
    exact Path.leadsOn_eq_false.mp hs
  rw [Place.step]
  cases htree : p.tree with
  | file content => rfl
  | directory entries =>
    simp only [if_pos hstay]
    rfl

theorem toOption_foldlM_cons {p : Place} {segment : String} {segments : List String} :
    ((segment :: segments).foldlM Place.step p).toOption
      = (p.step segment).toOption.bind fun q => (segments.foldlM Place.step q).toOption := by
  rw [List.foldlM_cons]
  cases p.step segment <;> rfl

/-- Below a file there is nothing. -/
theorem below?_of_not_isBranch {tree : FileTree} (h : tree.isBranch = false)
    {names : List (List Char)} (hne : names ≠ []) : tree.below? names = none := by
  obtain ⟨s, names, rfl⟩ := List.exists_cons_of_ne_nil hne
  cases tree with
  | file content => rfl
  | directory entries => cases h

/-- **Segments up to a last name lead to what the names lead to.**  By induction: a segment that
stays is dropped on the right, and if it stays at a file both sides fail, since a name is still to
come. -/
theorem find?_of_segments {p : Place} {segments : List (List Char)} {last : List Char}
    (hdots : Path.dots ∉ segments) (hslash : ∀ s ∈ segments, '/' ∉ s) (hlast : Path.IsName last) :
    (((segments ++ [last]).map String.ofList).foldlM Place.step p).toOption.map Place.tree
      = p.tree.below? (segments.filter Path.leadsOn ++ [last]) := by
  induction segments generalizing p with
  | nil =>
    rw [List.nil_append, List.map_cons, toOption_foldlM_cons, toOption_step hlast, List.filter_nil,
      List.nil_append, below?]
    cases p.tree.entry? (String.ofList last) <;> rfl
  | cons s segments ih =>
    rw [List.mem_cons, not_or] at hdots
    have hrest := fun t ht => hslash t (List.mem_cons_of_mem _ ht)
    rw [List.cons_append, List.map_cons, toOption_foldlM_cons]
    cases hs : Path.leadsOn s with
    | false =>
      rw [toOption_step_of_stays hs, List.filter_cons_of_neg (by simp [hs])]
      cases hbranch : p.tree.isBranch with
      | false => rw [below?_of_not_isBranch hbranch (by simp)]; rfl
      | true => exact ih hdots.2 hrest
    | true =>
      obtain ⟨hne, hdot⟩ := Path.leadsOn_eq_true.mp hs
      have hname : Path.IsName s := ⟨hne, hdot, Ne.symm hdots.1, hslash s List.mem_cons_self⟩
      rw [toOption_step hname, List.filter_cons_of_pos hs, List.cons_append, below?]
      cases p.tree.entry? (String.ofList s) with
      | none => rfl
      | some t => exact ih hdots.2 hrest

/-- **A straight path that ends in a name leads to what its names lead to.** -/
theorem find?_of_straight {root : FileTree} {path : String} {segments : List (List Char)}
    {last : List Char} (h : Path.Straight path)
    (hpath : Path.splitSegments path.toList = segments ++ [last]) (hlast : Path.IsName last) :
    root.find? path = root.below? (Path.resolved path) := by
  have hdots : Path.dots ∉ segments := by
    intro hmem
    exact h.no_dots (hpath ▸ List.mem_append_left _ hmem)
  have hslash : ∀ s ∈ segments, '/' ∉ s := by
    intro s hs
    exact Path.no_slash_of_mem_splitSegments (hpath ▸ List.mem_append_left _ hs)
  rw [Path.resolved_of_straight h, hpath, List.filter_append,
    List.filter_cons_of_pos (Path.leadsOn_of_isName hlast), List.filter_nil, find?, locate,
    if_pos h.absolute, hpath]
  exact find?_of_segments hdots hslash hlast

/-- The plain form of a path leads to what its names lead to. -/
theorem find?_rooted {root : FileTree} {names : List (List Char)} (h : ∀ s ∈ names, Path.IsName s)
    (hne : names ≠ []) : root.find? (Path.rooted names) = root.below? names := by
  obtain ⟨before, last, rfl⟩ : ∃ before last, names = before ++ [last] :=
    ⟨_, _, (List.dropLast_concat_getLast hne).symm⟩
  have hsegments := Path.splitSegments_rooted hne h
  rw [← List.cons_append] at hsegments
  rw [find?_of_straight (Path.straight_rooted h) hsegments (h last (by simp)), Path.resolved_rooted h]

/-- Two straight paths with the same names, one a directory with names behind it and the other in
its plain form, lead to the same. -/
theorem find?_chain_eq_rooted {root : FileTree} {dir : String} {names : List (List Char)}
    (h : Path.Straight dir) (hnames : ∀ s ∈ names, Path.IsName s) (hne : names ≠ []) :
    root.find? (Path.chain dir names) = root.find? (Path.rooted (Path.resolved dir ++ names)) := by
  have hall : ∀ s ∈ Path.resolved dir ++ names, Path.IsName s := by
    intro s hs
    rcases List.mem_append.mp hs with hs | hs
    · exact Path.isName_resolved dir s hs
    · exact hnames s hs
  obtain ⟨before, last, rfl⟩ : ∃ before last, names = before ++ [last] :=
    ⟨_, _, (List.dropLast_concat_getLast hne).symm⟩
  have hlast := hnames last (by simp)
  have hbefore : ∀ s ∈ before, Path.IsName s := fun s hs => hnames s (List.mem_append_left _ hs)
  have hchain : Path.chain dir (before ++ [last])
      = Path.child (Path.chain dir before) (String.ofList last) := by
    rw [Path.chain, List.foldl_append]
    rfl
  obtain ⟨segments, -, hsegments⟩ := Path.splitSegments_child (h.chain hbefore).absolute hlast
  have hrooted := Path.splitSegments_rooted (by simp) hall
  rw [← List.append_assoc, ← List.cons_append] at hrooted
  rw [find?_of_straight (h.chain hnames) (hchain ▸ hsegments) hlast,
    find?_of_straight (Path.straight_rooted hall) (List.append_assoc .. ▸ hrooted) hlast,
    Path.resolved_chain h.absolute hnames, Path.resolved_rooted hall]

end FileTree

end ComponentHost
