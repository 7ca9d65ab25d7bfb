/-
# Patterns below a directory

The patterns of a configuration are made into patterns of whole paths: the directory, escaped, a
slash and the pattern (`globText`).  Two things follow from how such a text is read and matched.

* If the pattern begins with plain parts, every path that it matches begins with the directory and
  these parts (`starts_of_globText`).
* The patterns that an exclusion means match with a path all that lies below it
  (`excluded_below`).  Each of them comes with its `/**`, or is one.

A path is seen here as what its names spell, each behind a slash (`Path.lead`).  In this form one
path begins with another exactly if its names do (`Path.exists_of_lead_eq`).

The directory is the reason for the detour through bytes and drafts.  It is escaped, so that its
characters stand for themselves, and the tokens that it gives stand before all others; this is kept
while the pattern behind it is read, whatever that does.  What a token takes is then compared with
the path byte by byte, and turned back into characters at the end.
-/
import ComponentHost.Project.Files
import ComponentHost.Proofs.GlobReading
import ComponentHost.Proofs.NormalPaths

namespace ComponentHost

/-! ## 1. Paths as names behind slashes

`rooted` writes a slash, and then slashes BETWEEN the names.  For comparing paths it is better to
have one slash before each name: then a path with more names is the shorter one with text behind it.
The two agree except at the root. -/

namespace Path

/-- The names, each behind a slash. -/
def lead (names : List (List Char)) : List Char := names.flatMap ('/' :: ·)

@[simp] theorem lead_nil : lead [] = [] := rfl

@[simp] theorem lead_cons (s : List Char) (names : List (List Char)) :
    lead (s :: names) = '/' :: s ++ lead names := rfl

@[simp] theorem lead_append (a b : List (List Char)) : lead (a ++ b) = lead a ++ lead b :=
  List.flatMap_append

/-- After a name comes a slash, or nothing. -/
theorem head?_lead (names : List (List Char)) : lead names = [] ∨ (lead names).head? = some '/' := by
  cases names with
  | nil => exact Or.inl rfl
  | cons s names => exact Or.inr rfl

theorem joinSegments_cons_cons (s s' : List Char) (names : List (List Char)) :
    joinSegments (s :: s' :: names) = s ++ '/' :: joinSegments (s' :: names) := rfl

/-- The two ways to write a path agree if there is a name. -/
theorem lead_eq_joinSegments {names : List (List Char)} (h : names ≠ []) :
    '/' :: joinSegments names = lead names := by
  induction names with
  | nil => exact absurd rfl h
  | cons s names ih =>
    cases names with
    | nil => rw [joinSegments, lead_cons, lead_nil, List.append_nil]
    | cons s' names =>
      rw [joinSegments_cons_cons, lead_cons, ← ih (by simp)]
      rfl

theorem toList_rooted_eq_lead {names : List (List Char)} (h : names ≠ []) :
    (rooted names).toList = lead names := by
  rw [toList_rooted, lead_eq_joinSegments h]

/-- A name ends where a slash or nothing follows. -/
theorem takeWhile_name {s rest : List Char} (hs : '/' ∉ s)
    (hrest : rest = [] ∨ rest.head? = some '/') : (s ++ rest).takeWhile (· != '/') = s := by
  have hall : ∀ c ∈ s, (c != '/') = true := by
    intro c hc
    rw [bne_iff_ne]
    rintro rfl
    exact hs hc
  rw [List.takeWhile_append_of_pos hall]
  rcases hrest with rfl | hrest
  · rw [List.takeWhile_nil, List.append_nil]
  · cases rest with
    | nil => cases hrest
    | cons c rest =>
      have hc : c = '/' := by simpa using hrest
      rw [List.takeWhile_cons_of_neg (by simp [hc]), List.append_nil]

/-- **A path that begins with another has its names.**  It must go on with a slash there, or the
last name might only be the beginning of one.  Induction on the names of the shorter path: each is
what stands before the next slash in both. -/
theorem exists_of_lead_eq {names first : List (List Char)} {more : List Char}
    (hnames : ∀ s ∈ names, '/' ∉ s) (hfirst : ∀ s ∈ first, '/' ∉ s)
    (h : lead names = lead first ++ '/' :: more) : ∃ others, names = first ++ others := by
  induction first generalizing names with
  | nil => exact ⟨names, rfl⟩
  | cons f first ih =>
    cases names with
    | nil => cases h
    | cons n names =>
      rw [lead_cons, lead_cons, List.cons_append, List.cons_append, List.cons_append,
        List.cons.injEq, List.append_assoc] at h
      have hhead : lead first ++ '/' :: more = [] ∨ (lead first ++ '/' :: more).head? = some '/' := by
        refine Or.inr ?_
        rcases head?_lead first with hnil | hslash
        · rw [hnil]
          rfl
        · rw [List.head?_append, hslash]
          rfl
      have hsame : n = f := by
        have hn := takeWhile_name (hnames n List.mem_cons_self) (head?_lead names)
        have hf := takeWhile_name (hfirst f List.mem_cons_self) hhead
        rw [← hn, ← hf, h.2]
      subst hsame
      obtain ⟨others, rfl⟩ := ih (fun s hs => hnames s (List.mem_cons_of_mem _ hs))
        (fun s hs => hfirst s (List.mem_cons_of_mem _ hs)) (List.append_cancel_left h.2)
      exact ⟨others, rfl⟩

/-! ## 2. Normal paths have no backslash

A pattern reads a backslash as an escape, and could not have one of a path stand for itself.  The
normal form has none, so the directory in front of a pattern has none either. -/

/-- Backslashes are made slashes first. -/
theorem no_backslash_slashed (cs : List Char) : '\\' ∉ slashed cs := by
  intro h
  obtain ⟨c, -, hc⟩ := List.mem_map.mp h
  split at hc
  · cases hc
  · next hne => exact hne (beq_iff_eq.mpr hc)

/-- The characters of a segment are characters of the path. -/
theorem mem_of_mem_splitSegments {cs s : List Char} {c : Char} (hs : s ∈ splitSegments cs)
    (hc : c ∈ s) : c ∈ cs := by
  induction cs generalizing s with
  | nil =>
    rw [splitSegments, List.mem_singleton] at hs
    exact hs ▸ hc
  | cons x cs ih =>
    unfold splitSegments at hs
    split at hs
    · rcases List.mem_cons.mp hs with rfl | hs
      · cases hc
      · exact List.mem_cons_of_mem _ (ih hs hc)
    · split at hs
      · next hnil => exact absurd hnil (splitSegments_ne_nil cs)
      · next first rest hsplit =>
        rw [hsplit] at ih
        rcases List.mem_cons.mp hs with rfl | hs
        · rcases List.mem_cons.mp hc with rfl | hc
          · exact List.mem_cons_self
          · exact List.mem_cons_of_mem _ (ih List.mem_cons_self hc)
        · exact List.mem_cons_of_mem _ (ih (List.mem_cons_of_mem _ hs) hc)

/-- Joining adds slashes and nothing else. -/
theorem mem_joinSegments {names : List (List Char)} {c : Char} (h : c ∈ joinSegments names) :
    c = '/' ∨ ∃ s ∈ names, c ∈ s := by
  induction names with
  | nil => cases h
  | cons s names ih =>
    cases names with
    | nil => exact Or.inr ⟨s, List.mem_cons_self, h⟩
    | cons s' names =>
      rw [joinSegments_cons_cons, List.mem_append, List.mem_cons] at h
      rcases h with h | h | h
      · exact Or.inr ⟨s, List.mem_cons_self, h⟩
      · exact Or.inl h
      · rcases ih h with hslash | ⟨t, ht, hc⟩
        · exact Or.inl hslash
        · exact Or.inr ⟨t, List.mem_cons_of_mem _ ht, hc⟩

/-- A segment that is read is one of the path, or a step up. -/
theorem mem_push {absolute : Bool} {read : List (List Char)} {s t : List Char}
    (h : t ∈ push absolute read s) : t ∈ read ∨ t = s ∨ t = dots := by
  unfold push at h
  split at h
  · exact Or.inl h
  · split at h
    · cases read with
      | nil =>
        simp only at h
        split at h
        · cases h
        · exact Or.inr (Or.inr (List.mem_singleton.mp h))
      | cons last before =>
        simp only at h
        split at h
        · split at h
          · exact Or.inl h
          · rcases List.mem_cons.mp h with h | h
            · exact Or.inr (Or.inr h)
            · exact Or.inl h
        · exact Or.inl (List.mem_cons_of_mem _ h)
    · rcases List.mem_cons.mp h with h | h
      · exact Or.inr (Or.inl h)
      · exact Or.inl h

/-- All segments of a path, one after another. -/
theorem mem_resolve {absolute : Bool} {segments : List (List Char)} {t : List Char}
    (h : t ∈ resolve absolute segments) : t ∈ segments ∨ t = dots := by
  have hfold : ∀ (segments read : List (List Char)), t ∈ segments.foldl (push absolute) read →
      t ∈ read ∨ t ∈ segments ∨ t = dots := by
    intro segments
    induction segments with
    | nil => exact fun read hread => Or.inl hread
    | cons s segments ih =>
      intro read hread
      rcases ih _ hread with hpush | hmem | hdots
      · rcases mem_push hpush with hread | rfl | hdots
        · exact Or.inl hread
        · exact Or.inr (Or.inl List.mem_cons_self)
        · exact Or.inr (Or.inr hdots)
      · exact Or.inr (Or.inl (List.mem_cons_of_mem _ hmem))
      · exact Or.inr (Or.inr hdots)
  rcases hfold segments [] (List.mem_reverse.mp h) with hnil | hmem
  · cases hnil
  · exact hmem

/-- **The normal form of a path has no backslash.** -/
theorem no_backslash_normalize (path : String) : '\\' ∉ (normalize path).toList := by
  have hbody : ∀ absolute,
      '\\' ∉ joinSegments (resolve absolute (splitSegments (slashed path.toList))) := by
    intro absolute h
    rcases mem_joinSegments h with hslash | ⟨s, hs, hc⟩
    · cases hslash
    · rcases mem_resolve hs with hsegment | rfl
      · exact no_backslash_slashed _ (mem_of_mem_splitSegments hsegment hc)
      · simp [dots] at hc
  rw [normalize, String.toList_ofList]
  unfold normalizeChars
  dsimp only
  split
  · intro h
    rcases List.mem_cons.mp h with hslash | h
    · cases hslash
    · exact hbody _ h
  · exact hbody _

end Path

theorem mem_of_mem_dropSlashes {cs : List Char} {c : Char} (h : c ∈ dropSlashes cs) : c ∈ cs := by
  rw [dropSlashes, List.mem_reverse] at h
  exact List.mem_reverse.mp ((List.dropWhile_sublist _).mem h)

/-- A path of names ends in a slash only if it has none. -/
theorem dropSlashes_rooted {names : List (List Char)} (h : ∀ s ∈ names, Path.IsName s) :
    dropSlashes (Path.rooted names).toList = Path.lead names := by
  rcases List.eq_nil_or_concat names with rfl | ⟨before, s, rfl⟩
  · decide
  · rw [List.concat_eq_append] at h ⊢
    have hs := h s (List.mem_append_right _ (List.mem_singleton_self s))
    obtain ⟨c, r, hr⟩ := List.exists_cons_of_ne_nil (List.reverse_ne_nil_iff.mpr hs.ne_nil)
    have hc : c ≠ '/' := by
      rintro rfl
      exact hs.no_slash (List.mem_reverse.mp (hr ▸ List.mem_cons_self))
    have hlast : (Path.lead (before ++ [s])).reverse = c :: (r ++ '/' :: (Path.lead before).reverse) := by
      simp [Path.lead_append, hr]
    rw [Path.toList_rooted_eq_lead (by simp), dropSlashes, hlast,
      List.dropWhile_cons_of_neg (by simpa using hc), ← hlast, List.reverse_reverse]

/-! ## 3. Patterns of whole paths

The text of such a pattern is read in two pieces: the escaped directory with its slash, which gives
a known draft, and the pattern from that draft on. -/

/-- **No character's bytes begin those of another.**  So a text begins with the characters that its
bytes begin with. -/
theorem Utf8.exists_of_encode_eq {x y : List Char} {r : List UInt8}
    (h : encode x = encode y ++ r) : ∃ z, x = y ++ z := by
  induction y generalizing x with
  | nil => exact ⟨x, rfl⟩
  | cons c y ih =>
    obtain ⟨b, tail, hbytes, hstep⟩ := step_encodeChar c (encode y ++ r)
    cases x with
    | nil =>
      rw [encode_nil, encode_cons, hbytes] at h
      cases h
    | cons a x =>
      obtain ⟨b', tail', hbytes', hstep'⟩ := step_encodeChar a (encode x)
      rw [encode_cons, encode_cons, hbytes, hbytes', List.append_assoc, List.cons_append,
        List.cons_append, List.cons.injEq] at h
      rw [h.1, h.2, hstep, Step.char.injEq] at hstep'
      obtain ⟨z, rfl⟩ := ih hstep'.2.symm
      exact ⟨z, by rw [hstep'.1, List.cons_append]⟩

/-- The directory of a pattern, as it stands in the pattern of whole paths. -/
def patternDir (dir : String) : List Char := dropSlashes (Path.normalize dir).toList

theorem no_backslash_patternDir (dir : String) : '\\' ∉ patternDir dir :=
  fun h => Path.no_backslash_normalize dir (mem_of_mem_dropSlashes h)

theorem toList_globText (dir pattern : String) : (globText dir pattern).toList
    = (Glob.escape (String.ofList (patternDir dir))).toList ++ '/' :: pattern.toList := by
  rw [globText, String.toList_append, String.toList_append, List.append_assoc]
  rfl

namespace Glob

open Draft

/-- The draft behind an escaped directory and a slash. -/
def Draft.behind (dir : List Char) : Draft :=
  ⟨.literal '/' :: (dir.map spell).reverse, [], some '/', 0, false⟩

theorem stands_behind (dir : List Char) : Stands (dir.map spell).reverse (behind dir) :=
  ⟨[], .literal '/', rfl, rfl, List.not_mem_nil⟩

/-- Reading the whole is reading the pattern behind the directory. -/
theorem read_globText (dir pattern : String) :
    read false {} (globText dir pattern).toList
      = read false (behind (patternDir dir)) pattern.toList := by
  obtain ⟨last, hrun⟩ := run_escaped (no_backslash_patternDir dir)
  rw [toList_globText, read_append, hrun, Option.bind_some, read_cons, advance, if_pos rfl,
    take_of_isPlain (by decide) (by decide) rfl, List.append_nil]
  simp only [Option.map_some, Option.bind_some, push, behind]

theorem parse?_globText {dir pattern : String} {g : Glob} :
    parse? (globText dir pattern) = some g ↔
      ∃ ts, read false (behind (patternDir dir)) pattern.toList = some ts ∧ g = ⟨ts, false⟩ := by
  rw [parse?, read_globText, Option.map_eq_some_iff]
  exact exists_congr fun ts => and_congr_right fun _ => eq_comm

/-- A pattern of whole paths is more than a lone `**`. -/
theorem tokens_ne_treeStart {below ts : List GlobToken} {d : Draft} {cs : List Char}
    (h : Stands below d) (hread : read false d cs = some ts) : ts ≠ [.treeStart] := by
  obtain ⟨e, hrun, hgroups, rfl⟩ := read_eq_some_iff.mp hread
  obtain ⟨us, t, hbase, ht, hus⟩ := h.run hrun
  rw [base_of_groups_eq_nil hgroups] at hbase
  intro heq
  have htokens : us ++ t :: below = [.treeStart] := by
    rw [← hbase, ← List.reverse_reverse e.tokens, heq]
    rfl
  cases us with
  | nil => exact takesSlash_ne ht (List.cons.inj htokens).1
  | cons u us => exact hus ((List.cons.inj htokens).1 ▸ List.mem_cons_self)

/-- A slash in front of parts with slashes behind them is a slash behind parts with slashes in
front. -/
theorem slash_parts (parts : List (List Char)) :
    '/' :: parts.flatMap (· ++ ['/']) = Path.lead parts ++ ['/'] := by
  induction parts with
  | nil => rfl
  | cons s parts ih =>
    rw [List.flatMap_cons, Path.lead_cons, List.append_assoc, List.singleton_append, ih,
      List.cons_append, List.cons_append, List.append_assoc]

/-- Behind plain parts the tokens stand on the characters of the directory and of these parts. -/
theorem stands_parts (dir : List Char) (parts : List (List Char)) (last : Option Char) :
    Stands (((Path.lead parts).map .literal).reverse ++ (dir.map spell).reverse)
      ⟨((parts.flatMap (· ++ ['/'])).map .literal).reverse ++
        .literal '/' :: (dir.map spell).reverse, [], last, 0, false⟩ := by
  have hslash := congrArg (fun cs => (cs.map GlobToken.literal).reverse ++ (dir.map spell).reverse)
    (slash_parts parts)
  simp only [List.map_cons, List.reverse_cons, List.map_append, List.reverse_append, List.map_nil,
    List.reverse_nil, List.nil_append, List.append_assoc, List.cons_append] at hslash
  exact ⟨[], .literal '/', hslash, rfl, List.not_mem_nil⟩

/-- **What a pattern with plain parts matches begins with these parts.** -/
theorem starts_of_globText {dir pattern path : String} {g : Glob} {parts : List (List Char)}
    {others : List Char} (hpattern : pattern.toList = parts.flatMap (· ++ ['/']) ++ others)
    (hplain : ∀ s ∈ parts, ∀ c ∈ s, isPlain c = true)
    (hg : parse? (globText dir pattern) = some g) (hmatch : g.isMatch path = true) :
    ∃ more, path.toList = patternDir dir ++ Path.lead parts ++ '/' :: more := by
  obtain ⟨ts, hread, rfl⟩ := parse?_globText.mp hg
  have hchars : ∀ c ∈ parts.flatMap (· ++ ['/']), isPlain c = true := by
    intro c hc
    obtain ⟨s, hs, hc⟩ := List.mem_flatMap.mp hc
    rcases List.mem_append.mp hc with hc | hc
    · exact hplain s hs c hc
    · rw [List.mem_singleton.mp hc]
      rfl
  have hlone := tokens_ne_treeStart (stands_behind _) hread
  -- the plain parts are read into their characters, and all that follows stands on them
  rw [hpattern, read_append, Option.bind_eq_some_iff] at hread
  obtain ⟨d, hd, hread⟩ := hread
  obtain ⟨last, rfl⟩ := run_plain hchars hd
  have hstands := stands_parts (patternDir dir) parts last
  obtain ⟨e, hrun, hgroups, rfl⟩ := read_eq_some_iff.mp hread
  obtain ⟨us, t, hbase, ht, -⟩ := hstands.run hrun
  rw [base_of_groups_eq_nil hgroups] at hbase
  have htokens : e.tokens.reverse = (patternDir dir).map spell ++
      ((Path.lead parts).map .literal ++ t :: us.reverse) := by
    rw [hbase]
    simp
  rw [isMatch, matchesBytes_iff hlone, htokens] at hmatch
  obtain ⟨more, hmore⟩ := starts_of_matches ht hmatch
  have hslash : (Utf8.encode ['/']) = [slash] := rfl
  rw [Utf8.bytes_eq_encode, ← List.singleton_append, ← hslash, ← List.append_assoc,
    ← Utf8.encode_append] at hmore
  obtain ⟨rest, hrest⟩ := Utf8.exists_of_encode_eq hmore
  refine ⟨rest, ?_⟩
  rw [hrest, List.append_assoc]
  rfl

/-! ## 4. Below what is excluded

An exclusion is a list of patterns: the one that is written, and the same with `/**` behind it.
What the first matches may be a directory, and what is below it is matched by the second; what the
second matches is below something already, and so is all that is below that. -/

theorem bytes_below (path rest : String) :
    Utf8.bytes (path ++ "/" ++ rest) = Utf8.bytes path ++ slash :: Utf8.bytes rest := by
  rw [Utf8.bytes_eq_encode, Utf8.bytes_eq_encode, Utf8.bytes_eq_encode, String.toList_append,
    String.toList_append, Utf8.encode_append, Utf8.encode_append, List.append_assoc]
  rfl

theorem toList_below (pattern : String) :
    (pattern ++ "/**").toList = pattern.toList ++ everythingBelow := by
  rw [String.toList_append]
  rfl

/-- Below what a pattern matches, the pattern with `/**` is valid and matches. -/
theorem isMatch_below {dir pattern path : String} {g : Glob}
    (hg : parse? (globText dir pattern) = some g) (hmatch : g.isMatch path = true) (rest : String) :
    ∃ g', parse? (globText dir (pattern ++ "/**")) = some g' ∧
      g'.isMatch (path ++ "/" ++ rest) = true := by
  obtain ⟨ts, hread, rfl⟩ := parse?_globText.mp hg
  have hlone := tokens_ne_treeStart (stands_behind _) hread
  rw [isMatch, matchesBytes_iff hlone] at hmatch
  obtain ⟨ts', hbelow, hts⟩ := read_below (stands_behind _) rfl hread
  have hlone' := tokens_ne_treeStart (stands_behind _) hbelow
  refine ⟨⟨ts' ++ [.treeEnd], false⟩, ?_, ?_⟩
  · refine parse?_globText.mpr ⟨_, ?_, rfl⟩
    rw [toList_below]
    exact hbelow
  · rw [isMatch, matchesBytes_iff hlone', bytes_below]
    rcases hts with rfl | rfl
    · exact matches_below hmatch _
    · exact matches_below_of_treeEnd hmatch _

/-- A pattern with `/**` matches with a path all that is below it. -/
theorem isMatch_of_below {dir pattern path : String} {g : Glob}
    (hg : parse? (globText dir (pattern ++ "/**")) = some g) (hmatch : g.isMatch path = true)
    (rest : String) : g.isMatch (path ++ "/" ++ rest) = true := by
  obtain ⟨ts, hread, rfl⟩ := parse?_globText.mp hg
  have hlone := tokens_ne_treeStart (stands_behind _) hread
  rw [isMatch, matchesBytes_iff hlone] at hmatch ⊢
  rw [toList_below] at hread
  obtain ⟨ts', rfl⟩ := read_of_below (stands_behind _) rfl hread
  rw [bytes_below]
  exact matches_below_of_treeEnd hmatch _

end Glob

/-- Each pattern of an exclusion comes with its `/**`, or is one. -/
theorem exclusionTexts_closed {dir pattern text : String} (h : text ∈ exclusionTexts dir pattern) :
    ∃ dir' p, text = globText dir' p ∧
      (globText dir' (p ++ "/**") ∈ exclusionTexts dir pattern ∨ ∃ q, p = q ++ "/**") := by
  unfold exclusionTexts at h ⊢
  generalize anchor dir pattern = anchored at h ⊢
  obtain ⟨dir', p⟩ := anchored
  dsimp only at h ⊢
  split at h
  · cases h
  · next hempty =>
    rw [if_neg hempty]
    simp only [List.map_cons, List.map_nil, List.mem_append, List.mem_cons, List.not_mem_nil,
      or_false] at h ⊢
    rcases h with (rfl | rfl) | h
    · exact ⟨dir', p, rfl, Or.inl (Or.inl (Or.inr rfl))⟩
    · exact ⟨dir', _, rfl, Or.inr ⟨p, rfl⟩⟩
    · split at h
      · cases h
      · next hfloating =>
        rw [if_neg hfloating]
        simp only [List.mem_cons, List.not_mem_nil, or_false] at h ⊢
        rcases h with rfl | rfl
        · exact ⟨dir', _, rfl, Or.inl (Or.inr (Or.inr rfl))⟩
        · exact ⟨dir', _, rfl, Or.inr ⟨_, rfl⟩⟩

/-- **What is below something excluded is excluded.** -/
theorem excluded_below {dir pattern text path : String} {g : Glob}
    (htext : text ∈ exclusionTexts dir pattern) (hg : Glob.parse? text = some g)
    (hmatch : g.isMatch path = true) (rest : String) :
    ∃ text' ∈ exclusionTexts dir pattern, ∃ g', Glob.parse? text' = some g' ∧
      g'.isMatch (path ++ "/" ++ rest) = true := by
  obtain ⟨dir', p, rfl, hbelow | ⟨q, rfl⟩⟩ := exclusionTexts_closed htext
  · obtain ⟨g', hg', hmatch'⟩ := Glob.isMatch_below hg hmatch rest
    exact ⟨_, hbelow, g', hg', hmatch'⟩
  · exact ⟨_, htext, g, hg, Glob.isMatch_of_below hg hmatch rest⟩

end ComponentHost
