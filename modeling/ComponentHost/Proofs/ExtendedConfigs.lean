/-
# What an extended configuration says

A configuration extends others, those extend others again, and nothing keeps them from sharing a
base or from extending each other in a circle.  Loading lays them over each other as it goes.  This
file says what comes out without saying how it is laid.

The visits from a configuration are a list: for each base in the order listed, the visits of that
base, and then the configuration itself.  A base is left out if there is no such file, if the file
cannot be read, or if it is on the way from the start (`Config.LeftOut`).  It is not left out for
having been visited before on another way, so a shared base comes as often as it is extended, and
the last time counts.  `Config.VisitOrder` is this list as a relation, with no mention of loading;
there is exactly one (`Config.VisitedFrom.unique`).

`Config.Gathers` ties the two together: a configuration gathers a list of visits if it says, option
by option and list by list, what the last visit that says anything says.  Laying one over another
appends the visits (`Config.Gathers.laidOver`), and this is all that the induction over loading
needs (`Config.loadBases_gathers`).
-/
import ComponentHost.Proofs.OrderedMembers

namespace ComponentHost

/-! ## 1. The order of visits

The order is a relation between a way, a list of names and the visits that they lead to.  It has one
rule for each reason to leave a name out and one for a base that is visited, and says nothing of
what is in the files. -/

namespace Config

/-- The directory of a configuration. -/
def dirOf (path : String) : String := (Path.parent? path).getD "/"

/-- A configuration on a visit: what its file says, and the directory it stands in. -/
structure Visited where
  dir : String
  file : ConfigFile

/-- Why a name among the bases of a configuration leads to no visit. -/
inductive LeftOut (disk : FileTree) (way : List String) (dir name : String) : Prop
  /-- There is no such file. -/
  | missing (h : findBase? disk dir name = none)
  /-- The file is on the way from the start to here. -/
  | onTheWay {path : String} (found : findBase? disk dir name = some path)
      (seen : disk.canonical path ∈ way)
  /-- The file cannot be read. -/
  | unreadable {path : String} {e : ProjectError} (found : findBase? disk dir name = some path)
      (failed : ConfigFile.read disk path = .error e)

/-- The visits that the bases of a configuration lead to, in the order listed: for each base that
is not left out, the visits of its own bases and then the base itself. -/
inductive VisitedFrom (disk : FileTree) : List String → String → List String → List Visited → Prop
  | nil (way : List String) (dir : String) : VisitedFrom disk way dir [] []
  | leftOut {way : List String} {dir name : String} {names : List String} {others : List Visited}
      (reason : LeftOut disk way dir name) (rest : VisitedFrom disk way dir names others) :
      VisitedFrom disk way dir (name :: names) others
  | base {way : List String} {dir name path : String} {names : List String} {file : ConfigFile}
      {own others : List Visited} (found : findBase? disk dir name = some path)
      (new : disk.canonical path ∉ way) (read : ConfigFile.read disk path = .ok file)
      (below : VisitedFrom disk (disk.canonical path :: way) (dirOf path) file.bases own)
      (rest : VisitedFrom disk way dir names others) :
      VisitedFrom disk way dir (name :: names) (own ++ ⟨dirOf path, file⟩ :: others)

/-- The visits from a configuration: those of its bases, and then the configuration itself. -/
def VisitOrder (disk : FileTree) (path : String) (order : List Visited) : Prop :=
  ∃ file own, ConfigFile.read disk path = .ok file ∧
    VisitedFrom disk [disk.canonical path] (dirOf path) file.bases own ∧
    order = own ++ [⟨dirOf path, file⟩]

/-- What is left out although it can be found and read is on the way. -/
theorem LeftOut.mem_way {disk : FileTree} {way : List String} {dir name path : String}
    {file : ConfigFile} (h : LeftOut disk way dir name)
    (found : findBase? disk dir name = some path) (read : ConfigFile.read disk path = .ok file) :
    disk.canonical path ∈ way := by
  cases h with
  | missing h =>
    rw [found] at h
    cases h
  | onTheWay found' seen =>
    cases found.symm.trans found'
    exact seen
  | unreadable found' failed =>
    cases found.symm.trans found'
    rw [read] at failed
    cases failed

/-- There is one order of visits only. -/
theorem VisitedFrom.unique {disk : FileTree} {way : List String} {dir : String}
    {names : List String} {order order' : List Visited} (h : VisitedFrom disk way dir names order)
    (h' : VisitedFrom disk way dir names order') : order' = order := by
  induction h generalizing order' with
  | nil =>
    cases h'
    rfl
  | leftOut reason rest ih =>
    cases h' with
    | leftOut _ rest' => exact ih rest'
    | base found new read _ _ => exact absurd (reason.mem_way found read) new
  | base found new read below rest ihBelow ihRest =>
    cases h' with
    | leftOut reason _ => exact absurd (reason.mem_way found read) new
    | base found' new' read' below' rest' =>
      cases found.symm.trans found'
      cases read.symm.trans read'
      rw [ihBelow below', ihRest rest']

/-! ## 2. What is said last

A configuration as it is gathered is compared with the visits: for each option and each list, what
the last of them says.  Laying over takes what is said and leaves the rest, so it is that of all
visits together. -/

/-- What the last of the visited configurations that says anything says. -/
def lastSaid {α : Type} (said : Visited → Option α) (order : List Visited) : Option α :=
  (order.filterMap said).getLast?

theorem lastSaid_append {α : Type} (said : Visited → Option α) (before after : List Visited) :
    lastSaid said (before ++ after) = (lastSaid said after).or (lastSaid said before) := by
  rw [lastSaid, List.filterMap_append, List.getLast?_append]
  rfl

/-- The configuration says what the visited configurations say last, option by option and list by
list. -/
structure Gathers (order : List Visited) (c : Config) : Prop where
  inOrder : c.options.InOrder
  option : ∀ key, c.options.get? key = lastSaid (·.file.options.get? key) order
  files : c.files = lastSaid (fun v => v.file.files.map (⟨v.dir, ·⟩)) order
  including : c.including = lastSaid (fun v => v.file.including.map (⟨v.dir, ·⟩)) order
  excluding : c.excluding = lastSaid (fun v => v.file.excluding.map (⟨v.dir, ·⟩)) order

theorem gathers_nil : Gathers [] {} := ⟨List.Pairwise.nil, fun _ => rfl, rfl, rfl, rfl⟩

/-- One file alone says what it says. -/
theorem gathers_ofFile {disk : FileTree} {path : String} {file : ConfigFile}
    (h : ConfigFile.read disk path = .ok file) (dir : String) :
    Gathers [⟨dir, file⟩] (ofFile dir file) := by
  have hone : ∀ {α : Type} (said : Visited → Option α) (v : Visited),
      lastSaid said [v] = said v := by
    intro α said v
    cases hv : said v <;> simp [lastSaid, hv]
  refine ⟨ConfigFile.inOrder_read h, fun key => ?_, ?_, ?_, ?_⟩
  all_goals
    rw [hone]
    rfl

/-- **What is laid over the visits so far is what is said later.** -/
theorem Gathers.laidOver {before after : List Visited} {base top : Config}
    (hbase : Gathers before base) (htop : Gathers after top) :
    Gathers (before ++ after) (top.laidOver base) := by
  refine ⟨Table.inOrder_foldl hbase.inOrder, fun key => ?_, ?_, ?_, ?_⟩
  · rw [lastSaid_append, ← hbase.option, ← htop.option]
    exact Table.get?_foldl_insertSorted htop.inOrder.nodup base.options key
  · rw [lastSaid_append, ← hbase.files, ← htop.files]
    exact Option.or_eq_orElse.symm
  · rw [lastSaid_append, ← hbase.including, ← htop.including]
    exact Option.or_eq_orElse.symm
  · rw [lastSaid_append, ← hbase.excluding, ← htop.excluding]
    exact Option.or_eq_orElse.symm

/-! ## 3. Loading

Loading goes through the names in turn and gathers what each of them leads to. -/

theorem loadFrom_of_read {disk : FileTree} {chain : List String} {path : String}
    {file : ConfigFile} (h : ConfigFile.read disk path = .ok file) :
    loadFrom disk chain path = .ok ((ofFile (dirOf path) file).laidOver
      (loadBases disk chain (dirOf path) file.bases {})) := by
  rw [loadFrom, h]
  rfl

theorem loadFrom_of_error {disk : FileTree} {chain : List String} {path : String}
    {e : ProjectError} (h : ConfigFile.read disk path = .error e) :
    loadFrom disk chain path = .error e := by
  rw [loadFrom, h]
  rfl

/-- A base that is left out changes nothing. -/
theorem loadBases_of_leftOut {disk : FileTree} {chain : List String} {dir name : String}
    (h : LeftOut disk chain dir name) (names : List String) (base : Config) :
    loadBases disk chain dir (name :: names) base = loadBases disk chain dir names base := by
  rw [loadBases]
  split
  · rfl
  · next path hpath =>
    split
    · rfl
    · next hnew =>
      cases h with
      | missing hmissing =>
        rw [hpath] at hmissing
        cases hmissing
      | onTheWay found seen =>
        cases hpath.symm.trans found
        exact absurd seen hnew
      | unreadable found failed =>
        cases hpath.symm.trans found
        rw [loadFrom_of_error failed]

/-- A base that is not left out is laid over what was there, behind its own bases. -/
theorem loadBases_of_read {disk : FileTree} {chain : List String} {dir name path : String}
    {file : ConfigFile} (found : findBase? disk dir name = some path)
    (new : disk.canonical path ∉ chain) (read : ConfigFile.read disk path = .ok file)
    (names : List String) (base : Config) :
    loadBases disk chain dir (name :: names) base = loadBases disk chain dir names
      (((ofFile (dirOf path) file).laidOver
        (loadBases disk (disk.canonical path :: chain) (dirOf path) file.bases {})).laidOver base)
      := by
  rw [loadBases]
  split
  · next hnone =>
    rw [found] at hnone
    cases hnone
  · next path' hpath =>
    cases found.symm.trans hpath
    rw [dif_neg new, loadFrom_of_read read]

/-- **Loading gathers what the visits say.**  The induction is the recursion of loading: over the
names that are still to come, and below each of them over the files not yet on the way. -/
theorem loadBases_gathers (disk : FileTree) (chain : List String) (dir : String)
    (names : List String) (base : Config) :
    ∀ before, Gathers before base → ∃ order, VisitedFrom disk chain dir names order ∧
      Gathers (before ++ order) (loadBases disk chain dir names base) := by
  have hleftOut : ∀ {chain : List String} {dir name : String} {names : List String} {base : Config},
      LeftOut disk chain dir name →
      (∀ before, Gathers before base → ∃ order, VisitedFrom disk chain dir names order ∧
        Gathers (before ++ order) (loadBases disk chain dir names base)) →
      ∀ before, Gathers before base → ∃ order, VisitedFrom disk chain dir (name :: names) order ∧
        Gathers (before ++ order) (loadBases disk chain dir (name :: names) base) := by
    intro chain dir name names base hreason ih before hbefore
    obtain ⟨order, hvisited, hgathers⟩ := ih before hbefore
    refine ⟨order, .leftOut hreason hvisited, ?_⟩
    rwa [loadBases_of_leftOut hreason]
  induction chain, dir, names, base using loadBases.induct disk (fun chain path =>
      ∀ file : ConfigFile, ∃ own, VisitedFrom disk chain (dirOf path) file.bases own ∧
        Gathers own (loadBases disk chain (dirOf path) file.bases {})) with
  | case1 chain path ih file => exact ih file [] gathers_nil
  | case2 chain dir base =>
    intro before hbefore
    rw [loadBases]
    exact ⟨[], .nil _ _, by rwa [List.append_nil]⟩
  | case3 chain dir name rest base hmissing ih => exact hleftOut (.missing hmissing) ih
  | case4 chain dir name rest base path hfound hseen ih =>
    exact hleftOut (.onTheWay hfound hseen) ih
  | case5 chain dir name rest base path hfound hnew config hload ihBelow ih =>
    intro before hbefore
    cases hread : ConfigFile.read disk path with
    | error e =>
      rw [loadFrom_of_error hread] at hload
      cases hload
    | ok file =>
      rw [loadFrom_of_read hread] at hload
      cases hload
      obtain ⟨own, hown, hgathersOwn⟩ := ihBelow file
      have hconfig := hbefore.laidOver (hgathersOwn.laidOver (gathers_ofFile hread (dirOf path)))
      obtain ⟨order, hvisited, hgathers⟩ := ih _ hconfig
      refine ⟨own ++ ⟨dirOf path, file⟩ :: order, .base hfound hnew hread hown hvisited, ?_⟩
      rw [loadBases_of_read hfound hnew hread]
      simpa only [List.append_assoc, List.cons_append, List.nil_append] using hgathers
  | case6 chain dir name rest base path hfound hnew e hload ihBelow ih =>
    cases hread : ConfigFile.read disk path with
    | error e' => exact hleftOut (.unreadable hfound hread) ih
    | ok file =>
      rw [loadFrom_of_read hread] at hload
      cases hload

/-- **A configuration says what the last of the visited configurations says.**  If the start can be
read, there is one order of visits, each option has the value of the last configuration in it that
sets the option, and each of the three lists is the whole list of the last configuration that has
one, with the directory of that configuration. -/
theorem load_eq_last_visited {disk : FileTree} {path : String}
    (h : (ConfigFile.read disk path).isOk = true) :
    ∃ config order, load disk path = .ok config ∧
      (∀ visits, VisitOrder disk path visits ↔ visits = order) ∧
      (∀ key value, (key, value) ∈ config.options ↔
        lastSaid (·.file.options.get? key) order = some value) ∧
      config.files = lastSaid (fun v => v.file.files.map (⟨v.dir, ·⟩)) order ∧
      config.including = lastSaid (fun v => v.file.including.map (⟨v.dir, ·⟩)) order ∧
      config.excluding = lastSaid (fun v => v.file.excluding.map (⟨v.dir, ·⟩)) order := by
  obtain ⟨file, hread⟩ : ∃ file, ConfigFile.read disk path = .ok file := by
    cases hread : ConfigFile.read disk path with
    | ok file => exact ⟨file, rfl⟩
    | error e =>
      rw [hread] at h
      cases h
  obtain ⟨own, hown, hgathersOwn⟩ :=
    loadBases_gathers disk [disk.canonical path] (dirOf path) file.bases {} [] gathers_nil
  have hgathers := hgathersOwn.laidOver (gathers_ofFile hread (dirOf path))
  refine ⟨_, own ++ [⟨dirOf path, file⟩], loadFrom_of_read hread, fun visits => ⟨?_, ?_⟩,
    fun key value => ?_, hgathers.files, hgathers.including, hgathers.excluding⟩
  · rintro ⟨file', own', hread', hown', rfl⟩
    cases hread.symm.trans hread'
    rw [hown.unique hown']
  · rintro rfl
    exact ⟨file, own, hread, hown, rfl⟩
  · rw [Table.mem_iff_get? hgathers.inOrder.nodup, hgathers.option]
    rfl

/-- Two configurations that share a base, which extends itself; one of the two also extends the
start and a file that is not there. -/
def sharedBase : FileTree :=
  .directory
    [("a", .ofText "\x7b\"extends\":[\"./b\",\"./c\"]\x7d"),
      ("b", .ofText "\x7b\"extends\":\"./d\",\"compilerOptions\":\x7b\"y\":2\x7d\x7d"),
      ("c", .ofText "\x7b\"extends\":[\"./d\",\"./a\",\"./e\"]\x7d"),
      ("d", .ofText "\x7b\"extends\":\"./d\",\"compilerOptions\":\x7b\"y\":4\x7d,\"files\":[\"g\"]\x7d")]

/-- What the example looks at in a file: its bases, one option, and its list of files. -/
def outline (file : ConfigFile) : List String × Option (Option Int) × Option (List String) :=
  (file.bases, (file.options.get? "y").map Json.int?, file.files)

theorem exists_read_of_outline {disk : FileTree} {path : String}
    {said : List String × Option (Option Int) × Option (List String)}
    (h : (ConfigFile.read disk path).toOption.map outline = some said) :
    ∃ file, ConfigFile.read disk path = .ok file ∧ outline file = said := by
  cases hread : ConfigFile.read disk path with
  | error e =>
    rw [hread] at h
    cases h
  | ok file =>
    rw [hread] at h
    exact ⟨file, rfl, Option.some.inj h⟩

/-- The shared base is visited once before each of the two that extend it, so its option wins over
that of the first of them. -/
theorem load_eq_last_visited_shared :
    (ConfigFile.read sharedBase "/a").isOk = true ∧
      ∃ config, load sharedBase "/a" = .ok config ∧ ("y", .int 4) ∈ config.options ∧
        config.files = some ⟨"/", ["g"]⟩ := by
  -- where the names lead, and what stands there
  obtain ⟨⟨fa, ca⟩, ⟨fb, cb⟩, ⟨fc, cc⟩, ⟨fd, cd⟩, fe, ca'⟩ :
      (findBase? sharedBase "/" "./a" = some "/./a" ∧ sharedBase.canonical "/./a" = "/a") ∧
      (findBase? sharedBase "/" "./b" = some "/./b" ∧ sharedBase.canonical "/./b" = "/b") ∧
      (findBase? sharedBase "/" "./c" = some "/./c" ∧ sharedBase.canonical "/./c" = "/c") ∧
      (findBase? sharedBase "/" "./d" = some "/./d" ∧ sharedBase.canonical "/./d" = "/d") ∧
      findBase? sharedBase "/" "./e" = none ∧ sharedBase.canonical "/a" = "/a" := by
    decide +kernel
  obtain ⟨da, db, dc, dd⟩ :
      dirOf "/a" = "/" ∧ dirOf "/./b" = "/" ∧ dirOf "/./c" = "/" ∧ dirOf "/./d" = "/" := by
    decide +kernel
  obtain ⟨a, ra, sa⟩ : ∃ file, ConfigFile.read sharedBase "/a" = .ok file ∧
      outline file = (["./b", "./c"], none, none) := exists_read_of_outline (by decide +kernel)
  obtain ⟨b, rb, sb⟩ : ∃ file, ConfigFile.read sharedBase "/./b" = .ok file ∧
      outline file = (["./d"], some (some 2), none) := exists_read_of_outline (by decide +kernel)
  obtain ⟨c, rc, sc⟩ : ∃ file, ConfigFile.read sharedBase "/./c" = .ok file ∧
      outline file = (["./d", "./a", "./e"], none, none) :=
    exists_read_of_outline (by decide +kernel)
  obtain ⟨d, rd, sd⟩ : ∃ file, ConfigFile.read sharedBase "/./d" = .ok file ∧
      outline file = (["./d"], some (some 4), some ["g"]) :=
    exists_read_of_outline (by decide +kernel)
  simp only [outline, Prod.mk.injEq] at sa sb sc sd
  -- the base, below either of the two, and then those two
  have vd : ∀ {way names others}, "/d" ∉ way → VisitedFrom sharedBase way "/" names others →
      VisitedFrom sharedBase way "/" ("./d" :: names) (⟨"/", d⟩ :: others) := by
    intro way names others hway hrest
    have hself : VisitedFrom sharedBase ("/d" :: way) "/" d.bases [] := by
      rw [sd.1]
      exact .leftOut (.onTheWay fd (by simp [cd])) (.nil _ _)
    have hbase := VisitedFrom.base fd (by rwa [cd]) rd (by rwa [cd, dd]) hrest
    rwa [dd] at hbase
  have vb : VisitedFrom sharedBase ["/b", "/a"] "/" b.bases [⟨"/", d⟩] := by
    rw [sb.1]
    exact vd (by decide) (.nil _ _)
  have vc : VisitedFrom sharedBase ["/c", "/a"] "/" c.bases [⟨"/", d⟩] := by
    rw [sc.1]
    exact vd (by decide)
      (.leftOut (.onTheWay fa (by simp [ca])) (.leftOut (.missing fe) (.nil _ _)))
  have va : VisitedFrom sharedBase ["/a"] "/" a.bases [⟨"/", d⟩, ⟨"/", b⟩, ⟨"/", d⟩, ⟨"/", c⟩] := by
    rw [sa.1]
    have hc := VisitedFrom.base fc (by simp [cc]) rc (by rwa [cc, dc]) (.nil ["/a"] "/")
    have hb := VisitedFrom.base fb (by simp [cb]) rb (by rwa [cb, db]) hc
    rwa [db, dc] at hb
  have hvisits : VisitOrder sharedBase "/a" _ := ⟨a, _, ra, by rwa [ca', da], rfl⟩
  have hread : (ConfigFile.read sharedBase "/a").isOk = true := by
    rw [ra]
    rfl
  obtain ⟨config, order, hload, horder, hoptions, hfiles, -⟩ := load_eq_last_visited hread
  obtain rfl := (horder _).mp hvisits
  refine ⟨hread, config, hload, (hoptions _ _).mpr ?_, hfiles.trans ?_⟩
  · obtain ⟨y, hy, hint⟩ := Option.map_eq_some_iff.mp sd.2.1
    obtain rfl : y = .int 4 := by
      cases y <;> simp_all [Json.int?]
    obtain ⟨z, hz, -⟩ := Option.map_eq_some_iff.mp sb.2.1
    simp [lastSaid, Option.map_eq_none_iff.mp sa.2.1, Option.map_eq_none_iff.mp sc.2.1, hy, hz]
  · simp [lastSaid, sa.2.2, sb.2.2, sc.2.2, sd.2.2]

end Config

end ComponentHost
