/-
# The chain of configurations being loaded

Loading a configuration keeps one chain for the whole run: the files being loaded, the innermost
first.  A file goes onto the chain once it has been read, before its bases are looked at, and comes
off it behind the last of them.  Whether a base is on the way is asked of that chain, so a file
left on it by mistake would hide a base from all that come later.

`Config.loadFrom` hands the chain down and never takes anything off it.  Here the run is taken apart
into single steps over a chain that changes and a stack of the loads under way (`Loading.step`).
Every state of a run has the chain that its stack says (`Kept.chain`): the canonical paths of the
loads under way, on top of the chain at the start.  That the loads end, with the results of
`Config.loadFrom`, is an induction over its recursion (`reaches_leave`); that the recursion itself
is well founded comes from the states alone (`Call.wellFounded_makes`).
-/
import ComponentHost.Proofs.ExtendedConfigs
import ComponentHost.Proofs.StraightPaths
import ComponentHost.Proofs.PrunedWalks
import Mathlib.Logic.Relation
import Mathlib.Data.List.Perm.Subperm

namespace ComponentHost

/-! ## 1. Canonical paths

The chain has canonical paths, so that a file is found on it under any of its names.  A canonical
path is made of the names on the way to the file, and has to lead there. -/

namespace FileTree

/-- The way to a place spells the names on it. -/
theorem Place.pathOf_eq_rooted {way : List (String × FileTree)}
    (h : ∀ s ∈ (way.map (·.1.toList)).reverse, Path.IsName s) :
    Place.pathOf way = Path.rooted (way.map (·.1.toList)).reverse := by
  induction way with
  | nil => rfl
  | cons e way ih =>
    obtain ⟨name, above⟩ := e
    rw [List.map_cons, List.reverse_cons] at h ⊢
    have hway : ∀ s ∈ (way.map (·.1.toList)).reverse, Path.IsName s := fun s hs =>
      h s (List.mem_append_left _ hs)
    rw [Place.pathOf, ih hway, ← Path.child_rooted hway (h _ (by simp)), String.ofList_toList]

/-- The canonical path is the plain form of the path. -/
theorem canonical_of_locate {root : FileTree} {path : String} {p : Place}
    (h : root.locate path = .ok p) : root.canonical path = Path.rooted (Path.resolved path) := by
  have hnames := Place.names_of_locate h
  have hpath : root.canonical path = p.path := by rw [canonical, canonical?, h]; rfl
  rw [hpath, Place.path, Place.pathOf_eq_rooted, ← hnames]
  · rfl
  · exact fun s hs => Path.isName_resolved path s (hnames ▸ hs)

/-- Nothing can be looked up where the root is a file. -/
theorem resolved_ne_nil_of_file {root : FileTree} {path : String} {p : Place}
    {content : List UInt8} (h : root.locate path = .ok p) (hfile : p.tree = .file content) :
    Path.resolved path ≠ [] := by
  intro hnil
  have hroot := below?_names h
  rw [Place.names_of_locate h, hnil, hfile] at hroot
  rw [locate, if_pos (isAbsolute_of_locate h)] at h
  obtain ⟨entries, hentries⟩ := exists_directory_of_foldlM
    (by simpa using Path.splitSegments_ne_nil path.toList) h
  cases (Option.some.inj hroot).symm.trans hentries

/-- **The canonical path of a file leads to the file, and is its own canonical path.** -/
theorem isFile_canonical {root : FileTree} {path : String} (h : root.isFile path = true) :
    root.isFile (root.canonical path) = true ∧
      root.canonical (root.canonical path) = root.canonical path := by
  obtain ⟨p, content, hp, hcontent⟩ := isFile_iff.mp h
  have hnamed := Path.isName_resolved path
  have hfind : root.find? (Path.rooted (Path.resolved path)) = some (.file content) := by
    rw [find?_rooted hnamed (resolved_ne_nil_of_file hp hcontent), ← Place.names_of_locate hp,
      below?_names hp, hcontent]
  obtain ⟨q, hq, hqcontent⟩ := find?_eq_some_iff.mp hfind
  rw [canonical_of_locate hp, canonical_of_locate hq, Path.resolved_rooted hnamed]
  exact ⟨isFile_iff.mpr ⟨q, content, hq, hqcontent⟩, rfl⟩

end FileTree

/-- What can be read as a configuration is a file. -/
theorem ConfigFile.isFile_of_read {disk : FileTree} {path : String} {file : ConfigFile}
    (h : ConfigFile.read disk path = .ok file) : disk.isFile path = true := by
  cases hlocate : disk.locate path with
  | error e =>
    rw [ConfigFile.read, FileTree.text, FileTree.readText, FileTree.readBytes, hlocate] at h
    cases h
  | ok p =>
    cases htree : p.tree with
    | file content => exact FileTree.isFile_iff.mpr ⟨p, content, hlocate, htree⟩
    | directory entries =>
      have hbytes : disk.readBytes path = .error .isDirectory := by
        rw [FileTree.readBytes, hlocate]
        simp only [bind, Except.bind, htree]
        rfl
      rw [ConfigFile.read, FileTree.text, FileTree.readText, hbytes] at h
      cases h

namespace Config

/-! ## 2. Loading, step by step

The state of a run has the loads that have begun and not ended, with what they still have to do.  A
step begins a load, goes on with the innermost one or ends it.  What it does to the stack and to the
chain is said once (`Move`), so that what holds along a run need not look at the steps again. -/

/-- A load under way: its file has been read, and some of its bases are still to come. -/
structure Activation where
  path : String
  file : ConfigFile
  toCome : List String
  /-- What the bases so far say. -/
  gathered : Config

/-- The result of a base: what it says is laid over the bases before it, and a failure is passed
over. -/
def Activation.receive (a : Activation) : Except ProjectError Config → Activation
  | .ok config => { a with gathered := config.laidOver a.gathered }
  | .error _ => a

theorem Activation.receive_eq (a : Activation) (result : Except ProjectError Config) :
    a.receive result = { a with gathered := (a.receive result).gathered } := by
  cases result <;> rfl

/-- What a load says once all its bases have been seen. -/
def Activation.result (a : Activation) : Config :=
  (ofFile (dirOf a.path) a.file).laidOver a.gathered

/-- Where a run stands. -/
inductive Control where
  /-- A load begins. -/
  | enter (path : String)
  /-- The innermost load goes on to its next base. -/
  | proceed
  /-- A load has ended with a result. -/
  | leave (result : Except ProjectError Config)

/-- A state of a run: the loads under way and the chain, innermost first. -/
structure Loading where
  control : Control
  stack : List Activation
  chain : List String

namespace Loading

/-- One step of a run; none if it is over.  A file that cannot be read never gets onto the chain,
and one that can be read comes off it when no base is left. -/
def step (disk : FileTree) (s : Loading) : Option Loading :=
  match s.control, s.stack with
  | .enter path, stack =>
    match ConfigFile.read disk path with
    | .error e => some ⟨.leave (.error e), stack, s.chain⟩
    | .ok file =>
      some ⟨.proceed, ⟨path, file, file.bases, {}⟩ :: stack, disk.canonical path :: s.chain⟩
  | .proceed, a :: stack =>
    match a.toCome with
    | [] => some ⟨.leave (.ok a.result), stack, s.chain.tail⟩
    | name :: names =>
      match findBase? disk (dirOf a.path) name with
      | none => some ⟨.proceed, { a with toCome := names } :: stack, s.chain⟩
      | some base =>
        if disk.canonical base ∈ s.chain then
          some ⟨.proceed, { a with toCome := names } :: stack, s.chain⟩
        else some ⟨.enter base, { a with toCome := names } :: stack, s.chain⟩
  | .leave result, a :: stack => some ⟨.proceed, a.receive result :: stack, s.chain⟩
  | .proceed, [] => none
  | .leave _, [] => none

theorem step_of_read {disk : FileTree} {path : String} {file : ConfigFile}
    (h : ConfigFile.read disk path = .ok file) (stack : List Activation) (chain : List String) :
    step disk ⟨.enter path, stack, chain⟩ =
      some ⟨.proceed, ⟨path, file, file.bases, {}⟩ :: stack, disk.canonical path :: chain⟩ := by
  simp only [step, h]

theorem step_of_new {disk : FileTree} {chain : List String} {name base : String} {a : Activation}
    (found : findBase? disk (dirOf a.path) name = some base) (new : disk.canonical base ∉ chain)
    (stack : List Activation) :
    step disk ⟨.proceed, { a with toCome := name :: a.toCome } :: stack, chain⟩ =
      some ⟨.enter base, a :: stack, chain⟩ := by
  simp only [step, found, if_neg new]

/-- Some steps lead from one state to the other. -/
def Reaches (disk : FileTree) : Loading → Loading → Prop :=
  Relation.ReflTransGen fun s t => step disk s = some t

/-- The configurations whose loads are under way, the innermost first. -/
def paths (s : Loading) : List String := s.stack.map Activation.path

/-- The configuration whose load begins. -/
def entering? (s : Loading) : Option String :=
  match s.control with
  | .enter path => some path
  | _ => none

/-- What a step does to the loads under way and to the chain. -/
inductive Move (disk : FileTree) (s t : Loading) : Prop
  /-- Both stay as they are. -/
  | stay (quiet : t.entering? = none) (paths : t.paths = s.paths) (chain : t.chain = s.chain)
  /-- The load that begins is under way, and its file is on the chain. -/
  | push {path : String} (entered : s.entering? = some path) (file : disk.isFile path = true)
      (quiet : t.entering? = none) (paths : t.paths = path :: s.paths)
      (chain : t.chain = disk.canonical path :: s.chain)
  /-- The innermost load is over, and its file is off the chain. -/
  | pop {path : String} (quiet : t.entering? = none) (paths : s.paths = path :: t.paths)
      (chain : t.chain = s.chain.tail)
  /-- A base begins to be loaded below the innermost load, a file that is not on the chain. -/
  | call {path : String} (entering : t.entering? = some path) (file : disk.isFile path = true)
      (new : disk.canonical path ∉ s.chain) (paths : t.paths = s.paths) (chain : t.chain = s.chain)

/-- What a step can do, once for all that follows. -/
theorem move_of_step {disk : FileTree} {s t : Loading} (h : step disk s = some t) :
    Move disk s t := by
  obtain ⟨control, stack, chain⟩ := s
  cases control with
  | enter path =>
    cases hread : ConfigFile.read disk path with
    | error e =>
      simp only [step, hread, Option.some.injEq] at h
      subst h
      exact .stay rfl rfl rfl
    | ok file =>
      simp only [step, hread, Option.some.injEq] at h
      subst h
      exact .push rfl (ConfigFile.isFile_of_read hread) rfl rfl rfl
  | leave result =>
    cases stack with
    | nil => cases h
    | cons a stack =>
      simp only [step, Option.some.injEq] at h
      subst h
      cases result <;> exact .stay rfl rfl rfl
  | proceed =>
    obtain - | ⟨⟨path, file, toCome, gathered⟩, stack⟩ := stack
    · cases h
    · cases toCome with
      | nil =>
        simp only [step, Option.some.injEq] at h
        subst h
        exact .pop rfl rfl rfl
      | cons name names =>
        cases hbase : findBase? disk (dirOf path) name with
        | none =>
          simp only [step, hbase, Option.some.injEq] at h
          subst h
          exact .stay rfl rfl rfl
        | some base =>
          by_cases hseen : disk.canonical base ∈ chain
          · simp only [step, hbase, if_pos hseen, Option.some.injEq] at h
            subst h
            exact .stay rfl rfl rfl
          · simp only [step, hbase, if_neg hseen, Option.some.injEq] at h
            subst h
            exact .call rfl (isFile_of_findBase? hbase) hseen rfl rfl

end Loading

open Loading

/-! ## 3. The chain along a run

Two things hold in every state: the chain is that of the stack, and a load that begins is of a file
that is not on it.  From both follows that no file is on the chain twice. -/

/-- A call of the loader: the configuration, and the chain when the call is made. -/
structure Call where
  path : String
  chain : List String

/-- The state in which a call is made on its own. -/
def Call.start (c : Call) : Loading := ⟨.enter c.path, [], c.chain⟩

/-- The outer call makes the inner one: in some run, and however deep in it, the load of the outer
call is the innermost under way when the inner call begins.  The outer call was made on the chain
without its own file. -/
def Call.Makes (disk : FileTree) (outer inner : Call) : Prop :=
  ∃ (c : Call) (a : Activation) (below : List Activation),
    Reaches disk c.start ⟨.enter inner.path, a :: below, inner.chain⟩ ∧
      outer = ⟨a.path, inner.chain.tail⟩

/-- What holds of every state in the run of a call. -/
structure Kept (disk : FileTree) (c : Call) (s : Loading) : Prop where
  /-- The files on the chain are those of the loads under way, on top of the chain of the call. -/
  chain : s.chain = s.paths.map disk.canonical ++ c.chain
  /-- What begins is the call itself, or a file that is not on the chain. -/
  entering : ∀ path, s.entering? = some path → s.paths = [] ∧ path = c.path ∨
    disk.isFile path = true ∧ disk.canonical path ∉ s.chain

theorem Kept.start (disk : FileTree) (c : Call) : Kept disk c c.start where
  chain := rfl
  entering _ h := .inl ⟨rfl, (Option.some.inj h).symm⟩

theorem Kept.move {disk : FileTree} {c : Call} {s t : Loading} (h : Kept disk c s)
    (hmove : Move disk s t) : Kept disk c t := by
  have hquiet : t.entering? = none → ∀ path, t.entering? = some path →
      t.paths = [] ∧ path = c.path ∨ disk.isFile path = true ∧ disk.canonical path ∉ t.chain := by
    intro hnone path hpath
    cases hnone.symm.trans hpath
  cases hmove with
  | stay quiet paths chain =>
    refine ⟨?_, hquiet quiet⟩
    rw [chain, paths, h.chain]
  | push _ _ quiet paths chain =>
    refine ⟨?_, hquiet quiet⟩
    rw [chain, paths, h.chain]
    rfl
  | pop quiet paths chain =>
    refine ⟨?_, hquiet quiet⟩
    rw [chain, h.chain, paths]
    rfl
  | call entering file new paths chain =>
    refine ⟨?_, fun path hpath => ?_⟩
    · rw [chain, paths, h.chain]
    · cases entering.symm.trans hpath
      rw [chain]
      exact .inr ⟨file, new⟩

/-- **What is kept holds along a whole run.**  -/
theorem Kept.of_reaches {disk : FileTree} {c : Call} {s : Loading}
    (h : Reaches disk c.start s) : Kept disk c s := by
  induction h with
  | refl => exact .start disk c
  | tail _ hstep ih => exact ih.move (move_of_step hstep)

/-- A chain of files that are there, each under its canonical path and none of them twice. -/
structure DistinctFiles (disk : FileTree) (chain : List String) : Prop where
  nodup : chain.Nodup
  isFile : ∀ path ∈ chain, disk.isFile path = true
  canonical : ∀ path ∈ chain, disk.canonical path = path

theorem distinctFiles_nil (disk : FileTree) : DistinctFiles disk [] where
  nodup := List.nodup_nil
  isFile _ h := absurd h List.not_mem_nil
  canonical _ h := absurd h List.not_mem_nil

theorem DistinctFiles.cons {disk : FileTree} {chain : List String} {path : String}
    (h : DistinctFiles disk chain) (hfile : disk.isFile path = true)
    (hnew : disk.canonical path ∉ chain) : DistinctFiles disk (disk.canonical path :: chain) where
  nodup := List.nodup_cons.mpr ⟨hnew, h.nodup⟩
  isFile := List.forall_mem_cons.mpr ⟨(FileTree.isFile_canonical hfile).1, h.isFile⟩
  canonical := List.forall_mem_cons.mpr ⟨(FileTree.isFile_canonical hfile).2, h.canonical⟩

theorem DistinctFiles.tail {disk : FileTree} {chain : List String} (h : DistinctFiles disk chain) :
    DistinctFiles disk chain.tail where
  nodup := h.nodup.tail
  isFile path hpath := h.isFile path (List.mem_of_mem_tail hpath)
  canonical path hpath := h.canonical path (List.mem_of_mem_tail hpath)

/-- Such a chain is no longer than there are files. -/
theorem DistinctFiles.length_le {disk : FileTree} {chain : List String}
    (h : DistinctFiles disk chain) : chain.length ≤ disk.filePaths.length := by
  have hsub : chain ⊆ disk.filePaths := by
    intro path hpath
    have hmem := FileTree.canonical_mem_filePaths (h.isFile path hpath)
    rwa [h.canonical path hpath] at hmem
  exact (List.Nodup.subperm h.nodup hsub).length_le

theorem DistinctFiles.move {disk : FileTree} {c : Call} {s t : Loading}
    (h : DistinctFiles disk s.chain) (hkept : Kept disk c s)
    (hnew : disk.canonical c.path ∉ c.chain) (hmove : Move disk s t) : DistinctFiles disk t.chain := by
  cases hmove with
  | stay _ _ chain => rwa [chain]
  | call _ _ _ _ chain => rwa [chain]
  | pop _ _ chain =>
    rw [chain]
    exact h.tail
  | @push path entered file _ _ chain =>
    rw [chain]
    refine h.cons file ?_
    rcases hkept.entering path entered with ⟨hnone, rfl⟩ | ⟨-, hfresh⟩
    · rwa [hkept.chain, hnone]
    · exact hfresh

theorem DistinctFiles.of_reaches {disk : FileTree} {c : Call} {s : Loading}
    (h : DistinctFiles disk c.chain) (hnew : disk.canonical c.path ∉ c.chain)
    (hreach : Reaches disk c.start s) : DistinctFiles disk s.chain := by
  induction hreach with
  | refl => exact h
  | tail hbefore hstep ih => exact ih.move (Kept.of_reaches hbefore) hnew (move_of_step hstep)

/-! ## 4. Every call ends

A call that is made by another has one more file on its chain, and the files on a chain are
different ones of finitely many.  So calls do not nest for ever.  That each single load comes to its
end follows the recursion of `loadFrom` and `loadBases`, where each call has its own steps in the
run. -/

/-- A call made by another leaves fewer files unvisited. -/
theorem Call.unvisited_lt {disk : FileTree} {outer inner : Call} (h : outer.Makes disk inner) :
    unvisited disk (disk.canonical inner.path :: inner.chain) <
      unvisited disk (disk.canonical outer.path :: outer.chain) := by
  obtain ⟨c, a, below, hreach, rfl⟩ := h
  have hkept := Kept.of_reaches hreach
  -- the file of the outer call is on the chain, and comes first
  have hchain : disk.canonical a.path :: inner.chain.tail = inner.chain := by
    have htop : inner.chain =
      disk.canonical a.path :: (below.map Activation.path).map disk.canonical ++ c.chain :=
      hkept.chain
    rw [htop]
    rfl
  rcases hkept.entering inner.path rfl with ⟨hnone, -⟩ | ⟨hfile, hnew⟩
  · cases hnone
  · rw [hchain]
    exact unvisited_cons_lt (FileTree.canonical_mem_filePaths hfile) hnew

/-- **The recursion is well founded**: each call made by another has one file less to visit. -/
theorem Call.wellFounded_makes (disk : FileTree) :
    WellFounded fun inner outer : Call => outer.Makes disk inner :=
  Subrelation.wf Call.unvisited_lt
    (measure fun c : Call => unvisited disk (disk.canonical c.path :: c.chain)).wf

/-- A load comes back if it gets to the end of its bases. -/
theorem reaches_leave_of_bases {disk : FileTree} {path : String} {chain : List String}
    (h : ∀ file stack, Reaches disk
      ⟨.proceed, ⟨path, file, file.bases, {}⟩ :: stack, disk.canonical path :: chain⟩
      ⟨.proceed, ⟨path, file, [], loadBases disk (disk.canonical path :: chain) (dirOf path)
        file.bases {}⟩ :: stack, disk.canonical path :: chain⟩) (stack : List Activation) :
    Reaches disk ⟨.enter path, stack, chain⟩
      ⟨.leave (loadFrom disk (disk.canonical path :: chain) path), stack, chain⟩ := by
  cases hread : ConfigFile.read disk path with
  | error e =>
    rw [loadFrom_of_error hread]
    exact .single (by simp only [step, hread])
  | ok file =>
    rw [loadFrom_of_read hread]
    exact .head (step_of_read hread stack chain) ((h file stack).tail rfl)

/-- A base that is found and not on the way is loaded, and its result received. -/
theorem loadBases_of_new {disk : FileTree} {chain : List String} {dir name base : String}
    (found : findBase? disk dir name = some base) (new : disk.canonical base ∉ chain)
    (names : List String) (a : Activation) :
    loadBases disk chain dir (name :: names) a.gathered = loadBases disk chain dir names
      (a.receive (loadFrom disk (disk.canonical base :: chain) base)).gathered := by
  cases hread : ConfigFile.read disk base with
  | error e =>
    rw [loadBases_of_leftOut (.unreadable found hread), loadFrom_of_error hread]
    rfl
  | ok file =>
    rw [loadBases_of_read found new hread, loadFrom_of_read hread]
    rfl

/-- If the load of such a base comes back, and the innermost load gets to the end of its other bases
with the result, it gets to the end of them all. -/
theorem reaches_bases_of_new {disk : FileTree} {chain : List String} {name base : String}
    {stack : List Activation} {result : Except ProjectError Config} (a : Activation)
    (found : findBase? disk (dirOf a.path) name = some base) (new : disk.canonical base ∉ chain)
    (hload : loadFrom disk (disk.canonical base :: chain) base = result)
    (hbelow : Reaches disk ⟨.enter base, a :: stack, chain⟩ ⟨.leave
      (loadFrom disk (disk.canonical base :: chain) base), a :: stack, chain⟩)
    (hrest : Reaches disk ⟨.proceed, a.receive result :: stack, chain⟩
      ⟨.proceed, ⟨a.path, a.file, [],
        loadBases disk chain (dirOf a.path) a.toCome (a.receive result).gathered⟩ :: stack, chain⟩) :
    Reaches disk ⟨.proceed, ⟨a.path, a.file, name :: a.toCome, a.gathered⟩ :: stack, chain⟩
      ⟨.proceed, ⟨a.path, a.file, [],
        loadBases disk chain (dirOf a.path) (name :: a.toCome) a.gathered⟩ :: stack, chain⟩ := by
  subst hload
  rw [loadBases_of_new found new]
  exact .head (step_of_new found new stack) ((hbelow.tail rfl).trans hrest)

/-- The innermost load gets to the end of its bases, with the chain as it was.  The induction is the
recursion of `loadBases`. -/
theorem reaches_bases (disk : FileTree) (chain : List String) (dir : String) (names : List String)
    (gathered : Config) : ∀ path file stack, dirOf path = dir →
      Reaches disk ⟨.proceed, ⟨path, file, names, gathered⟩ :: stack, chain⟩
        ⟨.proceed, ⟨path, file, [], loadBases disk chain dir names gathered⟩ :: stack, chain⟩ := by
  induction chain, dir, names, gathered using loadBases.induct disk (fun chain path =>
      ∀ file stack, Reaches disk ⟨.proceed, ⟨path, file, file.bases, {}⟩ :: stack, chain⟩
        ⟨.proceed, ⟨path, file, [], loadBases disk chain (dirOf path) file.bases {}⟩ :: stack,
          chain⟩) with
  | case1 chain path ih file stack => exact ih file path file stack rfl
  | case2 chain dir gathered =>
    intro path file stack hdir
    rw [loadBases]
    exact .refl
  | case3 chain dir name names gathered hmissing ih =>
    intro path file stack hdir
    rw [loadBases_of_leftOut (.missing hmissing)]
    refine .head ?_ (ih path file stack hdir)
    simp only [step, hdir, hmissing]
  | case4 chain dir name names gathered base hfound hseen ih =>
    intro path file stack hdir
    rw [loadBases_of_leftOut (.onTheWay hfound hseen)]
    refine .head ?_ (ih path file stack hdir)
    simp only [step, hdir, hfound, if_pos hseen]
  | case5 chain dir name names gathered base hfound hnew config hload ihBelow ih =>
    rintro path file stack rfl
    exact reaches_bases_of_new ⟨path, file, names, gathered⟩ hfound hnew hload
      (reaches_leave_of_bases ihBelow _) (ih path file stack rfl)
  | case6 chain dir name names gathered base hfound hnew e hload ihBelow ih =>
    rintro path file stack rfl
    exact reaches_bases_of_new ⟨path, file, names, gathered⟩ hfound hnew hload
      (reaches_leave_of_bases ihBelow _) (ih path file stack rfl)

/-- **Every load comes back**, with the chain and the loads under way as they were, and with the
result of `loadFrom`. -/
theorem reaches_leave (disk : FileTree) (path : String) (stack : List Activation)
    (chain : List String) : Reaches disk ⟨.enter path, stack, chain⟩
      ⟨.leave (loadFrom disk (disk.canonical path :: chain) path), stack, chain⟩ :=
  reaches_leave_of_bases (fun file stack => reaches_bases disk _ _ _ _ path file stack rfl) stack

/-- **Loading ends and leaves the chain as it was.**  Calls that make calls do not go on for ever.
Every call comes to its end, with the result of `loadFrom`, whether a configuration or an error, and
with the chain on which it was made.  In every state on the way the chain holds the loads under way
on top of that chain; each call made on the way is for a file that is not on the chain, and comes
back on the chain on which it was made.  If the chain at first holds files, none of them twice and
the one to be loaded not among them, then so does every chain on the way, which is therefore no
longer than there are files. -/
theorem loading_ends_balanced (disk : FileTree) :
    (WellFounded fun inner outer : Call => outer.Makes disk inner) ∧
    ∀ c : Call,
      (∃ last, Reaches disk c.start last ∧ step disk last = none ∧ last.chain = c.chain ∧
        last.control = .leave (loadFrom disk (disk.canonical c.path :: c.chain) c.path)) ∧
      ∀ s, Reaches disk c.start s →
        s.chain = s.paths.map disk.canonical ++ c.chain ∧
        (∀ path, s.control = .enter path →
          Reaches disk s { s with
            control := .leave (loadFrom disk (disk.canonical path :: s.chain) path) } ∧
          (s.stack ≠ [] → disk.isFile path = true ∧ disk.canonical path ∉ s.chain)) ∧
        (DistinctFiles disk c.chain → disk.canonical c.path ∉ c.chain →
          DistinctFiles disk s.chain ∧ s.chain.length ≤ disk.filePaths.length) := by
  refine ⟨Call.wellFounded_makes disk, fun c =>
    ⟨⟨_, reaches_leave disk c.path [] c.chain, rfl, rfl, rfl⟩, fun s hreach => ?_⟩⟩
  have hkept := Kept.of_reaches hreach
  refine ⟨hkept.chain, fun path hpath => ⟨?_, ?_⟩, fun hfiles hnew => ?_⟩
  · obtain ⟨control, stack, chain⟩ := s
    subst hpath
    exact reaches_leave disk path stack chain
  · intro hstack
    have hentering : s.entering? = some path := by rw [entering?, hpath]
    rcases hkept.entering path hentering with ⟨hnone, -⟩ | hfresh
    · exact absurd (List.map_eq_nil_iff.mp hnone) hstack
    · exact hfresh
  · have hdistinct := hfiles.of_reaches hnew hreach
    exact ⟨hdistinct, hdistinct.length_le⟩

/-- When the shared base is loaded below the second of the two that extend it, the chain holds that
one and the start only: nothing is left of the loads before. -/
theorem loading_ends_balanced_shared :
    ∃ s, Reaches sharedBase (Call.start ⟨"/a", []⟩) s ∧ s.control = .enter "/./d" ∧
      s.chain = ["/c", "/a"] ∧ DistinctFiles sharedBase ["/c", "/a"] ∧
      sharedBase.canonical "/./d" ∉ s.chain ∧
      Reaches sharedBase s { s with
        control := .leave (loadFrom sharedBase ["/d", "/c", "/a"] "/./d") } ∧
      ∃ last, Reaches sharedBase (Call.start ⟨"/a", []⟩) last ∧ last.chain = [] ∧
        last.control = .leave (load sharedBase "/a") := by
  obtain ⟨fb, fc, fd⟩ :
      findBase? sharedBase "/" "./b" = some "/./b" ∧ findBase? sharedBase "/" "./c" = some "/./c" ∧
      findBase? sharedBase "/" "./d" = some "/./d" := by
    decide +kernel
  obtain ⟨ca, cb, cc, cd⟩ :
      sharedBase.canonical "/a" = "/a" ∧ sharedBase.canonical "/./b" = "/b" ∧
      sharedBase.canonical "/./c" = "/c" ∧ sharedBase.canonical "/./d" = "/d" := by
    decide +kernel
  obtain ⟨da, dc⟩ : dirOf "/a" = "/" ∧ dirOf "/./c" = "/" := by decide +kernel
  obtain ⟨a, ra, sa⟩ : ∃ file, ConfigFile.read sharedBase "/a" = .ok file ∧
      outline file = (["./b", "./c"], none, none) := exists_read_of_outline (by decide +kernel)
  obtain ⟨c, rc, sc⟩ : ∃ file, ConfigFile.read sharedBase "/./c" = .ok file ∧
      outline file = (["./d", "./a", "./e"], none, none) :=
    exists_read_of_outline (by decide +kernel)
  simp only [outline, Prod.mk.injEq] at sa sc
  -- the start is read, its first base comes back, and the second is read
  have hstart := step_of_read ra [] []
  have hfirst : step sharedBase ⟨.proceed, [⟨"/a", a, ["./b", "./c"], {}⟩], ["/a"]⟩ =
      some ⟨.enter "/./b", [⟨"/a", a, ["./c"], {}⟩], ["/a"]⟩ :=
    step_of_new (a := ⟨"/a", a, ["./c"], {}⟩) (by rwa [da]) (by rw [cb]; decide) []
  have hback := reaches_leave sharedBase "/./b" [⟨"/a", a, ["./c"], {}⟩] ["/a"]
  have hreceived := hback.tail (c := ⟨.proceed, _, _⟩) rfl
  rw [Activation.receive_eq] at hreceived
  have hsecond : ∀ gathered, step sharedBase ⟨.proceed, [⟨"/a", a, ["./c"], gathered⟩], ["/a"]⟩ =
      some ⟨.enter "/./c", [⟨"/a", a, [], gathered⟩], ["/a"]⟩ := fun gathered =>
    step_of_new (a := ⟨"/a", a, [], gathered⟩) (by rwa [da]) (by rw [cc]; decide) []
  have hread := step_of_read rc
  have hthird : ∀ stack, step sharedBase
      ⟨.proceed, ⟨"/./c", c, ["./d", "./a", "./e"], {}⟩ :: stack, ["/c", "/a"]⟩ =
      some ⟨.enter "/./d", ⟨"/./c", c, ["./a", "./e"], {}⟩ :: stack, ["/c", "/a"]⟩ := fun stack =>
    step_of_new (a := ⟨"/./c", c, ["./a", "./e"], {}⟩) (by rwa [dc]) (by rw [cd]; decide) stack
  rw [ca, sa.1] at hstart
  rw [cc, sc.1] at hread
  have hbegun : Reaches sharedBase (Call.start ⟨"/a", []⟩)
      ⟨.enter "/./b", [⟨"/a", a, ["./c"], {}⟩], ["/a"]⟩ := .head hstart (.single hfirst)
  have hreach : Reaches sharedBase (Call.start ⟨"/a", []⟩) ⟨.enter "/./d", _, ["/c", "/a"]⟩ :=
    .tail (.tail (.tail (hbegun.trans hreceived) (hsecond _)) (hread _ _)) (hthird _)
  obtain ⟨-, hcalls⟩ := loading_ends_balanced sharedBase
  obtain ⟨⟨last, hlast, -, hchain, hcontrol⟩, hstates⟩ := hcalls ⟨"/a", []⟩
  obtain ⟨-, hcall, hdistinct⟩ := hstates _ hreach
  obtain ⟨hcomes, hnew⟩ := hcall _ rfl
  rw [cd] at hcomes
  exact ⟨_, hreach, rfl, rfl, (hdistinct (distinctFiles_nil _) (by simp)).1,
    (hnew (List.cons_ne_nil _ _)).2, hcomes, last, hlast, hchain, hcontrol⟩

end Config

end ComponentHost
