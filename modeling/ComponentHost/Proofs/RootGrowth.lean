/-
# How a project grows

The compiler is given the files of a project as a list, asks of single files whether they are in it,
and compares a number to see whether the list has changed.  The host keeps a list, a set and a
number for the three, and they are moved when a workspace is loaded, when a document is written, for
the components that a document imports, and in the middle of looking up modules.

All of these are files that join (`Joins`), so the list is only ever extended: what is new comes
behind, each file once, in the order in which it first came (`joinedFiles_eq`).  Along any run the
list of an earlier moment therefore starts the list of a later one.

Looking up modules reads the state that it changes.  It reads the scripts and changes the list, and
no name can see what the names before it have added (`resolveModule_congr`).  A name makes a file
join exactly if it leads to a component (`host_resolveModule`): every other way ends with a file
that has the extension of a script.
-/
import ComponentHost.Proofs.Independence
import ComponentHost.Proofs.ServedModules

namespace ComponentHost

/-! ## 1. What a name that is no component's leads to

A name is looked up until a file with one of the extensions of scripts is found.  None of these
extensions is that of a component. -/

/-- A file with the extension of a script is no component. -/
theorem Extension.not_isComponent {e : Extension} {file : String} (h : file.endsWith e.suffix) :
    ¬ Path.isComponent file := by
  intro hcomponent
  obtain ⟨before, hbefore⟩ := Path.isComponent_iff.mp hcomponent
  obtain ⟨before', hbefore'⟩ := Text.endsWith_iff.mp h
  -- the two endings differ in their last character
  have hlast := congrArg List.getLast? (hbefore.trans hbefore'.symm)
  have hsuffix : ∃ c, e.suffix.toList.getLast? = some c ∧ c ≠ 'e' := by
    cases e <;> exact ⟨_, rfl, by decide⟩
  obtain ⟨c, hc, hne⟩ := hsuffix
  rw [List.getLast?_append, List.getLast?_append, hc] at hlast
  exact hne (Option.some.inj hlast).symm

namespace Resolver

variable {r : Resolver} {s : FileView}

/-- A path that is found as a file ends in the extension that is reported. -/
theorem endsWith_of_asFile? {typesOnly : Bool} {path : String} {found : String × Extension}
    (h : r.asFile? s typesOnly path = some found) : found.1.endsWith found.2.suffix := by
  unfold asFile? at h
  dsimp only at h
  split at h
  · next e hitself =>
    cases h
    have hends := List.find?_some (Option.filter_eq_some_iff.mp hitself).1
    exact hends
  · obtain ⟨e, -, rfl⟩ := Option.map_eq_some_iff.mp h
    rw [Text.endsWith_iff, String.toList_append]
    exact List.suffix_append _ _

/-- **No name leads to a component**, in whatever view it is looked up. -/
theorem not_isComponent_of_resolve {name containing : String} {t : ModuleTarget}
    (h : r.resolve s name containing = some t) : ¬ Path.isComponent t.file := by
  obtain ⟨typesOnly, path, hfile⟩ := exists_asFile?_of_resolve h
  exact Extension.not_isComponent (endsWith_of_asFile? hfile)

end Resolver

namespace Host

/-! ## 2. Files that are new

Files join one by one, each behind the list if it is not in it.  The list that comes of it is given
at once: the old files, and behind them the new ones without repetitions. -/

/-- The files of some that are not among others, each once, in the order in which they first
come. -/
def newFiles (roots files : List String) : List String :=
  (files.filter fun file => !roots.contains file).eraseDups

/-- **Files join behind**, each that is new and only once. -/
theorem joinedFiles_eq (roots files : List String) :
    joinedFiles roots files = roots ++ newFiles roots files := by
  induction files generalizing roots with
  | nil => exact (List.append_nil roots).symm
  | cons file files ih =>
    have hstep : joinedFiles roots (file :: files) = joinedFiles (joinedFile roots file) files := rfl
    rw [hstep, ih]
    unfold joinedFile newFiles
    split
    · next hold => rw [List.filter_cons_of_neg (by rw [hold]; decide)]
    · next hnew =>
      have hpos : (!roots.contains file) = true := by
        rw [Bool.eq_false_iff.mpr hnew]
        rfl
      -- what comes later is compared with the longer list, that is also with this file
      have hlater : (files.filter fun p => !(roots ++ [file]).contains p)
          = (files.filter fun p => !roots.contains p).filter fun p => !p == file := by
        rw [List.filter_filter]
        refine List.filter_congr fun p _ => ?_
        by_cases hp : p = file <;> simp [hp]
      rw [List.filter_cons, if_pos hpos, List.eraseDups_cons, hlater, List.append_assoc]
      rfl

theorem Joins.isPrefix {h h' : Host} {files : List String} (hj : Joins h files h') :
    h.roots <+: h'.roots := by
  rw [hj.roots, joinedFiles_eq]
  exact List.prefix_append _ _

theorem isRoot_iff {h : Host} {file : String} : h.isRoot file ↔ file ∈ h.roots :=
  RootFiles.has_iff

/-! ## 3. Runs over files that change

The files may be others at each event, since they are only looked at and the project does not shrink
when a file goes. -/

/-- The host after some events, each over the files as they are at the time. -/
def along (h : Host) (events : List (FileView × Event)) : Host :=
  events.foldl (fun h event => h.follow event.1 event.2) h

theorem along_append (h : Host) (events more : List (FileView × Event)) :
    h.along (events ++ more) = (h.along events).along more :=
  List.foldl_append

/-- **A run only makes files join.** -/
theorem joins_along (h : Host) (events : List (FileView × Event)) :
    ∃ files, Joins h files (h.along events) := by
  induction events generalizing h with
  | nil => exact ⟨[], .of_same rfl rfl⟩
  | cons event events ih =>
    obtain ⟨first, hfirst⟩ := h.joins_perform event.1 (event.2.operation h)
    obtain ⟨rest, hrest⟩ := ih (h.follow event.1 event.2)
    exact ⟨first ++ rest, hfirst.trans hrest⟩

theorem rooted_along (disk : FileTree) (workspace : String) (settings : Settings)
    (factory : TreeFactory) (events : List (FileView × Event)) :
    Rooted ((ofWorkspace disk workspace settings factory).along events) := by
  obtain ⟨files, hjoins⟩ := joins_along (ofWorkspace disk workspace settings factory) events
  exact (rooted_ofWorkspace disk workspace settings factory).joins hjoins

/-- The list of an earlier moment starts that of a later one. -/
theorem roots_take_isPrefix (h : Host) (events : List (FileView × Event)) {i j : Nat}
    (hij : i ≤ j) : (h.along (events.take i)).roots <+: (h.along (events.take j)).roots := by
  obtain ⟨k, rfl⟩ := Nat.exists_eq_add_of_le hij
  rw [List.take_add, along_append]
  obtain ⟨files, hjoins⟩ := joins_along (h.along (events.take i)) ((events.drop i).take k)
  exact hjoins.isPrefix

/-! ## 4. Modules

Looking up a name answers and changes the host.  The answer does not depend on what is changed, so
the names of a list may be looked up in the same host, and then the components that were found join.
-/

/-- The components among what names lead to, one for each time that one is found. -/
def componentsOf (found : List (Option ModuleTarget)) : List String :=
  (found.filterMap fun t => t.map (·.file)).filter fun file => Path.isComponent file

theorem componentsOf_append (found more : List (Option ModuleTarget)) :
    componentsOf (found ++ more) = componentsOf found ++ componentsOf more := by
  rw [componentsOf, List.filterMap_append, List.filter_append]
  rfl

theorem componentsOf_of_not {found : Option ModuleTarget}
    (h : ∀ t, found = some t → ¬ Path.isComponent t.file) : componentsOf [found] = [] := by
  cases found with
  | none => rfl
  | some t => exact List.filter_cons_of_neg (h t rfl)

theorem componentsOf_of_isComponent {file : String} (h : Path.isComponent file) (e : Extension)
    (external : Bool) : componentsOf [some ⟨file, e, external⟩] = [file] :=
  List.filter_cons_of_pos h

/-- The kind of a script is read from the scripts. -/
theorem scriptKind_congr {h h' : Host} (hscripts : h'.scripts = h.scripts) (s : FileView)
    (file : String) : h'.scriptKind s file = h.scriptKind s file := by
  rw [scriptKind, scriptKind, script?, script?, hscripts]

/-- **What a name leads to is read from the resolver and the scripts alone.** -/
theorem resolveModule_congr {h h' : Host} (hresolver : h'.resolver = h.resolver)
    (hscripts : h'.scripts = h.scripts) (s : FileView) (containing name : String) :
    (h'.resolveModule s containing name).1 = (h.resolveModule s containing name).1 := by
  unfold resolveModule
  rw [hresolver]
  split
  · rfl
  · split
    · rfl
    · split
      · rfl
      · split
        · dsimp only
          rw [scriptKind_congr hscripts]
        · rfl

/-- **All that looking up a name does to a host**: the component that it leads to joins. -/
theorem host_resolveModule (h : Host) (s : FileView) (containing name : String) :
    (h.resolveModule s containing name).2
      = (componentsOf [(h.resolveModule s containing name).1]).foldl addRoot h := by
  unfold resolveModule
  split
  · rw [componentsOf_of_not]
    · rfl
    · rintro t ⟨⟩
      exact bridge_ordinary.1
  · split
    · rw [componentsOf_of_not fun t => Resolver.not_isComponent_of_resolve]
      rfl
    · split
      · rfl
      · next found hfound =>
        split
        · next hview =>
          exact (congrArg (List.foldl addRoot h)
            (componentsOf_of_isComponent (Path.isComponent_ofViewName hview) _ _)).symm
        · rw [componentsOf_of_not]
          · rfl
          · rintro t ⟨⟩
            exact Resolver.not_isComponent_of_resolve hfound

theorem resolver_foldl_addRoot (h : Host) (files : List String) :
    (files.foldl addRoot h).resolver = h.resolver := by
  induction files generalizing h with
  | nil => rfl
  | cons file files ih =>
    rw [List.foldl_cons, ih]
    unfold addRoot
    split <;> rfl

/-- **Several names.**  Each leads where it would lead alone, and the components that are found join
in the order in which they are found. -/
theorem resolveModules_spec (h : Host) (s : FileView) (containing : String) (names : List String) :
    (h.resolveModules s containing names).1
        = names.map (fun name => (h.resolveModule s containing name).1) ∧
      (h.resolveModules s containing names).2
        = (componentsOf (h.resolveModules s containing names).1).foldl addRoot h := by
  induction names generalizing h with
  | nil => exact ⟨rfl, rfl⟩
  | cons name names ih =>
    have hhost := h.host_resolveModule s containing name
    obtain ⟨hfound, hafter⟩ := ih (h.resolveModule s containing name).2
    -- the names behind see a host that differs in its files only
    have hsame : ∀ name', ((h.resolveModule s containing name).2.resolveModule s containing name').1
        = (h.resolveModule s containing name').1 := by
      intro name'
      refine resolveModule_congr ?_ (h.alike_resolveModule s containing name).scripts s _ _
      rw [hhost, resolver_foldl_addRoot]
    have hcons : (h.resolveModules s containing (name :: names)).1
        = (h.resolveModule s containing name).1
          :: ((h.resolveModule s containing name).2.resolveModules s containing names).1 := rfl
    constructor
    · rw [hcons, hfound, List.map_cons]
      exact congrArg _ (List.map_congr_left fun name' _ => hsame name')
    · calc (h.resolveModules s containing (name :: names)).2
          = ((h.resolveModule s containing name).2.resolveModules s containing names).2 := rfl
        _ = (componentsOf _).foldl addRoot (h.resolveModule s containing name).2 := hafter
        _ = (componentsOf _).foldl addRoot
              ((componentsOf [(h.resolveModule s containing name).1]).foldl addRoot h) := by
            rw [← hhost]
        _ = (componentsOf (h.resolveModules s containing (name :: names)).1).foldl addRoot h := by
            rw [← List.foldl_append, ← componentsOf_append, hcons, List.singleton_append]

theorem roots_resolveModules (h : Host) (s : FileView) (containing : String)
    (names : List String) :
    (h.resolveModules s containing names).2.roots
      = h.roots ++ newFiles h.roots (componentsOf (h.resolveModules s containing names).1) := by
  rw [(h.resolveModules_spec s containing names).2, (joins_foldl_addRoot h _).roots, joinedFiles_eq]

/-! ## 5. The files of a project

All of it, for the moments of a run and for the names of one look-up. -/

/-- **The list, the set and the version of a project.**  At every moment of every run the list has
each file once, the set has the files of the list, and the version is their number; and the list of
an earlier moment starts that of a later one.

In every host, several names are looked up one by one: what a name leads to depends on neither the
names beside it nor the files of the project, but on the resolver and the scripts alone.  The
components that are found and were not in the list are put behind it, in the order in which they
are first found. -/
theorem roots_grow (disk : FileTree) (workspace : String) (settings : Settings)
    (factory : TreeFactory) (events : List (FileView × Event)) :
    let host i := (ofWorkspace disk workspace settings factory).along (events.take i)
    (∀ i, (host i).roots.Nodup ∧ (∀ file, (host i).isRoot file ↔ file ∈ (host i).roots) ∧
      (host i).projectVersion = (host i).roots.length) ∧
    (∀ i j, i ≤ j → (host i).roots <+: (host j).roots) ∧
    ∀ (h : Host) (s : FileView) (containing : String),
      (∀ xs ys, (h.resolveModules s containing (xs ++ ys)).1
        = (h.resolveModules s containing xs).1 ++ (h.resolveModules s containing ys).1) ∧
      (∀ (h' : Host) (names : List String), h'.resolver = h.resolver → h'.scripts = h.scripts →
        (h'.resolveModules s containing names).1
          = names.map fun name => (h.resolveModule s containing name).1) ∧
      ∀ names, (h.resolveModules s containing names).2.roots
        = h.roots ++ newFiles h.roots (componentsOf (h.resolveModules s containing names).1) := by
  intro host
  refine ⟨fun i => ?_, fun i j hij => roots_take_isPrefix _ events hij, ?_⟩
  · have hrooted := rooted_along disk workspace settings factory (events.take i)
    exact ⟨hrooted.nodup, fun file => isRoot_iff, hrooted.version⟩
  · intro h s containing
    have hfound := fun (h' : Host) names => (h'.resolveModules_spec s containing names).1
    refine ⟨?_, ?_, fun names => h.roots_resolveModules s containing names⟩
    · intro xs ys
      rw [hfound, hfound, hfound, List.map_append]
    · intro h' names hresolver hscripts
      rw [hfound]
      exact List.map_congr_left fun name _ => resolveModule_congr hresolver hscripts s containing name

/-- A component is opened that imports another one.  Then names are looked up among which both
stand, a third one twice, and names that lead to no component. -/
theorem roots_grow_imported :
    let s := FileView.ofTexts [("/a.vue", ""), ("/b.vue", ""), ("/c.vue", ""), ("/d.ts", "")]
    let uri : Uri := { scheme := "file", host := some "", path := "/a.vue" }
    let start := ofWorkspace .empty "/" {} .bridging
    let events : List (FileView × Event) :=
      [(s, .edit 0 (.update ⟨uri, 1, "<script>import './b.vue'</script>"⟩)),
        (s, .resolve "/a.vue" ["./c.vue", "./d", "./b.vue", "./c.vue", "vue-editor-bridge"])]
    (start.along (events.take 1)).roots = ["/a.vue", "/b.vue"] ∧
      (start.along (events.take 1)).roots <+: (start.along (events.take 2)).roots ∧
      (start.along (events.take 2)).roots = ["/a.vue", "/b.vue", "/c.vue"] ∧
      (start.along (events.take 2)).projectVersion = 3 := by
  intro s uri start events
  obtain ⟨hmoments, hprefix, -⟩ := roots_grow .empty "/" {} .bridging events
  have hroots : (start.along (events.take 2)).roots = ["/a.vue", "/b.vue", "/c.vue"] := by
    decide +kernel
  refine ⟨by decide +kernel, hprefix 1 2 (by decide), hroots, ?_⟩
  rw [(hmoments 2).2.2, hroots]
  rfl

end Host

end ComponentHost
