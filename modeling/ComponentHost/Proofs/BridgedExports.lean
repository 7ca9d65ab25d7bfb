/-
# How often a script can be bridged

Bridging looks for the first default export of an object literal.  An export that is wrapped is a
call and no literal any more, so it is left alone from then on; but the search goes on behind it.
A script that has a second literal, which only a script with an error can have unless it is typed,
is therefore changed again by a second bridging, and gets a second import.

All of it is a matter of counting.  A bridging that changes a script takes one literal from it and
puts one import in front of it (`objectExports_bridged`, `bridgeImports_bridged`), and it changes a
script exactly if there is a literal left (`bridged_eq_self_iff`).
-/
import ComponentHost.Script.Bridging
import ComponentHost.Script.Grammar.Script
import Mathlib.Logic.Function.Iterate

namespace ComponentHost.ScriptTree

/-! ## 1. What is counted

Imports are only counted if the host has made them, as a script may well import the bridge itself.
-/

/-- Is the statement a default export of an object literal? -/
def exportsObject (s : Node Statement) : Bool :=
  match s.value with
  | .exportDefault e => e.value.isObject
  | _ => false

/-- Is the statement an import of the bridge that the host has made? -/
def isBridgeImport (s : Node Statement) : Bool :=
  s.isSynthetic &&
    match s.value with
    | .importing declaration => declaration.source.value == Bridge.moduleName
    | _ => false

/-- How many object literals are exported by default. -/
def objectExports (t : ScriptTree) : Nat := t.statements.countP exportsObject

/-- How many imports of the bridge the host has made. -/
def bridgeImports (t : ScriptTree) : Nat := t.statements.countP isBridgeImport

/-! ## 2. One bridging

The search for a literal goes through the statements in order.  It is described by the place where
it ends: the first statement that exports a literal, with those before and behind it. -/

/-- The default export with its literal wrapped. -/
def wrappedExport (s : Node Statement) (e : Node Expression) : Node Statement :=
  ⟨.exportDefault (Bridge.wrapped e), s.range, s.origin⟩

theorem exportsObject_iff {s : Node Statement} :
    exportsObject s ↔ ∃ e, s.value = .exportDefault e ∧ e.value.isObject := by
  unfold exportsObject
  split
  · next e he =>
    refine ⟨fun h => ⟨e, he, h⟩, fun ⟨e', he', h⟩ => ?_⟩
    cases he.symm.trans he'
    exact h
  · next hnot => exact iff_of_false Bool.false_ne_true fun ⟨e, he, _⟩ => hnot e he

theorem not_exportsObject_wrappedExport (s : Node Statement) (e : Node Expression) :
    ¬ exportsObject (wrappedExport s e) :=
  Bool.false_ne_true

theorem not_isBridgeImport_of_exportDefault {s : Node Statement} {e : Node Expression}
    (h : s.value = .exportDefault e) : ¬ isBridgeImport s := by
  simp [isBridgeImport, h]

/-- A statement that exports no literal is passed over. -/
theorem wrapFirst?_cons_of_not {s : Node Statement} (h : ¬ exportsObject s)
    (rest : List (Node Statement)) :
    wrapFirst? (s :: rest) = (wrapFirst? rest).map (s :: ·) := by
  rw [wrapFirst?]
  split
  · next e he => rw [if_neg fun hobject => h (exportsObject_iff.mpr ⟨e, he, hobject⟩)]
  · rfl

theorem wrapFirst?_cons_of_object {s : Node Statement} {e : Node Expression}
    (hvalue : s.value = .exportDefault e) (hobject : e.value.isObject)
    (rest : List (Node Statement)) :
    wrapFirst? (s :: rest) = some (wrappedExport s e :: rest) := by
  rw [wrapFirst?, hvalue]
  exact if_pos hobject

theorem wrapFirst?_of_none {statements : List (Node Statement)}
    (h : ∀ s ∈ statements, ¬ exportsObject s) : wrapFirst? statements = none := by
  induction statements with
  | nil => rfl
  | cons s rest ih =>
    rw [wrapFirst?_cons_of_not (h s List.mem_cons_self),
      ih fun s' hs' => h s' (List.mem_cons_of_mem s hs'), Option.map_none]

/-- The statement `s` exports the first literal `e`; the others stand before and behind it. -/
structure FirstObject (statements before : List (Node Statement)) (s : Node Statement)
    (e : Node Expression) (after : List (Node Statement)) : Prop where
  split : statements = before ++ s :: after
  before_not : ∀ s ∈ before, ¬ exportsObject s
  value_eq : s.value = .exportDefault e
  isObject : e.value.isObject

namespace FirstObject

variable {statements before after : List (Node Statement)} {s : Node Statement}
  {e : Node Expression}

theorem exportsObject (h : FirstObject statements before s e after) : exportsObject s :=
  exportsObject_iff.mpr ⟨e, h.value_eq, h.isObject⟩

theorem mem (h : FirstObject statements before s e after) : s ∈ statements := by
  rw [h.split]
  exact List.mem_append_right _ List.mem_cons_self

/-- **The first literal is wrapped in its place.** -/
theorem wrapFirst?_eq (h : FirstObject statements before s e after) :
    wrapFirst? statements = some (before ++ wrappedExport s e :: after) := by
  obtain ⟨rfl, hbefore, hvalue, hobject⟩ := h
  induction before with
  | nil => exact wrapFirst?_cons_of_object hvalue hobject after
  | cons s' before ih =>
    rw [List.cons_append, wrapFirst?_cons_of_not (hbefore s' List.mem_cons_self),
      ih fun s'' hs'' => hbefore s'' (List.mem_cons_of_mem s' hs''), Option.map_some,
      List.cons_append]

end FirstObject

/-- There is no literal, or a first one. -/
theorem exists_firstObject (statements : List (Node Statement)) :
    (∀ s ∈ statements, ¬ exportsObject s) ∨
      ∃ before s e after, FirstObject statements before s e after := by
  cases hfind : statements.find? exportsObject with
  | none => exact Or.inl (List.find?_eq_none.mp hfind)
  | some s =>
    obtain ⟨hs, before, after, hsplit, hbefore⟩ := List.find?_eq_some_iff_append.mp hfind
    obtain ⟨e, hvalue, hobject⟩ := exportsObject_iff.mp hs
    exact Or.inr ⟨before, s, e, after, hsplit, fun s' hs' => by simpa using hbefore s' hs', hvalue,
      hobject⟩

/-- **All that bridging does.**  A script without a literal stays as it is.  Else the first literal
is wrapped in its place, and the import comes first. -/
theorem bridged_cases (t : ScriptTree) :
    ((∀ s ∈ t.statements, ¬ exportsObject s) ∧ t.bridged = t) ∨
      ∃ before s e after, FirstObject t.statements before s e after ∧
        t.bridged = { t with
          statements := Bridge.importing :: (before ++ wrappedExport s e :: after) } := by
  rcases exists_firstObject t.statements with hnone | ⟨before, s, e, after, hfirst⟩
  · refine Or.inl ⟨hnone, ?_⟩
    rw [bridged, bridged?, wrapFirst?_of_none hnone]
    rfl
  · refine Or.inr ⟨before, s, e, after, hfirst, ?_⟩
    rw [bridged, bridged?, hfirst.wrapFirst?_eq]
    rfl

theorem objectExports_eq_zero_iff {t : ScriptTree} :
    t.objectExports = 0 ↔ ∀ s ∈ t.statements, ¬ exportsObject s :=
  List.countP_eq_zero

/-- **A bridging takes one literal away**, if there is one. -/
theorem objectExports_bridged (t : ScriptTree) : t.bridged.objectExports = t.objectExports - 1 := by
  rcases t.bridged_cases with ⟨hnone, hsame⟩ | ⟨before, s, e, after, hfirst, hnew⟩
  · rw [hsame, objectExports_eq_zero_iff.mpr hnone]
  · have himport : ¬ exportsObject Bridge.importing := Bool.false_ne_true
    rw [hnew, objectExports, objectExports, hfirst.split]
    simp only [List.countP_cons_of_neg himport, List.countP_append,
      List.countP_cons_of_pos hfirst.exportsObject,
      List.countP_cons_of_neg (not_exportsObject_wrappedExport s e)]
    rfl

/-- **A bridging adds one import**, if there is a literal to wrap. -/
theorem bridgeImports_bridged (t : ScriptTree) :
    t.bridged.bridgeImports = t.bridgeImports + min 1 t.objectExports := by
  rcases t.bridged_cases with ⟨hnone, hsame⟩ | ⟨before, s, e, after, hfirst, hnew⟩
  · rw [hsame, objectExports_eq_zero_iff.mpr hnone]
    rfl
  · have hone : min 1 t.objectExports = 1 :=
      Nat.min_eq_left (List.countP_pos_iff.mpr ⟨s, hfirst.mem, hfirst.exportsObject⟩)
    have himport : isBridgeImport Bridge.importing := by decide +kernel
    have hwrapped : ¬ isBridgeImport (wrappedExport s e) := not_isBridgeImport_of_exportDefault rfl
    rw [hone, hnew, bridgeImports, bridgeImports, hfirst.split]
    simp only [List.countP_cons_of_pos himport, List.countP_append,
      List.countP_cons_of_neg hwrapped,
      List.countP_cons_of_neg (not_isBridgeImport_of_exportDefault hfirst.value_eq)]

/-- **A bridging changes a script exactly if there is a literal to wrap**: the import makes the
script longer. -/
theorem bridged_eq_self_iff {t : ScriptTree} : t.bridged = t ↔ t.objectExports = 0 := by
  rcases t.bridged_cases with ⟨hnone, hsame⟩ | ⟨before, s, e, after, hfirst, hnew⟩
  · exact iff_of_true hsame (objectExports_eq_zero_iff.mpr hnone)
  · refine iff_of_false ?_ ?_
    · intro heq
      have hlength := congrArg (fun t => t.statements.length) (hnew.symm.trans heq)
      simp [hfirst.split] at hlength
    · intro hzero
      exact objectExports_eq_zero_iff.mp hzero s hfirst.mem hfirst.exportsObject

/-! ## 3. Bridging again and again

Each bridging changes the counts by one as long as there is a literal.  For a script that was read
the second count starts at zero. -/

/-- **After some bridgings** so many literals are gone and so many imports are there, as long as
there were literals. -/
theorem counts_iterate_bridged (t : ScriptTree) (n : Nat) :
    (bridged^[n] t).objectExports = t.objectExports - n ∧
      (bridged^[n] t).bridgeImports = t.bridgeImports + min n t.objectExports := by
  induction n with
  | zero => exact ⟨rfl, by rw [Nat.zero_min]; rfl⟩
  | succ n ih =>
    obtain ⟨hobjects, himports⟩ := ih
    rw [Function.iterate_succ_apply']
    refine ⟨?_, ?_⟩
    · rw [objectExports_bridged, hobjects, Nat.sub_sub]
    · rw [bridgeImports_bridged, himports, hobjects]
      omega

/-- Every statement of a script that was read stems from its text. -/
theorem bridgeImports_parse (kind : ScriptKind) (source : String) :
    (parse kind source).bridgeImports = 0 := by
  refine List.countP_eq_zero.mpr fun s hs => ?_
  unfold parse at hs
  dsimp only at hs
  split at hs
  · obtain ⟨item, -, rfl⟩ := List.mem_map.mp hs
    exact Bool.false_ne_true
  · exact absurd hs List.not_mem_nil

/-- **When a script is bridged for good.**  A script that was read and bridged imports the bridge at
most once, and to bridge it again changes nothing exactly if it exports at most one object literal.
Each further literal takes a further bridging, which adds a further import. -/
theorem bridged_bridged_eq_iff (kind : ScriptKind) (source : String) :
    let t := parse kind source
    (t.bridged.bridged = t.bridged ↔ t.objectExports ≤ 1) ∧
      t.bridged.bridgeImports = min 1 t.objectExports ∧
      ∀ n, (bridged^[n] t).bridgeImports = min n t.objectExports := by
  intro t
  refine ⟨?_, ?_, fun n => ?_⟩
  · rw [bridged_eq_self_iff, objectExports_bridged, Nat.sub_eq_zero_iff_le]
  · rw [bridgeImports_bridged, bridgeImports_parse, Nat.zero_add]
  · rw [(counts_iterate_bridged t n).2, bridgeImports_parse, Nat.zero_add]

/-- **A second default export is wrapped by a second bridging**, with an import of its own. -/
theorem bridged_bridged_ne_second_export :
    let t := parse .js "export default {}\nexport default {}"
    t.bridged.bridged ≠ t.bridged ∧ t.bridged.bridged.bridgeImports = 2 := by
  have hobjects : (parse .js "export default {}\nexport default {}").objectExports = 2 := by
    decide +kernel
  refine ⟨fun heq => ?_, by decide +kernel⟩
  have hzero := bridged_eq_self_iff.mp heq
  rw [objectExports_bridged, hobjects] at hzero
  cases hzero

end ComponentHost.ScriptTree
