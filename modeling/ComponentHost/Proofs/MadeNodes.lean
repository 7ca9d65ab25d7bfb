/-
# What bridging adds to a script

Bridging puts nodes into a tree that no text stands for: an import in front of all statements, and a
call around the literal that is exported.  The tree is otherwise the one that was read.  Every
statement is where it was, and so is every range, so what the compiler says about a node is said
about the text that the node was read from.

`ScriptTree.withoutMade` takes the made nodes out again: it drops made statements, and puts the only
argument of a made call in the place of the call.  Statements that were read have nothing to take
out (`filter_map_of_read`), and a tree that was bridged gives back the tree that it was before
(`withoutMade_bridged`).

The made nodes need ranges too.  They borrow those of the literal, and the callee has the first
byte of it; so they stay within the text as long as literals are not empty (`inBounds_bridged`).
-/
import ComponentHost.Proofs.BridgedExports

namespace ComponentHost

/-! ## 1. The nodes of a tree

Every node has a range and an origin.  They are listed in the order of the tree, with no regard to
how deep a node is, so that something can be said of all nodes at once. -/

/-- What is told of a node apart from its value. -/
structure Extent where
  range : TextRange
  origin : Origin
  /-- Is the node an object literal? -/
  isLiteral : Bool
deriving DecidableEq, Repr

/-- The extent of a node that is no expression. -/
def Node.extent {α : Type} (n : Node α) : Extent := ⟨n.range, n.origin, false⟩

mutual

/-- The nodes below an expression. -/
def Expression.extents : Expression → List Extent
  | .object properties => properties.map Node.extent
  | .call callee ⟨items, range, origin⟩ =>
    callee.extents ++ ⟨range, origin, false⟩ :: Expression.extentsAll items
  | .identifier _ => []
  | .other => []

/-- An expression node and the nodes below it. -/
def Node.extents : Node Expression → List Extent
  | ⟨value, range, origin⟩ => ⟨range, origin, value.isObject⟩ :: value.extents

/-- The arguments of a call and the nodes below them. -/
def Expression.extentsAll : List (Node Expression) → List Extent
  | [] => []
  | n :: ns => n.extents ++ Expression.extentsAll ns

end

theorem Node.extents_eq (n : Node Expression) :
    n.extents = ⟨n.range, n.origin, n.value.isObject⟩ :: n.value.extents := by
  cases n
  rfl

/-- The nodes below a statement. -/
def Statement.extents : Statement → List Extent
  | .importing declaration =>
    declaration.defaultBinding.toList.map Node.extent ++ [declaration.source.extent]
  | .reExport source => [source.extent]
  | .exportDefault expression => expression.extents
  | .other => []

/-- A statement and the nodes below it. -/
def Node.statementExtents (s : Node Statement) : List Extent := s.extent :: s.value.extents

namespace ScriptTree

/-- All nodes of a tree. -/
def extents (t : ScriptTree) : List Extent := t.statements.flatMap Node.statementExtents

/-- Every node was read from the text. -/
def IsRead (t : ScriptTree) : Prop := ∀ x ∈ t.extents, x.origin = .parsed

/-- Every range begins and ends within the text, and no literal is empty. -/
def InBounds (t : ScriptTree) : Prop :=
  ∀ x ∈ t.extents, x.range.start ≤ t.sourceLength ∧ x.range.stop ≤ t.sourceLength ∧
    (x.isLiteral → x.range.start < x.range.stop)

/-- No range ends before it begins. -/
def IsOrdered (t : ScriptTree) : Prop := ∀ x ∈ t.extents, x.range.start ≤ x.range.stop

end ScriptTree

/-! ## 2. Made nodes taken out

Taking out goes by the origin of nodes and knows nothing of the bridge. -/

/-- A made call gives way to its argument, if it has only one. -/
def Node.collapsed (n : Node Expression) : Node Expression :=
  match n.origin, n.value with
  | .synthetic, .call _ ⟨[argument], _, _⟩ => argument
  | _, _ => n

mutual

/-- The expression without the made calls below it. -/
def Expression.unwrapped : Expression → Expression
  | .object properties => .object properties
  | .call callee ⟨items, range, origin⟩ =>
    .call callee.unwrapped ⟨Expression.unwrappedAll items, range, origin⟩
  | .identifier name => .identifier name
  | .other => .other

/-- The expression node without made calls. -/
def Node.unwrapped : Node Expression → Node Expression
  | ⟨value, range, origin⟩ => Node.collapsed ⟨value.unwrapped, range, origin⟩

/-- The arguments of a call without made calls. -/
def Expression.unwrappedAll : List (Node Expression) → List (Node Expression)
  | [] => []
  | n :: ns => n.unwrapped :: Expression.unwrappedAll ns

end

/-- The statement without made calls. -/
def Statement.unwrapped : Statement → Statement
  | .exportDefault expression => .exportDefault expression.unwrapped
  | s => s

/-- The tree without made statements and made calls. -/
def ScriptTree.withoutMade (t : ScriptTree) : ScriptTree :=
  { t with
    statements := (t.statements.filter fun s => !s.isSynthetic).map (Node.map Statement.unwrapped) }

/-! ### Nothing is taken out of what was read

The induction is on the tree, in step with the three functions that list its nodes. -/

mutual

theorem Expression.unwrapped_of_read : ∀ e : Expression,
    (∀ x ∈ e.extents, x.origin = .parsed) → e.unwrapped = e
  | .object _, _ => rfl
  | .call callee ⟨items, range, origin⟩, h => by
    have hcallee : callee.unwrapped = callee := by
      apply Node.unwrapped_of_read
      intro x hx
      exact h x (List.mem_append_left _ hx)
    have hitems : Expression.unwrappedAll items = items := by
      apply Expression.unwrappedAll_of_read
      intro x hx
      exact h x (List.mem_append_right _ (List.mem_cons_of_mem _ hx))
    rw [Expression.unwrapped, hcallee, hitems]
  | .identifier _, _ => rfl
  | .other, _ => rfl

theorem Node.unwrapped_of_read : ∀ n : Node Expression,
    (∀ x ∈ n.extents, x.origin = .parsed) → n.unwrapped = n
  | ⟨value, range, origin⟩, h => by
    have horigin : origin = .parsed := h _ List.mem_cons_self
    have hvalue : value.unwrapped = value := by
      apply Expression.unwrapped_of_read
      intro x hx
      exact h x (List.mem_cons_of_mem _ hx)
    rw [Node.unwrapped, hvalue, horigin]
    rfl

theorem Expression.unwrappedAll_of_read : ∀ ns : List (Node Expression),
    (∀ x ∈ Expression.extentsAll ns, x.origin = .parsed) → Expression.unwrappedAll ns = ns
  | [], _ => rfl
  | n :: ns, h => by
    have hfirst : n.unwrapped = n := by
      apply Node.unwrapped_of_read
      intro x hx
      exact h x (List.mem_append_left _ hx)
    have hrest : Expression.unwrappedAll ns = ns := by
      apply Expression.unwrappedAll_of_read
      intro x hx
      exact h x (List.mem_append_right _ hx)
    rw [Expression.unwrappedAll, hfirst, hrest]

end

theorem Statement.unwrapped_of_read {s : Statement} (h : ∀ x ∈ s.extents, x.origin = .parsed) :
    s.unwrapped = s := by
  cases s with
  | exportDefault e => exact congrArg Statement.exportDefault (Node.unwrapped_of_read e h)
  | importing _ => rfl
  | reExport _ => rfl
  | other => rfl

namespace ScriptTree

/-- Statements that were read stay, each as it is. -/
theorem filter_map_of_read {statements : List (Node Statement)}
    (h : ∀ s ∈ statements, ∀ x ∈ s.statementExtents, x.origin = .parsed) :
    (statements.filter fun s => !s.isSynthetic).map (Node.map Statement.unwrapped)
      = statements := by
  have hkept : (statements.filter fun s => !s.isSynthetic) = statements := by
    apply List.filter_eq_self.mpr
    intro s hs
    have horigin : s.origin = .parsed := h s hs _ List.mem_cons_self
    rw [Node.isSynthetic, horigin]
    rfl
  have hsame : ∀ s ∈ statements, Node.map Statement.unwrapped s = s := by
    intro s hs
    have hvalue : s.value.unwrapped = s.value := by
      apply Statement.unwrapped_of_read
      intro x hx
      exact h s hs x (List.mem_cons_of_mem _ hx)
    rw [Node.map, hvalue]
  rw [hkept, List.map_congr_left hsame, List.map_id']

/-! ## 3. The nodes that bridging makes

There are two: a statement, and a call with its parts. -/

/-- A made import of the bridge function, all parts of which cover nothing. -/
def ImportsBridge (s : Node Statement) : Prop :=
  ∃ binding source : Node String,
    s.value = .importing ⟨some binding, source⟩ ∧ binding.value = Bridge.identifier ∧
    source.value = Bridge.moduleName ∧
    ∀ x ∈ s.statementExtents, x.range = ⟨0, 0⟩ ∧ x.origin = .synthetic

/-- A made call of the bridge function with a literal as its argument.  The call and its arguments
cover the literal, and the callee covers the first byte of it. -/
def CallsBridge (call literal : Node Expression) : Prop :=
  ∃ (callee : Node Expression) (arguments : Node (List (Node Expression))),
    call.value = .call callee arguments ∧ callee.value = .identifier Bridge.identifier ∧
    arguments.value = [literal] ∧
    call.range = literal.range ∧ arguments.range = literal.range ∧
    callee.range = ⟨literal.range.start, literal.range.start + 1⟩ ∧
    call.origin = .synthetic ∧ arguments.origin = .synthetic ∧ callee.origin = .synthetic

theorem extents_importing :
    Bridge.importing.statementExtents = List.replicate 3 ⟨⟨0, 0⟩, .synthetic, false⟩ := rfl

theorem importsBridge_importing : ImportsBridge Bridge.importing := by
  refine ⟨_, _, rfl, rfl, rfl, ?_⟩
  intro x hx
  rw [extents_importing] at hx
  rw [List.eq_of_mem_replicate hx]
  exact ⟨rfl, rfl⟩

theorem callsBridge_wrapped (e : Node Expression) : CallsBridge (Bridge.wrapped e) e :=
  ⟨_, _, rfl, rfl, rfl, rfl, rfl, rfl, rfl, rfl, rfl⟩

/-- The nodes that are made around a literal. -/
def callExtents (r : TextRange) : List Extent :=
  [⟨r, .synthetic, false⟩, ⟨⟨r.start, r.start + 1⟩, .synthetic, false⟩, ⟨r, .synthetic, false⟩]

theorem extents_wrapped (e : Node Expression) :
    (Bridge.wrapped e).extents = callExtents e.range ++ e.extents := by
  have hlist : (Bridge.wrapped e).extents = callExtents e.range ++ (e.extents ++ []) := rfl
  rw [hlist, List.append_nil]

/-- The made call gives way to the literal. -/
theorem unwrapped_wrapped {e : Node Expression} (h : e.unwrapped = e) :
    (Bridge.wrapped e).unwrapped = e := by
  have hargument : (Bridge.wrapped e).unwrapped = e.unwrapped := rfl
  rw [hargument, h]

/-! ## 4. A tree before and after

Bridging changes one statement and adds one.  Where the first literal stands, both trees are cut
into the same pieces, and everything that is said about them is said piece by piece. -/

/-- Bridging the tree wraps the literal `e` of the statement `s`; the other statements stand before
and behind it. -/
structure BridgedAt (t : ScriptTree) (before : List (Node Statement)) (s : Node Statement)
    (e : Node Expression) (after : List (Node Statement)) : Prop
    extends FirstObject t.statements before s e after where
  bridged_eq : t.bridged = { t with
    statements := Bridge.importing :: (before ++ wrappedExport s e :: after) }

/-- A tree has no literal to wrap, or it is bridged at the first one. -/
theorem exists_bridgedAt (t : ScriptTree) :
    ((∀ s ∈ t.statements, ¬ exportsObject s) ∧ t.bridged = t) ∨
      ∃ before s e after, BridgedAt t before s e after := by
  rcases t.bridged_cases with hnone | ⟨before, s, e, after, hfirst, hnew⟩
  · exact Or.inl hnone
  · exact Or.inr ⟨before, s, e, after, hfirst, hnew⟩

/-- The first default export is a statement of the tree. -/
theorem exists_of_defaultExport? {t : ScriptTree} {e : Node Expression}
    (h : t.defaultExport? = some e) : ∃ s ∈ t.statements, s.value = .exportDefault e := by
  obtain ⟨s, hs, hvalue⟩ := List.exists_of_findSome?_eq_some h
  refine ⟨s, hs, ?_⟩
  split at hvalue
  · next e' he' =>
    cases hvalue
    exact he'
  · cases hvalue

theorem isBridged_of_defaultExport? {t : ScriptTree} {e : Node Expression}
    (h : t.defaultExport? = some e) :
    t.isBridged = (e.value.calleeName? == some Bridge.identifier) := by
  rw [isBridged, h]

namespace BridgedAt

variable {t : ScriptTree} {before after : List (Node Statement)} {s : Node Statement}
  {e : Node Expression}

theorem statements_eq (h : BridgedAt t before s e after) :
    t.bridged.statements = Bridge.importing :: (before ++ wrappedExport s e :: after) := by
  rw [h.bridged_eq]

/-- The nodes of the tree, cut at the first literal. -/
theorem extents_eq (h : BridgedAt t before s e after) :
    t.extents = before.flatMap Node.statementExtents ++
      (s.extent :: e.extents ++ after.flatMap Node.statementExtents) := by
  have hself : s.statementExtents = s.extent :: e.extents := by
    rw [Node.statementExtents, h.value_eq]
    rfl
  rw [extents, h.split, List.flatMap_append, List.flatMap_cons, hself]

/-- The nodes of the bridged tree, cut at the same place. -/
theorem extents_bridged (h : BridgedAt t before s e after) :
    t.bridged.extents = Bridge.importing.statementExtents ++
      (before.flatMap Node.statementExtents ++
        (s.extent :: (callExtents e.range ++ e.extents) ++
          after.flatMap Node.statementExtents)) := by
  have hself : (wrappedExport s e).statementExtents
      = s.extent :: (callExtents e.range ++ e.extents) :=
    congrArg (s.extent :: ·) (extents_wrapped e)
  rw [extents, h.statements_eq, List.flatMap_cons, List.flatMap_append, List.flatMap_cons, hself]

theorem literal_mem_extents (h : BridgedAt t before s e after) :
    ⟨e.range, e.origin, true⟩ ∈ t.extents := by
  rw [h.extents_eq, e.extents_eq, h.isObject]
  simp

/-- **What holds of all nodes after a bridging**: what held of them before, if it holds of the nodes
that are made. -/
theorem forall_extents_bridged (h : BridgedAt t before s e after) {P : Extent → Prop}
    (hold : ∀ x ∈ t.extents, P x) (himport : P ⟨⟨0, 0⟩, .synthetic, false⟩)
    (hcall : P ⟨e.range, .synthetic, false⟩)
    (hcallee : P ⟨⟨e.range.start, e.range.start + 1⟩, .synthetic, false⟩) :
    ∀ x ∈ t.bridged.extents, P x := by
  rw [h.extents_eq] at hold
  rw [h.extents_bridged, extents_importing]
  intro x hx
  simp only [List.mem_append, List.mem_cons] at hx hold
  rcases hx with hmade | hbefore | (hself | hmade | hliteral) | hafter
  · rw [List.eq_of_mem_replicate hmade]
    exact himport
  · exact hold x (Or.inl hbefore)
  · exact hold x (Or.inr (Or.inl (Or.inl hself)))
  · simp only [callExtents, List.mem_cons, List.not_mem_nil, or_false] at hmade
    rcases hmade with rfl | rfl | rfl
    · exact hcall
    · exact hcallee
    · exact hcall
  · exact hold x (Or.inr (Or.inl (Or.inr hliteral)))
  · exact hold x (Or.inr (Or.inr hafter))

/-- **Taking the made nodes out undoes a bridging.** -/
theorem withoutMade_bridged (h : BridgedAt t before s e after) (hread : t.IsRead) :
    t.bridged.withoutMade = t := by
  have hstatement : ∀ s' ∈ before ++ s :: after, ∀ x ∈ s'.statementExtents,
      x.origin = .parsed := by
    intro s' hs' x hx
    rw [← h.split] at hs'
    exact hread x (List.mem_flatMap.mpr ⟨s', hs', hx⟩)
  have hbefore := filter_map_of_read fun s' hs' => hstatement s' (List.mem_append_left _ hs')
  have hafter := filter_map_of_read fun s' hs' =>
    hstatement s' (List.mem_append_right _ (List.mem_cons_of_mem _ hs'))
  -- the statement that was wrapped is kept, and its literal comes back
  have hself := hstatement s (List.mem_append_right _ List.mem_cons_self)
  have horigin : s.origin = .parsed := hself _ List.mem_cons_self
  have hliteral : e.unwrapped = e := by
    apply Node.unwrapped_of_read
    intro x hx
    apply hself
    rw [Node.statementExtents, h.value_eq]
    exact List.mem_cons_of_mem _ hx
  have hkept : (wrappedExport s e).isSynthetic = false := by
    rw [Node.isSynthetic, show (wrappedExport s e).origin = s.origin from rfl, horigin]
    rfl
  have hback : Node.map Statement.unwrapped (wrappedExport s e) = s := by
    have hvalue : (wrappedExport s e).value.unwrapped = s.value := by
      rw [h.value_eq]
      exact congrArg Statement.exportDefault (unwrapped_wrapped hliteral)
    rw [Node.map, hvalue]
    rfl
  have himport : Bridge.importing.isSynthetic = true := rfl
  have hstatements :
      (t.bridged.statements.filter fun s => !s.isSynthetic).map (Node.map Statement.unwrapped)
        = t.statements := by
    rw [h.statements_eq, h.split]
    simp only [List.filter_cons, List.filter_append, himport, hkept, Bool.not_true, Bool.not_false,
      Bool.false_eq_true, if_false, if_true, List.map_append, List.map_cons, hbefore, hafter, hback]
  rw [withoutMade, hstatements, h.bridged_eq]

/-- **No node that was read is lost**, and all others are made. -/
theorem filter_extents_bridged (h : BridgedAt t before s e after) (hread : t.IsRead) :
    (t.bridged.extents.filter fun x => x.origin = .parsed) = t.extents := by
  have hall : (t.extents.filter fun x => x.origin = .parsed) = t.extents := by
    apply List.filter_eq_self.mpr
    intro x hx
    exact decide_eq_true (hread x hx)
  have hmade : (callExtents e.range).filter (fun x => x.origin = .parsed) = [] := rfl
  have himport : Bridge.importing.statementExtents.filter (fun x => x.origin = .parsed) = [] := rfl
  rw [← hall, h.extents_bridged, h.extents_eq]
  simp only [List.filter_append, List.filter_cons, hmade, himport, List.nil_append,
    List.cons_append]

/-- The bridge is one more module, before all others. -/
theorem moduleSpecifiers_bridged (h : BridgedAt t before s e after) :
    t.bridged.moduleSpecifiers = Bridge.moduleName :: t.moduleSpecifiers := by
  rw [moduleSpecifiers, moduleSpecifiers, h.statements_eq, h.split]
  simp only [List.filterMap_cons, List.filterMap_append, h.value_eq]
  rfl

/-- **Made nodes stay within the text.**  The callee has a byte to stand on because the literal is
not empty. -/
theorem inBounds_bridged (h : BridgedAt t before s e after) (hbounds : t.InBounds) :
    t.bridged.InBounds := by
  obtain ⟨hstart, hstop, hliteral⟩ := hbounds _ h.literal_mem_extents
  have hbyte : e.range.start + 1 ≤ t.sourceLength := Nat.le_trans (hliteral rfl) hstop
  have hlength : t.bridged.sourceLength = t.sourceLength := by rw [h.bridged_eq]
  unfold InBounds
  rw [hlength]
  apply h.forall_extents_bridged hbounds
  · exact ⟨Nat.zero_le _, Nat.zero_le _, nofun⟩
  · exact ⟨hstart, hstop, nofun⟩
  · exact ⟨hstart, hbyte, nofun⟩

/-- The ranges of made nodes do not end before they begin. -/
theorem isOrdered_bridged (h : BridgedAt t before s e after) (hordered : t.IsOrdered) :
    t.bridged.IsOrdered := by
  have hliteral : e.range.start ≤ e.range.stop := hordered _ h.literal_mem_extents
  apply h.forall_extents_bridged hordered
  · exact Nat.le_refl 0
  · exact hliteral
  · exact Nat.le_succ _

/-- **The first default export** is either wrapped, or it is no literal and stays. -/
theorem defaultExport?_bridged (h : BridgedAt t before s e after) :
    (t.defaultExport? = some e ∧ t.bridged.defaultExport? = some (Bridge.wrapped e)) ∨
      ∃ e', ¬ e'.value.isObject ∧ t.defaultExport? = some e' ∧
        t.bridged.defaultExport? = some e' := by
  unfold defaultExport?
  rw [h.statements_eq, h.split, List.findSome?_cons]
  simp only [Bridge.importing, Node.synthetic, List.findSome?_append, List.findSome?_cons,
    h.value_eq, wrappedExport]
  -- whether a default export comes before the literal
  generalize hfound : List.findSome? _ before = found
  cases found with
  | none => exact Or.inl ⟨rfl, rfl⟩
  | some e' =>
    obtain ⟨s', hs', hvalue⟩ := exists_of_defaultExport? (t := ⟨before, 0, false⟩) hfound
    refine Or.inr ⟨e', ?_, rfl, rfl⟩
    intro hobject
    exact h.before_not s' hs' (exportsObject_iff.mpr ⟨e', hvalue, hobject⟩)

end BridgedAt

/-- **When a bridged tree exports through the bridge**: if its first default export is a literal, or
if it did so before. -/
theorem isBridged_bridged_iff (t : ScriptTree) :
    t.bridged.isBridged ↔
      (∃ e, t.defaultExport? = some e ∧ e.value.isObject) ∨ t.isBridged := by
  rcases t.exists_bridgedAt with ⟨hnone, hsame⟩ | ⟨before, s, e, after, h⟩
  · have hnot : ¬ ∃ e, t.defaultExport? = some e ∧ e.value.isObject := by
      rintro ⟨e, hexport, hobject⟩
      obtain ⟨s, hs, hvalue⟩ := exists_of_defaultExport? hexport
      exact hnone s hs (exportsObject_iff.mpr ⟨e, hvalue, hobject⟩)
    rw [hsame]
    exact (or_iff_right hnot).symm
  · rcases h.defaultExport?_bridged with ⟨hexport, hwrapped⟩ | ⟨e', hnot, hexport, hkept⟩
    · refine iff_of_true ?_ (Or.inl ⟨e, hexport, h.isObject⟩)
      rw [isBridged_of_defaultExport? hwrapped]
      exact beq_self_eq_true _
    · have hfirst : ¬ ∃ e, t.defaultExport? = some e ∧ e.value.isObject := by
        rintro ⟨e, he, hobject⟩
        cases hexport.symm.trans he
        exact hnot hobject
      rw [isBridged_of_defaultExport? hkept, ← isBridged_of_defaultExport? hexport]
      exact (or_iff_right hfirst).symm

/-! ## 5. What bridging adds

For a tree that was read, all of this together. -/

/-- **Bridging only adds made nodes.**  Take a tree all of whose nodes were read from the text.  If
no default export is an object literal, the tree stays as it is.  Else an import of the bridge comes
in front of all statements, covering nothing, and the first literal is wrapped in a call, which
covers it; taking the made nodes out gives back the tree, node by node and range by range, and the
names of modules are those of the tree behind that of the bridge.  Where all ranges are within the
text and literals are not empty, so it is afterwards, and no bound grows out of 32 bits if the
length of the text is a number of 32 bits.

The result exports through the bridge if the first default export is a literal. -/
theorem bridged_adds_made (t : ScriptTree) (hread : t.IsRead) :
    (((∀ s ∈ t.statements, ∀ e, s.value = .exportDefault e → ¬ e.value.isObject) ∧ t.bridged = t) ∨
      ∃ (made : Node Statement) (before : List (Node Statement)) (s : Node Statement)
        (literal call : Node Expression) (after : List (Node Statement)),
        t.statements = before ++ s :: after ∧
        (∀ s' ∈ before, ∀ e, s'.value = .exportDefault e → ¬ e.value.isObject) ∧
        s.value = .exportDefault literal ∧ literal.value.isObject ∧
        t.bridged.statements = made :: (before ++ ⟨.exportDefault call, s.range, s.origin⟩ :: after) ∧
        ImportsBridge made ∧ CallsBridge call literal ∧
        t.bridged.withoutMade = t ∧
        (t.bridged.extents.filter fun x => x.origin = .parsed) = t.extents ∧
        t.bridged.moduleSpecifiers = "vue-editor-bridge" :: t.moduleSpecifiers ∧
        (t.IsOrdered → t.bridged.IsOrdered) ∧
        (t.InBounds → t.bridged.InBounds ∧
          (t.sourceLength < UInt32.size → ∀ x ∈ t.bridged.extents,
            x.range.start < UInt32.size ∧ x.range.stop < UInt32.size))) ∧
    (t.bridged.isBridged ↔
      (∃ e, t.defaultExport? = some e ∧ e.value.isObject) ∨ t.isBridged) := by
  have hobjects : ∀ {s : Node Statement}, ¬ exportsObject s →
      ∀ e, s.value = .exportDefault e → ¬ e.value.isObject :=
    fun hnot e hvalue hobject => hnot (exportsObject_iff.mpr ⟨e, hvalue, hobject⟩)
  refine ⟨?_, t.isBridged_bridged_iff⟩
  rcases t.exists_bridgedAt with ⟨hnone, hsame⟩ | ⟨before, s, e, after, h⟩
  · exact Or.inl ⟨fun s hs => hobjects (hnone s hs), hsame⟩
  · refine Or.inr ⟨Bridge.importing, before, s, e, Bridge.wrapped e, after, h.split,
      fun s' hs' => hobjects (h.before_not s' hs'), h.value_eq, h.isObject, h.statements_eq,
      importsBridge_importing, callsBridge_wrapped e, h.withoutMade_bridged hread,
      h.filter_extents_bridged hread, h.moduleSpecifiers_bridged, h.isOrdered_bridged, ?_⟩
    intro hbounds
    have hafter := h.inBounds_bridged hbounds
    refine ⟨hafter, fun hsize x hx => ?_⟩
    have hlength : t.bridged.sourceLength < UInt32.size := by rwa [h.bridged_eq]
    obtain ⟨hstart, hstop, -⟩ := hafter x hx
    exact ⟨Nat.lt_of_le_of_lt hstart hlength, Nat.lt_of_le_of_lt hstop hlength⟩

/-- A script with an import and two default exports, both of literals: only the first is wrapped,
and with the made nodes gone it is the script that was read. -/
theorem bridged_adds_made_two_literals :
    let t := parse .js "import './b'\nexport default {}\nexport default {}"
    t.IsRead ∧ t.InBounds ∧ t.sourceLength < UInt32.size ∧ t.objectExports = 2 ∧
      t.bridged.withoutMade = t ∧ t.bridged.moduleSpecifiers = ["vue-editor-bridge", "./b"] ∧
      t.bridged.InBounds ∧
      (∀ x ∈ t.bridged.extents, x.range.start < UInt32.size ∧ x.range.stop < UInt32.size) ∧
      t.bridged.isBridged := by
  intro t
  have hfacts : t.IsRead ∧ t.InBounds ∧ t.sourceLength < UInt32.size ∧ t.objectExports = 2 ∧
      t.moduleSpecifiers = ["./b"] ∧ t.defaultExport?.any (·.value.isObject) := by
    unfold IsRead InBounds
    decide +kernel
  obtain ⟨hread, hbounds, hsize, hobjects, hspecifiers, hfirst⟩ := hfacts
  obtain ⟨hadded, hbridged⟩ := bridged_adds_made t hread
  rcases hadded with ⟨-, hsame⟩ |
    ⟨_, _, _, _, _, _, -, -, -, -, -, -, -, hback, -, hnames, -, hafter⟩
  · rw [bridged_eq_self_iff, hobjects] at hsame
    cases hsame
  · obtain ⟨hin, hshort⟩ := hafter hbounds
    rw [hspecifiers] at hnames
    exact ⟨hread, hbounds, hsize, hobjects, hback, hnames, hin, hshort hsize,
      hbridged.mpr (Or.inl ((Option.any_eq_true _ _).mp hfirst))⟩

end ScriptTree

end ComponentHost
