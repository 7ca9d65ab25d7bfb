/-
# The version that is kept

Documents are opened and closed in any order, and the versions of one document may go up, fall back
or come again.  Of each address the store keeps one document.  This file says which one, for every
history: of the documents opened under the address since it was last closed, the earliest of those
with the highest version.

The history of an address is `openedSince`: it is cut out of all that happened, and does not say
what the store did.  `FirstNewest` picks the document from it: newer than each before it, and at
least as new as each behind it.  One operation keeps the two together (`Keeps.perform`), so every
run does (`keeps_run`).
-/
import ComponentHost.Document.Store
import Mathlib.Data.List.Induction

namespace ComponentHost.DocumentStore

/-! ## 1. Operations and runs

What is said of the store is said of each address on its own, so the history of an address leaves
out all that concerns others. -/

/-- What can happen to the store. -/
inductive Operation where
  | opening (document : Document)
  | closing (uri : Uri)
deriving DecidableEq

namespace Operation

/-- The address that the operation is about. -/
def uri : Operation → Uri
  | opening d => d.uri
  | closing uri => uri

/-- The document that is opened under an address. -/
def documentAt? (uri : Uri) : Operation → Option Document
  | opening d => if d.uri = uri then some d else none
  | closing _ => none

end Operation

/-- The store after an operation. -/
def perform (s : DocumentStore) : Operation → DocumentStore
  | .opening d => (s.opened d).2
  | .closing uri => (s.closed uri).2

/-- What an operation answers. -/
def answer (s : DocumentStore) : Operation → Option Document
  | .opening d => some (s.opened d).1
  | .closing uri => (s.closed uri).1

/-- The store after some operations, the first of the list first. -/
def run (ops : List Operation) : DocumentStore := ops.foldl perform empty

/-- The documents opened under an address since it was last closed, the earliest first. -/
def openedSince (uri : Uri) (ops : List Operation) : List Document :=
  (ops.reverse.takeWhile (· ≠ .closing uri)).reverse.filterMap (Operation.documentAt? uri)

/-- The earliest among the documents with the highest version. -/
def FirstNewest (docs : List Document) (d : Document) : Prop :=
  ∃ before after, docs = before ++ d :: after ∧ (∀ e ∈ before, e.version < d.version) ∧
    ∀ e ∈ after, e.version ≤ d.version

/-! ## 2. One operation

The store and the history side by side: what an operation does to the document that is kept, and
what it does to the history. -/

section Step

variable (s : DocumentStore)

/-- Opening changes the kept document only for one that is newer. -/
theorem get?_opened_self (d : Document) :
    (s.opened d).2.get? d.uri =
      some ((s.get? d.uri).elim d fun kept => if kept.version < d.version then d else kept) := by
  unfold opened
  cases hkept : s.get? d.uri with
  | none => exact Table.get?_set_self s d.uri d
  | some kept =>
    dsimp only [Option.elim]
    split
    · exact Table.get?_set_self s d.uri d
    · exact hkept

/-- What opening answers is what is kept from then on. -/
theorem opened_fst (d : Document) : some (s.opened d).1 = (s.opened d).2.get? d.uri := by
  rw [get?_opened_self]
  unfold opened
  cases s.get? d.uri with
  | none => rfl
  | some kept =>
    dsimp only [Option.elim]
    split <;> rfl

/-- **Nothing changes at another address.** -/
theorem get?_perform_of_ne {op : Operation} {uri : Uri} (h : op.uri ≠ uri) :
    (s.perform op).get? uri = s.get? uri := by
  cases op with
  | opening d =>
    have hset := Table.get?_set_of_ne s d h.symm
    simp only [perform, opened]
    cases s.get? d.uri with
    | none => exact hset
    | some kept =>
      dsimp only
      split
      · exact hset
      · rfl
  | closing closed => exact Table.get?_erase_of_ne s h.symm

end Step

section History

variable (uri : Uri) (ops : List Operation)

theorem openedSince_closing : openedSince uri (ops ++ [.closing uri]) = [] := by
  simp [openedSince]

theorem openedSince_opening (d : Document) :
    openedSince d.uri (ops ++ [.opening d]) = openedSince d.uri ops ++ [d] := by
  simp [openedSince, Operation.documentAt?]

variable {uri} in
/-- The history leaves out what happens at other addresses. -/
theorem openedSince_of_ne {op : Operation} (h : op.uri ≠ uri) :
    openedSince uri (ops ++ [op]) = openedSince uri ops := by
  have hclosing : op ≠ .closing uri := fun heq => h (heq ▸ rfl)
  have hdocument : op.documentAt? uri = none := by
    cases op with
    | opening d => exact if_neg h
    | closing => rfl
  simp [openedSince, hclosing, hdocument]

end History

/-! ## 3. Runs

A document that comes is kept if it is newer than the one that is there.  So the one that is there
was newer than all before it, and nothing since was newer. -/

section Newest

variable {docs : List Document} {d e : Document}

/-- A newer document comes first from then on. -/
theorem FirstNewest.concat_of_lt (h : FirstNewest docs d) (hlt : d.version < e.version) :
    FirstNewest (docs ++ [e]) e := by
  obtain ⟨before, after, rfl, hbefore, hafter⟩ := h
  refine ⟨before ++ d :: after, [], rfl, fun x hx => ?_, fun x hx => absurd hx List.not_mem_nil⟩
  rcases List.mem_append.mp hx with hx | hx
  · exact Int.lt_trans (hbefore x hx) hlt
  · rcases List.mem_cons.mp hx with rfl | hx
    · exact hlt
    · exact Int.lt_of_le_of_lt (hafter x hx) hlt

/-- A document that is not newer changes nothing. -/
theorem FirstNewest.concat_of_not_lt (h : FirstNewest docs d) (hlt : ¬ d.version < e.version) :
    FirstNewest (docs ++ [e]) d := by
  obtain ⟨before, after, rfl, hbefore, hafter⟩ := h
  refine ⟨before, after ++ [e], by simp, hbefore, fun x hx => ?_⟩
  rcases List.mem_append.mp hx with hx | hx
  · exact hafter x hx
  · rw [List.mem_singleton.mp hx]
    exact Int.not_lt.mp hlt

/-- Of two that stand in a list, one stands before the other or they are the same place: before the
first newest there are only older ones, behind it none that is newer. -/
theorem FirstNewest.unique (h : FirstNewest docs d) (h' : FirstNewest docs e) : e = d := by
  obtain ⟨before, after, rfl, hbefore, hafter⟩ := h
  obtain ⟨before', after', heq, hbefore', hafter'⟩ := h'
  rcases List.append_eq_append_iff.mp heq with ⟨mid, rfl, hmid⟩ | ⟨mid, rfl, hmid⟩
  · cases mid with
    | nil => exact (List.cons.inj hmid).1.symm
    | cons x mid =>
      obtain ⟨rfl, rfl⟩ := List.cons.inj hmid
      exact absurd (hbefore' d (by simp)) (Int.not_lt.mpr (hafter e (by simp)))
  · cases mid with
    | nil => exact (List.cons.inj hmid).1
    | cons x mid =>
      obtain ⟨rfl, rfl⟩ := List.cons.inj hmid
      exact absurd (hbefore e (by simp)) (Int.not_lt.mpr (hafter' d (by simp)))

end Newest

/-- What is kept of some documents that were opened one after the other. -/
inductive Keeps : List Document → Option Document → Prop
  | nothing : Keeps [] none
  | newest {docs : List Document} {d : Document} (h : FirstNewest docs d) : Keeps docs (some d)

theorem keeps_iff {docs : List Document} {kept : Option Document} (h : Keeps docs kept) :
    (kept = none ↔ docs = []) ∧ ∀ d, kept = some d ↔ FirstNewest docs d := by
  cases h with
  | nothing => simp [FirstNewest]
  | newest h =>
    refine ⟨?_, fun d => ⟨?_, fun hd => congrArg some (hd.unique h)⟩⟩
    · obtain ⟨before, after, rfl, -⟩ := h
      simp
    · rintro ⟨⟩
      exact h

/-- **An operation keeps the store and the history together**, at its own address and at every
other one. -/
theorem Keeps.perform {uri : Uri} {ops : List Operation} {s : DocumentStore}
    (h : Keeps (openedSince uri ops) (s.get? uri)) (op : Operation) :
    Keeps (openedSince uri (ops ++ [op])) ((s.perform op).get? uri) := by
  by_cases huri : op.uri = uri
  · cases op with
    | opening d =>
      obtain rfl : d.uri = uri := huri
      rw [openedSince_opening, DocumentStore.perform, get?_opened_self]
      cases hkept : s.get? d.uri with
      | none =>
        rw [(keeps_iff h).1.mp hkept]
        exact .newest ⟨[], [], rfl, by simp, by simp⟩
      | some kept =>
        have hnewest := ((keeps_iff h).2 kept).mp hkept
        dsimp only [Option.elim]
        split
        · next hlt => exact .newest (hnewest.concat_of_lt hlt)
        · next hlt => exact .newest (hnewest.concat_of_not_lt hlt)
    | closing closed =>
      obtain rfl : closed = uri := huri
      rw [openedSince_closing, DocumentStore.perform, DocumentStore.closed, Table.get?_erase_self]
      exact .nothing
  · rw [openedSince_of_ne ops huri, get?_perform_of_ne s huri]
    exact h

theorem run_concat (ops : List Operation) (op : Operation) :
    run (ops ++ [op]) = (run ops).perform op := by
  simp [run]

/-- The induction is over the history from its end: the last operation is the one performed on the
store that the others left. -/
theorem keeps_run (uri : Uri) (ops : List Operation) :
    Keeps (openedSince uri ops) ((run ops).get? uri) := by
  induction ops using List.reverseRecOn with
  | nil => exact .nothing
  | append_singleton ops op ih =>
    rw [run_concat]
    exact ih.perform op

theorem get?_run_append_of_ne {uri : Uri} (ops : List Operation) {more : List Operation}
    (h : ∀ op ∈ more, op.uri ≠ uri) : (run (ops ++ more)).get? uri = (run ops).get? uri := by
  induction more using List.reverseRecOn with
  | nil => rw [List.append_nil]
  | append_singleton more op ih =>
    rw [← List.append_assoc, run_concat, get?_perform_of_ne _ (h op (by simp))]
    exact ih fun op' hop' => h op' (List.mem_append_left _ hop')

/-- **The store keeps the newest version, and of equal ones the first.**  After every history, what
is kept under an address is the earliest of the newest documents opened there since it was last
closed, and nothing if none was opened; opening answers with what is kept from then on; and what
happens at other addresses, in any number of operations, changes nothing. -/
theorem get?_run_eq_newest (ops : List Operation) :
    (∀ uri, ((run ops).get? uri = none ↔ openedSince uri ops = []) ∧
      ∀ d, (run ops).get? uri = some d ↔ FirstNewest (openedSince uri ops) d) ∧
    (∀ d, (run ops).answer (.opening d) = (run (ops ++ [.opening d])).get? d.uri) ∧
    ∀ more uri, (∀ op ∈ more, op.uri ≠ uri) →
      (run (ops ++ more)).get? uri = (run ops).get? uri := by
  refine ⟨fun uri => keeps_iff (keeps_run uri ops), fun d => ?_,
    fun more uri h => get?_run_append_of_ne ops h⟩
  rw [run_concat]
  exact opened_fst (run ops) d

/-- A version of a file in the root. -/
def rootFile (name : String) (version : Int) (text : String) : Document :=
  ⟨{ scheme := "file", host := some "", path := name }, version, text⟩

/-- A file is closed and opened again, a version of it comes twice, an older one comes last; what
is opened and closed besides it does not matter. -/
theorem get?_run_eq_newest_repeated :
    let file := (rootFile "/a.vue" 0 "").uri
    let ops := [.opening (rootFile "/a.vue" 9 "gone"), .closing file,
      .opening (rootFile "/a.vue" 1 "first"), .opening (rootFile "/b.vue" 7 "beside"),
      .opening (rootFile "/a.vue" 3 "kept"), .opening (rootFile "/a.vue" 3 "again"),
      .opening (rootFile "/a.vue" 2 "older")]
    let more := [.closing (rootFile "/b.vue" 0 "").uri, .opening (rootFile "/c.vue" 5 "")]
    (∀ op ∈ more, op.uri ≠ file) ∧
      (run ops).get? file = some (rootFile "/a.vue" 3 "kept") ∧
      (run (ops ++ more)).get? file = some (rootFile "/a.vue" 3 "kept") ∧
      (run ops).answer (.opening (rootFile "/a.vue" 3 "late"))
        = some (rootFile "/a.vue" 3 "kept") := by
  intro file ops more
  obtain ⟨hkept, hanswer, hother⟩ := get?_run_eq_newest ops
  have hmore : ∀ op ∈ more, op.uri ≠ file := by decide
  have hfile := ((hkept file).2 (rootFile "/a.vue" 3 "kept")).mpr
    ⟨[rootFile "/a.vue" 1 "first"], [rootFile "/a.vue" 3 "again", rootFile "/a.vue" 2 "older"],
      by decide, by decide, by decide⟩
  refine ⟨hmore, hfile, (hother more file hmore).trans hfile, ?_⟩
  rw [hanswer (rootFile "/a.vue" 3 "late")]
  exact (((get?_run_eq_newest _).1 file).2 _).mpr
    ⟨[rootFile "/a.vue" 1 "first"], [rootFile "/a.vue" 3 "again", rootFile "/a.vue" 2 "older",
      rootFile "/a.vue" 3 "late"], by decide, by decide, by decide⟩

end ComponentHost.DocumentStore
