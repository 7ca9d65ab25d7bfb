/-
# Caches along a run

A cache is asked for documents, told to drop a document and told to drop everything, in any order
and at times that need not grow.  Two things are proved of all such runs.

The cache cannot be seen: what it gives for a document is what would be derived from it.  Values
are kept by address and version, so this needs that a version has one text; but only from one drop
of the document to the next, and the invariant says just that: a kept value is that of a document
whose version keeps its text from here on (`Sound`).

And the cache keeps exactly what was used last.  The order of use and the table of values hold the
same keys, within the capacity, whatever was asked or dropped (`WellKept`).  Where nothing was
dropped, the order is cut from the list of all versions ever asked for, the latest first
(`Follows`); so a value is derived exactly if its version is behind that cut, or was idle for too
long.
-/
import ComponentHost.Proofs.CacheSteps

namespace ComponentHost.Cache

variable {α : Type}

/-! ## 1. Operations and runs

Times are part of the requests and need not grow, since nothing makes them. -/

/-- What can happen to a cache. -/
inductive Operation where
  | get (document : Document) (now : Nat)
  | removeDocument (uri : Uri)
  | clear

namespace Operation

/-- The document that is asked for. -/
def document? : Operation → Option Document
  | get document _ => some document
  | _ => none

theorem exists_get_of_document? {op : Operation} {d : Document} (h : d ∈ op.document?) :
    ∃ now, op = .get d now := by
  cases op with
  | get d' now =>
    cases h
    exact ⟨now, rfl⟩
  | removeDocument uri => cases h
  | clear => cases h

/-- Is every version of the document dropped? -/
def drops (uri : Uri) : Operation → Bool
  | get _ _ => false
  | removeDocument dropped => dropped = uri
  | clear => true

end Operation

/-- The cache after an operation, for values that are derived from documents. -/
def perform (derive : Document → α) (c : Cache α) : Operation → Cache α
  | .get d now => (c.get d.fingerprint now fun _ => derive d).2.2
  | .removeDocument uri => c.removeDocument uri
  | .clear => c.clear

/-- What an operation answers. -/
def answer? (derive : Document → α) (c : Cache α) : Operation → Option α
  | .get d now => some (c.get d.fingerprint now fun _ => derive d).1
  | _ => none

/-- The cache after some operations, the first of the list first. -/
def run (derive : Document → α) (c : Cache α) (ops : List Operation) : Cache α :=
  ops.foldl (perform derive) c

/-- The answers along a run. -/
def answers (derive : Document → α) (c : Cache α) : List Operation → List α
  | [] => []
  | op :: ops => (c.answer? derive op).toList ++ (c.perform derive op).answers derive ops

/-- **Every operation keeps the table and the order together.** -/
theorem WellKept.perform {c : Cache α} (hc : WellKept c) (derive : Document → α) (op : Operation) :
    WellKept (c.perform derive op) := by
  cases op with
  | get d now => exact hc.get _ _ _
  | removeDocument uri => exact hc.removeDocument uri
  | clear => exact .clear c

/-- **Every run keeps the table and the order together.**  -/
theorem WellKept.run {c : Cache α} (hc : WellKept c) (derive : Document → α)
    (ops : List Operation) : WellKept (c.run derive ops) := by
  induction ops generalizing c with
  | nil => exact hc
  | cons op ops ih => exact ih (hc.perform derive op)

theorem capacity_perform {c : Cache α} (hc : WellKept c) (derive : Document → α) (op : Operation) :
    (c.perform derive op).capacity = c.capacity ∧
      (c.perform derive op).timeToLive = c.timeToLive := by
  cases op with
  | get d now => exact capacity_get hc _ _ _
  | removeDocument uri => exact ⟨rfl, rfl⟩
  | clear => exact ⟨rfl, rfl⟩

theorem capacity_run {c : Cache α} (hc : WellKept c) (derive : Document → α)
    (ops : List Operation) :
    (c.run derive ops).capacity = c.capacity ∧ (c.run derive ops).timeToLive = c.timeToLive := by
  induction ops generalizing c with
  | nil => exact ⟨rfl, rfl⟩
  | cons op ops ih =>
    obtain ⟨hcapacity, htime⟩ := capacity_perform hc derive op
    obtain ⟨hcapacity', htime'⟩ := ih (hc.perform derive op)
    exact ⟨hcapacity'.trans hcapacity, htime'.trans htime⟩

/-! ## 2. A version has one text

The condition on a run speaks of any two requests in it.  For an induction it is needed from one
request on, as a condition on what is still to come; the two are shown to be the same. -/

/-- The version of the document keeps its text until the document is dropped. -/
def Keeps (d : Document) : List Operation → Prop
  | [] => True
  | op :: ops =>
    op.drops d.uri ∨
      (∀ d' ∈ op.document?, d'.fingerprint = d.fingerprint → d'.text = d.text) ∧ Keeps d ops

/-- Two documents of one version that are asked for have the same text, unless the document is
dropped between them. -/
def Consistent (ops : List Operation) : Prop :=
  ∀ before d now between d' now' after,
    ops = before ++ .get d now :: (between ++ .get d' now' :: after) →
    d'.fingerprint = d.fingerprint → (∀ op ∈ between, ¬ op.drops d.uri) → d'.text = d.text

/-- What is said of two moments, said from the first of them on. -/
theorem keeps_iff {d : Document} {ops : List Operation} :
    Keeps d ops ↔ ∀ between d' now' after, ops = between ++ .get d' now' :: after →
      d'.fingerprint = d.fingerprint → (∀ op ∈ between, ¬ op.drops d.uri) → d'.text = d.text := by
  induction ops with
  | nil => simp [Keeps]
  | cons op ops ih =>
    rw [Keeps, ih]
    constructor
    · intro h between d' now' after heq hsame hkept
      cases between with
      | nil =>
        obtain ⟨rfl, -⟩ := List.cons.inj heq
        exact (h.resolve_left Bool.false_ne_true).1 d' rfl hsame
      | cons op' between =>
        obtain ⟨rfl, hrest⟩ := List.cons.inj heq
        exact (h.resolve_left (hkept op List.mem_cons_self)).2 between d' now' after hrest hsame
          fun op' hop' => hkept op' (List.mem_cons_of_mem _ hop')
    · intro h
      by_cases hdrops : op.drops d.uri
      · exact Or.inl hdrops
      · refine Or.inr ⟨?_, ?_⟩
        · intro d' hd' hsame
          obtain ⟨now, rfl⟩ := Operation.exists_get_of_document? hd'
          exact h [] d' now ops rfl hsame fun _ hnil => absurd hnil List.not_mem_nil
        · intro between d' now' after heq hsame hkept
          refine h (op :: between) d' now' after (by rw [heq]; rfl) hsame fun op' hop' => ?_
          rcases List.mem_cons.mp hop' with rfl | hop'
          · exact hdrops
          · exact hkept op' hop'

/-- A run is consistent if its first request keeps its text and the rest is consistent. -/
theorem consistent_cons {op : Operation} {ops : List Operation} :
    Consistent (op :: ops) ↔ (∀ d ∈ op.document?, Keeps d ops) ∧ Consistent ops := by
  constructor
  · intro h
    refine ⟨?_, ?_⟩
    · intro d hd
      obtain ⟨now, rfl⟩ := Operation.exists_get_of_document? hd
      exact keeps_iff.mpr fun between d' now' after heq =>
        h [] d now between d' now' after (by rw [heq]; rfl)
    · intro before d now between d' now' after heq
      exact h (op :: before) d now between d' now' after (by rw [heq]; rfl)
  · rintro ⟨hkeeps, hrest⟩ before d now between d' now' after heq
    cases before with
    | nil =>
      obtain ⟨rfl, hops⟩ := List.cons.inj heq
      exact keeps_iff.mp (hkeeps d rfl) between d' now' after hops
    | cons op' before =>
      exact hrest before d now between d' now' after (List.cons.inj heq).2

theorem consistent_nil : Consistent [] := by
  intro before d now between d' now' after heq
  exact absurd heq.symm (by simp)

instance decidableKeeps (d : Document) : (ops : List Operation) → Decidable (Keeps d ops)
  | [] => isTrue trivial
  | op :: ops =>
    have := decidableKeeps d ops
    inferInstanceAs (Decidable (_ ∨ (∀ d' ∈ op.document?, _) ∧ Keeps d ops))

instance decidableConsistent : (ops : List Operation) → Decidable (Consistent ops)
  | [] => isTrue consistent_nil
  | op :: ops =>
    have := decidableConsistent ops
    decidable_of_iff ((∀ d ∈ op.document?, Keeps d ops) ∧ Consistent ops) consistent_cons.symm

/-! ## 3. The cache cannot be seen

A value in the cache was derived from an earlier document of the same address and version.  If that
document keeps its text from then on, it is the one that is asked for, and its value is what would
be derived. -/

/-- Documents with the same address, version and text are the same. -/
theorem document_eq {d d' : Document} (hsame : d'.fingerprint = d.fingerprint)
    (htext : d'.text = d.text) : d' = d := by
  obtain ⟨uri, version, text⟩ := d
  obtain ⟨uri', version', text'⟩ := d'
  obtain ⟨rfl, rfl⟩ := Fingerprint.mk.inj hsame
  exact congrArg _ htext

/-- Every value is that of a document of its version that keeps its text from here on. -/
def Sound (derive : Document → α) (c : Cache α) (ops : List Operation) : Prop :=
  ∀ key e, c.find? key = some e →
    ∃ d : Document, d.fingerprint = key ∧ e.value = derive d ∧ Keeps d ops

/-- **A sound cache answers what would be derived.** -/
theorem Sound.get_eq {derive : Document → α} {c : Cache α} {d : Document} {now : Nat}
    {ops : List Operation} (hc : WellKept c) (hs : Sound derive c (.get d now :: ops)) :
    (c.get d.fingerprint now fun _ => derive d).1 = derive d := by
  rcases get_value hc d.fingerprint now fun _ => derive d with ⟨e, hfind, hvalue⟩ | hvalue
  · obtain ⟨d', hsame, hderived, hkeeps⟩ := hs _ _ hfind
    have htext := (hkeeps.resolve_left Bool.false_ne_true).1 d rfl hsame.symm
    rw [hvalue, hderived, document_eq hsame.symm htext]
  · exact hvalue

/-- **Every operation keeps a cache sound**, for what is still to come. -/
theorem Sound.perform {derive : Document → α} {c : Cache α} {op : Operation} {ops : List Operation}
    (hc : WellKept c) (hs : Sound derive c (op :: ops)) (hop : ∀ d ∈ op.document?, Keeps d ops) :
    Sound derive (c.perform derive op) ops := by
  intro key e hfind
  cases op with
  | get d now =>
    rw [Cache.perform, find?_get hc] at hfind
    split at hfind
    · split at hfind
      · next hkey =>
        cases hfind
        exact ⟨d, hkey.symm, hs.get_eq hc, hop d rfl⟩
      · obtain ⟨d', hsame, hvalue, hkeeps⟩ := hs key e hfind
        exact ⟨d', hsame, hvalue, (hkeeps.resolve_left Bool.false_ne_true).2⟩
    · cases hfind
  | removeDocument uri =>
    have hfilter := Table.get?_filter c.entries (fun k => !decide (k.uri = uri)) key
    rw [Cache.perform, show (c.removeDocument uri).find? key = _ from hfilter] at hfind
    split at hfind
    · next hkept =>
      obtain ⟨d, hsame, hvalue, hkeeps⟩ := hs key e hfind
      refine ⟨d, hsame, hvalue, (hkeeps.resolve_left ?_).2⟩
      have hne : key.uri ≠ uri := by simpa using hkept
      have huri : d.uri = key.uri := congrArg Fingerprint.uri hsame
      simpa [Operation.drops, huri] using Ne.symm hne
    · cases hfind
  | clear => cases hfind

/-- A sound cache answers a whole run as if there were no cache. -/
theorem Sound.answers_eq {derive : Document → α} {c : Cache α} {ops : List Operation}
    (hc : WellKept c) (hs : Sound derive c ops) (hops : Consistent ops) :
    c.answers derive ops = (ops.filterMap Operation.document?).map derive := by
  induction ops generalizing c with
  | nil => rfl
  | cons op ops ih =>
    obtain ⟨hkeeps, hrest⟩ := consistent_cons.mp hops
    rw [answers, ih (hc.perform derive op) (hs.perform hc hkeeps) hrest]
    cases op with
    | get d now =>
      rw [answer?, hs.get_eq hc]
      rfl
    | removeDocument uri => rfl
    | clear => rfl

/-- **A cache cannot be seen.**  Whatever it is asked and told, at whatever times and within
whatever capacity, it answers what would be derived from each document, provided that a version has
one text from one drop of its document to the next. -/
theorem answers_eq_map_derive (capacity timeToLive : Nat) (derive : Document → α)
    (ops : List Operation) (hops : Consistent ops) :
    answers derive { capacity := capacity, timeToLive := timeToLive } ops
      = (ops.filterMap Operation.document?).map derive :=
  Sound.answers_eq (.of_nil rfl rfl) (fun _ _ h => by cases h) hops

/-- Room for one value; a hit, a drop after which the version has another text, an eviction and a
return at an earlier time. -/
theorem answers_eq_map_derive_dropped :
    let a : Uri := { scheme := "file", host := some "", path := "/a.vue" }
    let b : Uri := { scheme := "file", host := some "", path := "/b.vue" }
    let ops : List Operation := [.get ⟨a, 1, "x"⟩ 5, .get ⟨a, 1, "x"⟩ 6, .removeDocument a,
      .get ⟨a, 1, "y"⟩ 7, .get ⟨b, 1, "z"⟩ 8, .get ⟨a, 1, "y"⟩ 3]
    Consistent ops ∧
      answers Document.text { capacity := 1, timeToLive := 60 } ops
        = ["x", "x", "y", "z", "y"] := by
  intro a b ops
  have hops : Consistent ops := by decide +kernel
  exact ⟨hops, answers_eq_map_derive 1 60 Document.text ops hops⟩

/-! ## 4. What was used last

Now only requests are looked at.  The order of the cache is compared with the list of all versions
that were ever asked for: both put the version of a request in front, and it makes no difference
whether the list is cut before or after. -/

/-- A document that is asked for, and when. -/
structure Request where
  document : Document
  now : Nat

namespace Request

/-- The version that is asked for. -/
def key (r : Request) : Fingerprint := r.document.fingerprint

/-- The request as an operation. -/
def operation (r : Request) : Operation := .get r.document r.now

/-- The versions that were asked for, each once, the latest first. -/
def recent (requests : List Request) : List Fingerprint := (requests.map key).reverse.eraseDups

/-- When a version was last asked for. -/
def lastTime? (requests : List Request) (k : Fingerprint) : Option Nat :=
  (requests.reverse.find? (·.key = k)).map now

end Request

open Request

/-! ### Versions, the latest first -/

/-- Leaving out keys and leaving out repetitions are independent. -/
theorem eraseDups_filter (p : Fingerprint → Bool) (keys : List Fingerprint) :
    (keys.filter p).eraseDups = keys.eraseDups.filter p := by
  -- Repetitions of the first key are left out of a shorter list.
  induction h : keys.length using Nat.strongRecOn generalizing keys with
  | ind n ih =>
    cases keys with
    | nil => rfl
    | cons k keys =>
      have hlt : (keys.filter fun b => !b == k).length < n :=
        h ▸ Nat.lt_succ_of_le (List.length_filter_le _ _)
      rw [List.eraseDups_cons, List.filter_cons, List.filter_cons, ← ih _ hlt _ rfl,
        List.filter_filter]
      split
      · rw [List.eraseDups_cons, List.filter_filter]
        simp only [Bool.and_comm]
      · next hk =>
        congr 1
        refine List.filter_congr fun b _ => ?_
        by_cases hb : b = k
        · simp [hb, hk]
        · simp [hb]

theorem nodup_eraseDups (keys : List Fingerprint) : keys.eraseDups.Nodup := by
  induction h : keys.length using Nat.strongRecOn generalizing keys with
  | ind n ih =>
    cases keys with
    | nil => exact List.nodup_nil
    | cons k keys =>
      have hlt : (keys.filter fun b => !b == k).length < n :=
        h ▸ Nat.lt_succ_of_le (List.length_filter_le _ _)
      rw [List.eraseDups_cons]
      exact List.nodup_cons.mpr ⟨by simp [List.mem_eraseDups], ih _ hlt _ rfl⟩

theorem nodup_recent (requests : List Request) : (recent requests).Nodup := nodup_eraseDups _

/-- One more request puts its version in front. -/
theorem recent_concat (requests : List Request) (r : Request) :
    recent (requests ++ [r]) = inFront r.key (recent requests) := by
  rw [recent, List.map_append, List.reverse_append, List.map_singleton, List.reverse_singleton,
    List.singleton_append, List.eraseDups_cons, eraseDups_filter]
  rfl

theorem lastTime?_concat (requests : List Request) (r : Request) (k : Fingerprint) :
    lastTime? (requests ++ [r]) k = if k = r.key then some r.now else lastTime? requests k := by
  rw [lastTime?, List.reverse_append, List.reverse_singleton, List.singleton_append]
  by_cases h : k = r.key
  · simp [h]
  · simp [h, Ne.symm h, lastTime?]

/-- One key less leaves room for one: what is cut off does not come back. -/
theorem take_filter_take {keys : List Fingerprint} (h : keys.Nodup) (key : Fingerprint) (n : Nat) :
    ((keys.take (n + 1)).filter fun k => !decide (k = key)).take n
      = (keys.filter fun k => !decide (k = key)).take n := by
  induction keys generalizing n with
  | nil => rfl
  | cons k keys ih =>
    obtain ⟨hk, hkeys⟩ := List.nodup_cons.mp h
    by_cases hkey : k = key
    · have hkept : ∀ l : List Fingerprint, l ⊆ keys → (l.filter fun k => !decide (k = key)) = l :=
        fun l hl => (List.cons.inj (inFront_of_notMem fun hmem => hk (hkey ▸ hl hmem))).2
      simp [hkey, hkept _ (List.take_subset n keys), hkept keys fun _ h => h, List.take_take]
    · cases n with
      | zero => rfl
      | succ n => simp [hkey, ih hkeys n]

theorem take_inFront_take {keys : List Fingerprint} (h : keys.Nodup) (key : Fingerprint)
    (n : Nat) : (inFront key (keys.take n)).take n = (inFront key keys).take n := by
  cases n with
  | zero => rfl
  | succ n => exact congrArg (key :: ·) (take_filter_take h key n)

/-! ### Runs without drops -/

/-- The order is cut from the versions asked for, and every value knows when it was. -/
structure Follows (requests : List Request) (c : Cache α) : Prop where
  wellKept : WellKept c
  order_eq : c.order = (recent requests).take c.capacity
  lastTime?_eq : ∀ key e, c.find? key = some e → lastTime? requests key = some e.lastAccess

theorem follows_nil (capacity timeToLive : Nat) :
    Follows [] ({ capacity := capacity, timeToLive := timeToLive } : Cache α) where
  wellKept := .of_nil rfl rfl
  order_eq := List.take_nil.symm
  lastTime?_eq _ _ h := by cases h

/-- **One more request.** -/
theorem Follows.perform {requests : List Request} {c : Cache α} (hc : Follows requests c)
    (derive : Document → α) (r : Request) :
    Follows (requests ++ [r]) (c.perform derive r.operation) where
  wellKept := hc.wellKept.perform derive _
  order_eq := by
    rw [(capacity_perform hc.wellKept derive _).1, recent_concat,
      ← take_inFront_take (nodup_recent requests), ← hc.order_eq]
    exact order_get hc.wellKept r.key r.now _
  lastTime?_eq key e hfind := by
    have hget := find?_get hc.wellKept r.key r.now (fun _ => derive r.document) key
    rw [show (c.perform derive r.operation).find? key = _ from hget] at hfind
    rw [lastTime?_concat]
    split at hfind
    · split at hfind
      · next hkey =>
        cases hfind
        rw [if_pos hkey]
      · next hkey =>
        rw [if_neg hkey]
        exact hc.lastTime?_eq key e hfind
    · cases hfind

/-- **A run of requests.** -/
theorem Follows.run {requests : List Request} {c : Cache α} (hc : Follows requests c)
    (derive : Document → α) (more : List Request) :
    Follows (requests ++ more) (c.run derive (more.map operation)) := by
  induction more generalizing requests c with
  | nil => exact (List.append_nil requests).symm ▸ hc
  | cons r more ih =>
    rw [← List.singleton_append, ← List.append_assoc]
    exact ih (hc.perform derive r)

theorem Follows.derives_iff {requests : List Request} {c : Cache α} (hc : Follows requests c)
    (derive : Unit → α) (key : Fingerprint) (now : Nat) :
    (c.get key now derive).2.1 = true ↔
      key ∉ (recent requests).take c.capacity ∨
        ∃ last, lastTime? requests key = some last ∧ c.timeToLive < now - last := by
  rw [get_derives_iff hc.wellKept, ← hc.order_eq]
  by_cases hkey : key ∈ c.order
  · obtain ⟨e, hfind⟩ := Option.isSome_iff_exists.mp ((hc.wellKept.mem_order key).mp hkey)
    simp [hkey, hfind, hc.lastTime?_eq key e hfind]
  · exact iff_of_true (Or.inl hkey) (Or.inl hkey)

/-- **A cache keeps what was used last.**  After any run the order of use has no repetitions, lists
the keys of the table and fits the capacity.  After a run of requests alone, it is the list of the
versions asked for, the latest first, cut at the capacity; and the next request derives its value
exactly if its version is not in that list or was last asked for too long ago. -/
theorem order_eq_recent (capacity timeToLive : Nat) (derive : Document → α) :
    let start : Cache α := { capacity := capacity, timeToLive := timeToLive }
    (∀ ops, (start.run derive ops).order.Nodup ∧
      (Table.keys (start.run derive ops).entries).Perm (start.run derive ops).order ∧
      (start.run derive ops).order.length ≤ capacity) ∧
    ∀ requests : List Request,
      (start.run derive (requests.map operation)).order = (recent requests).take capacity ∧
      ∀ r : Request,
        ((start.run derive (requests.map operation)).get r.key r.now
            fun _ => derive r.document).2.1 = true ↔
          r.key ∉ (recent requests).take capacity ∨
            ∃ last, lastTime? requests r.key = some last ∧ timeToLive < r.now - last := by
  intro start
  have hstart : WellKept start := .of_nil rfl rfl
  refine ⟨fun ops => ?_, fun requests => ?_⟩
  · have hc := hstart.run derive ops
    exact ⟨hc.nodup_order, hc.perm,
      Nat.le_trans hc.fits (Nat.le_of_eq (capacity_run hstart derive ops).1)⟩
  · have hc : Follows requests (start.run derive (requests.map operation)) :=
      (follows_nil capacity timeToLive).run derive requests
    obtain ⟨hcapacity, htime⟩ := capacity_run hstart derive (requests.map operation)
    refine ⟨hc.order_eq.trans (by rw [hcapacity]), fun r => ?_⟩
    rw [hc.derives_iff, hcapacity, htime]

end ComponentHost.Cache
