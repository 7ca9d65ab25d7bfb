/- # A bounded cache

Values derived from documents are kept by address and version.  The values are in a table, and the
order in which they were last used is a list of its own, the most recent first; each operation
moves the two.  A value that has not been asked for within the time to live is derived again, and
past the capacity the least recently used values are dropped.

Time is a number that the caller supplies; it need not grow.
-/
import ComponentHost.Document.Basic
import ComponentHost.Table

namespace ComponentHost

/-- What identifies a version of a document. -/
structure Fingerprint where
  uri : Uri
  version : Int
deriving DecidableEq, Repr

/-- The fingerprint of a document. -/
def Document.fingerprint (d : Document) : Fingerprint := ⟨d.uri, d.version⟩

/-- A kept value. -/
structure CacheEntry (α : Type) where
  value : α
  lastAccess : Nat

/-- Kept values and the order of their use. -/
structure Cache (α : Type) where
  capacity : Nat
  /-- Longest time between two uses, in nanoseconds. -/
  timeToLive : Nat
  entries : Table Fingerprint (CacheEntry α) := []
  /-- The fingerprints in use, the most recently used first. -/
  order : List Fingerprint := []

namespace Cache

variable {α : Type}

/-- The entry of a fingerprint. -/
def find? (c : Cache α) (key : Fingerprint) : Option (CacheEntry α) := Table.get? c.entries key

/-- Is there a value for the version? -/
def contains (c : Cache α) (key : Fingerprint) : Bool := (c.find? key).isSome

/-! ## 1. Steps -/

/-- Moves a fingerprint that is in use to the front. -/
def touch (c : Cache α) (key : Fingerprint) : Cache α :=
  if key ∈ c.order then { c with order := key :: c.order.erase key } else c

/-- Drops the value of a fingerprint. -/
def remove (c : Cache α) (key : Fingerprint) : Cache α :=
  { c with
    entries := Table.erase c.entries key
    order := c.order.filter fun k => !decide (k = key) }

/-- Drops the least recently used values, the last one first, until the rest fits. -/
def shrink (c : Cache α) : Cache α :=
  { c with
    entries := (c.order.drop c.capacity).foldr (fun key entries => Table.erase entries key) c.entries
    order := c.order.take c.capacity }

/-- Keeps an entry.  One that takes the place of another moves to the front; a new one may push
out others. -/
def insert (c : Cache α) (key : Fingerprint) (e : CacheEntry α) : Cache α :=
  if c.capacity = 0 then c
  else
    let entries := Table.set c.entries key e
    if c.contains key then { c with entries := entries }.touch key
    else { c with entries := entries, order := key :: c.order }.shrink

/-! ## 2. Operations -/

/-- Has the entry been idle for too long? -/
def isExpired (c : Cache α) (now : Nat) (e : CacheEntry α) : Bool :=
  c.timeToLive < now - e.lastAccess

/-- A value is derived and kept. -/
def derived (c : Cache α) (key : Fingerprint) (now : Nat) (value : α) : α × Bool × Cache α :=
  (value, true, c.insert key ⟨value, now⟩)

/-- The value of a version: the kept one if it is fresh, else a derived one.  Also tells whether
it was derived. -/
def get (c : Cache α) (key : Fingerprint) (now : Nat) (derive : Unit → α) : α × Bool × Cache α :=
  match c.find? key with
  | some e =>
    if c.isExpired now e then (c.remove key).derived key now (derive ())
    else
      (e.value, false,
        { c.touch key with entries := Table.set c.entries key { e with lastAccess := now } })
  | none => c.derived key now (derive ())

/-- Drops every version of a document. -/
def removeDocument (c : Cache α) (uri : Uri) : Cache α :=
  { c with
    entries := c.entries.filter fun e => !decide (e.1.uri = uri)
    order := c.order.filter fun key => !decide (key.uri = uri) }

/-- Drops everything. -/
def clear (c : Cache α) : Cache α := { c with entries := [], order := [] }

/-! ## 3. What is shown -/

/-- Number of kept values. -/
def size (c : Cache α) : Nat := c.entries.length

/-- Nanoseconds of a second. -/
def second : Nat := 1000000000

/-- A time as text: whole seconds, and nothing at all in nanoseconds. -/
def renderTime (nanoseconds : Nat) : String :=
  if nanoseconds == 0 then "0ns" else s!"{nanoseconds / second}s"

/-- A line about the cache. -/
def describe (c : Cache α) : String :=
  s!"DerivedCache \x7b max_entries: {c.capacity}, ttl: {renderTime c.timeToLive}, len: {c.size} \x7d"

end Cache

end ComponentHost
