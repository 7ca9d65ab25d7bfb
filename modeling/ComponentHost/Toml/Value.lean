/- # Tables of settings

The values of a settings file, and how its lines build them.  A table remembers how it came to be,
because that decides who may still add to it: a table under a header is closed to dotted keys,
a table made by dotted keys is closed to headers, and a table in braces is closed to both.  A table
that a longer header implied may get a header of its own once.
-/
import ComponentHost.Table

namespace ComponentHost

/-- How a table came to be. -/
inductive TableOrigin where
  /-- It has a header of its own. -/
  | header
  /-- The header of a table inside it implied it. -/
  | implied
  /-- Dotted keys made it. -/
  | dotted
  /-- It is written in braces. -/
  | braces
deriving DecidableEq, Repr

/-- A value of a settings file.  Numbers with a point and moments are told apart from other values,
but no setting needs to know which they are. -/
inductive Toml where
  | string (s : String)
  | integer (n : Int)
  | float
  | bool (b : Bool)
  /-- A date, a time, or both. -/
  | moment
  | array (items : List Toml)
  | table (origin : TableOrigin) (entries : List (String × Toml))
  /-- Tables under repeated headers, last first. -/
  | tables (items : List (List (String × Toml)))
deriving Repr, Inhabited

namespace Toml

/-- The entries of a table. -/
abbrev Entries := List (String × Toml)

/-! ## 1. Adding to tables -/

/-- Changes the table at the end of a path of keys.  A missing table is made on the way; of
repeated tables the last one is meant.  `none` if the way leads through something that is no table,
or a table that is closed. -/
def within (dotted : Bool) (change : TableOrigin → Entries → Option Entries) :
    List String → TableOrigin → Entries → Option Entries
  | [], origin, entries => change origin entries
  | key :: path, _, entries =>
    match Table.get? entries key with
    | none => do
      let origin := if dotted then TableOrigin.dotted else .implied
      let inner ← within dotted change path origin []
      return Table.set entries key (.table origin inner)
    | some (.table origin inner) =>
      if origin = .braces ∨ (dotted ∧ origin = .header) then none
      else do
        let inner ← within dotted change path origin inner
        return Table.set entries key (.table origin inner)
    | some (.tables (last :: earlier)) => do
      let last ← within dotted change path .header last
      return Table.set entries key (.tables (last :: earlier))
    | some _ => none

/-- Adds an entry under a key; `none` if it is there already. -/
def add? (key : String) (value : Toml) (entries : Entries) : Option Entries :=
  if Table.has entries key then none else some (Table.set entries key value)

/-- Adds the entry of a dotted key to a table: the keys before the last lead to a table that dotted
keys made. -/
def addAt? (path : List String) (key : String) (value : Toml) (entries : Entries) :
    Option Entries :=
  within true (fun origin inner =>
    if decide (origin = .dotted) == path.isEmpty then none else add? key value inner) path .header entries

/-! ## 2. Documents -/

/-- A document as far as it is read: the tables before, and the one that lines now go to. -/
structure Draft where
  root : Entries := []
  /-- The header of the current table; none before the first header. -/
  header : Option (List String × String) := none
  /-- The current table is one of several under the same header. -/
  repeated : Bool := false
  current : Entries := []

namespace Draft

/-- One more table under a header that may come several times. -/
def push? (table : Entries) (key : String) (entries : Entries) : Option Entries :=
  match Table.get? entries key with
  | none => some (Table.set entries key (.tables [table]))
  | some (.tables earlier) => some (Table.set entries key (.tables (table :: earlier)))
  | some _ => none

/-- The document with the current table in its place. -/
def finish? (d : Draft) : Option Entries :=
  match d.header with
  | none => some d.current
  | some (path, key) =>
    within false (fun _ entries =>
      if d.repeated then push? d.current key entries
      else some (Table.set entries key (.table .header d.current))) path .header d.root

/-- What stands at the end of a header, and the document with the tables that the header implies;
`none` if the header leads through something that is no table. -/
def open? (root : Entries) (path : List String) (key : String) : Option (Option Toml × Entries) := do
  let marked ← within false (fun _ entries => some entries) path .header root
  let found := follow path marked
  return (found.bind (Table.get? · key), marked)
where
  /-- The table at the end of a path. -/
  follow : List String → Entries → Option Entries
    | [], entries => some entries
    | name :: rest, entries =>
      match Table.get? entries name with
      | some (.table _ inner) => follow rest inner
      | some (.tables (last :: _)) => follow rest last
      | _ => none

/-- Starts the table of a header.  Only a table that other headers implied may be there already;
it keeps its entries. -/
def table? (d : Draft) (path : List String) (key : String) : Option Draft := do
  let (found, root) ← open? (← d.finish?) path key
  match found with
  | none => return ⟨root, some (path, key), false, []⟩
  | some (.table .implied entries) => return ⟨root, some (path, key), false, entries⟩
  | some _ => none

/-- Starts one more table of a header that may come several times. -/
def nextTable? (d : Draft) (path : List String) (key : String) : Option Draft := do
  let (found, root) ← open? (← d.finish?) path key
  match found with
  | none | some (.tables _) => return ⟨root, some (path, key), true, []⟩
  | some _ => none

/-- Adds a line to the current table. -/
def line? (d : Draft) (path : List String) (key : String) (value : Toml) : Option Draft := do
  return { d with current := ← addAt? path key value d.current }

end Draft

/-! ## 3. Looking at values -/

/-- The entries of a record: those of a table, or the items of a list under the names of the
fields in order.  A moment has none of the fields. -/
def fields? (names : List String) : Toml → Option Entries
  | .table _ entries => some entries
  | .array items => some (names.zip items)
  | .tables items => some (names.zip (items.reverse.map (.table .header)))
  | .moment => some []
  | _ => none

/-- The text of a string. -/
def text? : Toml → Option String
  | .string s => some s
  | _ => none

/-- The truth value. -/
def bool? : Toml → Option Bool
  | .bool b => some b
  | _ => none

/-- The integer, if it is not negative. -/
def nat? : Toml → Option Nat
  | .integer n => if n < 0 then none else some n.toNat
  | _ => none

/-- Is it an empty table or list? -/
def isEmpty : Toml → Bool
  | .table _ entries => entries.isEmpty
  | .array items => items.isEmpty
  | .tables items => items.isEmpty
  | _ => false

/-- The name of a choice: a string, or a table whose only key is the name. -/
def choice? : Toml → Option String
  | .string s => some s
  | .table _ [(name, v)] => if v.isEmpty then some name else none
  | _ => none

end Toml

end ComponentHost
