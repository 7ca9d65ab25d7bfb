/- # Structured values

The values of a data file: objects are kept in the order of their keys, each key once, so two
texts that differ in the order of members have the same value.
-/
import ComponentHost.Json.Double
import ComponentHost.Table

namespace ComponentHost

/-- A structured value. -/
inductive Json where
  | null
  | bool (b : Bool)
  /-- An integer of 64 bits, signed or unsigned. -/
  | int (n : Int)
  /-- Any other number. -/
  | float (x : Double)
  | string (s : String)
  | array (items : List Json)
  | object (members : List (String × Json))
deriving Repr, Inhabited

namespace Json

/-- An object of the given members. -/
def ofMembers (members : List (String × Json)) : Json := .object (Table.sorted members)

/-- The member of an object. -/
def get? (key : String) : Json → Option Json
  | .object members => members.lookup key
  | _ => none

/-- The text of a string. -/
def text? : Json → Option String
  | .string s => some s
  | _ => none

/-- The items of an array. -/
def items? : Json → Option (List Json)
  | .array items => some items
  | _ => none

/-- The members of an object. -/
def members? : Json → Option (List (String × Json))
  | .object members => some members
  | _ => none

/-- The truth value. -/
def bool? : Json → Option Bool
  | .bool b => some b
  | _ => none

/-- The integer. -/
def int? : Json → Option Int
  | .int n => some n
  | _ => none

/-- Is the value null? -/
def isNull : Json → Bool
  | .null => true
  | _ => false

/-! ## Writing -/

/-- Four hexadecimal digits. -/
def fourDigits (n : Nat) : List Char :=
  let ds := Nat.toDigits 16 n
  List.replicate (4 - ds.length) '0' ++ ds

/-- A character between the quotes of a string. -/
def escapedChar (c : Char) : List Char :=
  if c == '"' then ['\\', '"']
  else if c == '\\' then ['\\', '\\']
  else if c.toNat < 0x20 || c.toNat == 0x7F then '\\' :: 'u' :: fourDigits c.toNat
  else [c]

/-- A string in quotes. -/
def renderString (s : String) : String :=
  "\"" ++ String.ofList (s.toList.flatMap escapedChar) ++ "\""

mutual

/-- The text of a value, without blanks. -/
def render : Json → String
  | .null => "null"
  | .bool b => if b then "true" else "false"
  | .int n => toString n
  | .float x => x.render
  | .string s => renderString s
  | .array items => "[" ++ renderItems items ++ "]"
  | .object members => "\x7b" ++ renderMembers members ++ "\x7d"

/-- Items with commas between them. -/
def renderItems : List Json → String
  | [] => ""
  | [v] => v.render
  | v :: r => v.render ++ "," ++ renderItems r

/-- Members with commas between them. -/
def renderMembers : List (String × Json) → String
  | [] => ""
  | [(k, v)] => renderString k ++ ":" ++ v.render
  | (k, v) :: r => renderString k ++ ":" ++ v.render ++ "," ++ renderMembers r

end

end Json

end ComponentHost
