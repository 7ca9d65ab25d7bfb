/- # Quoted text

A text between double quotes: quotes and backslashes are escaped, four controls have a letter,
and every other character without a mark of its own is written by its code point in braces.
-/
import ComponentHost.Text.Unprintable

namespace ComponentHost.Text

/-- The digits of a number in base sixteen, lower case. -/
def hexDigits (n : Nat) : List Char := Nat.toDigits 16 n

/-- One character as it stands between the quotes. -/
def quotedChar (c : Char) : List Char :=
  match c with
  | '"' => ['\\', '"']
  | '\\' => ['\\', '\\']
  | '\t' => ['\\', 't']
  | '\n' => ['\\', 'n']
  | '\r' => ['\\', 'r']
  | _ =>
    if c.toNat == 0 then ['\\', '0']
    else if isUnprintable c then ['\\', 'u', '{'] ++ hexDigits c.toNat ++ ['}']
    else [c]

/-- The text in quotes. -/
def quoted (s : String) : String :=
  String.ofList ('"' :: s.toList.flatMap quotedChar ++ ['"'])

end ComponentHost.Text
