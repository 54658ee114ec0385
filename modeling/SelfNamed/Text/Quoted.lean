import SelfNamed.Text.Hidden

/-!
# Characters and texts quoted in messages

A message shows a character between single quotes and a text between double quotes. The quotation in
use, the backslash and the four named controls are escaped by a backslash, hidden characters are
spelled by number, and all else stands as it is.
-/

namespace SelfNamed.Text

/-- The lower-case hexadecimal digits of a number, without leading zeros. -/
def hexDigits (n : Nat) : List Char := Nat.toDigits 16 n

/-- One character inside a quotation whose delimiter is `quote`. -/
def quoteChar (quote c : Char) : List Char :=
  if c = '\x00' then ['\\', '0']
  else if c = '\t' then ['\\', 't']
  else if c = '\r' then ['\\', 'r']
  else if c = '\n' then ['\\', 'n']
  else if c = quote ∨ c = '\\' then ['\\', c]
  else if isHidden c then "\\u\x7b".toList ++ hexDigits c.toNat ++ ['}']
  else [c]

/-- A character as a message shows it. -/
def quotedChar (c : Char) : String := String.ofList ('\'' :: quoteChar '\'' c ++ ['\''])

/-- A text as a message shows it. -/
def quotedText (s : String) : String :=
  String.ofList ('"' :: s.toList.flatMap (quoteChar '"') ++ ['"'])

end SelfNamed.Text
