import SelfNamed.Json.Basic

/-!
# JSON text of a value

Members are written in the order in which the value holds them. The compact form has no blanks; the
other form puts every item and member on a line of its own, two blanks deeper than its container.
Each writer puts its text in front of the text that follows, so the length of a text is linear work.
-/

namespace SelfNamed.Json

/-- A hexadecimal digit in lower case. -/
def hexChar (n : Nat) : Char := Nat.digitChar n

/-- A character inside a written text: the quotation mark, the backslash and the controls are
escaped. -/
def escapeChar (c : Char) : List Char :=
  if c = '"' then ['\\', '"']
  else if c = '\\' then ['\\', '\\']
  else if c = '\x08' then ['\\', 'b']
  else if c = '\t' then ['\\', 't']
  else if c = '\n' then ['\\', 'n']
  else if c = '\x0c' then ['\\', 'f']
  else if c = '\r' then ['\\', 'r']
  else if c.toNat < 32 then
    ['\\', 'u', '0', '0', hexChar (c.toNat / 16), hexChar (c.toNat % 16)]
  else [c]

/-- The characters of a text, escaped, in front of what follows. -/
def writeChars : List Char → List Char → List Char
  | [], tail => tail
  | c :: rest, tail => escapeChar c ++ writeChars rest tail

/-- A text between quotation marks. -/
def writeText (s : String) (tail : List Char) : List Char :=
  '"' :: writeChars s.toList ('"' :: tail)

/-- Powers of ten that are written positionally. -/
def isPlainPlace (place : Int) : Bool := decide (-5 ≤ place) && decide (place ≤ 15)

/-- A floating-point number: the shortest digits that read back, in place where the power of ten is
small and with an exponent elsewhere. -/
def realText (x : Binary64) : List Char :=
  let decimal := x.shortest .even
  let body := if isPlainPlace decimal.place then decimal.positional else decimal.scientific
  if x.isNegative then '-' :: body else body

/-- A number. -/
def Number.text : Number → List Char
  | .natural n => Nat.toDigits 10 n.toNat
  | .negative magnitude => '-' :: Nat.toDigits 10 magnitude.toNat
  | .real x => realText x

/-- The name of a truth value. -/
def boolText (b : Bool) : List Char := if b then "true".toList else "false".toList

mutual

/-- The compact text of a value in front of what follows. -/
def write : Json → List Char → List Char
  | .null, tail => "null".toList ++ tail
  | .bool b, tail => boolText b ++ tail
  | .num n, tail => n.text ++ tail
  | .str s, tail => writeText s tail
  | .arr items, tail => '[' :: writeItems items true (']' :: tail)
  | .obj members, tail => '\x7b' :: writeMembers members true ('\x7d' :: tail)

/-- Items with commas between them. -/
def writeItems : List Json → Bool → List Char → List Char
  | [], _, tail => tail
  | item :: rest, true, tail => write item (writeItems rest false tail)
  | item :: rest, false, tail => ',' :: write item (writeItems rest false tail)

/-- Members with commas between them. -/
def writeMembers : List (String × Json) → Bool → List Char → List Char
  | [], _, tail => tail
  | (name, value) :: rest, true, tail =>
    writeText name (':' :: write value (writeMembers rest false tail))
  | (name, value) :: rest, false, tail =>
    ',' :: writeText name (':' :: write value (writeMembers rest false tail))

end

/-- A line break and the blanks of a depth. -/
def lineBreak (depth : Nat) (tail : List Char) : List Char :=
  '\n' :: (List.replicate (2 * depth) ' ' ++ tail)

mutual

/-- The text of a value over several lines, in front of what follows; the value stands at a depth.
-/
def writeLines : Json → Nat → List Char → List Char
  | .null, _, tail => "null".toList ++ tail
  | .bool b, _, tail => boolText b ++ tail
  | .num n, _, tail => n.text ++ tail
  | .str s, _, tail => writeText s tail
  | .arr [], _, tail => '[' :: ']' :: tail
  | .arr (item :: rest), depth, tail =>
    '[' :: lineBreak (depth + 1) (writeLines item (depth + 1)
      (writeItemLines rest (depth + 1) (lineBreak depth (']' :: tail))))
  | .obj [], _, tail => '\x7b' :: '\x7d' :: tail
  | .obj ((name, value) :: rest), depth, tail =>
    '\x7b' :: lineBreak (depth + 1) (writeText name (':' :: ' ' :: writeLines value (depth + 1)
      (writeMemberLines rest (depth + 1) (lineBreak depth ('\x7d' :: tail)))))

/-- Further items, each on its line. -/
def writeItemLines : List Json → Nat → List Char → List Char
  | [], _, tail => tail
  | item :: rest, depth, tail =>
    ',' :: lineBreak depth (writeLines item depth (writeItemLines rest depth tail))

/-- Further members, each on its line. -/
def writeMemberLines : List (String × Json) → Nat → List Char → List Char
  | [], _, tail => tail
  | (name, value) :: rest, depth, tail =>
    ',' :: lineBreak depth (writeText name (':' :: ' ' :: writeLines value depth
      (writeMemberLines rest depth tail)))

end

/-- The compact text of a value. -/
def compact (j : Json) : String := String.ofList (j.write [])

/-- The text of a value over several lines. -/
def pretty (j : Json) : String := String.ofList (j.writeLines 0 [])

end SelfNamed.Json
