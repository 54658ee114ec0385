import SelfNamed.Text.Bytes

/-!
# Where and why a JSON text cannot be read on

A fault holds its cause and what was left of the text when it was seen, so a reader needs no
counters. Line and column are computed from the whole text: lines count from one, and the column is
the number of bytes since the last line break up to the place of the fault.
-/

namespace SelfNamed.Json

/-- What is wrong with a text. -/
inductive Flaw where
  /-- The text ends where a value, or the rest of one, must stand. -/
  | endInValue
  /-- The text ends inside an array. -/
  | endInList
  /-- The text ends inside an object. -/
  | endInObject
  /-- The text ends inside a text value. -/
  | endInText
  /-- No value begins with this character. -/
  | noValue
  /-- A comma before the closing bracket. -/
  | trailingComma
  /-- After an item stands neither a comma nor the closing bracket. -/
  | noListEnd
  /-- After a member stands neither a comma nor the closing brace. -/
  | noObjectEnd
  /-- After a name stands no colon. -/
  | noColon
  /-- A member begins with something other than a text. -/
  | noName
  /-- Something stands after the value. -/
  | trailingText
  /-- A word other than the three named values. -/
  | noWord
  /-- Digits are missing, or a zero leads. -/
  | badNumber
  /-- The number is too great. -/
  | hugeNumber
  /-- A backslash before something that is no escape. -/
  | badEscape
  /-- A surrogate without its partner. -/
  | loneSurrogate
  /-- A leading surrogate that no second escape follows. -/
  | openSurrogate
  /-- A bare control character in a text value. -/
  | control
  /-- Too many levels of brackets. -/
  | tooDeep
  deriving DecidableEq, Repr

/-- The wording of a flaw. -/
def Flaw.message : Flaw → String
  | .endInValue => "EOF while parsing a value"
  | .endInList => "EOF while parsing a list"
  | .endInObject => "EOF while parsing an object"
  | .endInText => "EOF while parsing a string"
  | .noValue => "expected value"
  | .trailingComma => "trailing comma"
  | .noListEnd => "expected \x60,\x60 or \x60]\x60"
  | .noObjectEnd => "expected \x60,\x60 or \x60\x7d\x60"
  | .noColon => "expected \x60:\x60"
  | .noName => "key must be a string"
  | .trailingText => "trailing characters"
  | .noWord => "expected ident"
  | .badNumber => "invalid number"
  | .hugeNumber => "number out of range"
  | .badEscape => "invalid escape"
  | .loneSurrogate => "lone leading surrogate in hex escape"
  | .openSurrogate => "unexpected end of hex escape"
  | .control => "control character (\\u0000-\\u001F) found while parsing a string"
  | .tooDeep => "recursion limit exceeded"

/-- A flaw at its place. -/
structure Fault where
  /-- What is wrong. -/
  flaw : Flaw
  /-- What of the text is not yet read. -/
  rest : List Char
  /-- How many bytes of the rest have been looked at. -/
  ahead : Nat
  deriving DecidableEq, Repr

/-- The line and the column after the given number of bytes, from a line and a column before. -/
def advance : List Char → Nat → Nat × Nat → Nat × Nat
  | [], _, place => place
  | c :: rest, bytes, (line, column) =>
    if bytes = 0 then (line, column)
    else if c = '\n' then advance rest (bytes - 1) (line + 1, 0)
    else advance rest (bytes - c.utf8Size) (line, column + min bytes c.utf8Size)

/-- The line and the column of a fault in its text. -/
def Fault.position (fault : Fault) (text : List Char) : Nat × Nat :=
  let left := Text.byteLength fault.rest
  advance text (Text.byteLength text - left + min fault.ahead left) (1, 0)

/-- The wording of a fault, with its place. -/
def Fault.message (fault : Fault) (text : List Char) : String :=
  let (line, column) := fault.position text
  fault.flaw.message ++ " at line " ++ toString line ++ " column " ++ toString column

end SelfNamed.Json
