import SelfNamed.Json.Fault
import SelfNamed.Text.Digit

/-!
# The smallest pieces of a JSON text

Blanks, words and escapes are the same whether a value is read or passed over. A scanner takes its
piece off the front of the text and gives what follows, or the fault.
-/

namespace SelfNamed.Json.Token

/-- A character that may stand between values. -/
def isBlank (c : Char) : Bool := c == ' ' || c == '\t' || c == '\n' || c == '\r'

/-- The text without the blanks in front. -/
def skipBlank (text : List Char) : List Char := text.dropWhile isBlank

/-- The rest of a text after a word. -/
def scanWord : List Char → List Char → Except Fault (List Char)
  | [], text => .ok text
  | _ :: _, [] => .error ⟨.endInValue, [], 0⟩
  | w :: word, c :: text => if w = c then scanWord word text else .error ⟨.noWord, c :: text, 1⟩

/-- The character of an escape other than a numeric one. -/
def simpleEscape? : Char → Option Char
  | '"' => some '"'
  | '\\' => some '\\'
  | '/' => some '/'
  | 'b' => some '\x08'
  | 'f' => some '\x0c'
  | 'n' => some '\n'
  | 'r' => some '\r'
  | 't' => some '\t'
  | _ => none

/-- The fault of a numeric escape whose four digits are not there. -/
def hexFault (text : List Char) : Fault :=
  if Text.byteLength text < 4 then ⟨.endInText, [], 0⟩ else ⟨.badEscape, text, 4⟩

end SelfNamed.Json.Token
