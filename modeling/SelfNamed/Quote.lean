import SelfNamed.Alphabet
import SelfNamed.Text.Digit

/-!
# Quote styles and literal source text

A string value is written into a module between single quotes, double quotes or backticks. A style
allows a symbol when the symbol can stand between its delimiters as it is. Writing a literal escapes
exactly the symbols that the style does not allow, and reading the escapes back gives the value.
-/

namespace SelfNamed

/-- The delimiter that a literal stands between. -/
inductive QuoteStyle where
  /-- An apostrophe on each side. -/
  | single
  /-- A double quote on each side. -/
  | double
  /-- A backtick on each side, so that a dollar sign may open a hole. -/
  | backtick
  deriving DecidableEq, Repr

namespace QuoteStyle

/-- All styles in their usual order. -/
def all : List QuoteStyle := [.single, .double, .backtick]

/-- The delimiter. -/
def delimiter : QuoteStyle → Char
  | .single => '\''
  | .double => '"'
  | .backtick => '\x60'

/-- The name that settings use. -/
def name : QuoteStyle → String
  | .single => "single"
  | .double => "double"
  | .backtick => "backtick"

/-- The style of a name. -/
def ofName? (name : String) : Option QuoteStyle := all.find? (·.name == name)

/-- Whether a symbol can stand in a literal of the style unescaped: neither the delimiter nor the
backslash nor a line terminator, nor a dollar sign between backticks. -/
def allows (quote : QuoteStyle) (c : Char) : Bool :=
  !(c == quote.delimiter || c == '\\' || c == '\n' || c == '\r' || c == '\u2028' || c == '\u2029' ||
    (quote == .backtick && c == '$'))

/-- A symbol as it is written in a literal of the style. -/
def escape (quote : QuoteStyle) (c : Char) : List Char :=
  if c = '\\' then ['\\', '\\']
  else if c = '\n' then ['\\', 'n']
  else if c = '\r' then ['\\', 'r']
  else if c = '\u2028' then ['\\', 'u', '2', '0', '2', '8']
  else if c = '\u2029' then ['\\', 'u', '2', '0', '2', '9']
  else if c = '$' ∧ quote = .backtick then ['\\', '$']
  else if c = quote.delimiter then ['\\', c]
  else [c]

/-- The symbols between the delimiters of a literal. -/
def escapeAll (quote : QuoteStyle) (value : List Char) : List Char := value.flatMap quote.escape

/-- The source text of a literal with the given value. -/
def literal (quote : QuoteStyle) (value : String) : String :=
  String.ofList (quote.delimiter :: quote.escapeAll value.toList ++ [quote.delimiter])

/-- The value that the symbols between the delimiters spell: none when a delimiter, a line
terminator or a hole stands bare, or when a backslash is followed by a symbol without a meaning
there. -/
def unescape? (quote : QuoteStyle) : List Char → Option (List Char)
  | [] => some []
  | '\\' :: 'n' :: rest => (quote.unescape? rest).map ('\n' :: ·)
  | '\\' :: 'r' :: rest => (quote.unescape? rest).map ('\r' :: ·)
  | '\\' :: 'u' :: c₁ :: c₂ :: c₃ :: c₄ :: rest =>
    match Text.hexFour? c₁ c₂ c₃ c₄ with
    | some n => (quote.unescape? rest).map (Char.ofNat n :: ·)
    | none => none
  | '\\' :: c :: rest =>
    if c = '\\' ∨ c = quote.delimiter ∨ c = '$' then (quote.unescape? rest).map (c :: ·) else none
  | c :: rest => if quote.allows c then (quote.unescape? rest).map (c :: ·) else none

/-- A symbol is written as it is exactly when the style allows it. -/
theorem escape_eq_self_iff (quote : QuoteStyle) (c : Char) :
    quote.escape c = [c] ↔ quote.allows c = true := by
  unfold escape allows
  split
  · next h => subst h; simp
  split
  · next h => subst h; simp
  split
  · next h => subst h; simp
  split
  · next h => subst h; simp
  split
  · next h => subst h; simp
  split
  · next h => simp [h.1, h.2]
  split
  · next h => simp [← h]
  · by_cases hd : c = '$' <;> simp_all

end QuoteStyle

end SelfNamed
