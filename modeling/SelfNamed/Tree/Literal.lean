import SelfNamed.Json.Basic
import SelfNamed.Quote

/-!
# String literals of a syntax tree

A literal has a value and may record the source text that spelled it. Setting a new value spells it
anew in the recorded style; the style is not kept on its own but read off the first character of the
recorded text, and single quotes stand in where that character is no quote.
-/

namespace SelfNamed

/-- What the source said, where the tree records it. -/
structure LiteralExtra where
  /-- The source text, delimiters included. -/
  raw : String
  /-- The value of the source text. -/
  rawValue : String
  /-- All other fields. -/
  rest : Json.Fields
  deriving Repr

/-- A string literal. -/
structure StringLiteral where
  /-- The value, escapes resolved. -/
  value : String
  /-- The record of the source. -/
  extra : Option LiteralExtra
  /-- All other fields. -/
  rest : Json.Fields
  deriving Repr

namespace StringLiteral

/-- A literal without a record of the source. -/
def bare (value : String) : StringLiteral := ⟨value, none, []⟩

/-- A literal that is written in the given style. -/
def quoted (value : String) (quote : QuoteStyle) : StringLiteral :=
  ⟨value, some ⟨quote.literal value, value, []⟩, []⟩

/-- The style that the first character of a source text shows. -/
def styleOf : List Char → Option QuoteStyle
  | '\'' :: _ => some .single
  | '"' :: _ => some .double
  | _ => none

/-- The style that the literal records. -/
def quote? (literal : StringLiteral) : Option QuoteStyle :=
  literal.extra.bind fun extra => styleOf extra.raw.toList

/-- The literal with a new value, spelled in the recorded style. -/
def setValue (literal : StringLiteral) (value : String) : StringLiteral :=
  let quote := literal.quote?.getD .single
  { literal with
    value
    extra := literal.extra.map fun extra =>
      { extra with raw := quote.literal value, rawValue := value } }

/-- The value that is set is the value. -/
@[simp] theorem value_setValue (literal : StringLiteral) (value : String) :
    (literal.setValue value).value = value := rfl

/-- Setting a value does nothing to the other fields. -/
@[simp] theorem rest_setValue (literal : StringLiteral) (value : String) :
    (literal.setValue value).rest = literal.rest := rfl

/-- A literal that does not record its source does not record it later. -/
theorem extra_setValue_of_none {literal : StringLiteral} (h : literal.extra = none)
    (value : String) : (literal.setValue value).extra = none := by
  rw [setValue, h]
  rfl

end StringLiteral

end SelfNamed
