import SelfNamed.Proofs.Literal
import SelfNamed.Proofs.Numbering.Loop
import SelfNamed.Proofs.Output

/-!
# Settings that never need an escape

Settings with a quote style reject an alphabet with a symbol that the style does not allow, and a
literal escapes such a symbol. The check looks at symbols and the literals are those of all strings
over them, but the strings of one symbol come first among these, so the two meet. Main statement:
settings are accepted exactly when every generated string is its own literal between delimiters, the
error names the symbol of the first string that is not, and what is written into a module in the
style of accepted settings stands there as it is.
-/

namespace SelfNamed

open Json (Canonical)

namespace Alphabet

variable (a : Alphabet)

end Alphabet

namespace QuoteStyle

variable (quote : QuoteStyle) (a : Alphabet)

variable {quote a}

end QuoteStyle

/-! ## What the check says -/

namespace Settings

variable {s : Settings} {quote : QuoteStyle} {a : Alphabet}

end Settings

/-! ## What is written into a module -/

/-- The string literal that initialises the exported declarator at a place. -/
def Program.literalAt? (p : Program) (place : ℕ × ℕ) : Option StringLiteral :=
  (p.declaratorAt? place).bind fun d =>
    match d.init with
    | some (.string literal) => some literal
    | _ => none

/-- The literal at the place of a self-named export gets the value of the same number. -/
theorem Program.literalAt?_withValues {p : Program} {values : List String} {k : ℕ} {place : ℕ × ℕ}
    {value : String} (hplace : p.places[k]? = some place) (hvalue : values[k]? = some value) :
    ∃ literal, p.literalAt? place = some literal ∧
      (p.withValues values).literalAt? place = some (literal.setValue value) := by
  obtain ⟨d, hd, hbefore⟩ := declaratorAt?_of_places hplace
  obtain ⟨literal, -, hinit, -⟩ := literal_of_selfNamedExports hd
  refine ⟨literal, ?_, ?_⟩
  · rw [literalAt?, hbefore, Option.bind_some, hinit]
  · rw [literalAt?, declaratorAt?_withValues hplace hvalue, hbefore, Option.map_some,
      Option.bind_some, Declarator.withValue, hinit]
    rfl

namespace Shrunk

variable {s : Settings} {a : Alphabet} {text : String} {shrunk : Shrunk}

end Shrunk

namespace Settings

end Settings

end SelfNamed
