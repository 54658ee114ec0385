import SelfNamed.Proofs.Literal
import SelfNamed.Tree.Literal

/-!
# String literals with new values

A literal does not keep its style on its own: each new value overwrites the text that the style is
read off. What is written begins with the delimiter of the style that was read, so the next value
finds the same style, and setting several values is setting the last of them. Main statement: a
literal in which values were set has the last of them as its value, as its recorded value and as the
meaning of its text, which is in the first style; all else in it is as it was.
-/

namespace SelfNamed

/-- The style of a source text: double quotes where it begins with one, and else single quotes. -/
def LiteralExtra.style (extra : LiteralExtra) : QuoteStyle :=
  if extra.raw.toList.head? = some '"' then .double else .single

namespace StringLiteral

/-- The value that a source text means: the last character is the delimiter that the first shows,
and the escapes between them are read. -/
def meaning? (raw : String) : Option String := do
  let quote ← styleOf raw.toList
  let body := raw.toList.tail
  if body.getLast? = some quote.delimiter then
    (quote.unescape? body.dropLast).map String.ofList
  else none

/-- What is to be found in a literal after values were set in it, one of them last. -/
structure Coherent (original : StringLiteral) (last : String) (literal : StringLiteral) : Prop where
  /-- The value is the last. -/
  value : literal.value = last
  /-- All other fields are those that the literal had. -/
  rest : literal.rest = original.rest
  /-- Without a record of the source there is none later. -/
  unrecorded : original.extra = none → literal.extra = none
  /-- With a record there is one with the last value: the recorded value is the value, the text is
  the literal of it in the style of the first text and means it, the style that is read off is this
  style, and all other fields of the record stay. -/
  recorded : ∀ first, original.extra = some first → ∃ extra, literal.extra = some extra ∧
    extra.rawValue = literal.value ∧ extra.raw = first.style.literal literal.value ∧
    meaning? extra.raw = some literal.value ∧ literal.quote? = some first.style ∧
    extra.rest = first.rest

/-! ## The style of a literal -/

variable {quote : QuoteStyle}

/-- The literal of a value shows its style where it is not between grave accents. -/
theorem styleOf_literal (h : quote ≠ .backtick) (value : String) :
    styleOf (quote.literal value).toList = some quote := by
  rw [quote.toList_literal]
  cases quote with
  | single => rfl
  | double => rfl
  | backtick => exact absurd rfl h

/-- The style of a text is the one that is read off, and single quotes where there is none. -/
theorem style_eq_getD (extra : LiteralExtra) :
    extra.style = (styleOf extra.raw.toList).getD .single := by
  unfold LiteralExtra.style
  cases extra.raw.toList with
  | nil => rfl
  | cons c text =>
    by_cases hdouble : c = '"'
    · rw [hdouble]
      rfl
    · have hhead : (c :: text).head? ≠ some '"' := fun h => hdouble (Option.some.inj h)
      rw [if_neg hhead]
      by_cases hsingle : c = '\''
      · rw [hsingle]
        rfl
      · have hnone : styleOf (c :: text) = none := by
          unfold styleOf
          split
          · next heq => exact absurd (List.cons.inj heq).1 hsingle
          · next heq => exact absurd (List.cons.inj heq).1 hdouble
          · rfl
        rw [hnone]
        rfl

/-- The style of a text is not that of grave accents. -/
theorem style_ne_backtick (extra : LiteralExtra) : extra.style ≠ .backtick := by
  unfold LiteralExtra.style
  split <;> exact nofun

/-- The literal of a value means the value. -/
theorem meaning?_literal (h : quote ≠ .backtick) (value : String) :
    meaning? (quote.literal value) = some value := by
  have hstyle := styleOf_literal h value
  have hbody : (quote.literal value).toList.tail =
      quote.escapeAll value.toList ++ [quote.delimiter] := by
    rw [quote.toList_literal]
    rfl
  have hlast : (quote.escapeAll value.toList ++ [quote.delimiter]).getLast? =
      some quote.delimiter := List.getLast?_concat
  have hinner : (quote.escapeAll value.toList ++ [quote.delimiter]).dropLast =
      quote.escapeAll value.toList := List.dropLast_concat
  have hread := quote.unescape?_escapeAll value.toList
  simp only [meaning?, hstyle, hbody, Option.bind_eq_bind, Option.bind_some]
  rw [if_pos hlast, hinner, hread, Option.map_some, String.ofList_toList]

/-! ## Setting values one after another -/

variable {literal : StringLiteral}

/-- In a literal that records its source the text is renewed in the style that it had, and the
recorded value with it; all other fields of the record stay. -/
theorem extra_setValue_of_some {extra : LiteralExtra} (h : literal.extra = some extra)
    (value : String) :
    (literal.setValue value).extra =
      some ⟨extra.style.literal value, value, extra.rest⟩ := by
  have hquote : literal.quote?.getD .single = extra.style := by
    rw [style_eq_getD, quote?, h, Option.bind_some]
  rw [setValue, hquote, h]
  rfl

/-- A text in some style that was read has this style. -/
theorem style_of_literal (h : quote ≠ .backtick) (value other : String) (rest : Json.Fields) :
    LiteralExtra.style ⟨quote.literal value, other, rest⟩ = quote := by
  rw [style_eq_getD, styleOf_literal h]
  rfl

/-- A second value leaves nothing of the first. -/
theorem setValue_setValue (literal : StringLiteral) (value last : String) :
    (literal.setValue value).setValue last = literal.setValue last := by
  have hextra : ((literal.setValue value).setValue last).extra =
      (literal.setValue last).extra := by
    cases h : literal.extra with
    | none =>
      have hfirst := extra_setValue_of_none h value
      rw [extra_setValue_of_none hfirst, extra_setValue_of_none h]
    | some extra =>
      have hfirst := extra_setValue_of_some h value
      have hstyle := style_of_literal (style_ne_backtick extra) value value extra.rest
      rw [extra_setValue_of_some hfirst, extra_setValue_of_some h, hstyle]
  exact congrArg (fun extra => StringLiteral.mk last extra literal.rest) hextra

/-- Setting several values is setting the last. -/
theorem foldl_setValue (literal : StringLiteral) {values : List String} (h : values ≠ []) :
    values.foldl setValue literal = literal.setValue (values.getLast h) := by
  induction values generalizing literal with
  | nil => exact absurd rfl h
  | cons value values ih =>
    cases values with
    | nil => rfl
    | cons next values =>
      have hne : next :: values ≠ [] := List.cons_ne_nil next values
      rw [List.foldl_cons, ih (literal.setValue value) hne, setValue_setValue,
        List.getLast_cons hne]

/-- A literal is coherent after a value was set in it. -/
theorem coherent_setValue (literal : StringLiteral) (value : String) :
    literal.Coherent value (literal.setValue value) where
  value := value_setValue literal value
  rest := rest_setValue literal value
  unrecorded := by
    intro hextra
    exact extra_setValue_of_none hextra value
  recorded := by
    intro first hextra
    have hne := style_ne_backtick first
    have hrecord := extra_setValue_of_some hextra value
    have hquote : (literal.setValue value).quote? = some first.style := by
      rw [quote?, hrecord, Option.bind_some]
      exact styleOf_literal hne value
    exact ⟨_, hrecord, rfl, rfl, meaning?_literal hne value, hquote, rfl⟩

end StringLiteral

end SelfNamed
