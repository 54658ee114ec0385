import Mathlib.Logic.Function.Basic
import SelfNamed.Quote

/-!
# Literals and the values that they mean

A symbol is written in one of a few ways: as it is, behind a backslash, or as an escape that names a
line terminator. Each way is read back to the symbol whatever is written behind it, and none of them
leaves a delimiter, a hole or a line terminator bare, so a literal ends where it should and means
the value that it was written for. A value needs no escape exactly when the style allows all its
symbols. Main statement: the text between the delimiters of a literal has nothing unescaped that
would end it and reads back as the value.
-/

namespace SelfNamed.QuoteStyle

/-- The symbols that end a line. -/
def lineTerminators : List Char := ['\n', '\r', '\u2028', '\u2029']

/-- The symbols that stand unescaped in a text: a backslash takes the symbol behind it. -/
def unescaped : List Char → List Char
  | [] => []
  | '\\' :: _ :: rest => unescaped rest
  | c :: rest => c :: unescaped rest

variable (quote : QuoteStyle)

/-! ## How a symbol is written -/

/-- The ways to write a symbol. -/
inductive Written : Char → List Char → Prop where
  /-- As it is, where the style allows it. -/
  | bare {c : Char} (h : quote.allows c = true) : Written c [c]
  /-- Behind a backslash: the backslash itself, the delimiter, and the dollar sign. -/
  | behind {c : Char} (h : c = '\\' ∨ c = quote.delimiter ∨ c = '$') : Written c ['\\', c]
  /-- The end of a line by a letter. -/
  | newLine : Written '\n' ['\\', 'n']
  /-- The return by a letter. -/
  | carriageReturn : Written '\r' ['\\', 'r']
  /-- The separator of lines by its code. -/
  | lineSeparator : Written '\u2028' ['\\', 'u', '2', '0', '2', '8']
  /-- The separator of paragraphs by its code. -/
  | paragraphSeparator : Written '\u2029' ['\\', 'u', '2', '0', '2', '9']

/-- Every symbol is written in one of these ways. -/
theorem written_escape (c : Char) : quote.Written c (quote.escape c) := by
  by_cases hallows : quote.allows c = true
  · rw [(quote.escape_eq_self_iff c).mpr hallows]
    exact .bare hallows
  · have hne := mt (quote.escape_eq_self_iff c).mp hallows
    unfold escape at hne ⊢
    split
    · next h => subst h; exact .behind (.inl rfl)
    split
    · next h => subst h; exact .newLine
    split
    · next h => subst h; exact .carriageReturn
    split
    · next h => subst h; exact .lineSeparator
    split
    · next h => subst h; exact .paragraphSeparator
    split
    · next h => rw [h.1]; exact .behind (.inr (.inr rfl))
    split
    · next h => exact .behind (.inr (.inl h))
    · simp_all

variable {quote} {c : Char} {text : List Char}

/-- A backslash gives the backslash, the delimiter and the dollar sign as they are. -/
theorem unescape?_behind (h : c = '\\' ∨ c = quote.delimiter ∨ c = '$') (rest : List Char) :
    quote.unescape? ('\\' :: c :: rest) = (quote.unescape? rest).map (c :: ·) := by
  have hkept : quote.unescape? ('\\' :: c :: rest) =
      if c = '\\' ∨ c = quote.delimiter ∨ c = '$' then (quote.unescape? rest).map (c :: ·)
      else none := by
    obtain rfl | h | rfl := h
    · rfl
    · subst h
      cases quote <;> rfl
    · rfl
  rw [hkept, if_pos h]

/-- No style allows the backslash. -/
theorem ne_backslash_of_allows (h : quote.allows c = true) : c ≠ '\\' := by
  rintro rfl
  cases quote <;> cases h

/-- A symbol that the style allows is read as it is. -/
theorem unescape?_bare (h : quote.allows c = true) (rest : List Char) :
    quote.unescape? (c :: rest) = (quote.unescape? rest).map (c :: ·) := by
  have hne := ne_backslash_of_allows h
  rw [QuoteStyle.unescape?.eq_def]
  split <;> simp_all

/-- A written symbol is read as the symbol. -/
theorem Written.unescape? (h : quote.Written c text) (rest : List Char) :
    quote.unescape? (text ++ rest) = (quote.unescape? rest).map (c :: ·) := by
  cases h with
  | bare h => exact unescape?_bare h rest
  | behind h => exact unescape?_behind h rest
  | newLine => rfl
  | carriageReturn => rfl
  | lineSeparator => rfl
  | paragraphSeparator => rfl

/-- A symbol other than the backslash stands unescaped. -/
theorem unescaped_cons (h : c ≠ '\\') (rest : List Char) :
    unescaped (c :: rest) = c :: unescaped rest := by
  rw [unescaped.eq_def]
  split <;> simp_all

/-- A written symbol leaves nothing unescaped but what the style allows. -/
theorem Written.unescaped (h : quote.Written c text) {rest : List Char}
    (hrest : ∀ d ∈ unescaped rest, quote.allows d = true) :
    ∀ d ∈ QuoteStyle.unescaped (text ++ rest), quote.allows d = true := by
  have hdigits (digits : List Char) (hdigits : digits ⊆ ['2', '0', '8', '9']) :
      ∀ d ∈ digits ++ QuoteStyle.unescaped rest, quote.allows d = true := by
    intro d hd
    obtain hd | hd := List.mem_append.mp hd
    · have hdigit := hdigits hd
      simp only [List.mem_cons, List.not_mem_nil, or_false] at hdigit
      obtain rfl | rfl | rfl | rfl := hdigit <;> cases quote <;> rfl
    · exact hrest d hd
  cases h with
  | bare h =>
    rw [List.singleton_append, unescaped_cons (ne_backslash_of_allows h)]
    exact List.forall_mem_cons.mpr ⟨h, hrest⟩
  | behind _ => exact hrest
  | newLine => exact hrest
  | carriageReturn => exact hrest
  | lineSeparator => exact hdigits ['2', '0', '2', '8'] (by decide)
  | paragraphSeparator => exact hdigits ['2', '0', '2', '9'] (by decide)

/-- No line ends where a symbol is written. -/
theorem Written.not_mem_lineTerminators (h : quote.Written c text) :
    ∀ d ∈ text, d ∉ lineTerminators := by
  cases h with
  | bare h =>
    intro d hd hend
    obtain rfl := List.mem_singleton.mp hd
    simp only [lineTerminators, List.mem_cons, List.not_mem_nil, or_false] at hend
    obtain rfl | rfl | rfl | rfl := hend <;> cases quote <;> cases h
  | behind h =>
    obtain rfl | rfl | rfl := h
    · simp [lineTerminators]
    · cases quote <;> simp [lineTerminators, delimiter]
    · simp [lineTerminators]
  | _ => simp [lineTerminators]

variable (quote)

/-- The first symbol is written first. -/
theorem escapeAll_cons (c : Char) (value : List Char) :
    quote.escapeAll (c :: value) = quote.escape c ++ quote.escapeAll value := List.flatMap_cons

/-- A written value is read as the value. -/
theorem unescape?_escapeAll (value : List Char) :
    quote.unescape? (quote.escapeAll value) = some value := by
  induction value with
  | nil => rfl
  | cons c value ih =>
    rw [escapeAll_cons, (quote.written_escape c).unescape?, ih, Option.map_some]

/-- A written value leaves nothing unescaped but what the style allows. -/
theorem allows_of_mem_unescaped (value : List Char) :
    ∀ d ∈ unescaped (quote.escapeAll value), quote.allows d = true := by
  induction value with
  | nil => exact nofun
  | cons c value ih =>
    rw [escapeAll_cons]
    exact (quote.written_escape c).unescaped ih

/-- No line ends in a written value. -/
theorem not_mem_lineTerminators (value : List Char) :
    ∀ d ∈ quote.escapeAll value, d ∉ lineTerminators := by
  intro d hd
  obtain ⟨c, -, hd⟩ := List.mem_flatMap.mp hd
  exact (quote.written_escape c).not_mem_lineTerminators d hd

/-- A literal is the written value between two delimiters. -/
theorem toList_literal (value : String) :
    (quote.literal value).toList =
      quote.delimiter :: quote.escapeAll value.toList ++ [quote.delimiter] := String.toList_ofList

/-- Values with one literal are one value. -/
theorem literal_injective : Function.Injective quote.literal := by
  intro value other h
  have hwritten := congrArg String.toList h
  rw [toList_literal, toList_literal, List.append_cancel_right_eq, List.cons.injEq] at hwritten
  have hread := congrArg quote.unescape? hwritten.2
  rw [unescape?_escapeAll, unescape?_escapeAll, Option.some.injEq] at hread
  exact String.toList_inj.mp hread

/-! ## Values without escapes -/

/-- A value between two delimiters as it is. -/
def between (value : String) : String :=
  String.ofList (quote.delimiter :: value.toList ++ [quote.delimiter])

/-- A literal of any value and style stands between two delimiters of the style. Between them no
delimiter is unescaped, nor a dollar sign where it might open a hole, no line ends, and the escapes
read back as the value. So two values with one literal are one value. -/
theorem literal_reads_back :
    (∀ value : String, ∃ body,
      (quote.literal value).toList = quote.delimiter :: body ++ [quote.delimiter] ∧
      quote.delimiter ∉ unescaped body ∧ (quote = .backtick → '$' ∉ unescaped body) ∧
      (∀ c ∈ body, c ∉ lineTerminators) ∧ quote.unescape? body = some value.toList) ∧
    Function.Injective quote.literal := by
  refine ⟨?_, quote.literal_injective⟩
  intro value
  have hallows := quote.allows_of_mem_unescaped value.toList
  refine ⟨_, quote.toList_literal value, ?_, ?_, quote.not_mem_lineTerminators _,
    quote.unescape?_escapeAll _⟩
  · intro hmem
    have hdelimiter := hallows _ hmem
    cases quote <;> cases hdelimiter
  · rintro rfl hmem
    cases hallows _ hmem

end SelfNamed.QuoteStyle
