import SelfNamed.Text.Quoted

/-!
# Ordered digit sets

An alphabet is an ordered list of at least two distinct symbols. The index of a symbol is its digit
value, and the order of the symbols is the order of the strings of one length. Distinctness and size
are part of the type, so a numbering over an alphabet never divides by zero and never misses a
digit. Construction reports the earliest repetition before it looks at the size.
-/

namespace SelfNamed

/-- Why a list of symbols is no usable alphabet. -/
inductive AlphabetError where
  /-- Fewer than two symbols, all distinct. -/
  | tooFew (count : Nat)
  /-- A symbol that stands at two indices. -/
  | repeated (symbol : Char) (first second : Nat)
  /-- A symbol that the named quote style would have to escape. -/
  | unfit (symbol : Char) (quote : String)
  deriving DecidableEq, Repr

/-- The wording of an alphabet error. -/
def AlphabetError.message : AlphabetError → String
  | .tooFew count => "alphabet needs at least 2 symbols, got " ++ toString count
  | .repeated symbol first second =>
    "alphabet symbol " ++ Text.quotedChar symbol ++ " appears at index " ++ toString first ++
      " and index " ++ toString second
  | .unfit symbol quote =>
    "alphabet symbol " ++ Text.quotedChar symbol ++ " is not safe inside " ++ quote ++
      " string literals"

/-- An ordered digit set. -/
structure Alphabet where
  /-- The symbols in digit order. -/
  symbols : List Char
  /-- No symbol stands for two digits. -/
  distinct : symbols.Nodup
  /-- There are at least two digits. -/
  two_le : 2 ≤ symbols.length

namespace Alphabet

/-- Alphabets are equal when their symbols are. -/
@[ext] theorem ext {a b : Alphabet} (h : a.symbols = b.symbols) : a = b := by
  cases a; cases b; cases h; rfl

instance : DecidableEq Alphabet := fun a b =>
  if h : a.symbols = b.symbols then isTrue (ext h) else isFalse fun e => h (e ▸ rfl)

/-- The earliest symbol of the second list that occurs before its place, with both indices; the
first list holds what has been passed. -/
def clash? : List Char → List Char → Option (Char × Nat × Nat)
  | _, [] => none
  | passed, c :: rest =>
    if c ∈ passed then some (c, passed.idxOf c, passed.length) else clash? (passed ++ [c]) rest

/-- Symbols without a clash are distinct. -/
theorem nodup_of_clash?_eq_none {passed rest : List Char} (hp : passed.Nodup)
    (h : clash? passed rest = none) : (passed ++ rest).Nodup := by
  induction rest generalizing passed with
  | nil => simpa using hp
  | cons c rest ih =>
    unfold clash? at h
    split at h
    · simp at h
    · next hc =>
      have hp' : (passed ++ [c]).Nodup := by
        rw [List.nodup_append]
        refine ⟨hp, by simp, ?_⟩
        intro a ha b hb hab
        rw [List.mem_singleton] at hb
        subst hb; subst hab
        exact hc ha
      simpa using ih hp' h

/-- Builds an alphabet from its symbols in digit order. -/
def ofList (symbols : List Char) : Except AlphabetError Alphabet :=
  match h : clash? [] symbols with
  | some (symbol, first, second) => .error (.repeated symbol first second)
  | none =>
    if two_le : 2 ≤ symbols.length then
      .ok ⟨symbols, nodup_of_clash?_eq_none List.nodup_nil h, two_le⟩
    else .error (.tooFew symbols.length)

/-- Builds an alphabet from a text, each character a symbol. -/
def ofText (text : String) : Except AlphabetError Alphabet := ofList text.toList

/-- The number of symbols, the base of the numbering. -/
def size (a : Alphabet) : Nat := a.symbols.length

theorem size_pos (a : Alphabet) : 0 < a.size := Nat.lt_of_lt_of_le (by decide) a.two_le

/-- The symbol of a digit. -/
def symbol (a : Alphabet) (digit : Fin a.size) : Char := a.symbols.get digit

/-- The symbol of a digit value, none when there is no such digit. -/
def get? (a : Alphabet) (digit : Nat) : Option Char := a.symbols[digit]?

/-- A digit value past the last symbol. -/
structure DigitError where
  /-- The number of symbols. -/
  size : Nat
  /-- The digit value asked for. -/
  digit : Nat

/-- The wording of a digit error. -/
def DigitError.message (e : DigitError) : String :=
  "index out of bounds: the len is " ++ toString e.size ++ " but the index is " ++ toString e.digit

/-- The symbol of a digit value; past the last symbol it is an error of the caller. -/
def symbolAt (a : Alphabet) (digit : Nat) : Except DigitError Char :=
  if h : digit < a.size then .ok (a.symbol ⟨digit, h⟩) else .error ⟨a.size, digit⟩

/-- The digit value of a symbol. -/
def position? (a : Alphabet) (c : Char) : Option Nat := a.symbols.idxOf? c

/-- Whether a character is one of the symbols. -/
def contains (a : Alphabet) (c : Char) : Bool := a.symbols.contains c

/-- The symbols in digit order as one text. -/
def text (a : Alphabet) : String := String.ofList a.symbols

/-- The symbols of the standard alphabet: letters, digits, then the printable ASCII punctuation and
the space, without the single quote and the backslash, so that a string over it stands unescaped
between single quotes. -/
def standardText : String :=
  "abcdefghijklmnopqrstuvwxyzABCDEFGHIJKLMNOPQRSTUVWXYZ0123456789!\"#$%&()*+,-./:;<=>?@[]^_`\x7b|\x7d~ "

/-- The standard alphabet of 93 symbols. -/
def standard : Alphabet := ⟨standardText.toList, by decide +kernel, by decide +kernel⟩

instance : Inhabited Alphabet := ⟨standard⟩

/-- An alphabet of two symbols. -/
def pair : Alphabet := ⟨['a', 'b'], by decide, by decide⟩

end Alphabet

end SelfNamed
