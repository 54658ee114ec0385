import SelfNamed.Alphabet

/-!
# Numbering the strings over an alphabet

Counter values name the non-empty strings over an alphabet in shortlex order: all strings of one
symbol, then all of two, and so on, each length in the order of the alphabet. With `ab` the
numbering runs a, b, aa, ab, ba, bb, aaa. `spell` gives the string of a number and `rank?` the
number of a string; there is no digit that may lead without counting, so the two undo one another.
-/

namespace SelfNamed.Alphabet

/-- The quotient step of the numbering goes down. -/
theorem carry_lt (a : Alphabet) {n : Nat} (h : a.size ≤ n) : n / a.size - 1 < n := by
  have hn : 0 < n := Nat.lt_of_lt_of_le a.size_pos h
  have : n / a.size ≤ n := Nat.div_le_self n a.size
  omega

/-- The string that a number names, as its symbols. The last symbol is the remainder by the base;
what comes before is the string of the quotient less one, and there is nothing before it below the
base. -/
def spell (a : Alphabet) (n : Nat) : List Char :=
  let last := a.symbol ⟨n % a.size, Nat.mod_lt n a.size_pos⟩
  if h : n < a.size then [last]
  else
    have : n / a.size - 1 < n := a.carry_lt (Nat.le_of_not_lt h)
    a.spell (n / a.size - 1) ++ [last]
termination_by n

/-- The string that a number names. -/
def spelling (a : Alphabet) (n : Nat) : String := String.ofList (a.spell n)

/-- One step of reading a string as a number: the digits count from one. -/
def rankStep (a : Alphabet) (total : Nat) (c : Char) : Option Nat :=
  (a.position? c).map fun digit => total * a.size + digit + 1

/-- The number that a string has in the numbering; none for the empty string and for a string with a
foreign symbol. -/
def rank? (a : Alphabet) : List Char → Option Nat
  | [] => none
  | c :: rest => ((c :: rest).foldlM a.rankStep 0).map (· - 1)

/-- Below the base a number is spelled by its own digit. -/
theorem spell_of_lt (a : Alphabet) {n : Nat} (h : n < a.size) : a.spell n = [a.symbol ⟨n, h⟩] := by
  unfold spell
  simp [h, Nat.mod_eq_of_lt h]

/-- From the base on, the last symbol is split off. -/
theorem spell_of_le (a : Alphabet) {n : Nat} (h : a.size ≤ n) :
    a.spell n =
      a.spell (n / a.size - 1) ++ [a.symbol ⟨n % a.size, Nat.mod_lt n a.size_pos⟩] := by
  rw [spell]
  simp [Nat.not_lt.mpr h]

/-- No number is spelled by the empty string. -/
theorem spell_ne_nil (a : Alphabet) (n : Nat) : a.spell n ≠ [] := by
  by_cases h : n < a.size
  · simp [spell_of_lt a h]
  · simp [spell_of_le a (Nat.le_of_not_lt h)]

end SelfNamed.Alphabet
