import Mathlib.Algebra.BigOperators.Intervals
import Mathlib.Algebra.Order.BigOperators.Group.Finset
import SelfNamed.Proofs.Numbering.Order

/-!
# The numbering as a loop over machine words

A machine spells a number in passes. Each pass takes the remainder by the base for the next symbol
from the end and goes on with the quotient less one, until what is left is below the base. Done on
words of 64 bits this could divide by zero, go below zero or ask for a digit that the alphabet does
not have, and each of these is an error here. Main statement: none of them ever happens; the loop
takes as many passes as the spelling has symbols, which is the least length whose strings, with all
shorter ones, are more than the number, and gives the spelling.
-/

namespace SelfNamed.Alphabet

/-- What can go wrong in a pass. -/
inductive PassError where
  /-- A word is divided by zero. -/
  | divisionByZero
  /-- A word is taken from a smaller one. -/
  | belowZero
  /-- There is no symbol for a digit. -/
  | digit (e : DigitError)

/-- The remainder of a word by another. -/
def remainder (n base : UInt64) : Except PassError UInt64 :=
  if base = 0 then .error .divisionByZero else .ok (n % base)

/-- The quotient of a word by another. -/
def quotient (n base : UInt64) : Except PassError UInt64 :=
  if base = 0 then .error .divisionByZero else .ok (n / base)

/-- The difference of two words. -/
def difference (n m : UInt64) : Except PassError UInt64 :=
  if n < m then .error .belowZero else .ok (n - m)

variable (a : Alphabet)

/-- The size of the alphabet as a word. -/
def base : UInt64 := UInt64.ofNat a.size

/-- The symbol for the end of what is left. -/
def lastSymbol (n : UInt64) : Except PassError Char := do
  let digit ← remainder n a.base
  (a.symbolAt digit.toNat).mapError .digit

/-- What is left before that symbol: the quotient less one. -/
def carry (n : UInt64) : Except PassError UInt64 := do
  let whole ← quotient n a.base
  difference whole 1

/-- One pass: the symbol for the end, and what is left then, nothing when the string is complete. -/
def pass (n : UInt64) : Except PassError (Char × Option UInt64) := do
  let symbol ← a.lastSymbol n
  if n < a.base then return (symbol, none)
  else return (symbol, some (← a.carry n))

/-- So many passes at most over a word, behind the symbols that have been found so far, the last
symbol of the string first. There is no string when the passes do not suffice. -/
def loop : ℕ → UInt64 → List Char → Except PassError (Option (List Char))
  | 0, _, _ => .ok none
  | passes + 1, n, found => do
    match ← a.pass n with
    | (symbol, none) => return some (found ++ [symbol]).reverse
    | (symbol, some left) => loop passes left (found ++ [symbol])

/-! ## One pass -/

/-- There are fewer symbols than words, since they are distinct characters. -/
theorem size_lt_two_pow : a.size < 2 ^ 64 := by
  have hbelow : (a.symbols.map Char.toNat).toFinset ⊆ Finset.range 0x110000 := by
    intro n hn
    obtain ⟨c, -, rfl⟩ := List.mem_map.mp (List.mem_toFinset.mp hn)
    have hvalid : c.toNat.isValidChar := c.valid
    exact Finset.mem_range.mpr (by rcases hvalid with h | h <;> omega)
  have hdistinct : (a.symbols.map Char.toNat).Nodup :=
    a.distinct.map fun c d h => Char.toNat_inj.mp h
  have hcard := Finset.card_le_card hbelow
  rw [List.toFinset_card_of_nodup hdistinct, List.length_map, Finset.card_range] at hcard
  exact Nat.lt_of_le_of_lt hcard (by decide)

/-- The base is the size of the alphabet. -/
theorem toNat_base : a.base.toNat = a.size := UInt64.toNat_ofNat_of_lt' a.size_lt_two_pow

/-- No pass divides by zero. -/
theorem base_ne_zero : a.base ≠ 0 := by
  intro hzero
  have hsize := a.toNat_base
  rw [hzero, UInt64.toNat_zero] at hsize
  exact absurd a.size_pos (by omega)

/-- Every remainder is a digit of the alphabet. -/
theorem lastSymbol_eq (n : UInt64) :
    a.lastSymbol n = .ok (a.symbol ⟨n.toNat % a.size, Nat.mod_lt _ a.size_pos⟩) := by
  have hremainder : remainder n a.base = .ok (n % a.base) := if_neg a.base_ne_zero
  have hdigit : (n % a.base).toNat = n.toNat % a.size := by rw [UInt64.toNat_mod, a.toNat_base]
  rw [lastSymbol, hremainder]
  change (a.symbolAt (n % a.base).toNat).mapError PassError.digit = _
  rw [hdigit, symbolAt, dif_pos (Nat.mod_lt _ a.size_pos)]
  rfl

/-- From the base on the quotient is positive, so one can be taken from it. -/
theorem carry_of_le {n : UInt64} (h : a.size ≤ n.toNat) :
    ∃ left : UInt64, left.toNat = n.toNat / a.size - 1 ∧ a.carry n = .ok left := by
  have hquotient : quotient n a.base = .ok (n / a.base) := if_neg a.base_ne_zero
  have hwhole : (n / a.base).toNat = n.toNat / a.size := by rw [UInt64.toNat_div, a.toNat_base]
  have hpos : 0 < n.toNat / a.size := Nat.div_pos h a.size_pos
  have hle : (1 : UInt64) ≤ n / a.base := by
    rw [UInt64.le_iff_toNat_le, hwhole]
    exact hpos
  refine ⟨n / a.base - 1, ?_, ?_⟩
  · rw [UInt64.toNat_sub_of_le _ _ hle, hwhole, UInt64.toNat_one]
  · rw [carry, hquotient]
    exact if_neg (UInt64.not_lt.mpr hle)

/-- Below the base a pass completes the string. -/
theorem pass_of_lt {n : UInt64} (h : n.toNat < a.size) :
    a.pass n = .ok (a.symbol ⟨n.toNat, h⟩, none) := by
  have hlt : n < a.base := UInt64.lt_iff_toNat_lt.mpr (by rwa [a.toNat_base])
  have hsymbol := a.lastSymbol_eq n
  simp only [Nat.mod_eq_of_lt h] at hsymbol
  rw [pass, hsymbol]
  exact if_pos hlt

/-- From the base on a pass leaves the quotient less one. -/
theorem pass_of_le {n : UInt64} (h : a.size ≤ n.toNat) :
    ∃ left : UInt64, left.toNat = n.toNat / a.size - 1 ∧
      a.pass n = .ok (a.symbol ⟨n.toNat % a.size, Nat.mod_lt _ a.size_pos⟩, some left) := by
  have hge : ¬ n < a.base := by
    rw [UInt64.lt_iff_toNat_lt, a.toNat_base]
    omega
  obtain ⟨left, hleft, hcarry⟩ := a.carry_of_le h
  refine ⟨left, hleft, ?_⟩
  rw [pass, a.lastSymbol_eq]
  refine (if_neg hge).trans ?_
  rw [hcarry]
  rfl

/-! ## All passes -/

/-- Spelling takes a pass for each symbol and none of them fails: with fewer passes the string is
not complete, and with as many or more it is the spelling before the symbols that were found. -/
theorem loop_eq (passes : ℕ) (n : UInt64) (found : List Char) :
    a.loop passes n found =
      .ok (if (a.spell n.toNat).length ≤ passes then some (a.spell n.toNat ++ found.reverse)
        else none) := by
  induction passes generalizing n found with
  | zero =>
    have hpos : 0 < (a.spell n.toNat).length := List.length_pos_of_ne_nil (a.spell_ne_nil _)
    rw [loop, if_neg (by omega)]
  | succ passes ih =>
    by_cases h : n.toNat < a.size
    · have hlength : [a.symbol ⟨n.toNat, h⟩].length ≤ passes + 1 := Nat.succ_le_succ (Nat.zero_le _)
      rw [loop, a.pass_of_lt h, a.spell_of_lt h, if_pos hlength]
      change Except.ok (some (found ++ [_]).reverse) = _
      rw [List.reverse_append, List.reverse_singleton]
    · obtain ⟨left, hleft, hpass⟩ := a.pass_of_le (Nat.le_of_not_lt h)
      rw [loop, hpass, a.spell_of_le (Nat.le_of_not_lt h), ← hleft]
      refine (ih left _).trans ?_
      simp

/-! ## How many passes -/

/-- The least total of the next length counts the strings up to a length, the empty one too. -/
theorem leastTotal_succ_eq (length : ℕ) :
    a.leastTotal (length + 1) = ∑ i ∈ Finset.Icc 1 length, a.size ^ i + 1 := by
  induction length with
  | zero => simp [leastTotal]
  | succ length ih =>
    rw [leastTotal_succ, ih, Finset.sum_Icc_succ_top (by omega)]
    omega

/-- The spelling of a number has the least length whose strings, with all shorter ones, are more
than the number. -/
theorem isLeast_length_spell (n : ℕ) :
    IsLeast {length | n < ∑ i ∈ Finset.Icc 1 length, a.size ^ i} (a.spell n).length := by
  obtain ⟨hlow, hhigh⟩ := a.total_bounds (a.spells_spell n).2
  rw [total_spell] at hlow hhigh
  rw [leastTotal_succ_eq] at hhigh
  refine ⟨Nat.lt_of_succ_lt_succ hhigh, ?_⟩
  intro length hlength
  have hmore : n + 1 < a.leastTotal (length + 1) := by
    rw [leastTotal_succ_eq]
    exact Nat.succ_lt_succ hlength
  by_contra hshorter
  have hmono := a.leastTotal_mono (k := length + 1) (l := (a.spell n).length) (by omega)
  omega

/-- There are more strings of 64 symbols than words. -/
theorem length_spell_le (n : UInt64) : (a.spell n.toNat).length ≤ 64 := by
  refine (a.isLeast_length_spell n.toNat).2 ?_
  calc
    n.toNat < 2 ^ 64 := n.toNat_lt
    _ ≤ a.size ^ 64 := Nat.pow_le_pow_left a.two_le 64
    _ ≤ ∑ i ∈ Finset.Icc 1 64, a.size ^ i :=
      Finset.single_le_sum (f := fun i => a.size ^ i) (fun _ _ => Nat.zero_le _)
        (Finset.mem_Icc.mpr ⟨by omega, le_refl _⟩)

/-- Over every alphabet and for every word the loop that spells it never fails, whatever bound is
set to its passes. It ends after as many passes as the spelling has symbols, and gives the spelling.
These are the least number for which the powers of the base from the first to the one of this number
add up to more than the word, from one to 64. -/
theorem loop_spells (a : Alphabet) (n : UInt64) :
    let length := (a.spelling n.toNat).length
    (∀ passes, a.loop passes n [] =
      .ok (if length ≤ passes then some (a.spelling n.toNat).toList else none)) ∧
    IsLeast {length | n.toNat < ∑ i ∈ Finset.Icc 1 length, a.size ^ i} length ∧
    1 ≤ length ∧ length ≤ 64 := by
  intro length
  have hlength : length = (a.spell n.toNat).length := String.length_ofList
  have hspelling : (a.spelling n.toNat).toList = a.spell n.toNat := String.toList_ofList
  rw [hlength, hspelling]
  refine ⟨?_, a.isLeast_length_spell n.toNat, ?_, a.length_spell_le n⟩
  · intro passes
    rw [loop_eq, List.reverse_nil, List.append_nil]
  · exact List.length_pos_of_ne_nil (a.spell_ne_nil _)

end SelfNamed.Alphabet
