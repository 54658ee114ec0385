import Mathlib.Data.List.Induction
import Mathlib.Tactic.Linarith
import SelfNamed.Numbering

/-!
# Numbers and strings undo one another

Reading a string adds up its digits from the front, each counted from one, so the total of a string
is one more than the number that it spells. Both directions follow the last symbol: the numbering
splits it off by division, and reading takes it up by multiplication. Main statement: over every
alphabet the spelling of a 64-bit number reads back, and no string of a 64-bit number is left out.
-/

namespace SelfNamed.Alphabet

variable (a : Alphabet)

/-- A list of symbols of the alphabet that is not empty. -/
def Spells (s : List Char) : Prop := s ≠ [] ∧ ∀ c ∈ s, c ∈ a.symbols

/-- The total of a string that has been read up to a total: digits count from one. -/
def totalFrom (total : ℕ) (s : List Char) : ℕ :=
  s.foldl (fun total c => total * a.size + a.symbols.idxOf c + 1) total

/-- The total of a whole string, one more than its number. -/
def total (s : List Char) : ℕ := a.totalFrom 0 s

/-- A symbol has its own index for a digit value. -/
theorem position?_of_mem {c : Char} (h : c ∈ a.symbols) :
    a.position? c = some (a.symbols.idxOf c) := by
  obtain ⟨digit, hdigit⟩ := Option.isSome_iff_exists.mp (List.isSome_idxOf?.mpr h)
  obtain ⟨hlt, hget, -⟩ := List.idxOf?_eq_some_iff.mp hdigit
  rw [position?, hdigit, ← hget, a.distinct.idxOf_getElem digit hlt]

/-- A character has a digit value exactly when it is a symbol. -/
theorem position?_isSome_iff {c : Char} : (a.position? c).isSome = true ↔ c ∈ a.symbols :=
  List.isSome_idxOf?

/-- The digit of a symbol is below the base. -/
theorem idxOf_lt_size {c : Char} (h : c ∈ a.symbols) : a.symbols.idxOf c < a.size :=
  List.idxOf_lt_length_of_mem h

/-- The symbol of a digit has this digit for its index. -/
theorem idxOf_symbol (digit : Fin a.size) : a.symbols.idxOf (a.symbol digit) = digit :=
  a.distinct.idxOf_getElem digit digit.isLt

/-- The symbol of the index of a symbol is that symbol. -/
theorem symbol_idxOf {c : Char} (h : a.symbols.idxOf c < a.size) :
    a.symbol ⟨a.symbols.idxOf c, h⟩ = c :=
  List.getElem_idxOf h

/-- Digits stand for symbols of the alphabet. -/
theorem symbol_mem (digit : Fin a.size) : a.symbol digit ∈ a.symbols :=
  List.getElem_mem digit.isLt

/-- Reading goes on from one part of a string to the next. -/
theorem totalFrom_append (total : ℕ) (s t : List Char) :
    a.totalFrom total (s ++ t) = a.totalFrom (a.totalFrom total s) t :=
  List.foldl_append

/-- The last symbol multiplies what came before by the base and adds its digit. -/
theorem total_append_singleton (s : List Char) (c : Char) :
    a.total (s ++ [c]) = a.total s * a.size + a.symbols.idxOf c + 1 :=
  a.totalFrom_append 0 s [c]

/-- A string that is not empty has a positive total. -/
theorem total_pos {s : List Char} (h : s ≠ []) : 0 < a.total s := by
  rw [← List.dropLast_concat_getLast h, total_append_singleton]
  exact Nat.succ_pos _

/-- Reading symbols of the alphabet never fails. -/
theorem foldlM_rankStep {s : List Char} (hs : ∀ c ∈ s, c ∈ a.symbols) (total : ℕ) :
    s.foldlM a.rankStep total = some (a.totalFrom total s) := by
  induction s generalizing total with
  | nil => rfl
  | cons c s ih =>
    have hc : a.rankStep total c = some (total * a.size + a.symbols.idxOf c + 1) := by
      rw [rankStep, a.position?_of_mem (hs c List.mem_cons_self), Option.map_some]
    rw [List.foldlM_cons, hc, Option.bind_eq_bind, Option.bind_some]
    exact ih (fun d hd => hs d (List.mem_cons_of_mem c hd)) _

/-- Reading fails at a foreign symbol. -/
theorem mem_of_foldlM_rankStep {s : List Char} {total r : ℕ}
    (h : s.foldlM a.rankStep total = some r) : ∀ c ∈ s, c ∈ a.symbols := by
  induction s generalizing total with
  | nil => intro c hc; cases hc
  | cons c s ih =>
    rw [List.foldlM_cons, Option.bind_eq_bind, Option.bind_eq_some_iff] at h
    obtain ⟨next, hnext, hrest⟩ := h
    have hc : c ∈ a.symbols := by
      rw [rankStep, Option.map_eq_some_iff] at hnext
      obtain ⟨digit, hdigit, -⟩ := hnext
      exact a.position?_isSome_iff.mp (by rw [hdigit, Option.isSome_some])
    intro d hd
    rcases List.mem_cons.mp hd with rfl | hd
    · exact hc
    · exact ih hrest d hd

/-- The number of a string over the alphabet is its total less one. -/
theorem rank?_of_spells {s : List Char} (h : a.Spells s) : a.rank? s = some (a.total s - 1) := by
  cases s with
  | nil => exact absurd rfl h.1
  | cons c s => rw [rank?, a.foldlM_rankStep h.2 0, Option.map_some, total]

/-- Only strings over the alphabet have a number. -/
theorem spells_of_rank? {s : List Char} {r : ℕ} (h : a.rank? s = some r) : a.Spells s := by
  cases s with
  | nil => cases h
  | cons c s =>
    rw [rank?, Option.map_eq_some_iff] at h
    obtain ⟨total, htotal, -⟩ := h
    exact ⟨List.cons_ne_nil c s, a.mem_of_foldlM_rankStep htotal⟩

/-- A number is spelled over the alphabet. -/
theorem spells_spell (n : ℕ) : a.Spells (a.spell n) := by
  refine ⟨a.spell_ne_nil n, ?_⟩
  induction n using Nat.strong_induction_on with
  | _ n ih =>
    by_cases h : n < a.size
    · rw [a.spell_of_lt h]
      intro c hc
      rw [List.mem_singleton.mp hc]
      exact a.symbol_mem _
    · have hle : a.size ≤ n := Nat.le_of_not_lt h
      rw [a.spell_of_le hle]
      intro c hc
      rcases List.mem_append.mp hc with hc | hc
      · exact ih _ (a.carry_lt hle) c hc
      · rw [List.mem_singleton.mp hc]
        exact a.symbol_mem _

/-- The total of a spelling is one more than the number: division by the base and the step down by
one are undone by multiplication and the digit that counts from one. -/
theorem total_spell (n : ℕ) : a.total (a.spell n) = n + 1 := by
  induction n using Nat.strong_induction_on with
  | _ n ih =>
    by_cases h : n < a.size
    · rw [a.spell_of_lt h, ← List.nil_append [_], total_append_singleton, idxOf_symbol]
      simp [total, totalFrom]
    · have hle : a.size ≤ n := Nat.le_of_not_lt h
      have hquotient : 0 < n / a.size := Nat.div_pos hle a.size_pos
      have hstep : n / a.size - 1 + 1 = n / a.size := Nat.sub_add_cancel hquotient
      rw [a.spell_of_le hle, total_append_singleton, ih _ (a.carry_lt hle), hstep, idxOf_symbol]
      rw [Nat.div_add_mod']

/-- The spelling of a number reads back as the number. -/
theorem rank?_spell (n : ℕ) : a.rank? (a.spell n) = some n := by
  rw [a.rank?_of_spells (a.spells_spell n), a.total_spell, Nat.add_sub_cancel]

/-- A string over the alphabet is the spelling of its total less one. The induction takes the last
symbol off, as the numbering does. -/
theorem spell_total {s : List Char} (h : a.Spells s) : a.spell (a.total s - 1) = s := by
  obtain ⟨hne, hmem⟩ := h
  induction s using List.reverseRecOn with
  | nil => exact absurd rfl hne
  | append_singleton s c ih =>
    have hc : a.symbols.idxOf c < a.size := a.idxOf_lt_size (hmem c (by simp))
    rw [total_append_singleton, Nat.add_sub_cancel]
    by_cases hs : s = []
    · subst hs
      have hzero : a.total [] * a.size + a.symbols.idxOf c = a.symbols.idxOf c := by
        simp [total, totalFrom]
      rw [hzero, a.spell_of_lt hc, symbol_idxOf, List.nil_append]
    · have hpos : 0 < a.total s := a.total_pos hs
      have hle : a.size ≤ a.total s * a.size + a.symbols.idxOf c := by nlinarith
      have hdiv : (a.total s * a.size + a.symbols.idxOf c) / a.size = a.total s := by
        rw [Nat.add_comm, Nat.add_mul_div_right _ _ a.size_pos, Nat.div_eq_of_lt hc, Nat.zero_add]
      have hmod : (a.total s * a.size + a.symbols.idxOf c) % a.size = a.symbols.idxOf c := by
        rw [Nat.add_comm, Nat.add_mul_mod_self_right, Nat.mod_eq_of_lt hc]
      rw [a.spell_of_le hle]
      simp only [hdiv, hmod, symbol_idxOf]
      rw [ih hs fun d hd => hmem d (List.mem_append_left [c] hd)]

/-- A string with a number is the spelling of that number. -/
theorem spell_of_rank? {s : List Char} {r : ℕ} (h : a.rank? s = some r) : a.spell r = s := by
  have hs := a.spells_of_rank? h
  rw [a.rank?_of_spells hs, Option.some.injEq] at h
  rw [← h]
  exact a.spell_total hs

/-- Distinct numbers have distinct spellings. -/
theorem spell_injective : Function.Injective a.spell := by
  intro n m h
  have hn := a.rank?_spell n
  rw [h, a.rank?_spell m, Option.some.injEq] at hn
  exact hn.symm

/-- The 64-bit numbers and the strings over the alphabet that rank below their bound are paired:
every number is spelled by a string over the alphabet that ranks as the number, every string over
the alphabet has a rank and is spelled by it where it is a 64-bit number, and no two numbers share a
string. -/
theorem spelling_rank_bijection :
    (∀ n : UInt64, a.Spells (a.spelling n.toNat).toList ∧
      a.rank? (a.spelling n.toNat).toList = some n.toNat) ∧
    (∀ s : String, a.Spells s.toList → ∃ r, a.rank? s.toList = some r ∧
      (r < 2 ^ 64 → ∃ n : UInt64, n.toNat = r ∧ a.spelling n.toNat = s)) ∧
    ∀ n m : UInt64, a.spelling n.toNat = a.spelling m.toNat → n = m := by
  refine ⟨?_, ?_, ?_⟩
  · intro n
    rw [spelling, String.toList_ofList]
    exact ⟨a.spells_spell _, a.rank?_spell _⟩
  · intro s hs
    refine ⟨a.total s.toList - 1, a.rank?_of_spells hs, ?_⟩
    intro hr
    have hn : (UInt64.ofNat (a.total s.toList - 1)).toNat = a.total s.toList - 1 :=
      UInt64.toNat_ofNat_of_lt' hr
    refine ⟨UInt64.ofNat (a.total s.toList - 1), hn, ?_⟩
    rw [hn, spelling, a.spell_of_rank? (a.rank?_of_spells hs), String.ofList_toList]
  · intro n m h
    have hlist : a.spell n.toNat = a.spell m.toNat := by
      simpa only [spelling, String.toList_ofList] using congrArg String.toList h
    exact UInt64.toNat_inj.mp (a.spell_injective hlist)

/-- Over two symbols the string of both is spelled by the number that it ranks as. -/
theorem spelling_rank_bijection_pair :
    ∃ a : Alphabet, a.symbols = ['a', 'b'] ∧ a.Spells "ba".toList ∧ a.rank? "ba".toList = some 4 ∧
      ∃ n : UInt64, n.toNat = 4 ∧ a.spelling n.toNat = "ba" := by
  let a : Alphabet := ⟨['a', 'b'], by decide, by decide⟩
  have hs : a.Spells "ba".toList := by
    rw [String.toList_ofList]
    exact ⟨List.cons_ne_nil _ _, by simp [a]⟩
  have hr : a.rank? "ba".toList = some 4 := by decide
  obtain ⟨r, hrank, hword⟩ := (spelling_rank_bijection a).2.1 "ba" hs
  have h4 : r = 4 := Option.some.inj (hrank.symm.trans hr)
  obtain ⟨n, hn, hspell⟩ := hword (by rw [h4]; decide)
  exact ⟨a, rfl, hs, hr, n, hn.trans h4, hspell⟩

end SelfNamed.Alphabet
