import SelfNamed.Generator
import SelfNamed.Proofs.Collect
import SelfNamed.Proofs.Numbering.Order

/-!
# What a generator gives

A request spells the counter and counts on by one, without wrapping, and at the last counter value
it fails and leaves the counter where it is. Main statement: a generator that is asked many times
counts up, stops at the last value, and gives the spellings of the values that it has passed.
-/

namespace SelfNamed

/-- The last counter value is the greatest number of 64 bits. -/
theorem toNat_lastCount : lastCount.toNat = 2 ^ 64 - 1 := by decide

/-- No counter value is above the last one. -/
theorem toNat_le_lastCount (count : UInt64) : count.toNat ≤ lastCount.toNat := by
  have hlt := count.toNat_lt
  rw [toNat_lastCount]
  omega

/-- A counter value that is not the last one is below it. -/
theorem toNat_lt_lastCount {count : UInt64} (h : count ≠ lastCount) :
    count.toNat < lastCount.toNat := by
  have hne : count.toNat ≠ lastCount.toNat := fun heq => h (UInt64.toNat_inj.mp heq)
  have hle := toNat_le_lastCount count
  omega

namespace Generator

/-- Counting on from any value but the last does not wrap. -/
theorem toNat_succ {count : UInt64} (h : count ≠ lastCount) :
    (count + 1).toNat = count.toNat + 1 := by
  have hlt := toNat_lt_lastCount h
  rw [toNat_lastCount] at hlt
  rw [UInt64.toNat_add, UInt64.toNat_one]
  omega

/-- Below the last counter value a request gives the spelling of the counter. -/
theorem next_of_ne {g : Generator} (h : g.count ≠ lastCount) :
    g.next = (.ok (g.alphabet.spelling g.count.toNat), { g with count := g.count + 1 }) := by
  rw [next, if_neg h]

/-- At the last counter value a request fails and changes nothing. -/
theorem next_of_eq {g : Generator} (h : g.count = lastCount) :
    g.next = (.error (.exhausted lastCount), g) := by
  rw [next, if_pos h, h]

/-- Below the last counter value the next item is the spelling of the counter. -/
theorem item_of_ne {g : Generator} (h : g.count ≠ lastCount) :
    supply.item g =
      (some (g.alphabet.spelling g.count.toNat), { g with count := g.count + 1 }) := by
  have hnext : supply.next g = (.ok (g.alphabet.spelling g.count.toNat),
    { g with count := g.count + 1 }) := next_of_ne h
  rw [Supply.item, hnext]
  rfl

/-- At the last counter value there is no next item. -/
theorem item_of_eq {g : Generator} (h : g.count = lastCount) : supply.item g = (none, g) := by
  have hnext : supply.next g = (.error (.exhausted lastCount), g) := next_of_eq h
  rw [Supply.item, hnext]
  rfl

/-- A generator that is asked so many times gives the spellings of its counter and of the values
above it, as many as there are below the last one. It fails exactly when it is asked for more, and
its counter has moved by the number of these spellings. -/
theorem collect_eq (g : Generator) (n : ℕ) :
    ∃ count : UInt64, count.toNat = min (g.count.toNat + n) lastCount.toNat ∧
      supply.collect n g =
        ⟨g.alphabet.spellings g.count.toNat (count.toNat - g.count.toNat),
          if g.count.toNat + n ≤ lastCount.toNat then none else some (.exhausted lastCount),
          ⟨g.alphabet, count⟩⟩ := by
  induction n generalizing g with
  | zero =>
    have hle := toNat_le_lastCount g.count
    refine ⟨g.count, by omega, ?_⟩
    rw [Nat.sub_self, Alphabet.spellings_zero, Nat.add_zero, if_pos hle]
    rfl
  | succ n ih =>
    by_cases hlast : g.count = lastCount
    · have hmore : ¬ g.count.toNat + (n + 1) ≤ lastCount.toNat := by rw [hlast]; omega
      refine ⟨g.count, by rw [hlast]; omega, ?_⟩
      have hnext : supply.next g = (.error (.exhausted lastCount), g) := next_of_eq hlast
      rw [supply.collect_succ_of_error n hnext, Nat.sub_self, Alphabet.spellings_zero, if_neg hmore]
    · have hsucc := toNat_succ hlast
      have hle := toNat_le_lastCount (g.count + 1)
      obtain ⟨count, hcount, hcollect⟩ := ih { g with count := g.count + 1 }
      have hnext : supply.next g = (.ok (g.alphabet.spelling g.count.toNat),
        { g with count := g.count + 1 }) := next_of_ne hlast
      simp only [hsucc] at hcount hcollect
      refine ⟨count, by omega, ?_⟩
      have hmoved : count.toNat - g.count.toNat = count.toNat - (g.count.toNat + 1) + 1 := by omega
      have hbound : g.count.toNat + 1 + n = g.count.toNat + (n + 1) := by omega
      rw [supply.collect_succ_of_ok n hnext, hcollect, hmoved, Alphabet.spellings_succ, hbound]

/-- An iterator over a generator gives the spellings of the counter and the values above it, as many
as there are below the last one, and moves the counter by these. -/
theorem draw_eq (g : Generator) (n : ℕ) :
    ∃ count : UInt64, count.toNat = min (g.count.toNat + n) lastCount.toNat ∧
      supply.draw n g =
        (g.alphabet.spellings g.count.toNat (min n (lastCount.toNat - g.count.toNat)),
          ⟨g.alphabet, count⟩) := by
  obtain ⟨count, hcount, hcollect⟩ := g.collect_eq n
  have hle := toNat_le_lastCount g.count
  have hmoved : count.toNat - g.count.toNat = min n (lastCount.toNat - g.count.toNat) := by omega
  refine ⟨count, hcount, ?_⟩
  rw [supply.draw_eq_collect, hcollect, hmoved]

/-- Up to the last counter value all answers are spellings. -/
theorem answers_of_le (g : Generator) {n : ℕ} (h : g.count.toNat + n ≤ lastCount.toNat) :
    supply.answers n g = (g.alphabet.spellings g.count.toNat n).map .ok := by
  obtain ⟨count, hcount, hcollect⟩ := g.collect_eq n
  have hmoved : count.toNat - g.count.toNat = n := by omega
  rw [hmoved, if_pos h] at hcollect
  have hanswers := supply.answers_of_none (n := n) (s := g) (by rw [hcollect])
  rw [hanswers, hcollect]

/-- The string after others spells the counter moved on by their number. There is one only where
the counter stays below its last value. -/
theorem nth_eq (g : Generator) (n : ℕ) :
    (supply.nth n g).1 =
      if g.count.toNat + n < lastCount.toNat then some (g.alphabet.spelling (g.count.toNat + n))
      else none := by
  induction n generalizing g with
  | zero =>
    rw [supply.nth_zero, Nat.add_zero]
    by_cases hlast : g.count = lastCount
    · rw [item_of_eq hlast, hlast, if_neg (Nat.lt_irrefl _)]
    · rw [item_of_ne hlast, if_pos (toNat_lt_lastCount hlast)]
  | succ n ih =>
    rw [supply.nth_succ]
    by_cases hlast : g.count = lastCount
    · rw [item_of_eq hlast, hlast, if_neg (by omega)]
    · have hmoved : g.count.toNat + 1 + n = g.count.toNat + (n + 1) := by omega
      have hlater := ih { g with count := g.count + 1 }
      rw [toNat_succ hlast, hmoved] at hlater
      rw [item_of_ne hlast]
      exact hlater

end Generator

end SelfNamed
