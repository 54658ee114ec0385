import Mathlib.Algebra.Order.BigOperators.Group.List
import Mathlib.Data.List.Sort
import Mathlib.Order.Interval.Finset.Nat
import SelfNamed.Proofs.Generator

/-!
# No strings are shorter

Distinct strings have distinct totals, and those of the strings up to a length fill the interval
below the least total of the next length. So there are only as many strings up to a length as the
numbering spells before it goes on to the next. Main statement: sorted by length, distinct strings
over the alphabet are one by one at least as long as those that a new generator gives, so these are
the shortest in sum.
-/

namespace SelfNamed.Alphabet

variable (a : Alphabet)

/-- Distinct strings over the alphabet, so many of them. -/
structure Family (count : ℕ) (strings : List String) : Prop where
  /-- There are so many. -/
  length_eq : strings.length = count
  /-- No two of them are equal. -/
  distinct : strings.Nodup
  /-- They are over the alphabet and not empty. -/
  spells : ∀ s ∈ strings, a.Spells s.toList

/-- Strings over the alphabet with one total are one string. -/
theorem eq_of_total_eq {s t : List Char} (hs : a.Spells s) (ht : a.Spells t)
    (h : a.total s = a.total t) : s = t := by
  have hs' := a.spell_total hs
  have ht' := a.spell_total ht
  rw [← hs', h, ht']

/-- Below the least total of any length but zero there is that of the empty string. -/
theorem leastTotal_succ_pos (length : ℕ) : 0 < a.leastTotal (length + 1) := by
  have hfirst : a.leastTotal 1 = 1 := by simp [leastTotal]
  have hmono : a.leastTotal 1 ≤ a.leastTotal (length + 1) := a.leastTotal_mono (by omega)
  omega

/-- Distinct strings up to a length are fewer than the totals below the next length: their totals
are distinct, and none of them is zero. -/
theorem length_lt_leastTotal {strings : List String} {count length : ℕ}
    (h : a.Family count strings) (hlength : ∀ s ∈ strings, s.length ≤ length) :
    count < a.leastTotal (length + 1) := by
  have hdistinct : (strings.map fun s => a.total s.toList).Nodup := by
    refine h.distinct.map_on ?_
    intro s hs t ht heq
    exact String.toList_inj.mp (a.eq_of_total_eq (h.spells s hs) (h.spells t ht) heq)
  have hbelow : (strings.map fun s => a.total s.toList).toFinset ⊆
      Finset.Ico 1 (a.leastTotal (length + 1)) := by
    intro total htotal
    obtain ⟨s, hs, rfl⟩ := List.mem_map.mp (List.mem_toFinset.mp htotal)
    obtain ⟨hne, hmem⟩ := h.spells s hs
    have hpos : 0 < a.total s.toList := a.total_pos hne
    have hbound := (a.total_bounds hmem).2
    have hmono : a.leastTotal (s.toList.length + 1) ≤ a.leastTotal (length + 1) := by
      refine a.leastTotal_mono ?_
      have hle := hlength s hs
      rw [← String.length_toList] at hle
      omega
    exact Finset.mem_Ico.mpr ⟨hpos, by omega⟩
  have hcard := Finset.card_le_card hbelow
  rw [List.toFinset_card_of_nodup hdistinct, List.length_map, h.length_eq, Nat.card_Ico] at hcard
  have hpos := a.leastTotal_succ_pos length
  omega

/-- A number below the least total of the next length is spelled up to the length. -/
theorem length_spelling_le {n length : ℕ} (h : n + 1 < a.leastTotal (length + 1)) :
    (a.spelling n).length ≤ length := by
  have hbound := (a.total_bounds (a.spells_spell n).2).1
  rw [total_spell] at hbound
  rw [spelling, String.length_ofList]
  by_contra hlonger
  have hmono : a.leastTotal (length + 1) ≤ a.leastTotal (a.spell n).length :=
    a.leastTotal_mono (by omega)
  omega

/-- Numbers in a row are spelled by distinct strings over the alphabet. -/
theorem family_spellings (first count : ℕ) : a.Family count (a.spellings first count) where
  length_eq := by rw [spellings, List.length_map, List.length_range']
  distinct := (spelledFrom_spellings first count).nodup
  spells := by
    intro s hs
    obtain ⟨n, -, rfl⟩ := List.mem_map.mp hs
    rw [spelling, String.toList_ofList]
    exact a.spells_spell n

/-- Sorted by length, strings of a family are one by one at least as long as the first spellings:
those up to the place of a string are so many strings of at most its length. -/
theorem spellings_shortest {strings : List String} {count : ℕ} (h : a.Family count strings)
    (hsorted : strings.Pairwise fun s t => s.length ≤ t.length) :
    List.Forall₂ (fun s t => s.length ≤ t.length) (a.spellings 0 count) strings := by
  have hcount : (a.spellings 0 count).length = strings.length := by
    rw [(a.family_spellings 0 count).length_eq, h.length_eq]
  refine List.forall₂_iff_get.mpr ⟨hcount, ?_⟩
  intro i hi hi'
  have hspelling : (a.spellings 0 count).get ⟨i, hi⟩ = a.spelling i := by
    simp [spellings]
  have hfirst : a.Family (i + 1) (strings.take (i + 1)) := by
    refine ⟨?_, h.distinct.sublist (List.take_sublist _ _), ?_⟩
    · rw [List.length_take]
      omega
    · exact fun s hs => h.spells s (List.mem_of_mem_take hs)
  have hshorter : ∀ s ∈ strings.take (i + 1), s.length ≤ (strings.get ⟨i, hi'⟩).length := by
    intro s hs
    obtain ⟨j, hj, rfl⟩ := List.mem_take_iff_getElem.mp hs
    rcases Nat.lt_or_ge j i with hlt | hge
    · exact List.pairwise_iff_getElem.mp hsorted j i (by omega) hi' hlt
    · have heq : j = i := by omega
      subst heq
      exact Nat.le_refl _
  rw [hspelling]
  exact a.length_spelling_le (a.length_lt_leastTotal hfirst hshorter)

/-- The first spellings are the shortest strings of a family in sum. -/
theorem sum_length_spellings_le {strings : List String} {count : ℕ} (h : a.Family count strings) :
    ((a.spellings 0 count).map String.length).sum ≤ (strings.map String.length).sum := by
  let shorter (s t : String) : Bool := decide (s.length ≤ t.length)
  let sorted := strings.mergeSort shorter
  have hperm : sorted.Perm strings := List.mergeSort_perm strings _
  have htrans (r s t : String) (hrs : shorter r s) (hst : shorter s t) : shorter r t := by
    have hle := of_decide_eq_true hrs
    have hle' := of_decide_eq_true hst
    exact decide_eq_true (hle.trans hle')
  have htotal (s t : String) : shorter s t || shorter t s := by
    simpa [shorter] using Nat.le_total s.length t.length
  have hsorted : sorted.Pairwise fun s t => s.length ≤ t.length :=
    (List.pairwise_mergeSort htrans htotal strings).imp of_decide_eq_true
  have hfamily : a.Family count sorted := by
    refine ⟨hperm.length_eq.trans h.length_eq, hperm.nodup_iff.mpr h.distinct, ?_⟩
    exact fun s hs => h.spells s (hperm.mem_iff.mp hs)
  have hshortest := a.spellings_shortest hfamily hsorted
  have hsum : ((a.spellings 0 count).map String.length).sum ≤ (sorted.map String.length).sum := by
    refine List.Forall₂.sum_le_sum ?_
    simpa using hshortest
  rwa [(hperm.map String.length).sum_eq] at hsum

/-- The first strings of a new generator are distinct strings over its alphabet, and no others are
shorter: sorted by length every family of as many strings is one by one at least as long, so the
sum of its lengths is at least the sum of theirs. -/
theorem first_strings_shortest {count : ℕ} (hcount : count ≤ lastCount.toNat) :
    ∃ values : List String,
      Generator.supply.answers count ⟨a, 0⟩ = values.map .ok ∧ a.Family count values ∧
      ∀ strings, a.Family count strings →
        (strings.Pairwise (fun s t => s.length ≤ t.length) →
          List.Forall₂ (fun s t => s.length ≤ t.length) values strings) ∧
        (values.map String.length).sum ≤ (strings.map String.length).sum := by
  have hbound : (⟨a, 0⟩ : Generator).count.toNat + count ≤ lastCount.toNat := by
    change 0 + count ≤ lastCount.toNat
    omega
  refine ⟨a.spellings 0 count, Generator.answers_of_le ⟨a, 0⟩ hbound,
    a.family_spellings 0 count, ?_⟩
  intro strings h
  exact ⟨a.spellings_shortest h, a.sum_length_spellings_le h⟩

/-- Over two symbols the first three strings are as short as any three in order. -/
theorem first_strings_shortest_three :
    3 ≤ lastCount.toNat ∧ pair.Family 3 ["b", "ab", "bbb"] ∧
      ∃ values : List String, Generator.supply.answers 3 ⟨pair, 0⟩ = values.map .ok ∧
        List.Forall₂ (fun s t => s.length ≤ t.length) values ["b", "ab", "bbb"] ∧
        (values.map String.length).sum ≤ 6 := by
  have hcount : 3 ≤ lastCount.toNat := by decide
  have hspells : ∀ s ∈ ["b", "ab", "bbb"], pair.Spells s.toList := by
    simp [Spells, pair]
  have hfamily : pair.Family 3 ["b", "ab", "bbb"] := ⟨rfl, by decide, hspells⟩
  have hsorted : ["b", "ab", "bbb"].Pairwise fun s t => s.length ≤ t.length := by decide
  obtain ⟨values, hvalues, -, hshortest⟩ := first_strings_shortest pair hcount
  obtain ⟨hlengths, hsum⟩ := hshortest _ hfamily
  exact ⟨hcount, hfamily, values, hvalues, hlengths hsorted, hsum⟩

end SelfNamed.Alphabet
