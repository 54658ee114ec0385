import Mathlib.Data.List.Nodup
import SelfNamed.Proofs.Numbering.Rank

/-!
# Which lists of symbols are alphabets

Construction goes through the symbols with those that it has passed, and as long as it goes on these
are distinct, so each of them stands at one index. Where it stops, the symbol is the earliest that
occurs before, and it occurs there once. In an alphabet, too, every symbol stands at one index, and
this makes looking up by index and by symbol inverse. Main statement: exactly the lists of two or
more distinct symbols are alphabets, a repetition is reported with the indices of the earliest, and
an alphabet is given back by its text.
-/

namespace SelfNamed.Alphabet

/-- The symbol at an index stands at an earlier index as well. -/
def Recurs (symbols : List Char) (index : ℕ) : Prop :=
  ∃ before < index, ∃ c, symbols[before]? = some c ∧ symbols[index]? = some c

/-- A symbol with two of its indices is the earliest repetition in a list. -/
structure EarliestClash (symbols : List Char) (c : Char) (first second : ℕ) : Prop where
  /-- The symbol stands at the second index. -/
  at_second : symbols[second]? = some c
  /-- The first index is the only one before the second at which it stands. -/
  first_iff : ∀ i, i = first ↔ i < second ∧ symbols[i]? = some c
  /-- No symbol at an index before the second stands earlier as well. -/
  least : ∀ i < second, ¬ Recurs symbols i

variable {symbols passed rest : List Char} {c : Char}

/-! ## What construction finds -/

/-- Among distinct symbols none recurs. -/
theorem not_recurs_of_nodup (h : symbols.Nodup) (index : ℕ) : ¬ Recurs symbols index := by
  rintro ⟨before, hlt, c, hbefore, hindex⟩
  have hbound : before < symbols.length := (List.getElem?_eq_some_iff.mp hbefore).1
  have heq : before = index := (List.getElem?_inj hbound h).mp (hbefore.trans hindex.symm)
  exact Nat.ne_of_lt hlt heq

/-- What comes behind an index has no part in whether its symbol recurs. -/
theorem recurs_append_iff {index : ℕ} (h : index < passed.length) (rest : List Char) :
    Recurs (passed ++ rest) index ↔ Recurs passed index := by
  have hpassed {i : ℕ} (hi : i < passed.length) : (passed ++ rest)[i]? = passed[i]? :=
    List.getElem?_append_left hi
  constructor
  · rintro ⟨before, hlt, c, hbefore, hindex⟩
    rw [hpassed (hlt.trans h)] at hbefore
    rw [hpassed h] at hindex
    exact ⟨before, hlt, c, hbefore, hindex⟩
  · rintro ⟨before, hlt, c, hbefore, hindex⟩
    exact ⟨before, hlt, c, (hpassed (hlt.trans h)).trans hbefore, (hpassed h).trans hindex⟩

/-- A symbol behind distinct symbols that is one of them is the earliest repetition. -/
theorem earliestClash_of_mem (hpassed : passed.Nodup) (hc : c ∈ passed) (rest : List Char) :
    EarliestClash (passed ++ c :: rest) c (passed.idxOf c) passed.length := by
  have hfirst : passed[passed.idxOf c]? = some c := List.getElem?_idxOf hc
  have hbound : passed.idxOf c < passed.length := List.idxOf_lt_length_of_mem hc
  refine ⟨?_, ?_, ?_⟩
  · rw [List.getElem?_append_right (Nat.le_refl _), Nat.sub_self]
    rfl
  · intro i
    constructor
    · rintro rfl
      exact ⟨hbound, (List.getElem?_append_left hbound).trans hfirst⟩
    · rintro ⟨hi, hget⟩
      rw [List.getElem?_append_left hi] at hget
      exact (List.getElem?_inj hi hpassed).mp (hget.trans hfirst.symm)
  · intro i hi
    rw [recurs_append_iff hi]
    exact not_recurs_of_nodup hpassed i

/-- What is found is the earliest repetition. The induction carries that the passed symbols are
distinct. -/
theorem earliestClash_of_clash? (hpassed : passed.Nodup) {first second : ℕ}
    (h : clash? passed rest = some (c, first, second)) :
    EarliestClash (passed ++ rest) c first second := by
  induction rest generalizing passed with
  | nil => cases h
  | cons d rest ih =>
    rw [clash?] at h
    by_cases hd : d ∈ passed
    · rw [if_pos hd] at h
      cases h
      exact earliestClash_of_mem hpassed hd rest
    · rw [if_neg hd] at h
      have hnext : (passed ++ [d]).Nodup := by
        rw [← List.concat_eq_append]
        exact List.Nodup.concat hd hpassed
      have hlater := ih hnext h
      rwa [List.append_assoc, List.singleton_append] at hlater

/-- Nothing is found exactly in a list of distinct symbols. -/
theorem clash?_eq_none_iff : clash? [] symbols = none ↔ symbols.Nodup := by
  constructor
  · exact nodup_of_clash?_eq_none List.nodup_nil
  · intro h
    cases hclash : clash? [] symbols with
    | none => rfl
    | some clash =>
      obtain ⟨c, first, second⟩ := clash
      have hearliest : EarliestClash symbols c first second :=
        earliestClash_of_clash? List.nodup_nil hclash
      obtain ⟨hlt, hfirst⟩ := (hearliest.first_iff first).mp rfl
      exact absurd ⟨first, hlt, c, hfirst, hearliest.at_second⟩ (not_recurs_of_nodup h second)

/-- What is found is what construction reports. -/
theorem ofList_of_clash {first second : ℕ} (h : clash? [] symbols = some (c, first, second)) :
    ofList symbols = .error (.repeated c first second) := by
  unfold ofList
  split
  · next hfound =>
    rw [h] at hfound
    cases hfound
    rfl
  · next hnone =>
    rw [h] at hnone
    cases hnone

/-- Distinct symbols are an alphabet when there are at least two. -/
theorem ofList_of_nodup (h : symbols.Nodup) :
    ofList symbols =
      if two_le : 2 ≤ symbols.length then .ok ⟨symbols, h, two_le⟩
      else .error (.tooFew symbols.length) := by
  have hnone := clash?_eq_none_iff.mpr h
  unfold ofList
  split
  · next hfound =>
    rw [hnone] at hfound
    cases hfound
  · rfl

/-- The symbols of an alphabet that is built are those it is built of. -/
theorem symbols_of_ofList {a : Alphabet} (h : ofList symbols = .ok a) : a.symbols = symbols := by
  by_cases hnodup : symbols.Nodup
  · rw [ofList_of_nodup hnodup] at h
    split at h
    · cases h
      rfl
    · cases h
  · obtain ⟨⟨c, first, second⟩, hclash⟩ :=
      Option.ne_none_iff_exists'.mp (mt clash?_eq_none_iff.mp hnodup)
    rw [ofList_of_clash hclash] at h
    cases h

/-- The symbols of an alphabet make this alphabet. -/
theorem ofList_symbols (a : Alphabet) : ofList a.symbols = .ok a := by
  rw [ofList_of_nodup a.distinct, dif_pos a.two_le]

/-! ## Looking up -/

variable (a : Alphabet)

/-- A digit value below the size has its symbol. -/
theorem symbolAt_of_get? {digit : ℕ} (h : a.get? digit = some c) : a.symbolAt digit = .ok c := by
  obtain ⟨hlt, hget⟩ := List.getElem?_eq_some_iff.mp h
  have hbound : digit < a.size := hlt
  have hsymbol : a.symbol ⟨digit, hbound⟩ = c := hget
  rw [symbolAt, dif_pos hbound, hsymbol]

/-- A symbol has the digit value at which it stands. -/
theorem position?_eq_some_iff {digit : ℕ} : a.position? c = some digit ↔ a.get? digit = some c := by
  constructor
  · intro h
    obtain ⟨hlt, hget, -⟩ := List.idxOf?_eq_some_iff.mp h
    exact List.getElem?_eq_some_iff.mpr ⟨hlt, hget⟩
  · intro h
    obtain ⟨hlt, rfl⟩ := List.getElem?_eq_some_iff.mp h
    rw [a.position?_of_mem (List.getElem_mem hlt), a.distinct.idxOf_getElem digit hlt]

/-- An alphabet has the characters that have a digit value. -/
theorem contains_iff : a.contains c = true ↔ (a.position? c).isSome = true := by
  rw [position?_isSome_iff, contains, List.contains_iff_mem]

/-- The text of an alphabet makes this alphabet. -/
theorem ofText_text : ofText a.text = .ok a := by
  rw [ofText, text, String.toList_ofList, ofList_symbols]

/-! ## Construction -/

/-- A list is an alphabet exactly when it has two symbols or more and none twice. A list with a
repetition is rejected with the least index whose symbol occurs before, the one index before at
which it occurs, and the symbol; a list without one that is too short is rejected with its length.
An alphabet has the symbols of its list at their indices, looking up by symbol is inverse to looking
up by index, and the text of the alphabet makes it again. -/
theorem ofList_exact (symbols : List Char) :
    ((∃ a, ofList symbols = .ok a) ↔ 2 ≤ symbols.length ∧ symbols.Nodup) ∧
    (¬ symbols.Nodup → ∃ c first second, EarliestClash symbols c first second ∧
      ofList symbols = .error (.repeated c first second)) ∧
    (symbols.Nodup → symbols.length < 2 → ofList symbols = .error (.tooFew symbols.length)) ∧
    ∀ a, ofList symbols = .ok a →
      a.size = symbols.length ∧
      (∀ (i : ℕ) (h : i < symbols.length),
        a.get? i = some symbols[i] ∧ a.symbolAt i = .ok symbols[i]) ∧
      (∀ c i, a.position? c = some i ↔ a.get? i = some c) ∧
      (∀ c, a.contains c = true ↔ (a.position? c).isSome = true) ∧
      ofText a.text = .ok a := by
  have hrepeated (h : ¬ symbols.Nodup) : ∃ c first second,
      EarliestClash symbols c first second ∧
        ofList symbols = .error (.repeated c first second) := by
    obtain ⟨⟨c, first, second⟩, hclash⟩ :=
      Option.ne_none_iff_exists'.mp (mt clash?_eq_none_iff.mp h)
    have hearliest := earliestClash_of_clash? List.nodup_nil hclash
    exact ⟨c, first, second, hearliest, ofList_of_clash hclash⟩
  have hfew (h : symbols.Nodup) (hlt : symbols.length < 2) :
      ofList symbols = .error (.tooFew symbols.length) := by
    rw [ofList_of_nodup h, dif_neg (Nat.not_le_of_lt hlt)]
  refine ⟨⟨?_, ?_⟩, hrepeated, hfew, ?_⟩
  · rintro ⟨a, ha⟩
    have hsymbols := symbols_of_ofList ha
    exact hsymbols ▸ ⟨a.two_le, a.distinct⟩
  · rintro ⟨htwo, hnodup⟩
    exact ⟨⟨symbols, hnodup, htwo⟩, by rw [ofList_of_nodup hnodup, dif_pos htwo]⟩
  · intro a ha
    obtain rfl := symbols_of_ofList ha
    refine ⟨rfl, ?_, fun c i => a.position?_eq_some_iff, fun c => a.contains_iff, a.ofText_text⟩
    intro i hi
    have hget : a.get? i = some a.symbols[i] := List.getElem?_eq_getElem hi
    exact ⟨hget, a.symbolAt_of_get? hget⟩

/-- Four lists: an alphabet of two symbols, one symbol that is too few, a lone symbol written twice,
and a list in which the second symbol of the earliest repetition comes before that of another. -/
theorem ofList_exact_clash :
    (∃ a, ofList ['b', 'a'] = .ok a ∧ a.position? 'a' = some 1 ∧ a.symbolAt 1 = .ok 'a' ∧
      ofText a.text = .ok a) ∧
    ofList ['x'] = .error (.tooFew 1) ∧
    (∃ c first second, EarliestClash ['a', 'a'] c first second ∧
      ofList ['a', 'a'] = .error (.repeated c first second)) ∧
    EarliestClash ['a', 'b', 'c', 'b', 'a'] 'b' 1 3 ∧
      ofList ['a', 'b', 'c', 'b', 'a'] = .error (.repeated 'b' 1 3) := by
  obtain ⟨hpair, -, -, hlookups⟩ := ofList_exact ['b', 'a']
  obtain ⟨a, ha⟩ := hpair.mpr ⟨by decide, by decide⟩
  obtain ⟨-, hget, hposition, -, htext⟩ := hlookups a ha
  obtain ⟨hget, hsymbol⟩ := hget 1 (by decide)
  obtain ⟨-, -, hfew, -⟩ := ofList_exact ['x']
  obtain ⟨-, htwice, -, -⟩ := ofList_exact ['a', 'a']
  obtain ⟨-, hclash, -, -⟩ := ofList_exact ['a', 'b', 'c', 'b', 'a']
  obtain ⟨c, first, second, hearliest, herror⟩ := hclash (by decide)
  have hfound : ofList ['a', 'b', 'c', 'b', 'a'] = .error (.repeated 'b' 1 3) := rfl
  rw [hfound] at herror
  cases herror
  exact ⟨⟨a, ha, (hposition 'a' 1).mpr hget, hsymbol, htext⟩, hfew (by decide) (by decide),
    htwice (by decide), hearliest, hfound⟩

end SelfNamed.Alphabet
