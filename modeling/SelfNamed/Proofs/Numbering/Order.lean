import Mathlib.Algebra.BigOperators.Group.Finset.Basic
import Mathlib.Tactic.Ring
import SelfNamed.Proofs.Numbering.Rank

/-!
# The numbering runs in shortlex order

The totals of the strings of one length fill an interval, the one after the interval of the length
before. Inside it the first symbol decides as the leading digit of a number does, since what follows
ranges over as many totals as one step of the digit is worth. Main statement: one number is below
another exactly when its spelling is shorter, or as long and earlier in the order of the alphabet.
So strings that increasing numbers spell are in order, and no two of them are equal.
-/

namespace SelfNamed.Alphabet

variable (a : Alphabet)

/-- The order of two symbols in the alphabet, which is not the order of characters. -/
def Precedes (c d : Char) : Prop :=
  ∃ i j, a.position? c = some i ∧ a.position? d = some j ∧ i < j

/-- The shortlex order of strings: by length, then symbol by symbol in the order of the alphabet. -/
def Before (s t : String) : Prop :=
  s.length < t.length ∨ s.length = t.length ∧ List.Lex a.Precedes s.toList t.toList

/-- The least total of a string of a length. -/
def leastTotal (length : ℕ) : ℕ := ∑ i ∈ Finset.range length, a.size ^ i

/-- The order of symbols is the order of their indices. -/
theorem precedes_iff {c d : Char} (hc : c ∈ a.symbols) (hd : d ∈ a.symbols) :
    a.Precedes c d ↔ a.symbols.idxOf c < a.symbols.idxOf d := by
  rw [Precedes, a.position?_of_mem hc, a.position?_of_mem hd]
  simp

/-- Symbols with one index are one symbol. -/
theorem eq_of_idxOf_eq {c d : Char} (hc : c ∈ a.symbols)
    (h : a.symbols.idxOf c = a.symbols.idxOf d) : c = d :=
  (List.idxOf_inj hc).mp h

/-- Each length has as many totals as the base has powers. -/
theorem leastTotal_succ (length : ℕ) :
    a.leastTotal (length + 1) = a.leastTotal length + a.size ^ length :=
  Finset.sum_range_succ _ _

/-- Longer strings start at greater totals. -/
theorem leastTotal_mono {k l : ℕ} (h : k ≤ l) : a.leastTotal k ≤ a.leastTotal l := by
  induction l, h using Nat.le_induction with
  | base => exact le_refl _
  | succ l _ ih => exact ih.trans (by rw [leastTotal_succ]; exact Nat.le_add_right _ _)

/-- A total that has been reached is worth its multiple by the power of the length to come. -/
theorem totalFrom_eq (total : ℕ) (s : List Char) :
    a.totalFrom total s = total * a.size ^ s.length + a.total s := by
  induction s generalizing total with
  | nil => simp [Alphabet.total, totalFrom]
  | cons c s ih =>
    have hstep (t : ℕ) : a.totalFrom t (c :: s) =
        a.totalFrom (t * a.size + a.symbols.idxOf c + 1) s := rfl
    rw [Alphabet.total, hstep, hstep, ih, ih (0 * a.size + _ + 1), List.length_cons]
    ring

/-- The first symbol of a string is worth its digit, counted from one, at the power of the length
behind it. -/
theorem total_cons (c : Char) (s : List Char) :
    a.total (c :: s) = (a.symbols.idxOf c + 1) * a.size ^ s.length + a.total s := by
  have hstep : a.total (c :: s) = a.totalFrom (0 * a.size + a.symbols.idxOf c + 1) s := rfl
  rw [hstep, totalFrom_eq, Nat.zero_mul, Nat.zero_add]

/-- The totals of the strings of one length lie from its least total up to the least of the next. -/
theorem total_bounds {s : List Char} (h : ∀ c ∈ s, c ∈ a.symbols) :
    a.leastTotal s.length ≤ a.total s ∧ a.total s < a.leastTotal (s.length + 1) := by
  induction s with
  | nil => simp [Alphabet.total, totalFrom, leastTotal]
  | cons c s ih =>
    obtain ⟨hlow, hhigh⟩ := ih fun d hd => h d (List.mem_cons_of_mem c hd)
    have hc : a.symbols.idxOf c + 1 ≤ a.size := a.idxOf_lt_size (h c List.mem_cons_self)
    have hleast : a.size ^ s.length ≤ (a.symbols.idxOf c + 1) * a.size ^ s.length :=
      Nat.le_mul_of_pos_left _ (Nat.succ_pos _)
    have hgreatest : (a.symbols.idxOf c + 1) * a.size ^ s.length ≤ a.size ^ (s.length + 1) := by
      rw [Nat.pow_succ, Nat.mul_comm (a.size ^ s.length)]
      exact Nat.mul_le_mul_right _ hc
    have hsplit := a.leastTotal_succ s.length
    rw [total_cons, List.length_cons, leastTotal_succ a (s.length + 1)]
    constructor <;> omega

/-- Leading digits decide a comparison when what follows them stays within one step. -/
theorem lead_lt_iff {d e step least x y : ℕ} (hx : least ≤ x) (hx' : x < least + step)
    (hy : least ≤ y) (hy' : y < least + step) :
    (d + 1) * step + x < (e + 1) * step + y ↔ d < e ∨ d = e ∧ x < y := by
  rcases Nat.lt_trichotomy d e with h | h | h
  · have hle : (d + 2) * step ≤ (e + 1) * step := Nat.mul_le_mul_right _ (by omega)
    have hring : (d + 2) * step = (d + 1) * step + step := by ring
    constructor
    · intro _
      exact .inl h
    · intro _
      omega
  · subst h
    constructor
    · intro hlt
      exact .inr ⟨rfl, by omega⟩
    · intro hlt
      omega
  · have hle : (e + 2) * step ≤ (d + 1) * step := Nat.mul_le_mul_right _ (by omega)
    have hring : (e + 2) * step = (e + 1) * step + step := by ring
    constructor
    · intro _
      omega
    · intro hlt
      omega

/-- Strings of one length are ordered by their totals as by their symbols. -/
theorem total_lt_iff_lex {s t : List Char} (hs : ∀ c ∈ s, c ∈ a.symbols)
    (ht : ∀ c ∈ t, c ∈ a.symbols) (hlength : s.length = t.length) :
    a.total s < a.total t ↔ List.Lex a.Precedes s t := by
  induction s generalizing t with
  | nil =>
    rw [List.length_nil] at hlength
    rw [List.eq_nil_of_length_eq_zero hlength.symm]
    simp
  | cons c s ih =>
    cases t with
    | nil => cases hlength
    | cons d t =>
      have hlength' : s.length = t.length := Nat.succ.inj hlength
      have hc := hs c List.mem_cons_self
      have hd := ht d List.mem_cons_self
      have hs' : ∀ e ∈ s, e ∈ a.symbols := fun e he => hs e (List.mem_cons_of_mem c he)
      have ht' : ∀ e ∈ t, e ∈ a.symbols := fun e he => ht e (List.mem_cons_of_mem d he)
      have hbs := a.total_bounds hs'
      have hbt := a.total_bounds ht'
      rw [leastTotal_succ] at hbs hbt
      rw [← hlength'] at hbt
      rw [total_cons, total_cons, ← hlength', List.cons_lex_cons_iff, a.precedes_iff hc hd,
        lead_lt_iff hbs.1 hbs.2 hbt.1 hbt.2, ih hs' ht' hlength']
      have hsame : a.symbols.idxOf c = a.symbols.idxOf d ↔ c = d :=
        ⟨a.eq_of_idxOf_eq hc, fun h => h ▸ rfl⟩
      rw [hsame]

/-- A shorter string has the smaller total. -/
theorem total_lt_of_length_lt {s t : List Char} (hs : ∀ c ∈ s, c ∈ a.symbols)
    (ht : ∀ c ∈ t, c ∈ a.symbols) (h : s.length < t.length) : a.total s < a.total t :=
  calc
    a.total s < a.leastTotal (s.length + 1) := (a.total_bounds hs).2
    _ ≤ a.leastTotal t.length := a.leastTotal_mono h
    _ ≤ a.total t := (a.total_bounds ht).1

/-- Strings over the alphabet are ordered by their totals as by shortlex. -/
theorem total_lt_iff {s t : List Char} (hs : ∀ c ∈ s, c ∈ a.symbols)
    (ht : ∀ c ∈ t, c ∈ a.symbols) :
    a.total s < a.total t ↔
      s.length < t.length ∨ s.length = t.length ∧ List.Lex a.Precedes s t := by
  rcases Nat.lt_trichotomy s.length t.length with h | h | h
  · have hlt := a.total_lt_of_length_lt hs ht h
    exact ⟨fun _ => .inl h, fun _ => hlt⟩
  · rw [a.total_lt_iff_lex hs ht h]
    constructor
    · intro hlex
      exact .inr ⟨h, hlex⟩
    · rintro (hlt | ⟨-, hlex⟩)
      · omega
      · exact hlex
  · have hlt := a.total_lt_of_length_lt ht hs h
    constructor
    · intro hgt
      omega
    · rintro (hgt | ⟨heq, -⟩)
      · omega
      · omega

/-- Numbers are ordered as their spellings. -/
theorem lt_iff_before_spelling (n m : ℕ) :
    n < m ↔ a.Before (a.spelling n) (a.spelling m) := by
  have h := a.total_lt_iff (a.spells_spell n).2 (a.spells_spell m).2
  rw [total_spell, total_spell, Nat.add_lt_add_iff_right] at h
  rw [h, Before, spelling, spelling]
  simp only [String.toList_ofList, String.length_ofList]

/-- A 64-bit number is below another exactly when its spelling has fewer symbols, or as many and
comes first in the order that the alphabet gives to the symbols. -/
theorem word_lt_iff_spelling_before (n m : UInt64) :
    n < m ↔ (a.spelling n.toNat).length < (a.spelling m.toNat).length ∨
      (a.spelling n.toNat).length = (a.spelling m.toNat).length ∧
        List.Lex a.Precedes (a.spelling n.toNat).toList (a.spelling m.toNat).toList := by
  rw [UInt64.lt_iff_toNat_lt]
  exact a.lt_iff_before_spelling n.toNat m.toNat

/-! ## Spellings in order -/

/-- No two numbers share a spelling. -/
theorem spelling_injective : Function.Injective a.spelling := by
  intro n m h
  refine a.spell_injective ?_
  simpa only [spelling, String.toList_ofList] using congrArg String.toList h

/-- Strings that increasing numbers spell, all of them from a bound on. -/
def SpelledFrom (least : ℕ) (values : List String) : Prop :=
  ∃ ns : List ℕ, ns.Pairwise (· < ·) ∧ (∀ n ∈ ns, least ≤ n) ∧ values = ns.map a.spelling

/-- The spellings of so many numbers from one on. -/
def spellings (first count : ℕ) : List String := (List.range' first count).map a.spelling

theorem spellings_zero (first : ℕ) : a.spellings first 0 = [] := rfl

/-- The first number is spelled first. -/
theorem spellings_succ (first count : ℕ) :
    a.spellings first (count + 1) = a.spelling first :: a.spellings (first + 1) count := by
  rw [spellings, spellings, List.range'_succ, List.map_cons]

/-- The last number is spelled last. -/
theorem spellings_succ_right (first count : ℕ) :
    a.spellings first (count + 1) = a.spellings first count ++ [a.spelling (first + count)] := by
  rw [spellings, spellings, List.range'_1_concat, List.map_append, List.map_singleton]

/-- The spellings of numbers in a row go on with those of the numbers behind them. -/
theorem spellings_append (first m n : ℕ) :
    a.spellings first m ++ a.spellings (first + m) n = a.spellings first (m + n) := by
  rw [spellings, spellings, spellings, ← List.map_append, List.range'_append_1]

/-- Among the spellings of numbers in a row each stands at the place of its number. -/
theorem getElem?_spellings (first count i : ℕ) :
    (a.spellings first count)[i]? = if i < count then some (a.spelling (first + i)) else none := by
  rw [spellings, List.getElem?_map]
  split
  next hlt => rw [List.getElem?_range' hlt, Nat.one_mul, Option.map_some]
  next hge =>
    have hnone : (List.range' first count)[i]? = none := by
      rw [List.getElem?_eq_none_iff, List.length_range']
      omega
    rw [hnone, Option.map_none]

variable {a} {least : ℕ} {values : List String}

/-- Without strings nothing is spelled. -/
theorem spelledFrom_nil (least : ℕ) : a.SpelledFrom least [] :=
  ⟨[], List.Pairwise.nil, nofun, rfl⟩

/-- A bound on the numbers may be lowered. -/
theorem SpelledFrom.mono {lower : ℕ} (h : a.SpelledFrom least values) (hle : lower ≤ least) :
    a.SpelledFrom lower values := by
  obtain ⟨ns, hincreasing, hleast, hvalues⟩ := h
  exact ⟨ns, hincreasing, fun n hn => hle.trans (hleast n hn), hvalues⟩

/-- Numbers in a row are spelled from the first one on, and others above them may follow. -/
theorem SpelledFrom.spellings_append {first count : ℕ} (h : a.SpelledFrom (first + count) values) :
    a.SpelledFrom first (a.spellings first count ++ values) := by
  obtain ⟨ns, hincreasing, hleast, rfl⟩ := h
  refine ⟨List.range' first count ++ ns, ?_, ?_, by rw [spellings, List.map_append]⟩
  · refine List.pairwise_append.mpr ⟨List.pairwise_lt_range' 1, hincreasing, ?_⟩
    intro n hn m hm
    have hlt := (List.mem_range'_1.mp hn).2
    have hle := hleast m hm
    omega
  · intro n hn
    rcases List.mem_append.mp hn with hn | hn
    · exact (List.mem_range'_1.mp hn).1
    · have hle := hleast n hn
      omega

/-- Numbers in a row are spelled from the first one on. -/
theorem spelledFrom_spellings (first count : ℕ) :
    a.SpelledFrom first (a.spellings first count) := by
  have hnone := spelledFrom_nil (a := a) (first + count)
  have hall := hnone.spellings_append
  rw [List.append_nil] at hall
  exact hall

/-- Strings that increasing numbers spell come in shortlex order. -/
theorem SpelledFrom.pairwise_before (h : a.SpelledFrom least values) :
    values.Pairwise a.Before := by
  obtain ⟨ns, hincreasing, -, rfl⟩ := h
  exact List.pairwise_map.mpr (hincreasing.imp fun {n m} hlt =>
    (a.lt_iff_before_spelling n m).mp hlt)

/-- Strings that increasing numbers spell are distinct. -/
theorem SpelledFrom.nodup (h : a.SpelledFrom least values) : values.Nodup := by
  obtain ⟨ns, hincreasing, -, rfl⟩ := h
  exact (hincreasing.imp Nat.ne_of_lt).map _ (fun _ _ hne heq => hne (a.spelling_injective heq))

end SelfNamed.Alphabet
