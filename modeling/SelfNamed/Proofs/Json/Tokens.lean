import Mathlib.Data.Nat.Digits.Defs
import SelfNamed.Json.Read
import SelfNamed.Json.Write

/-!
# Written texts and integers read back

The escapes of a written text are those that the scanner of texts resolves, so a text reads back
with whatever stands behind its closing quotation mark. The digits of an integer read back when what
stands behind them does not go on with the number. Integers of 64 bits are exact on both sides; a
magnitude with a sign reads back unless it is zero or beyond the least signed integer.
-/

namespace SelfNamed.Json

open Read
open Text (isDigit digitValue hexDigit? hexFour?)

/-- A decimal digit is a digit. -/
theorem isDigit_of_mem_toDigits {n : ℕ} {c : Char} (h : c ∈ Nat.toDigits 10 n) :
    isDigit c = true := Nat.isDigit_of_mem_toDigits (by decide) (by decide) h

/-- The first digit of a number other than zero is not zero. -/
theorem toDigits_eq_cons {n : ℕ} (h : n ≠ 0) :
    ∃ c rest, Nat.toDigits 10 n = c :: rest ∧ c ≠ '0' := by
  induction n using Nat.strongRecOn with
  | ind n ih =>
    by_cases hlt : n < 10
    · have hfirst : n.digitChar ≠ '0' := fun hzero => h (Nat.digitChar_eq_zero.mp hzero)
      exact ⟨n.digitChar, [], Nat.toDigits_of_lt_base hlt, hfirst⟩
    · have hle : 10 ≤ n := Nat.le_of_not_lt hlt
      have hquotient : n / 10 ≠ 0 := by omega
      obtain ⟨c, rest, hdigits, hc⟩ := ih (n / 10) (by omega) hquotient
      refine ⟨c, rest ++ [(n % 10).digitChar], ?_, hc⟩
      rw [Nat.toDigits_of_base_le (by decide) hle, hdigits, List.cons_append]

/-- What may stand behind a number: nothing that goes on with it. -/
def NumberEnd : List Char → Prop
  | [] => True
  | c :: _ => isDigit c = false ∧ c ≠ '.' ∧ c ≠ 'e' ∧ c ≠ 'E'

/-- Behind its digits an integer ends. -/
theorem scanAfterInteger_of_end (negative : Bool) (digits : ℕ) {tail : List Char}
    (h : NumberEnd tail) :
    scanAfterInteger negative digits tail = .ok (integer negative digits, tail) := by
  cases tail with
  | nil => rfl
  | cons c tail =>
    obtain ⟨-, hpoint, hlower, hupper⟩ := h
    unfold scanAfterInteger
    split
    · next heq => exact absurd (List.cons.inj heq).1 hpoint
    · next heq => exact absurd (List.cons.inj heq).1 hlower
    · next heq => exact absurd (List.cons.inj heq).1 hupper
    · rfl

/-- Digits that fit go to the significand one by one. -/
theorem scanInteger_append (negative : Bool) {digits tail : List Char} (hend : NumberEnd tail)
    (hdigits : ∀ c ∈ digits, isDigit c = true) {before : ℕ}
    (hfits : Nat.ofDigitChars 10 digits before < significandBound) :
    scanInteger negative before (digits ++ tail) =
      .ok (integer negative (Nat.ofDigitChars 10 digits before), tail) := by
  induction digits generalizing before with
  | nil =>
    have hafter := scanAfterInteger_of_end negative before hend
    cases tail with
    | nil => exact hafter
    | cons c tail =>
      rw [List.nil_append, scanInteger, if_neg (by simp [hend.1])]
      exact hafter
  | cons c digits ih =>
    have hnext : before * 10 + digitValue c = 10 * before + (c.toNat - '0'.toNat) := by
      rw [Nat.mul_comm]
      rfl
    rw [Nat.ofDigitChars_cons, ← hnext] at hfits ⊢
    have hle : before * 10 + digitValue c ≤
        Nat.ofDigitChars 10 digits (before * 10 + digitValue c) := by
      rw [Nat.ofDigitChars_eq_ofDigitChars_zero]
      have hpower : 0 < 10 ^ digits.length := Nat.pow_pos (by decide)
      have hscaled := Nat.le_mul_of_pos_left (before * 10 + digitValue c) hpower
      omega
    have hfit : fits before c = true := decide_eq_true (Nat.lt_of_le_of_lt hle hfits)
    rw [List.cons_append, scanInteger, if_pos (hdigits c List.mem_cons_self), if_pos hfit]
    exact ih (fun d hd => hdigits d (List.mem_cons_of_mem c hd)) hfits

/-- A number without its sign that does not begin with a zero is read digit by digit. -/
theorem scanUnsigned_cons (negative : Bool) {c : Char} (rest : List Char) (h : c ≠ '0') :
    scanUnsigned negative (c :: rest) =
      if isDigit c then scanInteger negative (digitValue c) rest
      else .error ⟨.badNumber, c :: rest, 1⟩ := by
  unfold scanUnsigned
  exact if_neg h

/-- The digits of a number that fits read back. -/
theorem scanUnsigned_toDigits (negative : Bool) {n : ℕ} (hn : n < significandBound)
    {tail : List Char} (hend : NumberEnd tail) :
    scanUnsigned negative (Nat.toDigits 10 n ++ tail) = .ok (integer negative n, tail) := by
  by_cases hzero : n = 0
  · have hafter := scanAfterInteger_of_end negative 0 hend
    rw [hzero, Nat.toDigits_zero, List.singleton_append]
    cases tail with
    | nil => exact hafter
    | cons c tail =>
      have hscan : scanUnsigned negative ('0' :: c :: tail) =
        if isDigit c then .error ⟨.badNumber, c :: tail, 1⟩
        else scanAfterInteger negative 0 (c :: tail) := rfl
      rw [hscan, if_neg (by simp [hend.1])]
      exact hafter
  · obtain ⟨c, digits, hdigits, hfirst⟩ := toDigits_eq_cons hzero
    have hmem (d : Char) (hd : d ∈ c :: digits) : isDigit d = true :=
      isDigit_of_mem_toDigits (hdigits ▸ hd)
    have hvalue : Nat.ofDigitChars 10 digits (digitValue c) = n := by
      have hall := @Nat.ofDigitChars_ten_toDigits n
      rw [hdigits, Nat.ofDigitChars_cons, Nat.mul_zero, Nat.zero_add] at hall
      exact hall
    have hscan := scanInteger_append negative hend
      (fun d hd => hmem d (List.mem_cons_of_mem c hd)) (hvalue.symm ▸ hn)
    rw [hvalue] at hscan
    rw [hdigits, List.cons_append, scanUnsigned_cons _ _ hfirst, if_pos (hmem c List.mem_cons_self)]
    exact hscan

/-- Digits are a number without a sign. -/
theorem scanNumber_toDigits (n : ℕ) (tail : List Char) :
    scanNumber (Nat.toDigits 10 n ++ tail) = scanUnsigned false (Nat.toDigits 10 n ++ tail) := by
  cases hdigits : Nat.toDigits 10 n with
  | nil => exact absurd hdigits Nat.toDigits_ne_nil
  | cons c digits =>
    have hdigit : isDigit c = true := isDigit_of_mem_toDigits (hdigits ▸ List.mem_cons_self)
    unfold scanNumber
    split
    · next heq =>
      rw [(List.cons.inj heq).1] at hdigit
      cases hdigit
    · rfl

namespace Number

/-- The number reads back from its text, whatever ends it. -/
def ReadsBack (n : Number) : Prop :=
  ∀ tail, NumberEnd tail → scanNumber (n.text ++ tail) = .ok (n, tail)

/-- An integer that is exact: from zero up, or below zero and not below the least signed one. -/
def Integral : Number → Prop
  | .natural _ => True
  | .negative magnitude => 1 ≤ magnitude.toNat ∧ magnitude.toNat ≤ Nat.pow 2 63
  | .real _ => False

/-- A number that reads back begins as numbers do. -/
theorem ReadsBack.begins {n : Number} (h : n.ReadsBack) :
    ∃ c rest, n.text = c :: rest ∧ (c = '-' ∨ isDigit c = true) := by
  have hscan := h [] trivial
  rw [List.append_nil] at hscan
  cases htext : n.text with
  | nil =>
    rw [htext] at hscan
    cases hscan
  | cons c rest =>
    refine ⟨c, rest, rfl, ?_⟩
    by_cases hsign : c = '-'
    · exact Or.inl hsign
    · rw [htext] at hscan
      unfold scanNumber at hscan
      split at hscan
      · next heq => exact absurd (List.cons.inj heq).1 hsign
      · by_cases hdigit : isDigit c = true
        · exact Or.inr hdigit
        · have hzero : c ≠ '0' := by
            rintro rfl
            exact hdigit rfl
          rw [scanUnsigned_cons _ _ hzero, if_neg hdigit] at hscan
          cases hscan

/-- Exact integers read back. -/
theorem Integral.readsBack {n : Number} (h : n.Integral) : n.ReadsBack := by
  intro tail hend
  cases n with
  | natural m =>
    have hm : m.toNat < significandBound := m.toNat_lt
    have hscan := scanUnsigned_toDigits false hm hend
    have hinteger : integer false m.toNat = .natural m := by
      rw [integer, if_neg Bool.false_ne_true, UInt64.ofNat_toNat]
    rw [hinteger] at hscan
    rw [text, scanNumber_toDigits]
    exact hscan
  | negative m =>
    have hm : m.toNat < significandBound := m.toNat_lt
    have hscan := scanUnsigned_toDigits true hm hend
    have hinteger : integer true m.toNat = .negative m := by
      have hbounds : 1 ≤ m.toNat ∧ m.toNat ≤ Nat.pow 2 63 := h
      rw [integer, if_pos rfl, if_pos hbounds, UInt64.ofNat_toNat]
    rw [hinteger] at hscan
    exact hscan
  | real x => exact h.elim

end Number

/-- A hexadecimal digit reads back. -/
theorem hexDigit?_hexChar {n : ℕ} (h : n < 16) : hexDigit? (hexChar n) = some n := by
  have hall : ∀ m : Fin 16, hexDigit? (hexChar m) = some m.val := by decide
  exact hall ⟨n, h⟩

/-- The numeric escape of a control character reads back. -/
theorem hexFour?_hexChar {n : ℕ} (h : n < 256) :
    hexFour? '0' '0' (hexChar (n / 16)) (hexChar (n % 16)) = some n := by
  have hzero : hexDigit? '0' = some 0 := rfl
  have hhigh : n / 16 < 16 := by omega
  have hlow : n % 16 < 16 := by omega
  rw [hexFour?, hzero, hexDigit?_hexChar hhigh, hexDigit?_hexChar hlow]
  simp only [Option.bind_eq_bind, Option.bind_some, Option.pure_def, Option.some.injEq]
  omega

/-- A written character reads back. -/
theorem scanText_escapeChar (c : Char) (tail : List Char) :
    scanText (escapeChar c ++ tail) = consChar c (scanText tail) := by
  by_cases hquote : c = '"'
  · rw [hquote]
    rfl
  by_cases hbackslash : c = '\\'
  · rw [hbackslash]
    rfl
  by_cases hback : c = '\x08'
  · rw [hback]
    rfl
  by_cases htab : c = '\t'
  · rw [htab]
    rfl
  by_cases hline : c = '\n'
  · rw [hline]
    rfl
  by_cases hfeed : c = '\x0c'
  · rw [hfeed]
    rfl
  by_cases hreturn : c = '\r'
  · rw [hreturn]
    rfl
  unfold escapeChar
  simp only [if_neg hquote, if_neg hbackslash, if_neg hback, if_neg htab, if_neg hline,
    if_neg hfeed, if_neg hreturn]
  by_cases hcontrol : c.toNat < 32
  · have htrailing : isTrailing c.toNat = false := by
      rw [isTrailing, decide_eq_false (by omega), Bool.false_and]
    have hleading : isLeading c.toNat = false := by
      rw [isLeading, decide_eq_false (by omega), Bool.false_and]
    rw [if_pos hcontrol]
    simp only [List.cons_append, List.nil_append]
    rw [scanText, hexFour?_hexChar (by omega)]
    simp only [htrailing, hleading, Char.ofNat_toNat]
    rfl
  · rw [if_neg hcontrol, List.singleton_append, scanText]
    · simp only [if_neg hbackslash, if_neg hcontrol]
    · exact hquote
    -- the character is no backslash, so no escape begins here
    · exact fun _ _ _ _ _ h _ => hbackslash h
    · exact fun _ h _ => hbackslash h
    · exact fun _ _ h _ => hbackslash h

/-- A written text reads back. -/
theorem scanText_writeChars (chars tail : List Char) :
    scanText (writeChars chars ('"' :: tail)) = .ok (chars, tail) := by
  induction chars with
  | nil => rw [writeChars, scanText]
  | cons c chars ih =>
    rw [writeChars, scanText_escapeChar, ih]
    rfl

end SelfNamed.Json
