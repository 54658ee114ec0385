/-!
# Digits in texts

Decimal and hexadecimal digits, and the numbers that four hexadecimal digits spell in an escape.
Letters count in either case.
-/

namespace SelfNamed.Text

/-- Whether a character is a decimal digit. -/
def isDigit (c : Char) : Bool := decide ('0' ≤ c) && decide (c ≤ '9')

/-- The value of a decimal digit. -/
def digitValue (c : Char) : Nat := c.toNat - 48

/-- The value of a hexadecimal digit of either case. -/
def hexDigit? (c : Char) : Option Nat :=
  if '0' ≤ c ∧ c ≤ '9' then some (c.toNat - 48)
  else if 'a' ≤ c ∧ c ≤ 'f' then some (c.toNat - 87)
  else if 'A' ≤ c ∧ c ≤ 'F' then some (c.toNat - 55)
  else none

/-- The number that four hexadecimal digits spell. -/
def hexFour? (c₁ c₂ c₃ c₄ : Char) : Option Nat := do
  let d₁ ← hexDigit? c₁
  let d₂ ← hexDigit? c₂
  let d₃ ← hexDigit? c₃
  let d₄ ← hexDigit? c₄
  return ((d₁ * 16 + d₂) * 16 + d₃) * 16 + d₄

end SelfNamed.Text
