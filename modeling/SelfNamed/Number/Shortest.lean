import SelfNamed.Number.Binary64

/-!
# The shortest decimal that reads back

Every finite number has decimals that round to it. `shortest` is the one with the fewest digits, and
among those the nearest to the number; a rule says which it is when two are equally near. The
decimals that round to a number fill an interval; its ends belong to it exactly when the number's
integer part is even. On the grid of one digit count, if any point lies in the interval then one of
the number's two neighbours does.
-/

namespace SelfNamed

/-- A decimal without sign: its first digit has the place value `10 ^ place`. -/
structure Decimal where
  /-- Digits from the first that counts to the last that counts. -/
  digits : List Nat
  /-- The power of ten of the first digit. -/
  place : Int
  deriving DecidableEq, Repr

/-- Which of two equally near decimals is taken. -/
inductive Tie where
  /-- The one with an even last digit. -/
  | even
  /-- The greater one. -/
  | up
  deriving DecidableEq, Repr

/-- The natural number nearest to a quotient. -/
def Tie.nearest (num den : Nat) : Tie → Nat
  | .even => Binary64.roundDiv num den
  | .up => (2 * num + den) / (2 * den)

namespace Binary64

/-- The digits of a natural number, the first one first. -/
def naturalDigits (n : Nat) : List Nat := (Nat.toDigits 10 n).map fun c => c.toNat - 48

/-- The power of ten of the first digit of a quotient below one. -/
def placeBelowOne (num den : Nat) : Nat → Nat → Int
  | 0, place => -(place : Int)
  | fuel + 1, place =>
    if den ≤ num * Nat.pow 10 place then -(place : Int)
    else placeBelowOne num den fuel (place + 1)

/-- The power of ten of the first digit of a positive quotient. -/
def placeOf (num den : Nat) : Int :=
  if den ≤ num then ((Nat.toDigits 10 (num / den)).length : Int) - 1
  else placeBelowOne num den 330 1

/-- Twice the distance from the number down to the end of its interval, in quarters of its last
place. -/
def gapBelow (x : Binary64) : Nat :=
  if x.significand = fractionBound ∧ x.exponent ≠ -1074 then 1 else 2

/-- Whether the decimal `digits · 10 ^ power` rounds to the number. -/
def admits (x : Binary64) (digits : Nat) (power : Int) : Bool :=
  let (num, den) :=
    if 0 ≤ power then (digits * Nat.pow 10 power.toNat, 1)
    else (digits, Nat.pow 10 (-power).toNat)
  let (lowNum, lowDen) := scaled (4 * x.significand - x.gapBelow) 4 x.exponent
  let (highNum, highDen) := scaled (4 * x.significand + 2) 4 x.exponent
  if x.significand % 2 = 0 then
    decide (lowNum * den ≤ num * lowDen) && decide (num * highDen ≤ highNum * den)
  else decide (lowNum * den < num * lowDen) && decide (num * highDen < highNum * den)

/-- The best admitted point on the grid `10 ^ power`, if there is one. -/
def onGrid (x : Binary64) (tie : Tie) (power : Int) : Option Nat :=
  let (num, den) := scaled x.significand 1 x.exponent
  let (num, den) :=
    if 0 ≤ power then (num, den * Nat.pow 10 power.toNat)
    else (num * Nat.pow 10 (-power).toNat, den)
  let low := num / den
  let near := tie.nearest num den
  if x.admits near power then some near
  else if x.admits low power then some low
  else if x.admits (low + 1) power then some (low + 1)
  else none

/-- The first grid with an admitted point, from coarse to fine. -/
def search (x : Binary64) (tie : Tie) (place : Int) : Nat → Nat → Nat × Int
  | 0, count =>
    let power := place - count
    ((x.onGrid tie power).getD 0, power)
  | fuel + 1, count =>
    let power := place - count
    match x.onGrid tie power with
    | some n => (n, power)
    | none => x.search tie place fuel (count + 1)

/-- The digits without the zeros at their end. -/
def trimZeros (digits : List Nat) : List Nat := (digits.reverse.dropWhile (· == 0)).reverse

/-- The shortest decimal that rounds to the number; a zero has the one digit zero. -/
def shortest (x : Binary64) (tie : Tie) : Decimal :=
  if x.isZero then ⟨[0], 0⟩
  else
    let (num, den) := scaled x.significand 1 x.exponent
    let (n, power) := x.search tie (placeOf num den) 17 0
    let digits := naturalDigits n
    ⟨trimZeros digits, power + digits.length - 1⟩

end Binary64

namespace Decimal

/-- A digit as a character. -/
def digitChar (d : Nat) : Char := Nat.digitChar d

/-- All digits in place, with a point and at least one digit on each side. -/
def positional (d : Decimal) : List Char :=
  let digits := d.digits.map digitChar
  if d.place < 0 then '0' :: '.' :: List.replicate ((-d.place).toNat - 1) '0' ++ digits
  else
    let whole := d.place.toNat + 1
    let padded := digits ++ List.replicate (whole - digits.length) '0'
    let fraction := padded.drop whole
    padded.take whole ++ '.' :: (if fraction.isEmpty then ['0'] else fraction)

/-- One digit before the point and the power of ten after an `e`, its sign always written. -/
def scientific (d : Decimal) : List Char :=
  let tail (rest : List Nat) : List Char :=
    (if rest.isEmpty then [] else '.' :: rest.map digitChar) ++
      'e' :: (if d.place < 0 then '-' else '+') :: Nat.toDigits 10 d.place.natAbs
  match d.digits with
  | [] => '0' :: tail []
  | first :: rest => digitChar first :: tail rest

end Decimal

end SelfNamed
