import SelfNamed.Numbering
import SelfNamed.Supply

/-!
# The counter behind the strings

A generator spells its counter and counts on. The counter only grows, and at the greatest 64-bit
value every further request fails and changes nothing, so a generator never gives one string twice.
-/

namespace SelfNamed

/-- The greatest counter value, which is never spelled. -/
def lastCount : UInt64 := 0xffffffffffffffff

/-- A counter over an alphabet. -/
structure Generator where
  /-- The digits. -/
  alphabet : Alphabet
  /-- The counter value that is spelled next. -/
  count : UInt64

namespace Generator

/-- A generator over the standard alphabet that starts from zero. -/
def standard : Generator := ⟨Alphabet.standard, 0⟩

/-- The next string and the generator after it; at the last counter value a failure and no change.
-/
def next (g : Generator) : Except Failure String × Generator :=
  if g.count = lastCount then (.error (.exhausted g.count), g)
  else (.ok (g.alphabet.spelling g.count.toNat), { g with count := g.count + 1 })

/-- What is told during the next request. -/
def trace (g : Generator) : List Event :=
  if g.count = lastCount then [.exhausted g.count]
  else [.drawn g.count (g.alphabet.spelling g.count.toNat)]

/-- The string that the next request would give. -/
def peek (g : Generator) : Option String :=
  if g.count = lastCount then none else some (g.alphabet.spelling g.count.toNat)

/-- The generator as a source. -/
def supply : Supply Generator := ⟨next, trace⟩

/-- Looking ahead agrees with the next request. -/
theorem peek_eq_next (g : Generator) : g.peek = g.next.1.toOption := by
  unfold peek next
  split <;> rfl

end Generator

end SelfNamed
