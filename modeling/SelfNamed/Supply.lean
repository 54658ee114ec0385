import SelfNamed.Event
import SelfNamed.Failure

/-!
# Sources of strings

A source is a state that answers each request with a string or a failure and moves on. Nothing else
is known of it here, so a law about every source is a law about every state type and every step.
`item` is a source as an iterator, `draw` takes its items until the first failure, and `answers`
asks a fixed number of times.
-/

namespace SelfNamed

/-- How a state of type `σ` answers requests for strings. -/
structure Supply (σ : Type) where
  /-- The answer of a state and the state after it. -/
  next : σ → Except Failure String × σ
  /-- What is told during the next request. -/
  trace : σ → List Event := fun _ => []

namespace Supply

variable {σ : Type}

/-- The state after a number of requests. -/
def after (supply : Supply σ) : Nat → σ → σ
  | 0, s => s
  | n + 1, s => supply.after n (supply.next s).2

/-- The first answers of a state. -/
def answers (supply : Supply σ) : Nat → σ → List (Except Failure String)
  | 0, _ => []
  | n + 1, s => (supply.next s).1 :: supply.answers n (supply.next s).2

/-- The next string as an item: none when the source fails. -/
def item (supply : Supply σ) (s : σ) : Option String × σ :=
  ((supply.next s).1.toOption, (supply.next s).2)

/-- Takes at most the given number of strings, ending with the first failure. -/
def draw (supply : Supply σ) : Nat → σ → List String × σ
  | 0, s => ([], s)
  | n + 1, s =>
    match supply.next s with
    | (.ok value, s') =>
      let (values, last) := supply.draw n s'
      (value :: values, last)
    | (.error _, s') => ([], s')

/-- What is told while strings are taken. -/
def drawTrace (supply : Supply σ) : Nat → σ → List Event
  | 0, _ => []
  | n + 1, s =>
    supply.trace s ++
      match supply.next s with
      | (.ok _, s') => supply.drawTrace n s'
      | (.error _, _) => []

/-- The string after the given number of others; none when the source fails before. -/
def nth (supply : Supply σ) (n : Nat) (s : σ) : Option String × σ :=
  let (values, s') := supply.draw (n + 1) s
  (values[n]?, s')

/-- To take one string is to ask for one item. -/
theorem draw_one (supply : Supply σ) (s : σ) :
    supply.draw 1 s = ((supply.item s).1.toList, (supply.item s).2) := by
  rw [draw, item]
  cases supply.next s with
  | mk answer s' => cases answer <;> rfl

/-- A string that comes after others moves the source as far as taking them all. -/
theorem source_nth (supply : Supply σ) (n : Nat) (s : σ) :
    (supply.nth n s).2 = (supply.draw (n + 1) s).2 := rfl

/-- The string after no others is the next item. -/
theorem nth_zero (supply : Supply σ) (s : σ) : supply.nth 0 s = supply.item s := by
  rw [nth, draw, item]
  cases supply.next s with
  | mk answer s' => cases answer <;> rfl

/-- The string after others comes after the items that are passed over, unless one of them is
missing. -/
theorem nth_succ (supply : Supply σ) (n : Nat) (s : σ) :
    supply.nth (n + 1) s =
      match supply.item s with
      | (some _, s') => supply.nth n s'
      | (none, s') => (none, s') := by
  rw [nth, draw, item]
  cases supply.next s with
  | mk answer s' => cases answer <;> rfl

end Supply

end SelfNamed
