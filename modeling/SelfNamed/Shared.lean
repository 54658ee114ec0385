import SelfNamed.Generator

/-!
# A generator behind a lock

Several handles draw from one generator, one call at a time, so a run over all handles is a list of
calls in some order. A caller that dies during its call leaves the generator where it was and the
lock broken; from then on every handle answers with a failure. A pool holds generators of their own
owners and handles on shared ones.
-/

namespace SelfNamed

/-- A generator that handles share. -/
structure Shared where
  /-- The generator behind the lock. -/
  generator : Generator
  /-- Whether a caller died while it held the lock. -/
  broken : Bool := false

namespace Shared

/-- What every call on a broken lock answers. -/
def refusal : Failure :=
  .broken "sequence lock poisoned: poisoned lock: another task failed inside"

/-- The next string of the generator behind the lock. -/
def next (s : Shared) : Except Failure String × Shared :=
  if s.broken then (.error refusal, s)
  else
    let (answer, generator) := s.generator.next
    (answer, { s with generator })

/-- What is told during the next request: nothing once the lock is broken. -/
def trace (s : Shared) : List Event := if s.broken then [] else s.generator.trace

/-- The counter behind the lock. -/
def counter (s : Shared) : Except Failure UInt64 :=
  if s.broken then .error refusal else .ok s.generator.count

/-- A caller dies during its call, before the counter moves. -/
def die (s : Shared) : Shared := { s with broken := true }

/-- The shared generator as a source. -/
def supply : Supply Shared := ⟨next, trace⟩

/-- Some callers that each ask a number of times: all answers, in the order of the calls. -/
def callers (s : Shared) (callers calls : Nat) : List (Except Failure String) × Shared :=
  (supply.answers (callers * calls) s, supply.after (callers * calls) s)

end Shared

/-- An entry of a pool. -/
inductive PoolEntry where
  /-- A generator of its own. -/
  | owned (generator : Generator)
  /-- A handle on the shared generator of the given index. -/
  | handle (index : Nat)

/-- Generators and shared generators in use, entries in the order of their making. -/
structure Pool where
  /-- The entries. -/
  entries : List PoolEntry
  /-- The shared generators. -/
  shared : List Shared

namespace Pool

/-- A call on an entry of a pool. -/
inductive Call where
  /-- The next string. -/
  | next
  /-- The counter. -/
  | counter
  /-- A copy of a generator, or another handle on the same shared one. -/
  | clone
  /-- The string that comes next, left in place. -/
  | peek
  /-- The symbols. -/
  | alphabet
  /-- At most so many strings, up to the first failure. -/
  | take (count : Nat)
  /-- The string after so many others. -/
  | nth (count : Nat)
  /-- A shared generator that goes on from where this one is. -/
  | share
  /-- A caller dies during its call. -/
  | die

/-- What a call answers. -/
inductive Answer where
  /-- A string or a failure. -/
  | string (value : Except Failure String)
  /-- A counter or a failure. -/
  | count (value : Except Failure UInt64)
  /-- The index of a new entry. -/
  | entry (index : Nat)
  /-- A string, if there is one. -/
  | optional (value : Option String)
  /-- Several strings. -/
  | strings (values : List String)
  /-- The caller died. -/
  | died
  /-- The entry is missing or does not know the call. -/
  | unknown

/-- A new entry at the end. -/
def push (p : Pool) (entry : PoolEntry) : Pool := { p with entries := p.entries ++ [entry] }

/-- A new shared generator and a handle on it. -/
def pushShared (p : Pool) (generator : Generator) : Pool :=
  { entries := p.entries ++ [.handle p.shared.length], shared := p.shared ++ [⟨generator, false⟩] }

/-- A call on a generator that has one owner. -/
def callOwned (p : Pool) (index : Nat) (g : Generator) : Call → Answer × Pool × List Event
  | .next =>
    let (answer, g') := g.next
    (.string answer, { p with entries := p.entries.set index (.owned g') }, g.trace)
  | .counter => (.count (.ok g.count), p, [])
  | .clone => (.entry p.entries.length, p.push (.owned g), [])
  | .peek => (.optional g.peek, p, [])
  | .alphabet => (.optional (some g.alphabet.text), p, [])
  | .take count =>
    let (values, g') := Generator.supply.draw count g
    (.strings values, { p with entries := p.entries.set index (.owned g') },
      Generator.supply.drawTrace count g)
  | .nth count =>
    let (value, g') := Generator.supply.nth count g
    (.optional value, { p with entries := p.entries.set index (.owned g') },
      Generator.supply.drawTrace (count + 1) g)
  | .share => (.entry p.entries.length, p.pushShared g, [])
  | .die => (.unknown, p, [])

/-- A call on a handle. -/
def callHandle (p : Pool) (index : Nat) (s : Shared) : Call → Answer × Pool × List Event
  | .next =>
    let (answer, s') := s.next
    (.string answer, { p with shared := p.shared.set index s' }, s.trace)
  | .counter => (.count s.counter, p, [])
  | .clone => (.entry p.entries.length, p.push (.handle index), [])
  | .die =>
    if s.broken then (.string (.error Shared.refusal), p, [])
    else (.died, { p with shared := p.shared.set index s.die }, [])
  | _ => (.unknown, p, [])

/-- A call on an entry. -/
def call (p : Pool) (index : Nat) (c : Call) : Answer × Pool × List Event :=
  match p.entries[index]? with
  | some (.owned g) => p.callOwned index g c
  | some (.handle cell) =>
    match p.shared[cell]? with
    | some s => p.callHandle cell s c
    | none => (.unknown, p, [])
  | none => (.unknown, p, [])

/-- The answers and the events of a list of calls. -/
def run (p : Pool) : List (Nat × Call) → List Answer × List Event
  | [] => ([], [])
  | (index, c) :: rest =>
    let (answer, p', events) := p.call index c
    let (answers, later) := run p' rest
    (answer :: answers, events ++ later)

end Pool

end SelfNamed
