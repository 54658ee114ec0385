import SelfNamed.Shared

/-!
# Sources to choose from

A pass takes its strings from a generator, from a shared generator, or from a script of fixed
answers. The three are one type here, so that one program can be run over any of them.
-/

namespace SelfNamed

/-- Fixed answers in their order. -/
structure Script where
  /-- The answers still to come. -/
  answers : List (Except Failure String)
  /-- How often the script was asked. -/
  calls : UInt64 := 0

namespace Script

/-- The next answer; past the end the script is exhausted. -/
def next (s : Script) : Except Failure String × Script :=
  match s.answers with
  | [] => (.error (.exhausted lastCount), { s with calls := s.calls + 1 })
  | answer :: rest => (answer, ⟨rest, s.calls + 1⟩)

end Script

/-- A source of one of three kinds. -/
inductive Source where
  /-- A counter of its own. -/
  | generator (generator : Generator)
  /-- A shared counter. -/
  | shared (shared : Shared)
  /-- Fixed answers. -/
  | script (script : Script)

namespace Source

/-- The next answer of a source. -/
def next : Source → Except Failure String × Source
  | .generator g => let (answer, g) := g.next; (answer, .generator g)
  | .shared s => let (answer, s) := s.next; (answer, .shared s)
  | .script s => let (answer, s) := s.next; (answer, .script s)

/-- What is told during the next request. -/
def trace : Source → List Event
  | .generator g => g.trace
  | .shared s => s.trace
  | .script _ => []

/-- How far a source has come. -/
def counter : Source → Except Failure UInt64
  | .generator g => .ok g.count
  | .shared s => s.counter
  | .script s => .ok s.calls

/-- Any source. -/
def supply : Supply Source := ⟨next, trace⟩

end Source

end SelfNamed
