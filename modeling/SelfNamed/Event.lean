/-!
# What a pass says while it works

A source of strings and a pass over a module each tell what they do. An event names its cause;
level, message and fields are functions of it, so that a log is a list of events in the order of the
work.
-/

namespace SelfNamed

/-- Something worth telling. -/
inductive Event where
  /-- A counter value was spelled and handed out. -/
  | drawn (count : UInt64) (value : String)
  /-- A counter could not advance. -/
  | exhausted (count : UInt64)
  /-- An exported declarator was left as it is; its name and the kind of its initial value. -/
  | declaratorKept (name : String) (init : String)
  /-- A literal got a new value. -/
  | literalReplaced (name : String) (value : String)
  /-- An export of something other than variables was passed over. -/
  | exportKept (kind : String)
  /-- An export that declares nothing was passed over. -/
  | exportEmpty
  /-- A pass came to its end. -/
  | finished (replaced statements : Nat)
  deriving DecidableEq, Repr

namespace Event

/-- How loud an event is. -/
def level : Event → String
  | .drawn .. => "TRACE"
  | .exhausted .. => "WARN"
  | .declaratorKept .. => "DEBUG"
  | .literalReplaced .. => "DEBUG"
  | .exportKept .. => "DEBUG"
  | .exportEmpty => "DEBUG"
  | .finished .. => "INFO"

/-- The wording of an event. -/
def message : Event → String
  | .drawn .. => "generated unique string"
  | .exhausted .. => "sequence counter exhausted"
  | .declaratorKept .. => "skipping exported declarator"
  | .literalReplaced .. => "rewrote mirror export"
  | .exportKept .. => "skipping non-variable export"
  | .exportEmpty => "skipping export without declaration"
  | .finished .. => "export mirror rewrite complete"

/-- The named details of an event, numbers in decimal. -/
def fields : Event → List (String × String)
  | .drawn count value => [("count", toString count.toNat), ("value", value)]
  | .exhausted count => [("count", toString count.toNat)]
  | .declaratorKept name init => [("name", name), ("init", init)]
  | .literalReplaced name value => [("name", name), ("value", value)]
  | .exportKept kind => [("kind", kind)]
  | .exportEmpty => []
  | .finished replaced statements =>
    [("replaced", toString replaced), ("statements", toString statements)]

end Event

end SelfNamed
