import SelfNamed.Alphabet

/-!
# What a pass can fail with

Every failure of the library is one of five causes. A cause has a wording and a stable numeric code;
the two causes that come from the settings have one code. A declarator that is not eligible is never
a failure.
-/

namespace SelfNamed

/-- Why an operation gave no result. -/
inductive Failure where
  /-- The configured symbols are no alphabet. -/
  | alphabet (cause : AlphabetError)
  /-- The counter cannot advance past the given value. -/
  | exhausted (count : UInt64)
  /-- The settings file cannot be read or understood. -/
  | settings (message : String)
  /-- The syntax tree cannot be read. -/
  | tree (message : String)
  /-- A shared source can no longer be used. -/
  | broken (message : String)
  deriving DecidableEq, Repr

/-- The stable code of a class of failures. -/
inductive FailureCode where
  /-- Symbols or settings. -/
  | settings
  /-- The counter. -/
  | range
  /-- The syntax tree. -/
  | tree
  /-- A source that broke. -/
  | broken
  deriving DecidableEq, Repr

/-- The number of a code. -/
def FailureCode.number : FailureCode → Nat
  | .settings => 2
  | .range => 3
  | .tree => 4
  | .broken => 10

namespace Failure

/-- The wording of a failure. -/
def message : Failure → String
  | .alphabet cause => "configuration error: " ++ cause.message
  | .exhausted count => "sequence counter out of range at " ++ toString count.toNat
  | .settings message => "config error: " ++ message
  | .tree message => "invalid syntax tree: " ++ message
  | .broken message => "internal error: " ++ message

/-- The code of a failure. -/
def code : Failure → FailureCode
  | .alphabet _ => .settings
  | .exhausted _ => .range
  | .settings _ => .settings
  | .tree _ => .tree
  | .broken _ => .broken

end Failure

end SelfNamed
