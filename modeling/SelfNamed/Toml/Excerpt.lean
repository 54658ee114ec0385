import SelfNamed.Text.Bytes
import SelfNamed.Toml.Basic

/-!
# Showing a place of a text

An excerpt names a place by its line and column, both counted from one in characters, shows the
line, and puts a caret under every byte of the place. The carets end where the line ends, whose
length is counted in bytes and the place's column in characters. A margin to the left is as wide as
the line's number.
-/

namespace SelfNamed.Toml

open Text (byteLength)

/-- A line of a text, cut where a place begins. -/
structure Placed where
  /-- The number of the line, from one. -/
  number : Nat
  /-- The line up to the place. -/
  front : List Char
  /-- The line from the place on. -/
  back : List Char

/-- The line of a place in a text. -/
def Span.placed (span : Span) (text : List Char) : Placed :=
  let before := text.take (text.length - span.start.length)
  { number := before.count '\n' + 1
    front := (before.reverse.takeWhile (· != '\n')).reverse
    back := span.start.takeWhile (· != '\n') }

/-- The number of carets under a place: one for each of its bytes, no more than the line is longer
than what is before the place, and at least one. -/
def Span.caretCount (span : Span) (placed : Placed) : Nat :=
  max 1 (min (byteLength span.start - byteLength span.stop)
    (byteLength placed.front + byteLength placed.back - placed.front.length))

/-- The excerpt of a place in a text. -/
def Span.excerpt (span : Span) (text : List Char) : String :=
  let placed := span.placed text
  let number := toString placed.number
  let column := placed.front.length + 1
  let spaces (n : Nat) : String := String.ofList (List.replicate n ' ')
  let margin := spaces (number.length + 1) ++ "|"
  let carets := String.ofList (List.replicate (span.caretCount placed) '^')
  "TOML parse error at line " ++ number ++ ", column " ++ toString column ++ "\n" ++
    margin ++ "\n" ++
    number ++ " | " ++ String.ofList (placed.front ++ placed.back) ++ "\n" ++
    margin ++ spaces column ++ carets ++ "\n"

end SelfNamed.Toml
