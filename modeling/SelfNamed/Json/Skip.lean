import SelfNamed.Json.Token

/-!
# Passing over values

A value that nobody asks for is passed over without being read. The grammar is that of reading, but
a number may be out of range, an escape may name half a pair of surrogates, and brackets may nest as
deep as they like. What is wrong is also said in other words here and there: a number that breaks
off is no number, and behind a comma a name, or a value, is missing. Every function takes its piece
off the front of the text and gives what follows.
-/

namespace SelfNamed.Json.Skip

open Text (isDigit hexFour?)
open Token (skipBlank scanWord simpleEscape? hexFault)

/-- Passes over a text value, from behind its opening quotation mark. -/
def text : List Char → Except Fault (List Char)
  | [] => .error ⟨.endInText, [], 0⟩
  | '"' :: rest => .ok rest
  | '\\' :: 'u' :: a :: b :: c :: d :: rest =>
    match hexFour? a b c d with
    | some _ => text rest
    | none => .error (hexFault (a :: b :: c :: d :: rest))
  | '\\' :: 'u' :: rest => .error (hexFault rest)
  | '\\' :: c :: rest =>
    match simpleEscape? c with
    | some _ => text rest
    | none => .error ⟨.badEscape, c :: rest, 1⟩
  | c :: rest =>
    if c = '\\' then .error ⟨.endInText, [], 0⟩
    else if c.toNat < 32 then .error ⟨.control, c :: rest, 0⟩
    else text rest

/-- Passes over one digit or more. -/
def digits : List Char → Except Fault (List Char)
  | [] => .error ⟨.badNumber, [], 0⟩
  | c :: rest =>
    if isDigit c then .ok (rest.dropWhile isDigit) else .error ⟨.badNumber, c :: rest, 1⟩

/-- Passes over the exponent of a number, if there is one. -/
def exponent : List Char → Except Fault (List Char)
  | [] => .ok []
  | c :: rest =>
    if c = 'e' ∨ c = 'E' then
      match rest with
      | '+' :: rest => digits rest
      | '-' :: rest => digits rest
      | rest => digits rest
    else .ok (c :: rest)

/-- Passes over what follows the integral digits of a number. -/
def fraction : List Char → Except Fault (List Char)
  | '.' :: rest => do exponent (← digits rest)
  | rest => exponent rest

/-- Passes over a number without its sign. -/
def unsigned : List Char → Except Fault (List Char)
  | '0' :: c :: rest =>
    if isDigit c then .error ⟨.badNumber, c :: rest, 1⟩ else fraction (c :: rest)
  | text => do fraction (← digits text)

/-- Passes over a number, from its sign or first digit on. -/
def number : List Char → Except Fault (List Char)
  | '-' :: rest => unsigned rest
  | text => unsigned text

mutual

/-- Passes over the value at the front of a text. -/
def value : Nat → List Char → Except Fault (List Char)
  | 0, start => .error ⟨.tooDeep, start, 0⟩
  | fuel + 1, start =>
    match skipBlank start with
    | [] => .error ⟨.endInValue, [], 0⟩
    | c :: rest =>
      if c = '"' then text rest
      else if c = '[' then items fuel true rest
      else if c = '\x7b' then members fuel true rest
      else if c = 'n' then scanWord ['u', 'l', 'l'] rest
      else if c = 't' then scanWord ['r', 'u', 'e'] rest
      else if c = 'f' then scanWord ['a', 'l', 's', 'e'] rest
      else if c = '-' ∨ isDigit c then number (c :: rest)
      else .error ⟨.noValue, c :: rest, 1⟩

/-- Passes over the items of an array, from behind the bracket or an item on. -/
def items : Nat → Bool → List Char → Except Fault (List Char)
  | 0, _, start => .error ⟨.tooDeep, start, 0⟩
  | fuel + 1, first, start =>
    match skipBlank start with
    | [] => .error ⟨.endInList, [], 0⟩
    | c :: rest =>
      if c = ']' then .ok rest
      else if first then item fuel (c :: rest)
      else if c = ',' then item fuel rest
      else .error ⟨.noListEnd, c :: rest, 1⟩

/-- Passes over one item and those after it. -/
def item : Nat → List Char → Except Fault (List Char)
  | 0, start => .error ⟨.tooDeep, start, 0⟩
  | fuel + 1, start => do
    let rest ← value fuel start
    items fuel false rest

/-- Passes over the members of an object, from behind the brace or a member on. -/
def members : Nat → Bool → List Char → Except Fault (List Char)
  | 0, _, start => .error ⟨.tooDeep, start, 0⟩
  | fuel + 1, first, start =>
    match skipBlank start with
    | [] => .error ⟨.endInObject, [], 0⟩
    | c :: rest =>
      if c = '\x7d' then .ok rest
      else if first then member fuel (c :: rest)
      else if c = ',' then member fuel rest
      else .error ⟨.noObjectEnd, c :: rest, 1⟩

/-- Passes over one member and those after it. -/
def member : Nat → List Char → Except Fault (List Char)
  | 0, start => .error ⟨.tooDeep, start, 0⟩
  | fuel + 1, start =>
    match skipBlank start with
    | [] => .error ⟨.endInObject, [], 0⟩
    | c :: name =>
      if c = '"' then do
        let rest ← text name
        match skipBlank rest with
        | [] => .error ⟨.endInObject, [], 0⟩
        | c :: start =>
          if c = ':' then do
            let rest ← value fuel start
            members fuel false rest
          else .error ⟨.noColon, c :: start, 1⟩
      else .error ⟨.noName, c :: name, 1⟩

end

/-- More steps than a text takes. -/
def fuelFor (start : List Char) : Nat := 3 * start.length + 6

/-- What follows the value at the front of a text. -/
def front (start : List Char) : Except Fault (List Char) := value (fuelFor start) start

/-- The fault on passing over the value at the front of a text, if there is one. -/
def fault? (start : List Char) : Option Fault :=
  match front start with
  | .ok _ => none
  | .error fault => some fault

end SelfNamed.Json.Skip
