import SelfNamed.Json.Draft

/-!
# Reading JSON texts

The grammar is strict: no comments, no trailing commas, no leading zeros, and blanks are the space,
the tab and the two line breaks. Leaf scanners take one text, word or number off the front; `scan`
puts them together into a draft and says what is left. A number keeps as many digits as fit a 64-bit
integer, later ones only shift the power of ten, and one multiplication or division by the power
gives the value. Behind a value that cannot be read, reading goes on if it can be passed over.
-/

namespace SelfNamed.Json.Read

open Text (isDigit digitValue hexFour?)
open Token (skipBlank scanWord simpleEscape? hexFault)

/-- Whether a number is a leading surrogate. -/
def isLeading (n : Nat) : Bool := decide (0xd800 ≤ n) && decide (n ≤ 0xdbff)

/-- Whether a number is a trailing surrogate. -/
def isTrailing (n : Nat) : Bool := decide (0xdc00 ≤ n) && decide (n ≤ 0xdfff)

/-- The character of a pair of surrogates. -/
def pairChar (leading trailing : Nat) : Char :=
  Char.ofNat (0x10000 + (leading - 0xd800) * 0x400 + (trailing - 0xdc00))

/-- Puts a character in front of a scanned text. -/
def consChar (c : Char) (scanned : Except Fault (List Char × List Char)) :
    Except Fault (List Char × List Char) :=
  scanned.map fun (chars, rest) => (c :: chars, rest)

/-- The characters of a text from behind its opening quotation mark, and what follows the closing
one. -/
def scanText : List Char → Except Fault (List Char × List Char)
  | [] => .error ⟨.endInText, [], 0⟩
  | '"' :: rest => .ok ([], rest)
  | '\\' :: 'u' :: a :: b :: c :: d :: rest =>
    match hexFour? a b c d with
    | none => .error (hexFault (a :: b :: c :: d :: rest))
    | some unit =>
      if isTrailing unit then .error ⟨.loneSurrogate, rest, 0⟩
      else if isLeading unit then
        match rest with
        | '\\' :: 'u' :: e :: f :: g :: h :: rest' =>
          match hexFour? e f g h with
          | none => .error (hexFault (e :: f :: g :: h :: rest'))
          | some second =>
            if isTrailing second then consChar (pairChar unit second) (scanText rest')
            else .error ⟨.loneSurrogate, rest', 0⟩
        | '\\' :: 'u' :: rest' => .error (hexFault rest')
        | '\\' :: rest' =>
          if rest'.isEmpty then .error ⟨.endInText, [], 0⟩ else .error ⟨.openSurrogate, rest', 1⟩
        | [] => .error ⟨.endInText, [], 0⟩
        | _ => .error ⟨.openSurrogate, rest, 1⟩
      else consChar (Char.ofNat unit) (scanText rest)
  | '\\' :: 'u' :: rest => .error (hexFault rest)
  | '\\' :: c :: rest =>
    match simpleEscape? c with
    | some e => consChar e (scanText rest)
    | none => .error ⟨.badEscape, c :: rest, 1⟩
  | c :: rest =>
    if c = '\\' then .error ⟨.endInText, [], 0⟩
    else if c.toNat < 32 then .error ⟨.control, c :: rest, 1⟩
    else consChar c (scanText rest)

/-- The greatest power of ten that one multiplication or division takes. -/
def powerBound : Nat := 308

/-- A number divided by the greatest power of ten until the remaining power is small. -/
def divideDown (x : Binary64) (power : Int) : Nat → Binary64
  | 0 => x
  | fuel + 1 =>
    if power.natAbs ≤ powerBound then x.div (Binary64.ofDecimal 1 (-power))
    else if x.isZero then x
    else divideDown (x.div (Binary64.ofDecimal 1 powerBound)) (power + powerBound) fuel

/-- The magnitude of `digits · 10 ^ power`; none when it is too great. -/
def magnitude? (digits : Nat) (power : Int) : Option Binary64 :=
  let x := Binary64.ofRatio digits 1
  if power < 0 then some (divideDown x power 4)
  else if power.toNat ≤ powerBound then
    let y := x.mul (Binary64.ofDecimal 1 power)
    if y.isFinite then some y else none
  else if x.isZero then some x
  else none

/-- The number `digits · 10 ^ power` with its sign, in front of the rest of the text. -/
def scaledNumber (negative : Bool) (digits : Nat) (power : Int) (text : List Char) :
    Except Fault (Number × List Char) :=
  match magnitude? digits power with
  | some x => .ok (.real (if negative then x.negate else x), text)
  | none => .error ⟨.hugeNumber, text, 0⟩

/-- One past the greatest significand. -/
def significandBound : Nat := UInt64.size

/-- The greatest written exponent. -/
def exponentBound : Nat := 2147483647

/-- Whether one more digit fits the significand. -/
def fits (digits : Nat) (c : Char) : Bool := decide (digits * 10 + digitValue c < significandBound)

/-- Further digits of an exponent. -/
def scanExponentDigits (negative : Bool) (digits : Nat) (power : Int) (falling : Bool) :
    Nat → List Char → Except Fault (Number × List Char)
  | written, c :: rest =>
    if isDigit c then
      if exponentBound < written * 10 + digitValue c then
        if digits ≠ 0 ∧ falling = false then .error ⟨.hugeNumber, rest, 0⟩
        else
          .ok (.real (if negative then Binary64.zero.negate else Binary64.zero),
            rest.dropWhile isDigit)
      else scanExponentDigits negative digits power falling (written * 10 + digitValue c) rest
    else
      scaledNumber negative digits (if falling then power - written else power + written)
        (c :: rest)
  | written, [] =>
    scaledNumber negative digits (if falling then power - written else power + written) []

/-- The first digit of an exponent. -/
def scanExponentStart (negative : Bool) (digits : Nat) (power : Int) (falling : Bool) :
    List Char → Except Fault (Number × List Char)
  | [] => .error ⟨.endInValue, [], 0⟩
  | c :: rest =>
    if isDigit c then scanExponentDigits negative digits power falling (digitValue c) rest
    else .error ⟨.badNumber, c :: rest, 1⟩

/-- An exponent, from behind its letter. -/
def scanExponent (negative : Bool) (digits : Nat) (power : Int) :
    List Char → Except Fault (Number × List Char)
  | '+' :: rest => scanExponentStart negative digits power false rest
  | '-' :: rest => scanExponentStart negative digits power true rest
  | text => scanExponentStart negative digits power false text

/-- What follows the last digit of a number that is not a plain integer. -/
def scanTail (negative : Bool) (digits : Nat) (power : Int) :
    List Char → Except Fault (Number × List Char)
  | 'e' :: rest => scanExponent negative digits power rest
  | 'E' :: rest => scanExponent negative digits power rest
  | text => scaledNumber negative digits power text

/-- The digits behind the point; `taken` of them are in the significand already. -/
def scanFraction (negative : Bool) (power : Int) :
    Nat → Nat → List Char → Except Fault (Number × List Char)
  | digits, taken, c :: rest =>
    if isDigit c then
      if fits digits c then
        scanFraction negative power (digits * 10 + digitValue c) (taken + 1) rest
      else scanTail negative digits (power - taken) ((c :: rest).dropWhile isDigit)
    else if taken = 0 then .error ⟨.badNumber, c :: rest, 1⟩
    else scanTail negative digits (power - taken) (c :: rest)
  | digits, taken, [] =>
    if taken = 0 then .error ⟨.endInValue, [], 0⟩ else scanTail negative digits (power - taken) []

/-- Digits before the point that no longer fit the significand. -/
def scanLong (negative : Bool) (digits : Nat) : Nat → List Char → Except Fault (Number × List Char)
  | power, c :: rest =>
    if isDigit c then scanLong negative digits (power + 1) rest
    else if c = '.' then scanFraction negative power digits 0 rest
    else scanTail negative digits power (c :: rest)
  | power, [] => scanTail negative digits power []

/-- The number of plain digits. Minus zero and negative numbers below the 64-bit range are floating
point. -/
def integer (negative : Bool) (digits : Nat) : Number :=
  if negative then
    if 1 ≤ digits ∧ digits ≤ Nat.pow 2 63 then .negative (UInt64.ofNat digits)
    else .real (Binary64.ofRatio digits 1).negate
  else .natural (UInt64.ofNat digits)

/-- What follows the digits before the point. -/
def scanAfterInteger (negative : Bool) (digits : Nat) :
    List Char → Except Fault (Number × List Char)
  | '.' :: rest => scanFraction negative 0 digits 0 rest
  | 'e' :: rest => scanExponent negative digits 0 rest
  | 'E' :: rest => scanExponent negative digits 0 rest
  | text => .ok (integer negative digits, text)

/-- Further digits before the point. -/
def scanInteger (negative : Bool) : Nat → List Char → Except Fault (Number × List Char)
  | digits, c :: rest =>
    if isDigit c then
      if fits digits c then scanInteger negative (digits * 10 + digitValue c) rest
      else scanLong negative digits 1 rest
    else scanAfterInteger negative digits (c :: rest)
  | digits, [] => scanAfterInteger negative digits []

/-- A number without its sign. -/
def scanUnsigned (negative : Bool) : List Char → Except Fault (Number × List Char)
  | [] => .error ⟨.endInValue, [], 0⟩
  | c :: rest =>
    if c = '0' then
      match rest with
      | d :: _ =>
        if isDigit d then .error ⟨.badNumber, rest, 1⟩ else scanAfterInteger negative 0 rest
      | [] => scanAfterInteger negative 0 rest
    else if isDigit c then scanInteger negative (digitValue c) rest
    else .error ⟨.badNumber, c :: rest, 1⟩

/-- A number, from its sign or first digit on. -/
def scanNumber : List Char → Except Fault (Number × List Char)
  | '-' :: rest => scanUnsigned true rest
  | text => scanUnsigned false text

/-- How many levels of brackets may still open inside one more level; none when that level must not
open itself. Nesting without a bound stays so. -/
def enter? : Option Nat → Option (Option Nat)
  | none => some none
  | some n => if n ≤ 1 then none else some (some (n - 1))

/-- A draft and what follows it; nothing follows a value at which reading stopped. -/
abbrev Scanned := Draft × Option (List Char)

/-- What follows a value that cannot be read, if it can be passed over. -/
def beyond (start : List Char) : Option (List Char) := (Skip.front start).toOption

/-- A value that cannot be read. -/
def bad (start : List Char) (fault : Fault) : Scanned := (.bad start fault, beyond start)

/-- The draft of a scanned text value. -/
def textDraft (start rest : List Char) : Scanned :=
  match scanText rest with
  | .ok (chars, rest) => (.str start (String.ofList chars), some rest)
  | .error fault => bad start fault

/-- The draft of a scanned number. -/
def numberDraft (start : List Char) : Scanned :=
  match scanNumber start with
  | .ok (n, rest) => (.num start n, some rest)
  | .error fault => bad start fault

/-- The draft of a word. -/
def wordDraft (draft : Draft) (word text : List Char) : Scanned :=
  match scanWord word text with
  | .ok rest => (draft, some rest)
  | .error fault => bad draft.start fault

/-- What follows an array or an object, from how it stopped. -/
def after (start : List Char) : Option Fault → Option (List Char) → Option (List Char)
  | none, rest => rest
  | some _, _ => beyond start

mutual

/-- The value at the front of a text. -/
def scan (depth : Option Nat) : Nat → List Char → Scanned
  | 0, text => (.cut ⟨.tooDeep, text, 0⟩, none)
  | fuel + 1, text =>
    match skipBlank text with
    | [] => (.bad [] ⟨.endInValue, [], 0⟩, none)
    | c :: rest =>
      let start := c :: rest
      if c = '"' then textDraft start rest
      else if c = '[' then
        match enter? depth with
        | some inner =>
          let (items, stop, rest') := scanItems inner fuel true rest
          (.arr start items stop, after start stop rest')
        | none => (.arr start [] (some ⟨.tooDeep, start, 1⟩), beyond start)
      else if c = '\x7b' then
        match enter? depth with
        | some inner =>
          let (members, stop, rest') := scanMembers inner fuel true rest
          (.obj start members stop, after start stop rest')
        | none => (.obj start [] (some ⟨.tooDeep, start, 1⟩), beyond start)
      else if c = 'n' then wordDraft (.null start) ['u', 'l', 'l'] rest
      else if c = 't' then wordDraft (.bool start true) ['r', 'u', 'e'] rest
      else if c = 'f' then wordDraft (.bool start false) ['a', 'l', 's', 'e'] rest
      else if c = '-' ∨ isDigit c then numberDraft start
      else (.bad start ⟨.noValue, start, 1⟩, none)

/-- The items of an array from behind the bracket or an item on. -/
def scanItems (depth : Option Nat) :
    Nat → Bool → List Char → List Draft × Option Fault × Option (List Char)
  | 0, _, text => ([], some ⟨.tooDeep, text, 0⟩, none)
  | fuel + 1, first, text =>
    match skipBlank text with
    | [] => ([], some ⟨.endInList, [], 0⟩, none)
    | c :: rest =>
      if c = ']' then ([], none, some rest)
      else if first then scanItem depth fuel (c :: rest)
      else if c = ',' then
        match skipBlank rest with
        | [] => ([], some ⟨.endInValue, [], 0⟩, none)
        | d :: rest' =>
          if d = ']' then ([], some ⟨.trailingComma, d :: rest', 1⟩, none)
          else scanItem depth fuel (d :: rest')
      else ([], some ⟨.noListEnd, c :: rest, 1⟩, none)

/-- One item and those after it. -/
def scanItem (depth : Option Nat) :
    Nat → List Char → List Draft × Option Fault × Option (List Char)
  | 0, text => ([], some ⟨.tooDeep, text, 0⟩, none)
  | fuel + 1, text =>
    match scan depth fuel text with
    | (item, none) => ([item], none, none)
    | (item, some rest) =>
      let (items, stop, rest') := scanItems depth fuel false rest
      (item :: items, stop, rest')

/-- The members of an object from behind the brace or a member on. -/
def scanMembers (depth : Option Nat) :
    Nat → Bool → List Char → List (String × Draft) × Option Fault × Option (List Char)
  | 0, _, text => ([], some ⟨.tooDeep, text, 0⟩, none)
  | fuel + 1, first, text =>
    match skipBlank text with
    | [] => ([], some ⟨.endInObject, [], 0⟩, none)
    | c :: rest =>
      if c = '\x7d' then ([], none, some rest)
      else if first then
        if c = '"' then scanMember depth fuel rest else ([], some ⟨.noName, c :: rest, 1⟩, none)
      else if c = ',' then
        match skipBlank rest with
        | [] => ([], some ⟨.endInValue, [], 0⟩, none)
        | d :: rest' =>
          if d = '"' then scanMember depth fuel rest'
          else if d = '\x7d' then ([], some ⟨.trailingComma, d :: rest', 1⟩, none)
          else ([], some ⟨.noName, d :: rest', 1⟩, none)
      else ([], some ⟨.noObjectEnd, c :: rest, 1⟩, none)

/-- One member, from behind the first quotation mark of its name, and those after it. -/
def scanMember (depth : Option Nat) :
    Nat → List Char → List (String × Draft) × Option Fault × Option (List Char)
  | 0, text => ([], some ⟨.tooDeep, text, 0⟩, none)
  | fuel + 1, text =>
    match scanText text with
    | .error fault => ([], some fault, none)
    | .ok (chars, rest) =>
      let name := String.ofList chars
      match skipBlank rest with
      | [] => ([(name, .cut ⟨.endInObject, [], 0⟩)], none, none)
      | c :: rest' =>
        if c = ':' then
          match scan depth fuel rest' with
          | (member, none) => ([(name, member)], none, none)
          | (member, some rest'') =>
            let (members, stop, rest''') := scanMembers depth fuel false rest''
            ((name, member) :: members, stop, rest''')
        else ([(name, .cut ⟨.noColon, c :: rest', 1⟩)], none, none)

end

/-- The value at the front of a text. -/
def front (depth : Option Nat) (text : List Char) : Scanned := scan depth (Skip.fuelFor text) text

end Read

/-- The nesting of brackets that a text may have where it is limited: the level that would be this
one must not open. -/
def nestingBound : Nat := 128

/-- A whole text as a draft, and the fault of what stands after the value. -/
def readDraft (depth : Option Nat) (text : List Char) : Draft × Option Fault :=
  let (draft, rest) := Read.front depth text
  match rest with
  | none => (draft, none)
  | some rest =>
    match Token.skipBlank rest with
    | [] => (draft, none)
    | c :: rest' => (draft, some ⟨.trailingText, c :: rest', 1⟩)

/-- The canonical value that a text means. -/
def read (depth : Option Nat) (text : List Char) : Except Fault Json := do
  let (draft, trailing) := readDraft depth text
  Draft.settle trailing (← draft.value)

end SelfNamed.Json
