import SelfNamed.Text.Digit
import SelfNamed.Toml.Basic

/-!
# The words of a TOML text

Scanners take blanks, comments, names, texts, numbers and dates off the front of a text. A scanner
gives what it has read and what is left, or nothing when the front of the text is no such word. What
a scanner leaves decides later whether the text is well formed: behind a value only blanks and a
comment may stand.
-/

namespace SelfNamed.Toml.Scan

open Text (isDigit digitValue hexDigit?)

/-- A blank within a line. -/
def isBlank (c : Char) : Bool := c == ' ' || c == '\t'

/-- The text behind the blanks in front. -/
def blanks (text : List Char) : List Char := text.dropWhile isBlank

/-- Whether a character is no control, the tab aside. -/
def isPlain (c : Char) : Bool := c == '\t' || (decide (32 ≤ c.toNat) && c.toNat != 127)

/-- The text behind a line break. -/
def lineBreak? : List Char → Option (List Char)
  | '\n' :: rest => some rest
  | '\r' :: '\n' :: rest => some rest
  | _ => none

/-- The text behind the characters of a comment. -/
def commentBody (text : List Char) : List Char := text.dropWhile isPlain

/-- The text behind a comment, if there is one. -/
def comment : List Char → List Char
  | '#' :: rest => commentBody rest
  | text => text

/-- The text behind what may follow in a line: blanks, a comment, and the end of the line. -/
def lineEnd? (text : List Char) : Option (List Char) :=
  match comment (blanks text) with
  | [] => some []
  | rest => lineBreak? rest

/-- The text behind blanks, line breaks and comments. -/
def gap : Nat → List Char → Option (List Char)
  | 0, _ => none
  | fuel + 1, text =>
    match blanks text with
    | '#' :: rest => (lineBreak? (commentBody rest)).bind (gap fuel)
    | '\n' :: rest => gap fuel rest
    | '\r' :: '\n' :: rest => gap fuel rest
    | rest => some rest

/-- Whether a character may stand in a bare name. -/
def isBare (c : Char) : Bool :=
  (decide ('a' ≤ c) && decide (c ≤ 'z')) || (decide ('A' ≤ c) && decide (c ≤ 'Z')) || isDigit c ||
    c == '_' || c == '-'

/-- The value of a digit of a base up to sixteen. -/
def digit? (base : Nat) (c : Char) : Option Nat := (hexDigit? c).filter fun n => decide (n < base)

/-- The number of a fixed count of hexadecimal digits. -/
def hexNumber? : Nat → Nat → List Char → Option (Nat × List Char)
  | 0, total, text => some (total, text)
  | count + 1, total, c :: rest => do
    let d ← digit? 16 c
    hexNumber? count (total * 16 + d) rest
  | _ + 1, _, [] => none

/-- The character of a code point, surrogates having none. -/
def scalar? (n : Nat) : Option Char :=
  if h : n.isValidChar then some (Char.ofNatAux n h) else none

/-- The character of an escape, from behind the backslash. -/
def escape? : List Char → Option (Char × List Char)
  | 'b' :: rest => some ('\x08', rest)
  | 't' :: rest => some ('\t', rest)
  | 'n' :: rest => some ('\n', rest)
  | 'f' :: rest => some ('\x0c', rest)
  | 'r' :: rest => some ('\r', rest)
  | '"' :: rest => some ('"', rest)
  | '\\' :: rest => some ('\\', rest)
  | 'u' :: rest => do
    let (n, rest) ← hexNumber? 4 0 rest
    return (← scalar? n, rest)
  | 'U' :: rest => do
    let (n, rest) ← hexNumber? 8 0 rest
    return (← scalar? n, rest)
  | _ => none

/-- A text on one line, from behind its opening double quote. -/
def basic : Nat → List Char → Option (List Char × List Char)
  | 0, _ => none
  | _ + 1, [] => none
  | fuel + 1, c :: rest =>
    if c = '"' then some ([], rest)
    else if c = '\\' then do
      let (e, rest) ← escape? rest
      let (chars, rest) ← basic fuel rest
      return (e :: chars, rest)
    else if isPlain c then do
      let (chars, rest) ← basic fuel rest
      return (c :: chars, rest)
    else none

/-- A text on one line that knows no escapes, from behind its opening single quote. -/
def literal (text : List Char) : Option (List Char × List Char) :=
  let chars := text.takeWhile fun c => isPlain c && c != '\''
  match text.drop chars.length with
  | '\'' :: rest => some (chars, rest)
  | _ => none

/-- The text behind one line break in front. -/
def dropLineBreak (text : List Char) : List Char := (lineBreak? text).getD text

/-- The text behind blanks and line breaks. -/
def blankLines : Nat → List Char → List Char
  | 0, text => text
  | fuel + 1, text =>
    match lineBreak? (blanks text) with
    | some rest => blankLines fuel rest
    | none => blanks text

/-- How many quotes of a kind stand in front. -/
def quoteRun (quote : Char) (text : List Char) : Nat := (text.takeWhile (· == quote)).length

/-- A text over several lines, from behind its three opening quotes and the line break there. Up to
two quotes may stand before the three closing ones; line breaks are read as line feeds. -/
def lines (quote : Char) (escapes : Bool) : Nat → List Char → Option (List Char × List Char)
  | 0, _ => none
  | _ + 1, [] => none
  | fuel + 1, c :: rest =>
    if c = quote then
      let run := quoteRun quote (c :: rest)
      if 6 ≤ run then none
      else if 3 ≤ run then some (List.replicate (run - 3) quote, (c :: rest).drop run)
      else do
        let (chars, rest) ← lines quote escapes fuel rest
        return (c :: chars, rest)
    else if c = '\\' ∧ escapes = true then
      match lineBreak? (blanks rest) with
      | some rest => lines quote escapes fuel (blankLines rest.length rest)
      | none => do
        let (e, rest) ← escape? rest
        let (chars, rest) ← lines quote escapes fuel rest
        return (e :: chars, rest)
    else if c = '\n' then do
      let (chars, rest) ← lines quote escapes fuel rest
      return ('\n' :: chars, rest)
    else if c = '\r' then
      match rest with
      | '\n' :: rest => do
        let (chars, rest) ← lines quote escapes fuel rest
        return ('\n' :: chars, rest)
      | _ => none
    else if isPlain c then do
      let (chars, rest) ← lines quote escapes fuel rest
      return (c :: chars, rest)
    else none

/-- A text value of any of the four forms. -/
def text? : List Char → Option (List Char × List Char)
  | '"' :: '"' :: '"' :: rest => lines '"' true (rest.length + 1) (dropLineBreak rest)
  | '"' :: rest => basic (rest.length + 1) rest
  | '\'' :: '\'' :: '\'' :: rest => lines '\'' false (rest.length + 1) (dropLineBreak rest)
  | '\'' :: rest => literal rest
  | _ => none

/-- A name without dots. -/
def simpleKey? (text : List Char) : Option (Key × List Char) :=
  let read :=
    match text with
    | '"' :: rest => basic (rest.length + 1) rest
    | '\'' :: rest => literal rest
    | _ =>
      let chars := text.takeWhile isBare
      if chars.isEmpty then none else some (chars, text.drop chars.length)
  read.map fun (chars, rest) => (⟨String.ofList chars, ⟨text, rest⟩⟩, rest)

/-- The greatest number of parts in a dotted name and of levels in a value, plus one. -/
def depthBound : Nat := 80

/-- A name with its dots: the parts before the last, the last, and the text behind the blanks there.
-/
def key? : Nat → List Char → Option (List Key × Key × List Char)
  | 0, _ => none
  | fuel + 1, text => do
    let (key, rest) ← simpleKey? (blanks text)
    match blanks rest with
    | '.' :: rest => do
      let (path, last, rest) ← key? fuel rest
      return (key :: path, last, rest)
    | rest => return ([], key, rest)

/-- Further digits of a number, single underscores between them. -/
def digitsTail (base : Nat) : List Char → List Nat × List Char
  | '_' :: c :: rest =>
    match digit? base c with
    | some d =>
      let (digits, rest) := digitsTail base rest
      (d :: digits, rest)
    | none => ([], '_' :: c :: rest)
  | c :: rest =>
    match digit? base c with
    | some d =>
      let (digits, rest) := digitsTail base rest
      (d :: digits, rest)
    | none => ([], c :: rest)
  | [] => ([], [])

/-- One digit or more, zeros in front allowed. -/
def digits? (base : Nat) : List Char → Option (List Nat × List Char)
  | c :: rest =>
    (digit? base c).map fun d =>
      let (digits, rest) := digitsTail base rest
      (d :: digits, rest)
  | [] => none

/-- One digit or more, without zeros in front. -/
def natural? : List Char → Option (List Nat × List Char)
  | '0' :: rest => some ([0], rest)
  | text => digits? 10 text

/-- The number that digits of a base spell. -/
def numberOf (base : Nat) (digits : List Nat) : Nat :=
  digits.foldl (fun total d => total * base + d) 0

/-- A sign in front: whether it is a minus, and what follows. -/
def sign : List Char → Bool × List Char
  | '-' :: rest => (true, rest)
  | '+' :: rest => (false, rest)
  | text => (false, text)

/-- An integer that fits 64 bits with its sign. -/
def integer? (text : List Char) : Option (Int × List Char) :=
  let based (base : Nat) (rest : List Char) : Option (Int × List Char) := do
    let (digits, rest) ← digits? base rest
    let n := numberOf base digits
    if n < Nat.pow 2 63 then some ((n : Int), rest) else none
  match text with
  | '0' :: 'x' :: rest => based 16 rest
  | '0' :: 'o' :: rest => based 8 rest
  | '0' :: 'b' :: rest => based 2 rest
  | _ => do
    let (negative, rest) := sign text
    let (digits, rest) ← natural? rest
    let n := numberOf 10 digits
    if negative then
      if n ≤ Nat.pow 2 63 then some (-(n : Int), rest) else none
    else if n < Nat.pow 2 63 then some ((n : Int), rest) else none

/-- An exponent, from its letter on. -/
def exponent? : List Char → Option (Int × List Char)
  | c :: rest =>
    if c = 'e' ∨ c = 'E' then do
      let (negative, rest) := sign rest
      let (digits, rest) ← digits? 10 rest
      let n := numberOf 10 digits
      return (if negative then -(n : Int) else (n : Int), rest)
    else none
  | [] => none

/-- A number with its sign. -/
def signed (negative : Bool) (x : Binary64) : Binary64 := if negative then x.negate else x

/-- A power of ten within the bounds beyond which so many digits spell zero or too great a number.
-/
def clampPower (digits : List Nat) (power : Int) : Int :=
  let bound : Int := digits.length + 400
  max (-bound) (min bound power)

/-- The nearest number to what the digits spell, times `10 ^ power`; too great a number is infinite.
-/
def decimal (digits : List Nat) (power : Int) : Binary64 :=
  Binary64.ofDecimal (numberOf 10 digits) (clampPower digits power)

/-- A floating-point number; only a negative one may be too great to be finite. -/
def real? (text : List Char) : Option (Binary64 × List Char) := do
  let (negative, body) := sign text
  match body with
  | 'i' :: 'n' :: 'f' :: rest => return (signed negative .infinity, rest)
  | 'n' :: 'a' :: 'n' :: rest => return (signed negative .undefined, rest)
  | _ => do
    let (whole, rest) ← natural? body
    let (digits, power, rest) ←
      match rest with
      | '.' :: rest => do
        let (fraction, rest) ← digits? 10 rest
        let (e, rest) := (exponent? rest).getD (0, rest)
        some (whole ++ fraction, e - (fraction.length : Int), rest)
      | _ => do
        let (e, rest) ← exponent? rest
        some (whole, e, rest)
    let x := signed negative (decimal digits power)
    if x = .infinity then none else return (x, rest)

/-- A number of a fixed count of decimal digits. -/
def fixed? : Nat → Nat → List Char → Option (Nat × List Char)
  | 0, total, text => some (total, text)
  | count + 1, total, c :: rest =>
    if isDigit c then fixed? count (total * 10 + digitValue c) rest else none
  | _ + 1, _, [] => none

/-- A number of two digits within bounds. -/
def pair? (low high : Nat) (text : List Char) : Option (Nat × List Char) := do
  let (n, rest) ← fixed? 2 0 text
  if low ≤ n ∧ n ≤ high then some (n, rest) else none

/-- The text behind a character that must stand in front. -/
def expect? (c : Char) : List Char → Option (List Char)
  | d :: rest => if c = d then some rest else none
  | [] => none

/-- The number of days of a month. -/
def monthDays (year month : Nat) : Nat :=
  if month = 2 then
    if (year % 4 = 0 ∧ year % 100 ≠ 0) ∨ year % 400 = 0 then 29 else 28
  else if month = 4 ∨ month = 6 ∨ month = 9 ∨ month = 11 then 30
  else 31

/-- A calendar date. -/
def day? (text : List Char) : Option (List Char) := do
  let (year, rest) ← fixed? 4 0 text
  let rest ← expect? '-' rest
  let (month, rest) ← pair? 1 12 rest
  let rest ← expect? '-' rest
  let (_, rest) ← pair? 1 (monthDays year month) rest
  return rest

/-- A time of day; a minute may have a second too many. -/
def time? (text : List Char) : Option (List Char) := do
  let (_, rest) ← pair? 0 23 text
  let rest ← expect? ':' rest
  let (_, rest) ← pair? 0 59 rest
  let rest ← expect? ':' rest
  let (_, rest) ← pair? 0 60 rest
  match rest with
  | '.' :: c :: rest' => if isDigit c then some (rest'.dropWhile isDigit) else some rest
  | _ => some rest

/-- The distance of a time from the universal one. -/
def zone? : List Char → Option (List Char)
  | c :: rest =>
    if c = 'Z' ∨ c = 'z' then some rest
    else if c = '+' ∨ c = '-' then do
      let (_, rest) ← pair? 0 23 rest
      let rest ← expect? ':' rest
      let (_, rest) ← pair? 0 59 rest
      return rest
    else none
  | [] => none

/-- A date, a time, or both. -/
def date? (text : List Char) : Option (List Char) :=
  match day? text with
  | none => time? text
  | some rest =>
    match rest with
    | c :: behind =>
      if c = 'T' ∨ c = 't' ∨ c = ' ' then
        match time? behind with
        | some rest' => some ((zone? rest').getD rest')
        | none => some rest
      else some rest
    | [] => some rest

/-- The text behind a word. -/
def word? : List Char → List Char → Option (List Char)
  | [], text => some text
  | w :: word, c :: text => if w = c then word? word text else none
  | _ :: _, [] => none

/-- A value without parts. -/
def scalarValue? (text : List Char) : Option (Scalar × List Char) :=
  match text with
  | [] => none
  | c :: _ =>
    if c = '"' ∨ c = '\'' then
      (text? text).map fun (chars, rest) => (.text (String.ofList chars), rest)
    else if c = 't' then (word? "true".toList text).map fun rest => (.truth true, rest)
    else if c = 'f' then (word? "false".toList text).map fun rest => (.truth false, rest)
    else
      match date? text with
      | some rest => some (.date, rest)
      | none =>
        match real? text with
        | some (x, rest) => some (.real x, rest)
        | none => (integer? text).map fun (n, rest) => (.integer n, rest)

end SelfNamed.Toml.Scan
