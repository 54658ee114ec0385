import SelfNamed.Json.Read
import SelfNamed.Json.Write
import SelfNamed.Text.Quoted

/-!
# Decoding drafts into records

A record is decoded from the members of an object in the order in which they stand, and the first
thing that is wrong is the error: a value of the wrong kind, a field given twice, or a fault of the
text. Fields that are missing are noticed last. Some records may also be given as an array of their
fields. The same decoders serve a text, a canonical value and the inside of a tagged node; the few
differences between the three are in the setting.
-/

namespace SelfNamed.Json

/-- Where the data that is decoded comes from. -/
inductive Setting where
  /-- Straight from a text. -/
  | text
  /-- From a canonical value. -/
  | value
  /-- From inside a node that was first held as a whole. -/
  | held
  deriving DecidableEq, Repr

/-- A value of a kind that was not asked for. -/
inductive Got where
  /-- The null value. -/
  | null
  /-- A truth value. -/
  | boolean (b : Bool)
  /-- An integer. -/
  | integer (n : Int)
  /-- A floating-point number. -/
  | real (x : Binary64)
  /-- A text. -/
  | text (s : String)
  /-- An array. -/
  | sequence
  /-- An object. -/
  | map
  deriving DecidableEq, Repr

/-- A value in the words of a message; the first argument writes floating-point numbers. -/
def Got.message (real : Binary64 → String) : Got → String
  | .null => "null"
  | .boolean b => "boolean \x60" ++ String.ofList (boolText b) ++ "\x60"
  | .integer n => "integer \x60" ++ toString n ++ "\x60"
  | .real x => "floating point \x60" ++ real x ++ "\x60"
  | .text s => "string " ++ Text.quotedText s
  | .sequence => "sequence"
  | .map => "map"

/-- How data differs from what a record asks for. -/
inductive Mismatch where
  /-- A field is not given. -/
  | missing (field : String)
  /-- A field is given twice. -/
  | repeated (field : String)
  /-- A value of another kind stands there. -/
  | kind (got : Got) (want : String)
  /-- A value of the right kind is not acceptable. -/
  | value (got : Got) (want : String)
  /-- A name is none of the known ones. -/
  | unknown (name : String) (known : List String)
  /-- An array has too few or too many items. -/
  | length (count : Nat) (want : String)
  deriving DecidableEq, Repr

/-- Names between grave accents and commas. -/
def nameList (names : List String) : String :=
  ", ".intercalate (names.map fun name => "\x60" ++ name ++ "\x60")

/-- The wording of a mismatch; the first argument writes floating-point numbers. -/
def Mismatch.message (real : Binary64 → String) : Mismatch → String
  | .missing field => "missing field \x60" ++ field ++ "\x60"
  | .repeated field => "duplicate field \x60" ++ field ++ "\x60"
  | .kind got want => "invalid type: " ++ got.message real ++ ", expected " ++ want
  | .value got want => "invalid value: " ++ got.message real ++ ", expected " ++ want
  | .unknown name known =>
    "unknown variant \x60" ++ name ++ "\x60, expected one of " ++ nameList known
  | .length count want => "invalid length " ++ toString count ++ ", expected " ++ want

/-- Why data gives no record. -/
inductive DecodeError where
  /-- The text cannot be read. -/
  | fault (fault : Fault)
  /-- The data is not what is asked for. -/
  | mismatch (mismatch : Mismatch)
  deriving DecidableEq, Repr

/-- The wording of an error of decoding the given text. -/
def DecodeError.message (text : List Char) : DecodeError → String
  | .fault f => f.message text
  | .mismatch m => m.message fun x => String.ofList (realText x)

/-- The outcome of decoding. -/
abbrev Decoded := Except DecodeError

/-- A mismatch as an outcome. -/
def mismatched {α : Type} (m : Mismatch) : Decoded α := .error (.mismatch m)

/-- A fault, if any, goes before a result. -/
def afterFault {α : Type} (stop : Option Fault) (result : Decoded α) : Decoded α :=
  match stop with
  | some fault => .error (.fault fault)
  | none => result

/-- A number in the words of a message. -/
def Number.got : Number → Got
  | .natural n => .integer n.toNat
  | .negative magnitude => .integer (-(magnitude.toNat : Int))
  | .real x => .real x

namespace Draft

/-- The outcome when a value is of another kind than asked for. -/
def refuse {α : Type} (want : String) : Draft → Decoded α
  | .null _ => mismatched (.kind .null want)
  | .bool _ b => mismatched (.kind (.boolean b) want)
  | .num _ n => mismatched (.kind n.got want)
  | .str _ s => mismatched (.kind (.text s) want)
  | .arr .. => mismatched (.kind .sequence want)
  | .obj .. => mismatched (.kind .map want)
  | .bad _ fault => .error (.fault fault)
  | .cut fault => .error (.fault fault)

/-- A text. -/
def text : Draft → Decoded String
  | .str _ s => .ok s
  | d => d.refuse "a string"

/-- A truth value. -/
def boolean : Draft → Decoded Bool
  | .bool _ b => .ok b
  | d => d.refuse "a boolean"

/-- A number. -/
def number : Draft → Decoded Number
  | .num _ n => .ok n
  | d => d.refuse "a JSON number"

/-- An integer from zero up to a bound, in the words of a message. -/
def natural (bound : Nat) (want : String) : Draft → Decoded UInt64
  | .num _ (.natural n) =>
    if n.toNat ≤ bound then .ok n else mismatched (.value (Number.natural n).got want)
  | .num _ (.negative n) => mismatched (.value (Number.negative n).got want)
  | d => d.refuse want

/-- An integer of 64 bits. -/
def word (d : Draft) : Decoded UInt64 := d.natural (UInt64.size - 1) "u64"

/-- An integer of 8 bits. -/
def byte (d : Draft) : Decoded UInt64 := d.natural 255 "u8"

/-- A number of things. -/
def count (d : Draft) : Decoded UInt64 := d.natural (UInt64.size - 1) "usize"

/-- Any value, kept as it is. -/
def kept (d : Draft) : Decoded Json :=
  match d.value with
  | .ok j => .ok j
  | .error fault => .error (.fault fault)

/-- Null for nothing, and else what the decoder gives. What begins like null must be null. -/
def optional {α : Type} (decode : Draft → Decoded α) : Draft → Decoded (Option α)
  | .null _ => .ok none
  | .bad ('n' :: _) fault => .error (.fault fault)
  | d => (decode d).map some

/-- The items of a list, each decoded. -/
def items {α : Type} (decode : Draft → Decoded α) : List Draft → Decoded (List α)
  | [] => .ok []
  | d :: rest => do
    let a ← decode d
    let as ← items decode rest
    return a :: as

/-- A list of things. -/
def list {α : Type} (decode : Draft → Decoded α) : Draft → Decoded (List α)
  | .arr _ drafts stop => do
    let as ← items decode drafts
    afterFault stop (.ok as)
  | d => d.refuse "a sequence"

end Draft

/-- A field of a record that is put together in a state of type `ρ`. -/
structure Slot (ρ : Type) where
  /-- The name of the field. -/
  name : String
  /-- Whether an array may end before the field. -/
  spare : Bool
  /-- Puts a value of the field into the state. -/
  fill : Draft → ρ → Decoded ρ

/-- Goes through members in order: known ones fill the state, no one twice, and `other` sees the
rest. -/
def fillMembers {ρ : Type} (slots : List (Slot ρ)) (other : String → Draft → ρ → Decoded ρ) :
    List String → List (String × Draft) → ρ → Decoded ρ
  | _, [], r => .ok r
  | seen, (name, d) :: rest, r =>
    match slots.find? fun slot => slot.name == name with
    | some slot =>
      if seen.contains name then mismatched (.repeated name)
      else do
        let r ← slot.fill d r
        fillMembers slots other (name :: seen) rest r
    | none => do
      let r ← other name d r
      fillMembers slots other seen rest r

/-- A record that must be given as an object. -/
def fillObject {ρ : Type} (title : String) (slots : List (Slot ρ))
    (other : String → Draft → ρ → Decoded ρ) (empty : ρ) : Draft → Decoded ρ
  | .obj _ members stop => do
    let r ← fillMembers slots other [] members empty
    afterFault stop (.ok r)
  | d => d.refuse ("struct " ++ title)

/-- Passes over a member that a record does not know. -/
def passOver {ρ : Type} (_ : String) (d : Draft) (r : ρ) : Decoded ρ := afterFault d.skip (.ok r)

/-- So many elements, in words. -/
def elementCount (n : Nat) : String :=
  toString n ++ (if n = 1 then " element" else " elements")

/-- What an array says that goes on after the last field. -/
def surplus {ρ : Type} (setting : Setting) (wanted : Nat) (items : List Draft) (stop : Option Fault)
    (r : ρ) : Decoded ρ :=
  match items.drop wanted, setting with
  | [], .text =>
    match stop with
    | none => .ok r
    | some fault =>
      match fault.flaw with
      | .noListEnd => .error (.fault { fault with flaw := .trailingText })
      | .endInValue => .error (.fault { fault with flaw := .trailingText })
      | _ => .error (.fault fault)
  | [], _ => .ok r
  | d :: _, .text => .error (.fault ⟨.trailingText, d.start, 1⟩)
  | _ :: _, .value => mismatched (.length items.length "fewer elements in array")
  | _ :: _, .held => mismatched (.length items.length (elementCount wanted ++ " in sequence"))

/-- Fills the fields from the items of an array, in order; `done` items came before. -/
def fillItems {ρ : Type} (title : String) (total : Nat) (stop : Option Fault) :
    Nat → List (Slot ρ) → List Draft → ρ → Decoded ρ
  | _, [], _, r => .ok r
  | done, slot :: slots, d :: rest, r => do
    let r ← slot.fill d r
    fillItems title total stop (done + 1) slots rest r
  | done, slot :: slots, [], r =>
    afterFault stop <|
      if slot.spare then fillItems title total stop done slots [] r
      else mismatched (.length done ("struct " ++ title ++ " with " ++ elementCount total))

/-- A record that may be given as an object, unknown members passed over, or as an array. -/
def fillRecord {ρ : Type} (setting : Setting) (title : String) (slots : List (Slot ρ)) (empty : ρ) :
    Draft → Decoded ρ
  | .arr _ items stop => do
    let r ← fillItems title slots.length stop 0 slots items empty
    surplus setting slots.length items stop r
  | d => fillObject title slots passOver empty d

/-- A field that must have been given. -/
def demand {α : Type} (field : String) : Option α → Decoded α
  | some a => .ok a
  | none => mismatched (.missing field)

/-- The text of a name that is read where a name from a fixed list must stand. -/
def choose {α : Type} (choices : List (String × α)) (name : String) : Decoded α :=
  match choices.find? fun choice => choice.1 == name with
  | some choice => .ok choice.2
  | none => mismatched (.unknown name (choices.map Prod.fst))

/-- The value under the one name of an object that stands for a choice. -/
def unit (setting : Setting) : Draft → Decoded Unit
  | .null _ => .ok ()
  | .obj start [] none =>
    if setting = .held then .ok () else (Draft.obj start [] none).refuse "unit"
  | d => d.refuse "unit"

/-- Nothing but the brace that closes an object. -/
def close : List Char → Decoded Unit
  | [] => .error (.fault ⟨.endInObject, [], 0⟩)
  | c :: rest => if c = '\x7d' then .ok () else .error (.fault ⟨.noValue, c :: rest, 0⟩)

/-- A choice that an object makes, from behind the brace on. An empty object lacks a value. -/
def choiceInObject {α : Type} (choices : List (String × α)) (rest : List Char) : Decoded α :=
  match Token.skipBlank rest with
  | [] => .error (.fault ⟨.endInObject, [], 0⟩)
  | c :: rest =>
    if c = '"' then
      match Read.scanText rest with
      | .error fault => .error (.fault fault)
      | .ok (name, rest) => do
        let a ← choose choices (String.ofList name)
        match Token.skipBlank rest with
        | [] => .error (.fault ⟨.endInObject, [], 0⟩)
        | c :: rest =>
          if c = ':' then
            let (value, rest) := Read.front none rest
            unit .text value
            close (Token.skipBlank (rest.getD []))
            return a
          else .error (.fault ⟨.noColon, c :: rest, 1⟩)
    else if c = '\x7d' then .error (.fault ⟨.noValue, c :: rest, 1⟩)
    else .error (.fault ⟨.noName, c :: rest, 1⟩)

/-- A choice read straight from a text: a name, or an object with one name over null. Nothing else
is looked at further than its first character. -/
def choiceInText {α : Type} (choices : List (String × α)) : List Char → Decoded α
  | [] => .error (.fault ⟨.endInValue, [], 0⟩)
  | c :: rest =>
    if c = '"' then
      match Read.scanText rest with
      | .error fault => .error (.fault fault)
      | .ok (name, _) => choose choices (String.ofList name)
    else if c = '\x7b' then choiceInObject choices rest
    else .error (.fault ⟨.noValue, c :: rest, 1⟩)

/-- A choice from a list of names: a name, or an object with one name over null. -/
def choice {α : Type} (setting : Setting) (choices : List (String × α)) (d : Draft) : Decoded α :=
  match setting, d with
  | .text, .cut fault => .error (.fault fault)
  | .text, d => choiceInText choices d.start
  | _, .str _ name => choose choices name
  | _, .obj _ [(name, value)] _ => do
    let a ← choose choices name
    unit setting value
    return a
  | _, .obj .. => mismatched (.value .map "map with a single key")
  | _, d => d.refuse "string or map"

/-- Decodes a whole text: what stands after the value is noticed last. -/
def decodeText {α : Type} (decode : Setting → Draft → Decoded α) (depth : Option Nat)
    (text : List Char) : Decoded α := do
  let (draft, trailing) := readDraft depth text
  let a ← decode .text draft
  afterFault trailing (.ok a)

/-- Decodes a canonical value. -/
def decodeValue {α : Type} (decode : Setting → Draft → Decoded α) (j : Json) : Decoded α :=
  decode .value (Draft.ofValue j)

/-- Decodes the canonical value of a whole text. -/
def decodeRead {α : Type} (decode : Setting → Draft → Decoded α) (depth : Option Nat)
    (text : List Char) : Decoded α :=
  match read depth text with
  | .ok j => decodeValue decode j
  | .error fault => .error (.fault fault)

end SelfNamed.Json
