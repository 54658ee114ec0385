import SelfNamed.Number.Binary64

/-!
# TOML documents

A document is a table: names in the order in which they first stand, each with a value, a table or a
list of tables. Every value knows the text it was written with, and every table how it came about,
because a table that dotted names or longer headers imply may still be completed and others may not.
-/

namespace SelfNamed.Toml

/-- A part of a text: what is left of the text at its first character and behind its last one. -/
structure Span where
  /-- The text from the first character on. -/
  start : List Char
  /-- The text behind the last character. -/
  stop : List Char

/-- A name and where it is written. -/
structure Key where
  /-- The name. -/
  name : String
  /-- Its place. -/
  span : Span

/-- A value without parts. -/
inductive Scalar where
  /-- A text. -/
  | text (s : String)
  /-- An integer of 64 bits. -/
  | integer (n : Int)
  /-- A floating-point number. -/
  | real (x : Binary64)
  /-- A truth value. -/
  | truth (b : Bool)
  /-- A date, a time or both. -/
  | date

/-- How a table came about. -/
inductive Origin where
  /-- Through its own header. -/
  | header
  /-- As a part of a longer header. -/
  | implied
  /-- As a part of a dotted name. -/
  | dotted
  /-- As a value between braces. -/
  | inline
  deriving DecidableEq

/-- What stands under a name. -/
inductive Node where
  /-- A value without parts. -/
  | scalar (span : Span) (value : Scalar)
  /-- A list of values. -/
  | array (span : Span) (items : List Node)
  /-- A table; an implied one has no place of its own. -/
  | table (span : Option Span) (origin : Origin) (fields : List (Key × Node))
  /-- A list of tables that headers make. -/
  | tables (items : List Node)

/-- Names and what stands under them, in order. -/
abbrev Fields := List (Key × Node)

/-- What stands under a name. -/
def Fields.get? (name : String) : Fields → Option Node
  | [] => none
  | (key, node) :: rest => if key.name = name then some node else get? name rest

/-- Puts something else under a name that is there. -/
def Fields.set (name : String) (value : Node) : Fields → Fields
  | [] => []
  | (key, node) :: rest =>
    if key.name = name then (key, value) :: rest else (key, node) :: set name value rest

/-- The fields without a name. -/
def Fields.erase (name : String) (fields : Fields) : Fields :=
  fields.filter fun field => field.1.name != name

/-- The place of a table. -/
def Node.tableSpan? : Node → Option Span
  | .table span _ _ => span
  | _ => none

/-- The place of something, where it has one. A list of tables reaches from the first to the last.
-/
def Node.span? : Node → Option Span
  | .scalar span _ => some span
  | .array span _ => some span
  | .table span _ _ => span
  | .tables items => do
    let first ← items.head?.bind Node.tableSpan?
    let last ← items.getLast?.bind Node.tableSpan?
    return ⟨first.start, last.stop⟩

end SelfNamed.Toml
