import SelfNamed.Toml.Scan

/-!
# Reading TOML documents

A document is read line by line. What stands in a line goes to the table whose header came last, and
that table is put in its place when the next header, or the end of the text, is reached. Whether a
name may be used depends on how the tables on the way to it came about: a header may complete a
table that longer headers imply, dotted names may extend tables that dotted names made, and no name
is given twice. A reader gives nothing when a text is no document.
-/

namespace SelfNamed.Toml

/-- Whether a path may go through a table. A path of a header may go through all but inline tables,
one of a dotted name only through tables without a header. -/
def Origin.admits (made : Origin) (origin : Origin) : Bool :=
  match origin with
  | .header => made != .dotted
  | .implied => true
  | .dotted => true
  | .inline => false

/-- Edits the table at the end of a path. Tables that are missing on the way are made, and of a list
of tables the last one is entered. -/
def Fields.within {α : Type} (made : Origin) (edit : Origin → Fields → Option (α × Fields)) :
    List Key → Origin → Fields → Option (α × Fields)
  | [], origin, fields => edit origin fields
  | key :: path, _, fields =>
    match fields.get? key.name with
    | none => do
      let (a, inner) ← within made edit path made []
      return (a, fields ++ [(key, .table none made inner)])
    | some (.table span origin inner) => do
      guard (made.admits origin)
      let (a, inner) ← within made edit path origin inner
      return (a, fields.set key.name (.table span origin inner))
    | some (.tables items) =>
      match items.getLast? with
      | some (.table span origin inner) => do
        let (a, inner) ← within made edit path origin inner
        return (a, fields.set key.name (.tables (items.dropLast ++ [.table span origin inner])))
      | _ => none
    | some _ => none

/-- Adds something under a name that is not there yet. -/
def Fields.add? (key : Key) (node : Node) (fields : Fields) : Option Fields := do
  guard (fields.get? key.name).isNone
  return fields ++ [(key, node)]

/-- Adds a value under a dotted name. The last table on the way must have been made by dotted names.
-/
def Fields.insert? (path : List Key) (key : Key) (node : Node) (fields : Fields) : Option Fields :=
  let edit (origin : Origin) (inner : Fields) : Option (Unit × Fields) := do
    guard (path.isEmpty || origin == .dotted)
    return ((), ← inner.add? key node)
  (within .dotted edit path .header fields).map Prod.snd

/-- Where the table that is being read belongs. -/
inductive Home where
  /-- It is the document itself. -/
  | top
  /-- Under a name. -/
  | named (path : List Key) (key : Key)
  /-- At the end of the list of tables under a name. -/
  | listed (path : List Key) (key : Key)

/-- A document of which a part is read. -/
structure Reading where
  /-- The tables that are in place. -/
  done : Fields := []
  /-- Where the table belongs that is being read. -/
  home : Home := .top
  /-- From the header of that table to its last value so far. -/
  span : Option Span := none
  /-- What that table holds so far. -/
  fields : Fields := []

namespace Reading

/-- The document once the table that is being read is in its place. -/
def close? (r : Reading) : Option Fields :=
  let table : Node := .table r.span .header r.fields
  let put (edit : Fields → Option Fields) (path : List Key) : Option Fields :=
    (Fields.within .implied (fun _ fields => (edit fields).map fun fields => ((), fields))
      path .header r.done).map Prod.snd
  match r.home with
  | .top => some r.fields
  | .named path key => put (fun fields => fields.add? key table) path
  | .listed path key =>
    put (fun fields =>
      match fields.get? key.name with
      | none => some (fields ++ [(key, .tables [table])])
      | some (.tables items) => some (fields.set key.name (.tables (items ++ [table])))
      | some _ => none) path

/-- Goes on with the table of a header. A table that longer headers imply is taken up again. -/
def openTable? (path : List Key) (key : Key) (header : Span) (r : Reading) : Option Reading := do
  let take (_ : Origin) (fields : Fields) : Option (Fields × Fields) :=
    match fields.get? key.name with
    | none => some ([], fields)
    | some (.table _ .implied inner) => some (inner, fields.erase key.name)
    | some _ => none
  let (inner, done) ← Fields.within .implied take path .header (← r.close?)
  return ⟨done, .named path key, some header, inner⟩

/-- Goes on with a new table of a list. -/
def openItem? (path : List Key) (key : Key) (header : Span) (r : Reading) : Option Reading := do
  let reserve (_ : Origin) (fields : Fields) : Option (Unit × Fields) :=
    match fields.get? key.name with
    | none => some ((), fields ++ [(key, .tables [])])
    | some (.tables _) => some ((), fields)
    | some _ => none
  let (_, done) ← Fields.within .implied reserve path .header (← r.close?)
  return ⟨done, .listed path key, some header, []⟩

/-- Adds a value to the table that is being read; `stop` is the text behind it. -/
def add? (path : List Key) (key : Key) (node : Node) (stop : List Char) (r : Reading) :
    Option Reading := do
  let fields ← r.fields.insert? path key node
  return { r with fields, span := r.span.map fun span => ⟨span.start, stop⟩ }

end Reading

namespace Read

open Scan

/-- A dotted name. -/
def key? (text : List Char) : Option (List Key × Key × List Char) := Scan.key? (depthBound - 1) text

mutual

/-- A value, with a bound on the levels inside it. -/
def value : Nat → Nat → List Char → Option (Node × List Char)
  | 0, _, _ => none
  | fuel + 1, depth, text =>
    match text, depth with
    | '[' :: rest, depth + 1 => do
      let (nodes, rest) ← items fuel depth rest
      return (.array ⟨text, rest⟩ nodes, rest)
    | '\x7b' :: rest, depth + 1 => do
      let (fields, rest) ←
        match blanks rest with
        | '\x7d' :: rest => some ([], rest)
        | rest => members fuel depth [] rest
      return (.table (some ⟨text, rest⟩) .inline fields, rest)
    | _, _ => do
      let (scalar, rest) ← scalarValue? text
      return (.scalar ⟨text, rest⟩ scalar, rest)

/-- The values of a list up to its bracket, line breaks between them. -/
def items : Nat → Nat → List Char → Option (List Node × List Char)
  | 0, _, _ => none
  | fuel + 1, depth, text => do
    match ← gap (text.length + 1) text with
    | ']' :: rest => return ([], rest)
    | text =>
      let (node, rest) ← value fuel depth text
      match ← gap (rest.length + 1) rest with
      | ',' :: rest => do
        let (nodes, rest) ← items fuel depth rest
        return (node :: nodes, rest)
      | ']' :: rest => return ([node], rest)
      | _ => none

/-- The fields of an inline table up to its brace, all in one line, added to fields before them. -/
def members : Nat → Nat → Fields → List Char → Option (Fields × List Char)
  | 0, _, _, _ => none
  | fuel + 1, depth, fields, text => do
    let (path, key, rest) ← key? text
    let (node, rest) ← value fuel depth (blanks (← expect? '=' rest))
    let fields ← fields.insert? path key node
    match blanks rest with
    | ',' :: rest => members fuel depth fields rest
    | '\x7d' :: rest => return (fields, rest)
    | _ => none

end

/-- A value at the front of a text. Every level of nesting and every item takes a character, so
twice their number of steps is enough. -/
def value? (text : List Char) : Option (Node × List Char) :=
  value (2 * text.length + 2) (depthBound - 1) text

/-- A header, or a name and its value, at the front of a line; nothing where the line holds neither.
-/
def statement? (text : List Char) (r : Reading) : Option (Reading × List Char) :=
  match text with
  | '#' :: _ => some (r, text)
  | '\n' :: _ => some (r, text)
  | '\r' :: _ => some (r, text)
  | '[' :: '[' :: rest => do
    let (path, key, rest) ← key? rest
    let rest ← word? [']', ']'] rest
    return (← r.openItem? path key ⟨text, rest⟩, rest)
  | '[' :: rest => do
    let (path, key, rest) ← key? rest
    let rest ← expect? ']' rest
    return (← r.openTable? path key ⟨text, rest⟩, rest)
  | _ => do
    let (path, key, rest) ← key? text
    let (node, rest) ← value? (blanks (← expect? '=' rest))
    return (← r.add? path key node rest, rest)

/-- Reads line after line. -/
def lines : Nat → List Char → Reading → Option Reading
  | 0, _, _ => none
  | fuel + 1, text, r =>
    match blanks text with
    | [] => some r
    | text => do
      let (r, rest) ← statement? text r
      lines fuel (← lineEnd? rest) r

/-- The text behind a byte order mark, where it begins with one. -/
def skipMark : List Char → List Char
  | '\ufeff' :: rest => rest
  | text => text

end Read

/-- Reads a document. -/
def read (text : List Char) : Option Fields := do
  let r ← Read.lines (text.length + 1) (Read.skipMark text) {}
  r.close?

end SelfNamed.Toml
