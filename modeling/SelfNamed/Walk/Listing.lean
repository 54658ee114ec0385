import SelfNamed.Walk.Visitor

/-!
# Finding self-named exports

A declarator is self-named when it binds one name to a string literal that spells this name. It is
an export when it stands in a declaration of variables directly under an export. The listing finds
all self-named exports of a tree in source order and changes nothing.
-/

namespace SelfNamed

/-- Whether a declarator binds a name to a string literal that spells it. -/
def Declarator.isSelfNamed (d : Declarator) : Bool :=
  match d.id, d.init with
  | .identifier id, some (.string literal) => literal.value == id.name
  | _, _ => false

/-- A 64-bit integer kept under a name. -/
def offset? (name : String) (fields : Json.Fields) : Option UInt64 :=
  (fields.get? name).bind Json.natural?

/-- A field is a 64-bit integer exactly when such a number stands there. -/
theorem offset?_eq_some_iff {name : String} {fields : Json.Fields} {n : UInt64} :
    offset? name fields = some n ↔ fields.get? name = some (.num (.natural n)) := by
  rw [offset?, Option.bind_eq_some_iff]
  simp only [Json.natural?_eq_some_iff, exists_eq_right]

/-- A self-named export and where it stands. -/
structure Found where
  /-- The exported name. -/
  name : String
  /-- The first byte of the declarator, if recorded. -/
  first : Option UInt64
  /-- The byte after the declarator, if recorded. -/
  last : Option UInt64
  deriving DecidableEq, Repr

/-- A field that is left out when there is nothing. -/
def offsetMember (name : String) : Option UInt64 → Json.Fields
  | some n => [(name, .num (.natural n))]
  | none => []

/-- The JSON value of an entry. -/
def Found.toJson (f : Found) : Json :=
  .obj (("name", .str f.name) :: offsetMember "start" f.first ++ offsetMember "end" f.last)

/-- What a listing has found, and whether it is inside an export. -/
structure Listing where
  /-- The entries, in source order. -/
  found : List Found := []
  /-- Whether the walk is below an export of variables. -/
  inExport : Bool := false
  deriving DecidableEq, Repr

namespace Listing

/-- The entry of a declarator. -/
def entry (d : Declarator) (name : String) : Found :=
  ⟨name, offset? "start" d.rest, offset? "end" d.rest⟩

/-- The first look of a listing at a node. -/
def visit : (k : NodeKind) → k.Node → Listing → Verdict × Listing
  | .statement, .exporting _, s => (.proceed, s)
  | .statement, _, s => (.skip, s)
  | .namedExport, node, s =>
    match node.declaration with
    | some (.bindings _) => (.proceed, { s with inExport := true })
    | _ => (.skip, s)
  | .declarator, node, s =>
    if s.inExport && node.isSelfNamed then
      match node.name? with
      | some name => (.proceed, { s with found := s.found ++ [entry node name] })
      | none => (.proceed, s)
    else (.skip, s)
  | .program, _, s => (.proceed, s)
  | .declaration, _, s => (.proceed, s)
  | .bindings, _, s => (.proceed, s)

/-- The last look of a listing at a node. -/
def leave : (k : NodeKind) → k.Node → Listing → Listing
  | .namedExport, _, s => { s with inExport := false }
  | _, _, s => s

/-- The visitor that lists self-named exports. -/
def visitor : Visitor Listing := ⟨visit, leave⟩

end Listing

/-- The self-named exports of a module, in source order. -/
def Program.listing (p : Program) : List Found := (Listing.visitor.walkProgram p {}).2.found

/-- The names of the self-named exports of a module. -/
def Program.selfNamed (p : Program) : List String := p.listing.map Found.name

end SelfNamed
