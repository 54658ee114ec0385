import SelfNamed.Tree.Node

/-!
# Nodes as JSON values

A node is written with its tag first, then the fields that are modelled, then all others in the
order in which they are kept. Where a kept field has the name of a modelled one the name stands
twice; the canonical form keeps the later. A missing initial value and a missing declaration are
written as null, a missing record of the source is not written at all.
-/

namespace SelfNamed

/-- The fields of a node. -/
def Identifier.members (node : Identifier) : Json.Fields := ("name", .str node.name) :: node.rest

/-- The fields of a node. -/
def LiteralExtra.members (node : LiteralExtra) : Json.Fields :=
  ("raw", .str node.raw) :: ("rawValue", .str node.rawValue) :: node.rest

/-- The fields of a node. -/
def StringLiteral.members (node : StringLiteral) : Json.Fields :=
  ("value", .str node.value) ::
    match node.extra with
    | some extra => ("extra", .obj extra.members) :: node.rest
    | none => node.rest

/-- The fields of a node. -/
def NumericLiteral.members (node : NumericLiteral) : Json.Fields :=
  ("value", .num node.value) :: node.rest

/-- The fields of a node. -/
def BooleanLiteral.members (node : BooleanLiteral) : Json.Fields :=
  ("value", .bool node.value) :: node.rest

/-- An object with a tag in front of its fields. -/
def tagged (tag : String) (members : Json.Fields) : Json := .obj (("type", .str tag) :: members)

/-- The JSON value of a pattern. -/
def Pattern.toJson : Pattern → Json
  | .identifier node => tagged "Identifier" node.members
  | .verbatim value => value

/-- The JSON value of an expression. -/
def Expression.toJson : Expression → Json
  | .string node => tagged "StringLiteral" node.members
  | .numeric node => tagged "NumericLiteral" node.members
  | .boolean node => tagged "BooleanLiteral" node.members
  | .null node => tagged "NullLiteral" node.rest
  | .identifier node => tagged "Identifier" node.members
  | .verbatim value => value

/-- The value of something that may be missing. -/
def optionalJson {α : Type} (toJson : α → Json) : Option α → Json
  | some a => toJson a
  | none => .null

/-- The JSON value of a declarator. -/
def Declarator.toJson (d : Declarator) : Json :=
  .obj (("id", d.id.toJson) :: ("init", optionalJson Expression.toJson d.init) :: d.rest)

/-- The fields of a node. -/
def VariableDeclaration.members (node : VariableDeclaration) : Json.Fields :=
  ("kind", .str node.kind.keyword) ::
    ("declarations", .arr (node.declarators.map Declarator.toJson)) :: node.rest

/-- The JSON value of a declaration. -/
def Declaration.toJson : Declaration → Json
  | .bindings node => tagged "VariableDeclaration" node.members
  | .function node => tagged "FunctionDeclaration" node.rest
  | .classes node => tagged "ClassDeclaration" node.rest
  | .verbatim value => value

/-- The fields of a node. -/
def NamedExport.members (node : NamedExport) : Json.Fields :=
  ("declaration", optionalJson Declaration.toJson node.declaration) :: node.rest

/-- The JSON value of a statement. -/
def Statement.toJson : Statement → Json
  | .exporting node => tagged "ExportNamedDeclaration" node.members
  | .bindings node => tagged "VariableDeclaration" node.members
  | .function node => tagged "FunctionDeclaration" node.rest
  | .classes node => tagged "ClassDeclaration" node.rest
  | .verbatim value => value

/-- The JSON value of a module. -/
def Program.toJson (p : Program) : Json :=
  .obj (("body", .arr (p.body.map Statement.toJson)) :: p.rest)

end SelfNamed
