import SelfNamed.Tree.Encode

/-!
# Building trees

Trees can also be put together by hand. Each builder gives a node the fields that a tree from a
reader would have beside the modelled ones, so that such a tree is written like any other.
-/

namespace SelfNamed

open Json (Fields)

/-- The fields of a node that only has a type. -/
def typeField (nodeType : String) : Fields := [("type", .str nodeType)]

/-- The JSON value of an identifier. -/
def nameNode (name : String) : Json := .obj [("name", .str name), ("type", .str "Identifier")]

/-- A module of the given statements. -/
def Program.build (body : List Statement) : Program :=
  ⟨body, [("sourceType", .str "module"), ("type", .str "Program")]⟩

/-- A module without statements and without fields. -/
def Program.blank : Program := ⟨[], []⟩

namespace NamedExport

/-- The export of something that it declares, or of nothing yet. -/
def ofDeclaration? (declaration : Option Declaration) : NamedExport :=
  ⟨declaration, [("source", .null), ("specifiers", .arr [])]⟩

/-- The export of something that it declares. -/
def build (declaration : Declaration) : NamedExport := ofDeclaration? (some declaration)

/-- The JSON value of one name in a list of exported names. -/
def specifier (name : String) : Json :=
  .obj [("exported", nameNode name), ("local", nameNode name), ("type", .str "ExportSpecifier")]

/-- The export of a list of names. -/
def ofNames (names : List String) : NamedExport :=
  ⟨none, [("source", .null), ("specifiers", .arr (names.map specifier))]⟩

end NamedExport

/-- A declaration of variables. -/
def VariableDeclaration.build (kind : VariableKind) (declarators : List Declarator) :
    VariableDeclaration := ⟨kind, declarators, []⟩

/-- A name. -/
def Identifier.build (name : String) : Identifier := ⟨name, []⟩

/-- The binding of a name. -/
def Declarator.build (name : String) (init : Option Expression) : Declarator :=
  ⟨.identifier (.build name), init, typeField "VariableDeclarator"⟩

/-- A function without parameters and statements. -/
def FunctionDeclaration.build (name : String) : FunctionDeclaration :=
  ⟨[("async", .bool false),
    ("body", .obj [("body", .arr []), ("type", .str "BlockStatement")]),
    ("generator", .bool false), ("id", nameNode name), ("params", .arr [])]⟩

/-- A class without members. -/
def ClassDeclaration.build (name : String) : ClassDeclaration :=
  ⟨[("body", .obj [("body", .arr []), ("type", .str "ClassBody")]), ("id", nameNode name),
    ("superClass", .null)]⟩

namespace Expression

/-- A string literal between single quotes. -/
def text (value : String) : Expression := .string (.quoted value .single)

/-- A number. -/
def number (value : Json.Number) : Expression := .numeric ⟨value, []⟩

/-- A truth value. -/
def truth (value : Bool) : Expression := .boolean ⟨value, []⟩

/-- The null value. -/
def nothing : Expression := .null ⟨[]⟩

/-- The value of a name. -/
def reference (name : String) : Expression := .identifier (.build name)

end Expression

end SelfNamed
