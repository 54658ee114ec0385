import SelfNamed.Tree.Literal

/-!
# The nodes of a module

Only what the search for self-named exports looks at is modelled: exports, variable declarations,
the names they bind and the literals that initialise them. Every other node stands in the tree as
the JSON value that it was, and every modelled node keeps the fields it does not model, so a tree
that is read and written loses nothing.
-/

namespace SelfNamed

/-- What a message calls a node without a type. -/
def untyped : String := "<untyped>"

/-- The type that a JSON node names. -/
def Json.nodeType (j : Json) : String := ((j.field? "type").bind Json.text?).getD untyped

/-- A name. -/
structure Identifier where
  /-- The name. -/
  name : String
  /-- All other fields. -/
  rest : Json.Fields
  deriving Repr

/-- A number in the source. -/
structure NumericLiteral where
  /-- Its value. -/
  value : Json.Number
  /-- All other fields. -/
  rest : Json.Fields
  deriving Repr

/-- A truth value in the source. -/
structure BooleanLiteral where
  /-- Its value. -/
  value : Bool
  /-- All other fields. -/
  rest : Json.Fields
  deriving Repr

/-- The null value in the source. -/
structure NullLiteral where
  /-- All fields. -/
  rest : Json.Fields
  deriving Repr

/-- What a declarator binds. -/
inductive Pattern where
  /-- One name. -/
  | identifier (node : Identifier)
  /-- Anything else, such as a destructuring. -/
  | verbatim (value : Json)
  deriving Repr

/-- What a declarator is initialised with. -/
inductive Expression where
  /-- A string literal. -/
  | string (node : StringLiteral)
  /-- A number. -/
  | numeric (node : NumericLiteral)
  /-- A truth value. -/
  | boolean (node : BooleanLiteral)
  /-- The null value. -/
  | null (node : NullLiteral)
  /-- The value of a name. -/
  | identifier (node : Identifier)
  /-- Anything else. -/
  | verbatim (value : Json)
  deriving Repr

/-- One binding of a variable declaration. -/
structure Declarator where
  /-- What is bound. -/
  id : Pattern
  /-- The initial value. -/
  init : Option Expression
  /-- All other fields. -/
  rest : Json.Fields
  deriving Repr

/-- The keyword of a variable declaration. -/
inductive VariableKind where
  /-- Variables of the whole function. -/
  | functionScoped
  /-- Variables of the block. -/
  | blockScoped
  /-- Constants of the block. -/
  | constant
  deriving DecidableEq, Repr

/-- The keyword as the source spells it. -/
def VariableKind.keyword : VariableKind → String
  | .functionScoped => "var"
  | .blockScoped => "let"
  | .constant => "const"

/-- A declaration of variables. -/
structure VariableDeclaration where
  /-- The keyword. -/
  kind : VariableKind
  /-- The bindings, in source order. -/
  declarators : List Declarator
  /-- All other fields. -/
  rest : Json.Fields
  deriving Repr

/-- A declaration of a function. -/
structure FunctionDeclaration where
  /-- All fields. -/
  rest : Json.Fields
  deriving Repr

/-- A declaration of a class. -/
structure ClassDeclaration where
  /-- All fields. -/
  rest : Json.Fields
  deriving Repr

/-- What an export declares. -/
inductive Declaration where
  /-- Variables. -/
  | bindings (node : VariableDeclaration)
  /-- A function. -/
  | function (node : FunctionDeclaration)
  /-- A class. -/
  | classes (node : ClassDeclaration)
  /-- Anything else, such as an interface. -/
  | verbatim (value : Json)
  deriving Repr

/-- An export of named things. -/
structure NamedExport where
  /-- What it declares; none for a list of names. -/
  declaration : Option Declaration
  /-- All other fields. -/
  rest : Json.Fields
  deriving Repr

/-- A statement of a module. -/
inductive Statement where
  /-- An export of named things. -/
  | exporting (node : NamedExport)
  /-- A declaration of variables. -/
  | bindings (node : VariableDeclaration)
  /-- A declaration of a function. -/
  | function (node : FunctionDeclaration)
  /-- A declaration of a class. -/
  | classes (node : ClassDeclaration)
  /-- Anything else. -/
  | verbatim (value : Json)
  deriving Repr

/-- A module. -/
structure Program where
  /-- Its statements, in source order. -/
  body : List Statement
  /-- All other fields. -/
  rest : Json.Fields
  deriving Repr

/-- The name of the one identifier that a pattern is. -/
def Pattern.name? : Pattern → Option String
  | .identifier node => some node.name
  | .verbatim _ => none

/-- The name that a declarator binds. -/
def Declarator.name? (d : Declarator) : Option String := d.id.name?

/-- The name of a declared thing that only keeps its fields. -/
def declaredName (rest : Json.Fields) : Option String :=
  ((rest.get? "id").bind (Json.field? "name")).bind Json.text?

/-- The name of a function. -/
def FunctionDeclaration.name? (f : FunctionDeclaration) : Option String := declaredName f.rest

/-- The name of a class. -/
def ClassDeclaration.name? (c : ClassDeclaration) : Option String := declaredName c.rest

/-- The type that a tree gives to the initial value. -/
def Expression.nodeType : Expression → String
  | .string _ => "StringLiteral"
  | .numeric _ => "NumericLiteral"
  | .boolean _ => "BooleanLiteral"
  | .null _ => "NullLiteral"
  | .identifier _ => "Identifier"
  | .verbatim value => value.nodeType

/-- The type that a tree gives to a declaration. -/
def Declaration.nodeType : Declaration → String
  | .bindings _ => "VariableDeclaration"
  | .function _ => "FunctionDeclaration"
  | .classes _ => "ClassDeclaration"
  | .verbatim value => value.nodeType

/-- The type that a tree gives to a statement. -/
def Statement.nodeType : Statement → String
  | .exporting _ => "ExportNamedDeclaration"
  | .bindings _ => "VariableDeclaration"
  | .function _ => "FunctionDeclaration"
  | .classes _ => "ClassDeclaration"
  | .verbatim value => value.nodeType

end SelfNamed
