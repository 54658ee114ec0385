import SelfNamed.Proofs.Json.Fields
import SelfNamed.Tree.Decode

/-!
# The grammar of trees and their normal form

Which nodes are modelled, and how they look once they have been read and written again, can be said
of JSON values alone. A node suits its kind by what stands under a few names. The normal form of a
node that suits names its kind in words, gives the optional fields that every written node has, and
keeps all other fields; a node that does not suit is its own normal form, as deep as it goes.
-/

namespace SelfNamed

open Json (Fields)

/-! ## Values, fields and tags -/

namespace Json

/-- The members of an object. -/
def fields? : Json → Option Fields
  | .obj members => some members
  | _ => none

/-- The truth value of a truth value. -/
def bool? : Json → Option Bool
  | .bool b => some b
  | _ => none

/-- The number of a number. -/
def number? : Json → Option Number
  | .num n => some n
  | _ => none

/-- The items of an array. -/
def items? : Json → Option (List Json)
  | .arr items => some items
  | _ => none

/-- The value under a name, or what stands for it when it is missing. -/
def Fields.getD (fields : Fields) (name : String) (missing : Json) : Json :=
  (fields.get? name).getD missing

/-- The kind that a tag names or is the index of. -/
def kindIn? {κ : Type} (kinds : List (String × κ)) : Json → Option κ
  | .str name => (kinds.find? fun kind => kind.1 == name).map Prod.snd
  | .num (.natural index) => kinds[index.toNat]?.map Prod.snd
  | _ => none

/-- The kind that the tag of a value says. -/
def kind? {κ : Type} (kinds : List (String × κ)) (j : Json) : Option κ :=
  (j.field? "type").bind (kindIn? kinds)

/-- An object with other fields. -/
def withFields (f : Fields → Fields) : Json → Json
  | .obj fields => .obj (f fields)
  | j => j

/-- An array with other items. -/
def mapItems (f : Json → Json) : Json → Json
  | .arr items => .arr (items.map f)
  | j => j

/-- Whether something that is read stands under a name. -/
def Fields.has {α : Type} (fields : Fields) (name : String) (read : Json → Option α) : Bool :=
  ((fields.get? name).bind read).isSome

/-- The normal form of a tagged value: the tag is the name of the kind and the fields are in the
normal form of the kind. A value that does not suit the kind stays as it is. -/
def normTagged {κ : Type} (kinds : List (String × κ)) (tag : κ → String)
    (suits : κ → Fields → Bool) (norm : κ → Fields → Fields) (j : Json) : Json :=
  match j.fields?, j.kind? kinds with
  | some fields, some kind =>
    if suits kind fields then .obj (norm kind (fields.insert "type" (.str (tag kind)))) else j
  | _, _ => j

end Json

/-! ## Which nodes suit and what their normal forms are -/

/-- Whether fields make an identifier: the name is a text. -/
def Identifier.suits (fields : Fields) : Bool := fields.has "name" Json.text?

/-- The normal form of a pattern. -/
def Pattern.norm : Json → Json :=
  Json.normTagged [("Identifier", ())] (fun _ => "Identifier") (fun _ => Identifier.suits)
    fun _ fields => fields

/-- Whether a value is the record of a source text: null, or an object that says a text or nothing
about the source and about its value. -/
def LiteralExtra.suits : Json → Bool
  | .null => true
  | j => j.fields?.any fun fields =>
    (fields.getD "raw" (.str "")).text?.isSome && (fields.getD "rawValue" (.str "")).text?.isSome

/-- The normal form of the record of a source text: what it does not say is empty. -/
def LiteralExtra.norm (fields : Fields) : Fields :=
  (fields.insert "raw" (fields.getD "raw" (.str ""))).insert "rawValue"
    (fields.getD "rawValue" (.str ""))

/-- Whether fields make a string literal. -/
def StringLiteral.suits (fields : Fields) : Bool :=
  fields.has "value" Json.text? && LiteralExtra.suits (fields.getD "extra" .null)

/-- The normal form of a string literal: null is no record of the source. -/
def StringLiteral.norm (fields : Fields) : Fields :=
  match fields.get? "extra" with
  | some .null => fields.without ["extra"]
  | _ => fields.modify "extra" (Json.withFields LiteralExtra.norm)

/-- The name of a kind of expressions. -/
def Expression.Kind.tag : Expression.Kind → String
  | .string => "StringLiteral"
  | .numeric => "NumericLiteral"
  | .boolean => "BooleanLiteral"
  | .null => "NullLiteral"
  | .identifier => "Identifier"

/-- Whether fields make an expression of a kind. -/
def Expression.suits : Expression.Kind → Fields → Bool
  | .string, fields => StringLiteral.suits fields
  | .numeric, fields => fields.has "value" Json.number?
  | .boolean, fields => fields.has "value" Json.bool?
  | .null, _ => true
  | .identifier, fields => Identifier.suits fields

/-- The normal form of an expression. -/
def Expression.norm : Json → Json :=
  Json.normTagged Expression.kinds Expression.Kind.tag Expression.suits fun kind fields =>
    match kind with
    | .string => StringLiteral.norm fields
    | _ => fields

/-- Whether a value is a declarator: an object that says what is bound. -/
def Declarator.suits (j : Json) : Bool := (j.field? "id").isSome

/-- The normal form of a declarator: a missing initial value is null. -/
def Declarator.norm : Json → Json :=
  Json.withFields fun fields =>
    (fields.modify "id" Pattern.norm).insert "init" (Expression.norm (fields.getD "init" .null))

/-- The normal form of a keyword: an object of one name over nothing is the name. -/
def VariableKind.norm : Json → Json
  | .obj [(name, .null)] => .str name
  | .obj [(name, .obj [])] => .str name
  | j => j

/-- Whether a value is a keyword. -/
def VariableKind.suits (j : Json) : Bool :=
  match VariableKind.norm j with
  | .str name => ["var", "let", "const"].contains name
  | _ => false

/-- Whether fields make a declaration of variables: a keyword and a list of declarators. -/
def VariableDeclaration.suits (fields : Fields) : Bool :=
  (fields.get? "kind").any VariableKind.suits &&
    ((fields.get? "declarations").bind Json.items?).any fun items => items.all Declarator.suits

/-- The normal form of a declaration of variables. -/
def VariableDeclaration.norm (fields : Fields) : Fields :=
  (fields.modify "kind" VariableKind.norm).modify "declarations" (Json.mapItems Declarator.norm)

/-- The name of a kind of declarations. -/
def Declaration.Kind.tag : Declaration.Kind → String
  | .bindings => "VariableDeclaration"
  | .function => "FunctionDeclaration"
  | .classes => "ClassDeclaration"

/-- Whether fields make a declaration of a kind. -/
def Declaration.suits : Declaration.Kind → Fields → Bool
  | .bindings, fields => VariableDeclaration.suits fields
  | .function, _ => true
  | .classes, _ => true

/-- The normal form of a declaration. -/
def Declaration.norm : Json → Json :=
  Json.normTagged Declaration.kinds Declaration.Kind.tag Declaration.suits fun kind fields =>
    match kind with
    | .bindings => VariableDeclaration.norm fields
    | _ => fields

/-- The normal form of an export: a missing declaration is null. -/
def NamedExport.norm (fields : Fields) : Fields :=
  fields.insert "declaration" (Declaration.norm (fields.getD "declaration" .null))

/-- The name of a kind of statements. -/
def Statement.Kind.tag : Statement.Kind → String
  | .exporting => "ExportNamedDeclaration"
  | .bindings => "VariableDeclaration"
  | .function => "FunctionDeclaration"
  | .classes => "ClassDeclaration"

/-- Whether fields make a statement of a kind. -/
def Statement.suits : Statement.Kind → Fields → Bool
  | .exporting, _ => true
  | .bindings, fields => VariableDeclaration.suits fields
  | .function, _ => true
  | .classes, _ => true

/-- The normal form of a statement. -/
def Statement.norm : Json → Json :=
  Json.normTagged Statement.kinds Statement.Kind.tag Statement.suits fun kind fields =>
    match kind with
    | .exporting => NamedExport.norm fields
    | .bindings => VariableDeclaration.norm fields
    | _ => fields

/-- Whether a value is a module: an object with a list of statements. -/
def Program.suits (j : Json) : Bool := ((j.field? "body").bind Json.items?).isSome

/-- The normal form of a module: that of its statements. -/
def Program.norm : Json → Json :=
  Json.withFields fun fields => fields.modify "body" (Json.mapItems Statement.norm)

end SelfNamed
