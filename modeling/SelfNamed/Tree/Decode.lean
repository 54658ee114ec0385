import SelfNamed.Json.Decode
import SelfNamed.Tree.Node

/-!
# Nodes out of JSON

A statement, a declaration, a pattern or an expression is modelled when it is an object whose tag
names a known kind, or is that kind's index, and whose fields suit the kind. Anything else is kept
as the value that it was, so decoding one of these four never fails on the data; one unfit
declarator keeps its whole declaration verbatim. The other nodes must suit.
-/

namespace SelfNamed

open Json (Draft Decoded Setting Slot Fields)

/-- Adds an unmodelled member to fields. -/
def keepMember (name : String) (d : Draft) (fields : Fields) : Decoded Fields := do
  let j ← d.kept
  return Json.Fields.insert name j fields

/-- The state of a node of up to two modelled fields. -/
structure Partial (α β : Type) where
  /-- The first modelled field. -/
  first : Option α
  /-- The second modelled field. -/
  second : Option β
  /-- All other fields. -/
  rest : Fields

namespace Partial

variable {α β : Type}

/-- The slot of the first field. -/
def firstSlot (name : String) (decode : Draft → Decoded α) : Slot (Partial α β) :=
  ⟨name, false, fun d p => do return { p with first := some (← decode d) }⟩

/-- The slot of the second field. -/
def secondSlot (name : String) (decode : Draft → Decoded β) : Slot (Partial α β) :=
  ⟨name, false, fun d p => do return { p with second := some (← decode d) }⟩

/-- The fields of a node, modelled and other. -/
def ofDraft (title : String) (slots : List (Slot (Partial α β))) : Draft → Decoded (Partial α β) :=
  Json.fillObject title slots
    (fun name d p => do return { p with rest := ← keepMember name d p.rest }) ⟨none, none, []⟩

end Partial

/-- Decodes an identifier. -/
def Identifier.decode (d : Draft) : Decoded Identifier := do
  let p : Partial String Unit ← Partial.ofDraft "Identifier" [Partial.firstSlot "name" Draft.text] d
  return ⟨← Json.demand "name" p.first, p.rest⟩

/-- Decodes the record of a source text; what it does not say is empty. -/
def LiteralExtra.decode (d : Draft) : Decoded LiteralExtra := do
  let p : Partial String String ←
    Partial.ofDraft "LiteralExtra"
      [Partial.firstSlot "raw" Draft.text, Partial.secondSlot "rawValue" Draft.text] d
  return ⟨p.first.getD "", p.second.getD "", p.rest⟩

/-- Decodes a string literal. -/
def StringLiteral.decode (d : Draft) : Decoded StringLiteral := do
  let p : Partial String (Option LiteralExtra) ←
    Partial.ofDraft "StringLiteral"
      [Partial.firstSlot "value" Draft.text,
        Partial.secondSlot "extra" (Draft.optional LiteralExtra.decode)] d
  return ⟨← Json.demand "value" p.first, p.second.getD none, p.rest⟩

/-- Decodes a number. -/
def NumericLiteral.decode (d : Draft) : Decoded NumericLiteral := do
  let p : Partial Json.Number Unit ←
    Partial.ofDraft "NumericLiteral" [Partial.firstSlot "value" Draft.number] d
  return ⟨← Json.demand "value" p.first, p.rest⟩

/-- Decodes a truth value. -/
def BooleanLiteral.decode (d : Draft) : Decoded BooleanLiteral := do
  let p : Partial Bool Unit ←
    Partial.ofDraft "BooleanLiteral" [Partial.firstSlot "value" Draft.boolean] d
  return ⟨← Json.demand "value" p.first, p.rest⟩

/-- Decodes the fields of a node without modelled ones. -/
def decodeRest (title : String) (d : Draft) : Decoded Fields := do
  let p : Partial Unit Unit ← Partial.ofDraft title [] d
  return p.rest

/-- Decodes the null value. -/
def NullLiteral.decode (d : Draft) : Decoded NullLiteral := do
  return ⟨← decodeRest "NullLiteral" d⟩

/-- Decodes a function. -/
def FunctionDeclaration.decode (d : Draft) : Decoded FunctionDeclaration := do
  return ⟨← decodeRest "FunctionDeclaration" d⟩

/-- Decodes a class. -/
def ClassDeclaration.decode (d : Draft) : Decoded ClassDeclaration := do
  return ⟨← decodeRest "ClassDeclaration" d⟩

/-- The kind that a tag names or is the index of. -/
def kindOf? {κ : Type} (kinds : List (String × κ)) : Draft → Option κ
  | .str _ name => (kinds.find? fun kind => kind.1 == name).map Prod.snd
  | .num _ (.natural index) => kinds[index.toNat]?.map Prod.snd
  | _ => none

/-- The kind of a tagged object and the object without its tag; none when there is not one tag or
when it names no kind. -/
def splitTag? {κ : Type} (kinds : List (String × κ)) : Draft → Option (κ × Draft)
  | .obj start members stop =>
    match members.filter fun member => member.1 == "type" with
    | [(_, tag)] =>
      (kindOf? kinds tag).map fun kind =>
        (kind, .obj start (members.filter fun member => member.1 != "type") stop)
    | _ => none
  | _ => none

/-- Decodes a tagged node, which is kept verbatim where it does not suit. -/
def decodeTagged {κ α : Type} (kinds : List (String × κ)) (known : κ → Draft → Decoded α)
    (verbatim : Json → α) (d : Draft) : Decoded α := do
  let j ← d.kept
  match splitTag? kinds d with
  | some (kind, inner) =>
    match known kind inner with
    | .ok node => return node
    | .error _ => return verbatim j
  | none => return verbatim j

/-- Decodes a pattern. -/
def Pattern.decode : Draft → Decoded Pattern :=
  decodeTagged [("Identifier", ())] (fun _ d => (Identifier.decode d).map .identifier) .verbatim

/-- The kinds of modelled expressions. -/
inductive Expression.Kind where
  /-- A string literal. -/
  | string
  /-- A number. -/
  | numeric
  /-- A truth value. -/
  | boolean
  /-- The null value. -/
  | null
  /-- The value of a name. -/
  | identifier

/-- The tags of modelled expressions, each at its index. -/
def Expression.kinds : List (String × Expression.Kind) :=
  [("StringLiteral", .string), ("NumericLiteral", .numeric), ("BooleanLiteral", .boolean),
    ("NullLiteral", .null), ("Identifier", .identifier)]

/-- Decodes the fields of an expression of a kind. -/
def Expression.decodeKind : Expression.Kind → Draft → Decoded Expression
  | .string, d => (StringLiteral.decode d).map .string
  | .numeric, d => (NumericLiteral.decode d).map .numeric
  | .boolean, d => (BooleanLiteral.decode d).map .boolean
  | .null, d => (NullLiteral.decode d).map .null
  | .identifier, d => (Identifier.decode d).map .identifier

/-- Decodes an expression. -/
def Expression.decode : Draft → Decoded Expression :=
  decodeTagged Expression.kinds Expression.decodeKind .verbatim

/-- Decodes a declarator. -/
def Declarator.decode (d : Draft) : Decoded Declarator := do
  let p : Partial Pattern (Option Expression) ←
    Partial.ofDraft "VariableDeclarator"
      [Partial.firstSlot "id" Pattern.decode,
        Partial.secondSlot "init" (Draft.optional Expression.decode)] d
  return ⟨← Json.demand "id" p.first, p.second.getD none, p.rest⟩

/-- The keywords of variable declarations. -/
def VariableKind.choices : List (String × VariableKind) :=
  [("var", .functionScoped), ("let", .blockScoped), ("const", .constant)]

/-- Decodes a keyword. -/
def VariableKind.decode (setting : Setting) (d : Draft) : Decoded VariableKind :=
  Json.choice setting VariableKind.choices d

/-- Decodes a declaration of variables. -/
def VariableDeclaration.decode (setting : Setting) (d : Draft) : Decoded VariableDeclaration := do
  let p : Partial VariableKind (List Declarator) ←
    Partial.ofDraft "VariableDeclaration"
      [Partial.firstSlot "kind" (VariableKind.decode setting),
        Partial.secondSlot "declarations" (Draft.list Declarator.decode)] d
  return ⟨← Json.demand "kind" p.first, ← Json.demand "declarations" p.second, p.rest⟩

/-- The kinds of modelled declarations. -/
inductive Declaration.Kind where
  /-- Variables. -/
  | bindings
  /-- A function. -/
  | function
  /-- A class. -/
  | classes

/-- The tags of modelled declarations, each at its index. -/
def Declaration.kinds : List (String × Declaration.Kind) :=
  [("VariableDeclaration", .bindings), ("FunctionDeclaration", .function),
    ("ClassDeclaration", .classes)]

/-- Decodes the fields of a declaration of a kind. -/
def Declaration.decodeKind : Declaration.Kind → Draft → Decoded Declaration
  | .bindings, d => (VariableDeclaration.decode .held d).map .bindings
  | .function, d => (FunctionDeclaration.decode d).map .function
  | .classes, d => (ClassDeclaration.decode d).map .classes

/-- Decodes a declaration. -/
def Declaration.decode : Draft → Decoded Declaration :=
  decodeTagged Declaration.kinds Declaration.decodeKind .verbatim

/-- Decodes an export. -/
def NamedExport.decode (d : Draft) : Decoded NamedExport := do
  let p : Partial (Option Declaration) Unit ←
    Partial.ofDraft "ExportNamedDeclaration"
      [Partial.firstSlot "declaration" (Draft.optional Declaration.decode)] d
  return ⟨p.first.getD none, p.rest⟩

/-- The kinds of modelled statements. -/
inductive Statement.Kind where
  /-- An export. -/
  | exporting
  /-- Variables. -/
  | bindings
  /-- A function. -/
  | function
  /-- A class. -/
  | classes

/-- The tags of modelled statements, each at its index. -/
def Statement.kinds : List (String × Statement.Kind) :=
  [("ExportNamedDeclaration", .exporting), ("VariableDeclaration", .bindings),
    ("FunctionDeclaration", .function), ("ClassDeclaration", .classes)]

/-- Decodes the fields of a statement of a kind. -/
def Statement.decodeKind : Statement.Kind → Draft → Decoded Statement
  | .exporting, d => (NamedExport.decode d).map .exporting
  | .bindings, d => (VariableDeclaration.decode .held d).map .bindings
  | .function, d => (FunctionDeclaration.decode d).map .function
  | .classes, d => (ClassDeclaration.decode d).map .classes

/-- Decodes a statement. -/
def Statement.decode : Draft → Decoded Statement :=
  decodeTagged Statement.kinds Statement.decodeKind .verbatim

/-- Decodes a module. -/
def Program.decode (d : Draft) : Decoded Program := do
  let p : Partial (List Statement) Unit ←
    Partial.ofDraft "Program" [Partial.firstSlot "body" (Draft.list Statement.decode)] d
  return ⟨← Json.demand "body" p.first, p.rest⟩

end SelfNamed
