import SelfNamed.Tree.Node

/-!
# Walking a tree

A walk shows the nodes of a tree to a visitor, parents before and after their children, children in
source order. The visitor answers each first look with how to go on: into the children, past them,
or not at all. Past the children the node is still left; after a stop nothing more is called. A
visitor only reads, an editor may hand back another node, and then the children walked are those of
the node it handed back.
-/

namespace SelfNamed

/-- The six kinds of nodes that a walk shows. -/
inductive NodeKind where
  /-- A module. -/
  | program
  /-- A statement. -/
  | statement
  /-- An export. -/
  | namedExport
  /-- What an export declares. -/
  | declaration
  /-- A declaration of variables. -/
  | bindings
  /-- One binding. -/
  | declarator
  deriving DecidableEq, Repr

/-- The nodes of a kind. -/
@[reducible] def NodeKind.Node : NodeKind → Type
  | .program => Program
  | .statement => Statement
  | .namedExport => NamedExport
  | .declaration => Declaration
  | .bindings => VariableDeclaration
  | .declarator => Declarator

/-- How a walk goes on after a first look at a node. -/
inductive Verdict where
  /-- Into the children. -/
  | proceed
  /-- Past the children. -/
  | skip
  /-- Not at all. -/
  | stop
  deriving DecidableEq, Repr

/-- Something that looks at nodes and keeps a state of type `σ`. -/
structure Visitor (σ : Type) where
  /-- The first look at a node. -/
  visit : (k : NodeKind) → k.Node → σ → Verdict × σ
  /-- The last look at a node. -/
  leave : (k : NodeKind) → k.Node → σ → σ

/-- Something that may change the nodes it looks at. -/
structure Editor (σ : Type) where
  /-- The first look at a node. -/
  visit : (k : NodeKind) → k.Node → σ → Verdict × k.Node × σ
  /-- The last look at a node. -/
  leave : (k : NodeKind) → k.Node → σ → k.Node × σ

/-- Walks the elements of a list until one walk stops. -/
def walkEach {α σ : Type} (walk : α → σ → Verdict × σ) : List α → σ → Verdict × σ
  | [], s => (.proceed, s)
  | a :: rest, s =>
    match walk a s with
    | (.stop, s) => (.stop, s)
    | (_, s) => walkEach walk rest s

namespace Visitor

variable {σ : Type}

/-- Shows a node, then its children if the visitor proceeds, then the node again unless something
stopped. -/
def around (v : Visitor σ) (k : NodeKind) (node : k.Node) (children : σ → Verdict × σ) (s : σ) :
    Verdict × σ :=
  match v.visit k node s with
  | (.stop, s) => (.stop, s)
  | (.skip, s) => (.proceed, v.leave k node s)
  | (.proceed, s) =>
    match children s with
    | (.stop, s) => (.stop, s)
    | (_, s) => (.proceed, v.leave k node s)

/-- A walk without nodes. -/
def nothing (s : σ) : Verdict × σ := (.proceed, s)

/-- Walks a binding, which has no children. -/
def walkDeclarator (v : Visitor σ) (node : Declarator) : σ → Verdict × σ :=
  v.around .declarator node nothing

/-- Walks a declaration of variables. -/
def walkVariables (v : Visitor σ) (node : VariableDeclaration) : σ → Verdict × σ :=
  v.around .bindings node (walkEach v.walkDeclarator node.declarators)

/-- Walks what an export declares. -/
def walkDeclaration (v : Visitor σ) (node : Declaration) : σ → Verdict × σ :=
  v.around .declaration node <|
    match node with
    | .bindings node => v.walkVariables node
    | .function _ => nothing
    | .classes _ => nothing
    | .verbatim _ => nothing

/-- Walks an export. -/
def walkExport (v : Visitor σ) (node : NamedExport) : σ → Verdict × σ :=
  v.around .namedExport node <|
    match node.declaration with
    | some declaration => v.walkDeclaration declaration
    | none => nothing

/-- Walks a statement. -/
def walkStatement (v : Visitor σ) (node : Statement) : σ → Verdict × σ :=
  v.around .statement node <|
    match node with
    | .exporting namedExport => v.walkExport namedExport
    | .bindings node => v.walkVariables node
    | .function _ => nothing
    | .classes _ => nothing
    | .verbatim _ => nothing

/-- Walks a module. -/
def walkProgram (v : Visitor σ) (node : Program) : σ → Verdict × σ :=
  v.around .program node (walkEach v.walkStatement node.body)

/-- Walks a node of any kind. -/
def walk (v : Visitor σ) : (k : NodeKind) → k.Node → σ → Verdict × σ
  | .program => v.walkProgram
  | .statement => v.walkStatement
  | .namedExport => v.walkExport
  | .declaration => v.walkDeclaration
  | .bindings => v.walkVariables
  | .declarator => v.walkDeclarator

/-- The visitor as an editor that changes nothing. -/
def toEditor (v : Visitor σ) : Editor σ where
  visit k node s := let (verdict, s) := v.visit k node s; (verdict, node, s)
  leave k node s := (node, v.leave k node s)

end Visitor

/-- Edits the elements of a list until one walk stops; those behind it stay. -/
def editEach {α σ : Type} (edit : α → σ → Verdict × α × σ) : List α → σ → Verdict × List α × σ
  | [], s => (.proceed, [], s)
  | a :: rest, s =>
    match edit a s with
    | (.stop, a, s) => (.stop, a :: rest, s)
    | (_, a, s) =>
      let (verdict, rest, s) := editEach edit rest s
      (verdict, a :: rest, s)

namespace Editor

variable {σ : Type}

/-- Shows a node, then the children of the node handed back if the editor proceeds, then the node
again unless something stopped. -/
def around (e : Editor σ) (k : NodeKind) (children : k.Node → σ → Verdict × k.Node × σ)
    (node : k.Node) (s : σ) : Verdict × k.Node × σ :=
  match e.visit k node s with
  | (.stop, node, s) => (.stop, node, s)
  | (.skip, node, s) => (.proceed, e.leave k node s)
  | (.proceed, node, s) =>
    match children node s with
    | (.stop, node, s) => (.stop, node, s)
    | (_, node, s) => (.proceed, e.leave k node s)

/-- Puts an edited part back into its node. -/
def within {α β : Type} (rebuild : α → β) (edited : Verdict × α × σ) : Verdict × β × σ :=
  (edited.1, rebuild edited.2.1, edited.2.2)

/-- Edits a binding. -/
def editDeclarator (e : Editor σ) : Declarator → σ → Verdict × Declarator × σ :=
  e.around .declarator fun node s => (.proceed, node, s)

/-- Edits a declaration of variables. -/
def editVariables (e : Editor σ) : VariableDeclaration → σ → Verdict × VariableDeclaration × σ :=
  e.around .bindings fun node s =>
    within (fun declarators => { node with declarators })
      (editEach e.editDeclarator node.declarators s)

/-- Edits what an export declares. -/
def editDeclaration (e : Editor σ) : Declaration → σ → Verdict × Declaration × σ :=
  e.around .declaration fun node s =>
    match node with
    | .bindings node => within .bindings (e.editVariables node s)
    | .function _ => (.proceed, node, s)
    | .classes _ => (.proceed, node, s)
    | .verbatim _ => (.proceed, node, s)

/-- Edits an export. -/
def editExport (e : Editor σ) : NamedExport → σ → Verdict × NamedExport × σ :=
  e.around .namedExport fun node s =>
    match node.declaration with
    | some declaration =>
      within (fun declaration => { node with declaration := some declaration })
        (e.editDeclaration declaration s)
    | none => (.proceed, node, s)

/-- Edits a statement. -/
def editStatement (e : Editor σ) : Statement → σ → Verdict × Statement × σ :=
  e.around .statement fun node s =>
    match node with
    | .exporting namedExport => within .exporting (e.editExport namedExport s)
    | .bindings node => within .bindings (e.editVariables node s)
    | .function _ => (.proceed, node, s)
    | .classes _ => (.proceed, node, s)
    | .verbatim _ => (.proceed, node, s)

/-- Edits a module. -/
def editProgram (e : Editor σ) : Program → σ → Verdict × Program × σ :=
  e.around .program fun node s =>
    within (fun body => { node with body }) (editEach e.editStatement node.body s)

/-- Edits a node of any kind. -/
def edit (e : Editor σ) : (k : NodeKind) → k.Node → σ → Verdict × k.Node × σ
  | .program => e.editProgram
  | .statement => e.editStatement
  | .namedExport => e.editExport
  | .declaration => e.editDeclaration
  | .bindings => e.editVariables
  | .declarator => e.editDeclarator

end Editor

end SelfNamed
