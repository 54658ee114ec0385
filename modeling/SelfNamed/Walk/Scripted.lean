import SelfNamed.Walk.Visitor

/-!
# Visitors that follow a script

A scripted visitor records every call with a label of the node and answers by the first rule that
fits. As an editor it also puts other nodes in place of those it is shown. It serves to watch what a
walk does.
-/

namespace SelfNamed.Scripted

/-- A call that a walk makes. -/
structure Call where
  /-- Whether it is the last look at the node. -/
  leaving : Bool
  /-- The kind of the node. -/
  kind : NodeKind
  /-- What tells the node from others. -/
  label : String
  deriving DecidableEq, Repr

/-- When a rule applies and what it asks for. -/
structure Rule where
  /-- Whether it is about last looks. -/
  leaving : Bool
  /-- The kind of node that it is about. -/
  kind : NodeKind
  /-- How many such calls must have come before, if that matters. -/
  nth : Option Nat
  /-- The label of the node, if that matters. -/
  label : Option String
  /-- The answer to a first look. -/
  verdict : Verdict
  /-- The node to put in place. -/
  replacement : Option kind.Node

/-- A label of a node. -/
def label : (k : NodeKind) → k.Node → String
  | .program, node => toString node.body.length
  | .statement, node => node.nodeType
  | .namedExport, node => (node.declaration.map Declaration.nodeType).getD "none"
  | .declaration, node => node.nodeType
  | .bindings, node => node.kind.keyword
  | .declarator, node => node.name?.getD "?"

/-- The calls so far, the last one first. -/
abbrev Calls := List Call

/-- The first rule that fits a call. -/
def find? (rules : List Rule) (call : Call) (before : Calls) : Option Rule :=
  let nth := (before.filter fun c => c.leaving == call.leaving && c.kind == call.kind).length
  rules.find? fun rule =>
    rule.leaving == call.leaving && rule.kind == call.kind &&
      rule.nth.all (· == nth) && rule.label.all (· == call.label)

/-- The node that a rule puts in place of another. -/
def replace (rule : Option Rule) (k : NodeKind) (node : k.Node) : k.Node :=
  match rule with
  | some rule =>
    if h : rule.kind = k then h ▸ rule.replacement.getD (h ▸ node) else node
  | none => node

/-- The answer that a rule gives. -/
def answer (rule : Option Rule) : Verdict := (rule.map Rule.verdict).getD .proceed

/-- Records calls and answers by rules. -/
def visitor (rules : List Rule) : Visitor Calls where
  visit k node calls :=
    let call : Call := ⟨false, k, label k node⟩
    (answer (find? rules call calls), call :: calls)
  leave k node calls := ⟨true, k, label k node⟩ :: calls

/-- Records calls, answers by rules and puts nodes in place. -/
def editor (rules : List Rule) : Editor Calls where
  visit k node calls :=
    let call : Call := ⟨false, k, label k node⟩
    let rule := find? rules call calls
    (answer rule, replace rule k node, call :: calls)
  leave k node calls :=
    let call : Call := ⟨true, k, label k node⟩
    (replace (find? rules call calls) k node, call :: calls)

end SelfNamed.Scripted
