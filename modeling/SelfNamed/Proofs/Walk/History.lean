import Mathlib.Data.List.Infix
import SelfNamed.Proofs.Walk.Listing
import SelfNamed.Proofs.Walk.Looks
import SelfNamed.Tree.Build

/-!
# One listing over many nodes

A listing may be kept and walked over one node after another, of any kinds and in any order. Its
flag stands for what is around a node, and between two walks nothing is around anything: an export
of variables puts the flag up, and since a listing never stops, the export is left and takes the
flag down again. So a node on its own is never taken for exported because of the walks before it.
Main statement: behind each walk the flag is down, and the listing holds what the walked nodes
export, node by node and in source order.
-/

namespace SelfNamed

variable {σ : Type}

namespace Visitor

/-- The states of a visitor that walks over nodes, one after another: the first state, then the
state behind each walk. Behind a walk that was stopped the next one is made all the same. -/
def states (v : Visitor σ) (nodes : List AnyNode) (s : σ) : List σ :=
  nodes.scanl (fun s node => (v.walk node.1 node.2 s).2) s

/-- A history without walks has only the state that it starts from. -/
theorem states_nil (v : Visitor σ) (s : σ) : v.states [] s = [s] := List.scanl_nil

/-- The first walk hands its state to the others. -/
theorem states_cons (v : Visitor σ) (node : AnyNode) (nodes : List AnyNode) (s : σ) :
    v.states (node :: nodes) s = s :: v.states nodes (v.walk node.1 node.2 s).2 :=
  List.scanl_cons

end Visitor

/-- The declarators that a node exports, in source order. A node that is exported by what is around
it exports nothing on its own. -/
def NodeKind.exported : (k : NodeKind) → k.Node → List Declarator
  | .program, node => node.exported
  | .statement, node => node.exported
  | .namedExport, node => node.declarators
  | .declaration, _ => []
  | .bindings, _ => []
  | .declarator, _ => []

namespace AnyNode

/-- The self-named declarators that a node exports, in source order. -/
def selfNamedExports (node : AnyNode) : List Declarator :=
  (node.1.exported node.2).filter Declarator.isSelfNamed

/-- The entries of what a node exports. -/
def entries (node : AnyNode) : List Found := (node.1.exported node.2).flatMap Declarator.entries

end AnyNode

namespace Listing

/-- With the flag down a declarator is passed over. -/
theorem walkDeclarator_of_down : Adds false visitor.walkDeclarator fun _ => [] := by
  intro d found
  have hvisit : visitor.visit .declarator d ⟨found, false⟩ = (.skip, ⟨found, false⟩) := rfl
  rw [List.append_nil]
  exact Visitor.around_of_skip hvisit

/-- With the flag down the walk over a declaration of variables adds nothing. -/
theorem walkVariables_of_down : Adds false visitor.walkVariables fun _ => [] := by
  intro node found
  have hnone : node.declarators.flatMap (fun _ => ([] : List Found)) = [] := by simp
  have hdeclarators := walkDeclarator_of_down.each node.declarators found
  rw [hnone] at hdeclarators
  exact Visitor.around_of_proceed rfl hdeclarators

/-- With the flag down the walk over what an export would declare adds nothing. -/
theorem walkDeclaration_of_down : Adds false visitor.walkDeclaration fun _ => [] := by
  intro node found
  have hleaf : Visitor.nothing ⟨found, false⟩ = (.proceed, (⟨found ++ [], false⟩ : Listing)) := by
    rw [List.append_nil]
    rfl
  cases node with
  | bindings node => exact Visitor.around_of_proceed rfl (walkVariables_of_down node found)
  | function node => exact Visitor.around_of_proceed rfl hleaf
  | classes node => exact Visitor.around_of_proceed rfl hleaf
  | verbatim value => exact Visitor.around_of_proceed rfl hleaf

/-- A walk that begins with the flag down appends the entries of what the node exports, is not
stopped, and ends with the flag down. -/
theorem walk_adds (k : NodeKind) :
    Adds false (visitor.walk k) fun node => (k.exported node).flatMap Declarator.entries := by
  cases k with
  | program => exact walkProgram_adds
  | statement => exact walkStatement_adds
  | namedExport => exact walkExport_adds
  | declaration => exact walkDeclaration_of_down
  | bindings => exact walkVariables_of_down
  | declarator => exact walkDeclarator_of_down

/-- Behind each of some walks the flag is down and the entries of the nodes walked so far have been
appended. The induction takes the first walk away, which hands its entries to the others. -/
theorem states_eq (nodes : List AnyNode) (found : List Found) :
    visitor.states nodes ⟨found, false⟩ =
      (nodes.map AnyNode.entries).inits.map fun walked => ⟨found ++ walked.flatten, false⟩ := by
  induction nodes generalizing found with
  | nil =>
    rw [Visitor.states_nil, List.map_nil, List.inits, List.map_singleton, List.flatten_nil,
      List.append_nil]
  | cons node nodes ih =>
    have hfirst : visitor.walk node.1 node.2 ⟨found, false⟩ =
      (.proceed, ⟨found ++ node.entries, false⟩) := walk_adds node.1 node.2 found
    rw [Visitor.states_cons, hfirst]
    dsimp only
    -- Of the histories, the empty one gives the first state, and all others begin with this walk.
    rw [ih, List.map_cons, List.inits_cons, List.map_cons, List.flatten_nil, List.append_nil,
      List.map_map]
    simp only [Function.comp_def, List.flatten_cons, List.append_assoc]

/-- A listing that is walked over nodes of any kinds, one after another: before the first walk and
behind each of them its flag is down, and what it has found is put together, walk by walk, from
entries that describe the self-named declarators which the walked node exports, in source order. -/
theorem successive_walks_gather (nodes : List AnyNode) :
    ∃ gathered : List (List Found),
      List.Forall₂ (fun node entries => List.Forall₂ Describes node.selfNamedExports entries)
        nodes gathered ∧
      visitor.states nodes {} = gathered.inits.map fun walked => ⟨walked.flatten, false⟩ := by
  refine ⟨nodes.map AnyNode.entries, ?_, ?_⟩
  · rw [List.forall₂_map_right_iff, List.forall₂_same]
    intro node _
    exact describes_entries (node.1.exported node.2)
  · exact states_eq nodes []

/-- A declarator on its own is no export, although the walk before it was over an export of it. -/
example :
    let d : Declarator :=
      ⟨.identifier (.build "a"), some (.text "a"), [("start", .num (.natural 13))]⟩
    let exported : NamedExport := .build (.bindings (.build .constant [d]))
    visitor.states [⟨.namedExport, exported⟩, ⟨.declarator, d⟩, ⟨.statement, .exporting exported⟩]
        {} =
      let entry : Found := ⟨"a", some 13, none⟩
      [⟨[], false⟩, ⟨[entry], false⟩, ⟨[entry], false⟩, ⟨[entry, entry], false⟩] := by
  rfl

end Listing

end SelfNamed
