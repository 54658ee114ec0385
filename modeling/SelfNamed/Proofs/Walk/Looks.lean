import Mathlib.Data.List.Basic
import SelfNamed.Walk.Visitor

/-!
# The looks of a walk

A look shows a node to an editor, for the first or for the last time, and gets a node back. An
editor that writes down its looks does everything as before, so the looks of a walk are those that
it wrote down.

What they should be is told by the tree of nodes: a completed walk shows a node, walks the children
of the node handed back one after another if the answer is to proceed, and shows the node again. A
stopped walk ends where the answer is to stop. Both are relations between a node, the state before,
the looks, the node left and the state after. From them it follows that first and last looks are
nested, and that a stop is the last look.
-/

namespace SelfNamed

variable {σ : Type}

/-- A node of some kind. -/
abbrev AnyNode := Σ k : NodeKind, k.Node

/-- The node, if it is of the given kind. -/
def AnyNode.as? (k : NodeKind) : AnyNode → Option k.Node
  | ⟨other, node⟩ => if h : other = k then some (h ▸ node) else none

/-- A node is of its kind. -/
@[simp] theorem AnyNode.as?_self (k : NodeKind) (node : k.Node) : as? k ⟨k, node⟩ = some node := by
  rw [as?, dif_pos rfl]

/-- The nodes of one kind are all of it. -/
@[simp] theorem AnyNode.filterMap_as? (k : NodeKind) (nodes : List k.Node) :
    (nodes.map fun node => (⟨k, node⟩ : AnyNode)).filterMap (as? k) = nodes := by
  rw [List.filterMap_map]
  have hself : as? k ∘ (fun node => (⟨k, node⟩ : AnyNode)) = some :=
    funext fun node => as?_self k node
  rw [hself, List.filterMap_some]

namespace NodeKind

/-- The children of a node that a walk shows, in source order. -/
def children : (k : NodeKind) → k.Node → List AnyNode
  | .program, node => node.body.map fun s => ⟨.statement, s⟩
  | .statement, .exporting node => [⟨.namedExport, node⟩]
  | .statement, .bindings node => [⟨.bindings, node⟩]
  | .statement, _ => []
  | .namedExport, node => node.declaration.toList.map fun d => ⟨.declaration, d⟩
  | .declaration, .bindings node => [⟨.bindings, node⟩]
  | .declaration, _ => []
  | .bindings, node => node.declarators.map fun d => ⟨.declarator, d⟩
  | .declarator, _ => []

/-- The node with other nodes for its children, as many and of the same kinds. -/
def withChildren : (k : NodeKind) → k.Node → List AnyNode → k.Node
  | .program, node, kids => { node with body := kids.filterMap (AnyNode.as? .statement) }
  | .statement, .exporting node, kids =>
    .exporting ((kids.findSome? (AnyNode.as? .namedExport)).getD node)
  | .statement, .bindings node, kids =>
    .bindings ((kids.findSome? (AnyNode.as? .bindings)).getD node)
  | .statement, node, _ => node
  | .namedExport, node, kids =>
    { node with declaration := kids.findSome? (AnyNode.as? .declaration) }
  | .declaration, .bindings node, kids =>
    .bindings ((kids.findSome? (AnyNode.as? .bindings)).getD node)
  | .declaration, node, _ => node
  | .bindings, node, kids => { node with declarators := kids.filterMap (AnyNode.as? .declarator) }
  | .declarator, node, _ => node

end NodeKind

/-- A look that a walk makes: the node shown, the node handed back, and at the first look the
answer. -/
inductive Look where
  /-- The first look at a node. -/
  | first (k : NodeKind) (shown left : k.Node) (verdict : Verdict)
  /-- The last look at a node. -/
  | last (k : NodeKind) (shown left : k.Node)

/-- A look that stops the walk. -/
def Look.Stops (look : Look) : Prop := ∃ k shown left, look = .first k shown left .stop

/-- The nodes that are open after a look, the innermost first: a first look opens one, a last look
closes the innermost, which must be of its kind. -/
def Look.openAfter : List NodeKind → Look → Option (List NodeKind)
  | inside, .first k _ _ _ => some (k :: inside)
  | k' :: inside, .last k _ _ => if k = k' then some inside else none
  | [], .last _ _ _ => none

/-- The editor that also writes down its looks. -/
def Editor.logged (e : Editor σ) : Editor (σ × List Look) where
  visit k node s :=
    let (verdict, left, t) := e.visit k node s.1
    (verdict, left, t, s.2 ++ [.first k node left verdict])
  leave k node s :=
    let (left, t) := e.leave k node s.1
    (left, t, s.2 ++ [.last k node left])

/-- The visitor that also writes down its looks. -/
def Visitor.logged (v : Visitor σ) : Visitor (σ × List Look) where
  visit k node s :=
    let (verdict, t) := v.visit k node s.1
    (verdict, t, s.2 ++ [.first k node node verdict])
  leave k node s := (v.leave k node s.1, s.2 ++ [.last k node node])

/-- The walks over some nodes, one after another, run to their ends with these looks and leave these
nodes. -/
inductive Completed (e : Editor σ) : List AnyNode → σ → List Look → List AnyNode → σ → Prop where
  /-- There is nothing to walk. -/
  | nothing {s : σ} : Completed e [] s [] [] s
  /-- The children of a node are passed over. -/
  | skipped {k : NodeKind} {node left final : k.Node} {s t u : σ}
    (first : e.visit k node s = (.skip, left, t)) (last : e.leave k left t = (final, u)) :
    Completed e [⟨k, node⟩] s [.first k node left .skip, .last k left final] [⟨k, final⟩] u
  /-- The children of the node handed back are walked between its two looks. -/
  | entered {k : NodeKind} {node left final : k.Node} {s t u w : σ} {looks : List Look}
    {kids : List AnyNode} (first : e.visit k node s = (.proceed, left, t))
    (inside : Completed e (k.children left) t looks kids u)
    (last : e.leave k (k.withChildren left kids) u = (final, w)) :
    Completed e [⟨k, node⟩] s
      (.first k node left .proceed :: (looks ++ [.last k (k.withChildren left kids) final]))
      [⟨k, final⟩] w
  /-- Some nodes are walked, then others. -/
  | both {nodes nodes' kids kids' : List AnyNode} {s t u : σ} {looks looks' : List Look}
    (before : Completed e nodes s looks kids t) (after : Completed e nodes' t looks' kids' u) :
    Completed e (nodes ++ nodes') s (looks ++ looks') (kids ++ kids') u

/-- Of the walks over some nodes, one after another, one is stopped; the nodes behind it stay. -/
inductive Stopped (e : Editor σ) : List AnyNode → σ → List Look → List AnyNode → σ → Prop where
  /-- The first look at a node stops it. -/
  | here {k : NodeKind} {node left : k.Node} {s t : σ}
    (first : e.visit k node s = (.stop, left, t)) :
    Stopped e [⟨k, node⟩] s [.first k node left .stop] [⟨k, left⟩] t
  /-- One of the children of the node handed back stops it. -/
  | inside {k : NodeKind} {node left : k.Node} {s t u : σ} {looks : List Look}
    {kids : List AnyNode} (first : e.visit k node s = (.proceed, left, t))
    (inside : Stopped e (k.children left) t looks kids u) :
    Stopped e [⟨k, node⟩] s (.first k node left .proceed :: looks)
      [⟨k, k.withChildren left kids⟩] u
  /-- One of some nodes stops it, and no others are walked. -/
  | sooner {nodes kids : List AnyNode} {s t : σ} {looks : List Look} (others : List AnyNode)
    (before : Stopped e nodes s looks kids t) :
    Stopped e (nodes ++ others) s looks (kids ++ others) t
  /-- Some nodes are walked to the end, one of the others stops it. -/
  | later {nodes nodes' kids kids' : List AnyNode} {s t u : σ} {looks looks' : List Look}
    (before : Completed e nodes s looks kids t) (after : Stopped e nodes' t looks' kids' u) :
    Stopped e (nodes ++ nodes') s (looks ++ looks') (kids ++ kids') u

/-- Last looks do not stop. -/
theorem Look.not_stops_last (k : NodeKind) (shown left : k.Node) :
    ¬ (Look.last k shown left).Stops := by
  rintro ⟨_, _, _, h⟩
  cases h

/-- A first look stops by its answer. -/
theorem Look.stops_first_iff {k : NodeKind} {shown left : k.Node} {verdict : Verdict} :
    (Look.first k shown left verdict).Stops ↔ verdict = .stop := by
  constructor
  · rintro ⟨_, _, _, h⟩
    cases h
    rfl
  · rintro rfl
    exact ⟨k, shown, left, rfl⟩

section

variable {e : Editor σ} {nodes kids : List AnyNode} {s t : σ} {looks : List Look}

/-- No look of a completed walk stops. -/
theorem Completed.not_stops (h : Completed e nodes s looks kids t) :
    ∀ look ∈ looks, ¬ look.Stops := by
  induction h with
  | nothing => simp
  | skipped first last => simp [Look.not_stops_last, Look.stops_first_iff]
  | entered first inside last ih =>
    intro look hlook
    rcases List.mem_cons.mp hlook with rfl | hlook
    · simp [Look.stops_first_iff]
    · rcases List.mem_append.mp hlook with hlook | hlook
      · exact ih look hlook
      · obtain rfl := List.mem_singleton.mp hlook
        exact Look.not_stops_last _ _ _
  | both before after ihbefore ihafter =>
    intro look hlook
    rcases List.mem_append.mp hlook with hlook | hlook
    · exact ihbefore look hlook
    · exact ihafter look hlook

/-- A completed walk closes the nodes that it opens, each by its own last look, and no others. -/
theorem Completed.closes (h : Completed e nodes s looks kids t) (outer : List NodeKind) :
    looks.foldlM Look.openAfter outer = some outer := by
  induction h generalizing outer with
  | nothing => rfl
  | skipped first last => simp [Look.openAfter]
  | @entered k node left final s t u w looks kids first inside last ih =>
    rw [List.foldlM_cons, Look.openAfter, Option.bind_eq_bind, Option.bind_some, List.foldlM_append,
      ih]
    simp [Look.openAfter]
  | both before after ihbefore ihafter =>
    rw [List.foldlM_append, ihbefore]
    exact ihafter outer

/-- A stopped walk does not close the nodes that are open where it stops. -/
theorem Stopped.stays_open (h : Stopped e nodes s looks kids t) (outer : List NodeKind) :
    ∃ k inner, looks.foldlM Look.openAfter outer = some (k :: inner ++ outer) := by
  induction h generalizing outer with
  | @here k node left s t first => exact ⟨k, [], rfl⟩
  | @inside k node left s t u looks kids first inside ih =>
    obtain ⟨k', inner, hinner⟩ := ih (k :: outer)
    refine ⟨k', inner ++ [k], ?_⟩
    rw [List.foldlM_cons, Look.openAfter, Option.bind_eq_bind, Option.bind_some, hinner,
      List.cons_append, List.cons_append, List.append_assoc, List.singleton_append]
  | sooner others before ih => exact ih outer
  | later before after ih =>
    obtain ⟨k', inner, hinner⟩ := ih outer
    refine ⟨k', inner, ?_⟩
    rw [List.foldlM_append, before.closes]
    exact hinner

/-- The look that stops a walk is its last, and the only one that stops. -/
theorem Stopped.exists_last (h : Stopped e nodes s looks kids t) :
    ∃ before last, looks = before ++ [last] ∧ last.Stops ∧ ∀ look ∈ before, ¬ look.Stops := by
  induction h with
  | here first => exact ⟨[], _, rfl, Look.stops_first_iff.mpr rfl, by simp⟩
  | @inside k node left s t u looks kids first inside ih =>
    obtain ⟨before, last, rfl, hlast, hbefore⟩ := ih
    refine ⟨.first k node left .proceed :: before, last, rfl, hlast, ?_⟩
    intro look hlook
    rcases List.mem_cons.mp hlook with rfl | hlook
    · simp [Look.stops_first_iff]
    · exact hbefore look hlook
  | sooner others before ih => exact ih
  | @later nodes nodes' kids kids' s t u looks looks' hcompleted hstopped ih =>
    obtain ⟨before, last, rfl, hlast, hbefore⟩ := ih
    refine ⟨looks ++ before, last, (List.append_assoc _ _ _).symm, hlast, ?_⟩
    intro look hlook
    rcases List.mem_append.mp hlook with hlook | hlook
    · exact hcompleted.not_stops look hlook
    · exact hbefore look hlook

end

end SelfNamed
