import SelfNamed.Proofs.Walk.ReadOnly

/-!
# Walks keep to the tree

Every walk makes the looks that the tree of nodes asks for. One statement says this of a walk over
nodes: the same walk with an editor that writes down its looks leaves the same nodes and state and
has written down looks that complete the walk or stop it. It goes from children to their node for
every kind at once, from items to lists by one induction, and then through the kinds from the leaves
up. A visitor is an editor that hands back what it is shown, so its walks need no second proof.
-/

namespace SelfNamed

variable {σ : Type}

namespace Editor

variable {α β : Type}

/-- A walk over some nodes, and the same walk with its looks written down behind others. The nodes
are left as parts of something. -/
def Keeps (e : Editor σ) (nodes : List AnyNode) (parts : α → List AnyNode) (s : σ)
    (log : List Look) (plain : Verdict × α × σ) (logged : Verdict × α × (σ × List Look)) : Prop :=
  ∃ verdict left t looks, plain = (verdict, left, t) ∧
    logged = (verdict, left, (t, log ++ looks)) ∧
    (verdict = .proceed ∧ Completed e nodes s looks (parts left) t ∨
      verdict = .stop ∧ Stopped e nodes s looks (parts left) t)

variable {e : Editor σ}

/-- A walk over no nodes makes no looks and leaves everything as it is. -/
theorem keeps_nothing {parts : α → List AnyNode} {whole : α} (h : parts whole = []) (s : σ)
    (log : List Look) :
    e.Keeps [] parts s log (.proceed, whole, s) (.proceed, whole, (s, log)) := by
  refine ⟨.proceed, whole, s, [], rfl, by rw [List.append_nil], Or.inl ⟨rfl, ?_⟩⟩
  rw [h]
  exact .nothing

/-- What is walked inside something is walked in what is around it. -/
theorem Keeps.within {nodes : List AnyNode} {parts : α → List AnyNode}
    {partsAround : β → List AnyNode} {s : σ} {log : List Look} {plain : Verdict × α × σ}
    {logged : Verdict × α × (σ × List Look)} (h : e.Keeps nodes parts s log plain logged)
    (rebuild : α → β) (hparts : ∀ part, partsAround (rebuild part) = parts part) :
    e.Keeps nodes partsAround s log (within rebuild plain) (within rebuild logged) := by
  obtain ⟨verdict, left, t, looks, rfl, rfl, hlooks⟩ := h
  refine ⟨verdict, rebuild left, t, looks, rfl, rfl, ?_⟩
  rw [hparts]
  exact hlooks

/-- The looks at a node around the walk over its children are the walk over the node. -/
theorem keeps_around {k : NodeKind} {inner : k.Node → σ → Verdict × k.Node × σ}
    {innerLogged : k.Node → σ × List Look → Verdict × k.Node × (σ × List Look)}
    (hinner : ∀ node s log,
      e.Keeps (k.children node) k.children s log (inner node s) (innerLogged node (s, log)))
    (hsame : ∀ node s,
      (inner node s).2.1 = k.withChildren node (k.children (inner node s).2.1))
    (node : k.Node) (s : σ) (log : List Look) :
    e.Keeps [⟨k, node⟩] (fun left => [⟨k, left⟩]) s log (e.around k inner node s)
      (e.logged.around k innerLogged node (s, log)) := by
  rcases hfirst : e.visit k node s with ⟨verdict, left, t⟩
  have hlogged : e.logged.visit k node (s, log) =
      (verdict, left, t, log ++ [.first k node left verdict]) := by
    simp only [Editor.logged, hfirst]
  rw [Editor.around, hfirst, Editor.around, hlogged]
  cases verdict with
  | stop => exact ⟨.stop, left, t, _, rfl, rfl, Or.inr ⟨rfl, .here hfirst⟩⟩
  | skip =>
    rcases hlast : e.leave k left t with ⟨final, u⟩
    refine ⟨.proceed, final, u, _, ?_, ?_, Or.inl ⟨rfl, .skipped hfirst hlast⟩⟩
    · simp only [hlast]
    · simp only [Editor.logged, hlast, List.append_assoc, List.singleton_append]
  | proceed =>
    obtain ⟨verdict, left', u, looks, hwalk, hwalked, hlooks⟩ :=
      hinner left t (log ++ [.first k node left .proceed])
    have hrebuilt : left' = k.withChildren left (k.children left') := by
      have h := hsame left t
      rw [hwalk] at h
      exact h
    simp only [hwalk, hwalked]
    rcases hlooks with ⟨rfl, hlooks⟩ | ⟨rfl, hlooks⟩
    · rcases hlast : e.leave k left' u with ⟨final, w⟩
      have hcompleted := Completed.entered hfirst hlooks (hrebuilt ▸ hlast)
      rw [← hrebuilt] at hcompleted
      refine ⟨.proceed, final, w, _, ?_, ?_, Or.inl ⟨rfl, hcompleted⟩⟩
      · simp only [hlast]
      · simp only [Editor.logged, hlast, List.append_assoc, List.cons_append, List.nil_append]
    · have hstopped := Stopped.inside hfirst hlooks
      rw [← hrebuilt] at hstopped
      refine ⟨.stop, left', u, _, rfl, ?_, Or.inr ⟨rfl, hstopped⟩⟩
      simp only [List.append_assoc, List.singleton_append]

/-- What the walks over the items keep to, the walk over the list does. The induction goes on behind
each item that does not stop the walk; behind one that does, the others stay. -/
theorem keeps_each {k : NodeKind} {walk : k.Node → σ → Verdict × k.Node × σ}
    {walkLogged : k.Node → σ × List Look → Verdict × k.Node × (σ × List Look)}
    (h : ∀ node s log, e.Keeps [⟨k, node⟩] (fun left => [⟨k, left⟩]) s log (walk node s)
      (walkLogged node (s, log)))
    (items : List k.Node) (s : σ) (log : List Look) :
    e.Keeps (items.map fun node => ⟨k, node⟩) (List.map fun node => ⟨k, node⟩) s log
      (editEach walk items s) (editEach walkLogged items (s, log)) := by
  induction items generalizing s log with
  | nil => exact keeps_nothing List.map_nil s log
  | cons node items ih =>
    obtain ⟨verdict, left, t, looks, hwalk, hwalked, hlooks⟩ := h node s log
    rw [editEach, hwalk, editEach, hwalked]
    rcases hlooks with ⟨rfl, hlooks⟩ | ⟨rfl, hlooks⟩
    · obtain ⟨verdict, others, u, later, heach, heached, hlater⟩ := ih t (log ++ looks)
      refine ⟨verdict, left :: others, u, looks ++ later, ?_, ?_, ?_⟩
      · simp only [heach]
      · simp only [heached, List.append_assoc]
      · rcases hlater with ⟨rfl, hlater⟩ | ⟨rfl, hlater⟩
        · exact Or.inl ⟨rfl, .both hlooks hlater⟩
        · exact Or.inr ⟨rfl, .later hlooks hlater⟩
    · exact ⟨.stop, left :: items, t, looks, rfl, rfl, Or.inr ⟨rfl, .sooner _ hlooks⟩⟩

variable (e)

/-- The walk over nodes of a kind keeps to the tree. -/
def KeepsKind (k : NodeKind) : Prop :=
  ∀ node s log, e.Keeps [⟨k, node⟩] (fun left => [⟨k, left⟩]) s log (e.edit k node s)
    (e.logged.edit k node (s, log))

/-- The walk over a binding keeps to the tree: a binding has no children. -/
theorem keeps_declarator : e.KeepsKind .declarator := by
  intro node s log
  change e.Keeps _ _ s log
    (e.around .declarator (fun node s => (.proceed, node, s)) node s)
    (e.logged.around .declarator (fun node s => (.proceed, node, s)) node (s, log))
  refine keeps_around ?_ ?_ node s log
  · intro node s log
    exact keeps_nothing rfl s log
  · intro node s
    rfl

/-- The walk over a declaration of variables keeps to the tree: its children are its bindings. -/
theorem keeps_variables : e.KeepsKind .bindings := by
  refine keeps_around ?_ ?_
  · intro node s log
    exact (keeps_each (keeps_declarator e) node.declarators s log).within _ fun _ => rfl
  · intro node s
    exact congrArg (fun declarators => ({ node with declarators } : VariableDeclaration))
      (AnyNode.filterMap_as? .declarator _).symm

/-- The walk over what an export declares keeps to the tree: only variables are its children. -/
theorem keeps_declaration : e.KeepsKind .declaration := by
  refine keeps_around ?_ ?_
  · intro node s log
    cases node with
    | bindings node => exact (keeps_variables e node s log).within _ fun _ => rfl
    | function node => exact keeps_nothing rfl s log
    | classes node => exact keeps_nothing rfl s log
    | verbatim value => exact keeps_nothing rfl s log
  · intro node s
    cases node with
    | bindings node =>
      simp [Editor.within, NodeKind.children, NodeKind.withChildren]
    | function node => rfl
    | classes node => rfl
    | verbatim value => rfl

/-- The walk over an export keeps to the tree: its child is what it declares, if anything. -/
theorem keeps_export : e.KeepsKind .namedExport := by
  refine keeps_around ?_ ?_
  · rintro ⟨declaration, rest⟩ s log
    cases declaration with
    | none => exact keeps_nothing rfl s log
    | some declaration => exact (keeps_declaration e declaration s log).within _ fun _ => rfl
  · rintro ⟨declaration, rest⟩ s
    cases declaration with
    | none => rfl
    | some declaration => simp [Editor.within, NodeKind.children, NodeKind.withChildren]

/-- The walk over a statement keeps to the tree: exports and variables have a child. -/
theorem keeps_statement : e.KeepsKind .statement := by
  refine keeps_around ?_ ?_
  · intro node s log
    cases node with
    | exporting node => exact (keeps_export e node s log).within _ fun _ => rfl
    | bindings node => exact (keeps_variables e node s log).within _ fun _ => rfl
    | function node => exact keeps_nothing rfl s log
    | classes node => exact keeps_nothing rfl s log
    | verbatim value => exact keeps_nothing rfl s log
  · intro node s
    cases node with
    | exporting node => simp [Editor.within, NodeKind.children, NodeKind.withChildren]
    | bindings node => simp [Editor.within, NodeKind.children, NodeKind.withChildren]
    | function node => rfl
    | classes node => rfl
    | verbatim value => rfl

/-- The walk over a module keeps to the tree: its children are its statements. -/
theorem keeps_program : e.KeepsKind .program := by
  refine keeps_around ?_ ?_
  · intro node s log
    exact (keeps_each (keeps_statement e) node.body s log).within _ fun _ => rfl
  · intro node s
    exact congrArg (fun body => ({ node with body } : Program))
      (AnyNode.filterMap_as? .statement _).symm

/-- The walk over any node keeps to the tree. -/
theorem keeps_edit (k : NodeKind) : e.KeepsKind k := by
  cases k with
  | program => exact keeps_program e
  | statement => exact keeps_statement e
  | namedExport => exact keeps_export e
  | declaration => exact keeps_declaration e
  | bindings => exact keeps_variables e
  | declarator => exact keeps_declarator e

/-- The looks of a walk over a node, by what the walk returns. It proceeds when no look stops: then
the looks complete the walk, and every node that was opened has been closed. It stops at the first
look that stops, which is the last look, and the nodes that are open there stay open. -/
def Orderly (e : Editor σ) (k : NodeKind) (node : k.Node) (s : σ) (looks : List Look)
    (result : Verdict × k.Node × σ) : Prop :=
  (result.1 = .proceed ∧ (∀ look ∈ looks, ¬ look.Stops) ∧
      Completed e [⟨k, node⟩] s looks [⟨k, result.2.1⟩] result.2.2 ∧
      looks.foldlM Look.openAfter [] = some []) ∨
    (result.1 = .stop ∧
      (∃ before last, looks = before ++ [last] ∧ last.Stops ∧ ∀ look ∈ before, ¬ look.Stops) ∧
      Stopped e [⟨k, node⟩] s looks [⟨k, result.2.1⟩] result.2.2 ∧
      ∃ k' inner, looks.foldlM Look.openAfter [] = some (k' :: inner))

/-- The walk of an editor that writes down its looks is the walk of the editor with orderly looks.
-/
theorem exists_orderly (k : NodeKind) (node : k.Node) (s : σ) :
    ∃ looks, e.logged.edit k node (s, []) =
        ((e.edit k node s).1, (e.edit k node s).2.1, ((e.edit k node s).2.2, looks)) ∧
      e.Orderly k node s looks (e.edit k node s) := by
  obtain ⟨verdict, left, t, looks, hwalk, hlogged, hlooks⟩ := keeps_edit e k node s []
  refine ⟨looks, by rw [hwalk, hlogged, List.nil_append], ?_⟩
  rw [hwalk]
  rcases hlooks with ⟨rfl, hcompleted⟩ | ⟨rfl, hstopped⟩
  · exact Or.inl ⟨rfl, hcompleted.not_stops, hcompleted, hcompleted.closes []⟩
  · obtain ⟨k', inner, hinner⟩ := hstopped.stays_open []
    rw [List.append_nil] at hinner
    exact Or.inr ⟨rfl, hstopped.exists_last, hstopped, k', inner, hinner⟩

end Editor

/-- Walks over nodes of all kinds make orderly looks, those of editors and those of visitors. For an
editor the children are those of the node that its first look handed back, and for a visitor every
node is as it was. -/
theorem looks_orderly :
    (∀ (e : Editor σ) (k : NodeKind) (node : k.Node) (s : σ), ∃ looks,
      e.logged.edit k node (s, []) =
        ((e.edit k node s).1, (e.edit k node s).2.1, ((e.edit k node s).2.2, looks)) ∧
      e.Orderly k node s looks (e.edit k node s)) ∧
    (∀ (v : Visitor σ) (k : NodeKind) (node : k.Node) (s : σ), ∃ looks,
      v.logged.walk k node (s, []) = ((v.walk k node s).1, ((v.walk k node s).2, looks)) ∧
      v.toEditor.Orderly k node s looks ((v.walk k node s).1, node, (v.walk k node s).2)) := by
  refine ⟨Editor.exists_orderly, ?_⟩
  intro v k node s
  obtain ⟨looks, hlogged, horderly⟩ := v.toEditor.exists_orderly k node s
  rw [← v.logged_toEditor, v.logged.edit_toEditor, v.edit_toEditor] at hlogged
  rw [v.edit_toEditor] at horderly
  refine ⟨looks, ?_, horderly⟩
  have hverdict := congrArg Prod.fst hlogged
  have hstate := congrArg (fun result => result.2.2) hlogged
  exact Prod.ext hverdict hstate

end SelfNamed
