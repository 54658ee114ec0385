import SelfNamed.Proofs.Walk.Looks

/-!
# Visitors as editors

There is a walk for visitors and one for editors. A visitor that is used as an editor hands back
what it is shown, and the walk of this editor is the walk of the visitor: the same answer and the
same state, and the node as it was. The statement goes from children to their node, from items to
lists, and through the kinds from the leaves up. Writing down the looks makes no difference to it.
-/

namespace SelfNamed

variable {σ : Type}

/-- A walk for editors that is a walk for visitors and hands back every node. -/
def HandsBack {α : Type} (edit : α → σ → Verdict × α × σ) (walk : α → σ → Verdict × σ) : Prop :=
  ∀ node s, edit node s = ((walk node s).1, node, (walk node s).2)

/-- A walk over a list hands back the list when the walk over an item hands back the item. -/
theorem HandsBack.each {α : Type} {edit : α → σ → Verdict × α × σ} {walk : α → σ → Verdict × σ}
    (h : HandsBack edit walk) : HandsBack (editEach edit) (walkEach walk) := by
  intro items
  induction items with
  | nil =>
    intro s
    rfl
  | cons node items ih =>
    intro s
    rw [editEach, h node s, walkEach]
    rcases walk node s with ⟨verdict, t⟩
    cases verdict with
    | stop => rfl
    | proceed =>
      dsimp only
      rw [ih t]
    | skip =>
      dsimp only
      rw [ih t]

namespace Visitor

variable (v : Visitor σ)

/-- The looks around the children of a node hand back the node when the walk over the children does.
-/
theorem handsBack_around {k : NodeKind} {inner : k.Node → σ → Verdict × k.Node × σ}
    {children : k.Node → σ → Verdict × σ} (h : HandsBack inner children) :
    HandsBack (v.toEditor.around k inner) fun node => v.around k node (children node) := by
  intro node s
  have hvisit : v.toEditor.visit k node s =
      ((v.visit k node s).1, node, (v.visit k node s).2) := rfl
  have hleave (t : σ) : v.toEditor.leave k node t = (node, v.leave k node t) := rfl
  dsimp only
  rw [Editor.around, hvisit, Visitor.around]
  rcases v.visit k node s with ⟨verdict, t⟩
  cases verdict with
  | stop => rfl
  | skip => simp only [hleave]
  | proceed =>
    dsimp only
    rw [h node t]
    rcases children node t with ⟨verdict, u⟩
    cases verdict with
    | stop => rfl
    | skip => simp only [hleave]
    | proceed => simp only [hleave]

/-- The walk over a binding hands back the binding. -/
theorem handsBack_declarator : HandsBack v.toEditor.editDeclarator v.walkDeclarator :=
  v.handsBack_around fun _ _ => rfl

/-- The walk over a declaration of variables hands back the declaration. -/
theorem handsBack_variables : HandsBack v.toEditor.editVariables v.walkVariables := by
  refine v.handsBack_around ?_
  intro node s
  dsimp only
  rw [(handsBack_declarator v).each node.declarators s]
  rfl

/-- The walk over what an export declares hands it back. -/
theorem handsBack_declaration : HandsBack v.toEditor.editDeclaration v.walkDeclaration := by
  refine v.handsBack_around ?_
  intro node s
  cases node with
  | bindings node =>
    dsimp only
    rw [handsBack_variables v node s]
    rfl
  | function node => rfl
  | classes node => rfl
  | verbatim value => rfl

/-- The walk over an export hands back the export. -/
theorem handsBack_export : HandsBack v.toEditor.editExport v.walkExport := by
  refine v.handsBack_around ?_
  rintro ⟨declaration, rest⟩ s
  cases declaration with
  | none => rfl
  | some declaration =>
    dsimp only
    rw [handsBack_declaration v declaration s]
    rfl

/-- The walk over a statement hands back the statement. -/
theorem handsBack_statement : HandsBack v.toEditor.editStatement v.walkStatement := by
  refine v.handsBack_around ?_
  intro node s
  cases node with
  | exporting node =>
    dsimp only
    rw [handsBack_export v node s]
    rfl
  | bindings node =>
    dsimp only
    rw [handsBack_variables v node s]
    rfl
  | function node => rfl
  | classes node => rfl
  | verbatim value => rfl

/-- The walk over a module hands back the module. -/
theorem handsBack_program : HandsBack v.toEditor.editProgram v.walkProgram := by
  refine v.handsBack_around ?_
  intro node s
  dsimp only
  rw [(handsBack_statement v).each node.body s]
  rfl

/-- A visitor that is used as an editor walks as before and changes nothing. -/
theorem edit_toEditor (k : NodeKind) (node : k.Node) (s : σ) :
    v.toEditor.edit k node s = ((v.walk k node s).1, node, (v.walk k node s).2) := by
  cases k with
  | program => exact handsBack_program v node s
  | statement => exact handsBack_statement v node s
  | namedExport => exact handsBack_export v node s
  | declaration => exact handsBack_declaration v node s
  | bindings => exact handsBack_variables v node s
  | declarator => exact handsBack_declarator v node s

/-- The looks of a visitor are those of the editor that it is. -/
theorem logged_toEditor : v.logged.toEditor = v.toEditor.logged := rfl

end Visitor

end SelfNamed
