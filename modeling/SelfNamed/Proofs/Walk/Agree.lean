import SelfNamed.Proofs.Shrink.Run
import SelfNamed.Proofs.Walk.Contract
import SelfNamed.Walk.Scripted

/-!
# Two walks for one behaviour

A behaviour says how to answer a node and which state comes next. It can be used as a visitor, and
as an editor that hands back every node that it is shown; there is a walk for each. Main statement:
both walks make the same looks at the same nodes and end in the same state with the same answer, and
the editor leaves the node as it was. A script without replacements is such a behaviour.
-/

namespace SelfNamed

variable {σ : Type}

/-- An editor that acts as a visitor: it answers and moves on in the same way and hands back every
node that it is shown. -/
structure Editor.ActsAs (e : Editor σ) (v : Visitor σ) : Prop where
  /-- At a first look. -/
  visit : ∀ (k : NodeKind) (node : k.Node) (s : σ),
    e.visit k node s = ((v.visit k node s).1, node, (v.visit k node s).2)
  /-- At a last look. -/
  leave : ∀ (k : NodeKind) (node : k.Node) (s : σ), e.leave k node s = (node, v.leave k node s)

/-- An editor that acts as a visitor is the visitor as an editor. -/
theorem Editor.ActsAs.eq_toEditor {e : Editor σ} {v : Visitor σ} (h : e.ActsAs v) :
    e = v.toEditor := by
  obtain ⟨visit, leave⟩ := e
  have hvisit : visit = v.toEditor.visit := by
    funext k node s
    exact h.visit k node s
  have hleave : leave = v.toEditor.leave := by
    funext k node s
    exact h.leave k node s
  rw [hvisit, hleave]

/-- The looks of a visitor that is used as an editor are those that it makes itself. -/
theorem Visitor.edit_logged_toEditor (v : Visitor σ) (k : NodeKind) (node : k.Node)
    (s : σ × List Look) :
    v.toEditor.logged.edit k node s =
      ((v.logged.walk k node s).1, node, (v.logged.walk k node s).2) := by
  rw [← v.logged_toEditor, v.logged.edit_toEditor]

/-- For an editor that acts as a visitor the walk over any node returns the same answer, ends in the
same state and leaves the node as it was, and the looks that both write down are the same ones at
the same nodes. -/
theorem walks_agree {e : Editor σ} {v : Visitor σ} (h : e.ActsAs v) (k : NodeKind) (node : k.Node)
    (s : σ) :
    e.edit k node s = ((v.walk k node s).1, node, (v.walk k node s).2) ∧
      ∃ looks,
        v.logged.walk k node (s, []) = ((v.walk k node s).1, ((v.walk k node s).2, looks)) ∧
        e.logged.edit k node (s, []) =
          ((v.walk k node s).1, node, ((v.walk k node s).2, looks)) := by
  rw [h.eq_toEditor]
  obtain ⟨looks, hlogged, -⟩ := v.toEditor.exists_orderly k node s
  rw [v.edit_toEditor] at hlogged ⊢
  have hwalked := (v.edit_logged_toEditor k node (s, [])).symm.trans hlogged
  have hverdict := congrArg Prod.fst hwalked
  have hstate := congrArg (fun result => result.2.2) hwalked
  exact ⟨rfl, looks, Prod.ext hverdict hstate, hlogged⟩

namespace Scripted

/-- A rule without a replacement puts no other node in place. -/
theorem replace_of_none {rule : Option Rule} (h : ∀ r ∈ rule, r.replacement = none) (k : NodeKind)
    (node : k.Node) : replace rule k node = node := by
  cases rule with
  | none => rfl
  | some r =>
    rw [replace]
    split
    · next hkind =>
      subst hkind
      rw [h r rfl]
      rfl
    · rfl

/-- The editor of a script in which nothing is replaced acts as the visitor of the script. -/
theorem actsAs_visitor {rules : List Rule} (h : ∀ rule ∈ rules, rule.replacement = none) :
    (editor rules).ActsAs (visitor rules) := by
  have hfound (call : Call) (calls : Calls) :
      ∀ rule ∈ find? rules call calls, rule.replacement = none := by
    intro rule hrule
    exact h rule (List.mem_of_find?_eq_some hrule)
  constructor
  · intro k node calls
    simp only [editor, visitor, replace_of_none (hfound _ _)]
  · intro k node calls
    simp only [editor, visitor, replace_of_none (hfound _ _)]

/-- A script that stops at the second of three declarators. -/
def stopping : List Rule := [⟨false, .declarator, none, some "c", .stop, none⟩]

/-- The visitor and the editor of this script stop at the same call and have made the same calls
before, and the editor leaves the module as it was. -/
theorem walks_agree_stopping :
    (editor stopping).ActsAs (visitor stopping) ∧
      ∃ calls looks, (visitor stopping).walk .program Program.mixed [] = (.stop, calls) ∧
        (editor stopping).edit .program Program.mixed [] = (.stop, Program.mixed, calls) ∧
        (editor stopping).logged.edit .program Program.mixed ([], []) =
          (.stop, Program.mixed, (calls, looks)) ∧
        calls.head? = some ⟨false, .declarator, "c"⟩ ∧ calls.length = 14 := by
  have hacts : (editor stopping).ActsAs (visitor stopping) := by
    refine actsAs_visitor ?_
    intro rule hrule
    obtain rfl := List.mem_singleton.mp hrule
    rfl
  obtain ⟨hedit, looks, -, hlogged⟩ := walks_agree hacts .program Program.mixed []
  have hwalk : (visitor stopping).walk .program Program.mixed [] =
    (.stop, ((visitor stopping).walk .program Program.mixed []).2) := rfl
  rw [hwalk] at hedit hlogged
  exact ⟨hacts, _, looks, hwalk, hedit, hlogged, rfl, rfl⟩

end Scripted

end SelfNamed
