import SelfNamed.Proofs.Shrink.Exports
import SelfNamed.Proofs.Tree.Literal

/-!
# Modules that received values

The self-named exports of a module receive values one after another, the first at the first place
and so on, as far as there are values. What becomes of such an export is told by its literal alone:
the literal has the value, a record of its source is renewed with it, and all other fields of both
are kept. Main statement: giving values to a module gives them to its first self-named exports and
leaves all else as it was, the other exported declarators as well as what is around them.
-/

namespace SelfNamed

/-- What an item shows after a change as before it, a list of such items shows as well. -/
theorem map_modify_of_eq {α β : Type} {f : α → α} {image : α → β}
    (h : ∀ item, image (f item) = image item) (i : ℕ) (items : List α) :
    (items.modify i f).map image = items.map image := by
  refine List.ext_getElem? fun j => ?_
  rw [List.getElem?_map, List.getElem?_map]
  by_cases hij : i = j
  · subst hij
    rw [List.getElem?_modify_eq]
    cases items[i]? with
    | none => rfl
    | some item => exact congrArg some (h item)
  · rw [List.getElem?_modify_ne _ _ hij]

/-- A statement without the declarators that it exports. -/
def Statement.hollow : Statement → Statement
  | .exporting ⟨some (.bindings node), rest⟩ =>
    .exporting ⟨some (.bindings { node with declarators := [] }), rest⟩
  | other => other

/-- A value in an exported declarator only shows in this declarator. -/
theorem Statement.hollow_withValueAt (i : ℕ) (value : String) (s : Statement) :
    (s.withValueAt i value).hollow = s.hollow := by
  cases s with
  | exporting node =>
    obtain ⟨declaration, rest⟩ := node
    cases declaration with
    | none => rfl
    | some declaration => cases declaration <;> rfl
  | _ => rfl

/-- Values in a module only show in its exported declarators. -/
theorem Program.hollow_withValues (p : Program) (values : List String) :
    (p.withValues values).rest = p.rest ∧
      (p.withValues values).body.map Statement.hollow = p.body.map Statement.hollow := by
  have hchange (place : ℕ × ℕ) (value : String) (whole : Program) :
      (whole.withValueAt place value).body.map Statement.hollow =
        whole.body.map Statement.hollow :=
    map_modify_of_eq (Statement.hollow_withValueAt place.2 value) place.1 whole.body
  have hrest (place : ℕ × ℕ) (value : String) (whole : Program) :
      (whole.withValueAt place value).rest = whole.rest := rfl
  exact ⟨changeAll_keeps Program.rest hrest p.places values p,
    changeAll_keeps (fun p => p.body.map Statement.hollow) hchange p.places values p⟩

namespace Program

/-- The first self-named exports of a module received the given values, in source order, and nothing
else of the module changed. -/
structure Received (program : Program) (values : List String) (left : Program) : Prop where
  /-- A self-named export received the value of the same number: in place of its literal there is
  one that is coherent with it and the value, and the declarator is otherwise as it was. -/
  first : ∀ {k : ℕ} {d : Declarator} {value : String},
    program.selfNamedExports[k]? = some d → values[k]? = some value →
    ∃ (place : ℕ × ℕ) (literal rewritten : StringLiteral),
      program.places[k]? = some place ∧ program.declaratorAt? place = some d ∧
      d.init = some (.string literal) ∧ literal.Coherent value rewritten ∧
      left.declaratorAt? place = some { d with init := some (.string rewritten) }
  /-- Every other exported declarator is as it was. -/
  others : ∀ {place : ℕ × ℕ}, place ∉ program.places.take values.length →
    left.declaratorAt? place = program.declaratorAt? place
  /-- So are the fields of the module beside its statements. -/
  rest : left.rest = program.rest
  /-- So are its statements without the declarators that they export. -/
  hollow : left.body.map Statement.hollow = program.body.map Statement.hollow

/-- A module with values in its first self-named exports has received them. -/
theorem received_withValues (program : Program) (values : List String) :
    program.Received values (program.withValues values) where
  first := by
    intro k d value hd hvalue
    obtain ⟨literal, -, hinit, -⟩ := literal_of_selfNamedExports hd
    have hk : k < program.places.length := by
      rw [program.length_places]
      exact (List.getElem?_eq_some_iff.mp hd).1
    have hplace : program.places[k]? = some program.places[k] := List.getElem?_eq_getElem hk
    obtain ⟨d', hd', hbefore⟩ := declaratorAt?_of_places hplace
    obtain rfl : d = d' := Option.some.inj (hd.symm.trans hd')
    have hafter : (program.withValues values).declaratorAt? program.places[k] =
        some { d with init := some (.string (literal.setValue value)) } := by
      rw [declaratorAt?_withValues hplace hvalue, hbefore, Option.map_some, Declarator.withValue,
        hinit]
      rfl
    exact ⟨_, literal, _, hplace, hbefore, hinit, literal.coherent_setValue value, hafter⟩
  others := by
    intro place hplace
    rw [withValues, ← changeAll_take]
    exact look_changeAll_of_not_mem
      (fun _ value p _ h => declaratorAt?_withValueAt_of_ne value p h) hplace values program
  rest := (program.hollow_withValues values).1
  hollow := (program.hollow_withValues values).2

end Program

end SelfNamed
