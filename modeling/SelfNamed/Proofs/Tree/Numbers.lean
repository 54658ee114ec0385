import SelfNamed.Proofs.Json.Numbers
import SelfNamed.Proofs.Tree.Change

/-!
# No new numbers in a tree

The normal form of a tree and the change of a literal in it move, drop and respell things but put no
numbers in, so a property of all numbers of a tree holds of all numbers afterwards. The statement is
proved for each way of changing fields, and from these through the kinds of nodes.
-/

namespace SelfNamed

open Json (AllNumbers AllNumbersItems AllNumbersMembers Fields allNumbersItems_iff
  allNumbersMembers_iff)

/-- A change of values that puts no numbers in for which the property does not hold. -/
def KeepsNumbers (P : Json.Number → Prop) (f : Json → Json) : Prop :=
  ∀ {j : Json}, j.AllNumbers P → (f j).AllNumbers P

variable {P : Json.Number → Prop} {fields : Fields} {f : Json → Json} {name : String}

/-! ## Fields, objects and arrays -/

/-- What is found among fields has only their numbers. -/
theorem allNumbers_get? (h : AllNumbersMembers P fields) {value : Json}
    (hvalue : fields.get? name = some value) : value.AllNumbers P :=
  allNumbersMembers_iff.mp h (name, value) (Fields.mem_of_get? hvalue)

/-- What stands for a missing field has no other numbers either, if it has none. -/
theorem allNumbers_getD (h : AllNumbersMembers P fields) (name : String) {missing : Json}
    (hmissing : missing.AllNumbers P) : (fields.getD name missing).AllNumbers P := by
  rw [Fields.getD]
  cases hvalue : fields.get? name with
  | none => exact hmissing
  | some value => exact allNumbers_get? h hvalue

/-- A field that is put in brings its numbers. -/
theorem allNumbers_insert (h : AllNumbersMembers P fields) (name : String) {value : Json}
    (hvalue : value.AllNumbers P) : AllNumbersMembers P (fields.insert name value) := by
  refine allNumbersMembers_iff.mpr ?_
  intro member hmember
  rcases Fields.mem_insert hmember with rfl | hold
  · exact hvalue
  · exact allNumbersMembers_iff.mp h member hold

/-- Fields that are left out take their numbers with them. -/
theorem allNumbers_without (h : AllNumbersMembers P fields) (names : List String) :
    AllNumbersMembers P (fields.without names) :=
  allNumbersMembers_iff.mpr fun member hmember =>
    allNumbersMembers_iff.mp h member (List.mem_of_mem_filter hmember)

/-- A field is changed by a change of its value. -/
theorem allNumbers_modify (h : AllNumbersMembers P fields) (name : String)
    (hf : KeepsNumbers P f) : AllNumbersMembers P (fields.modify name f) := by
  refine allNumbersMembers_iff.mpr ?_
  intro member hmember
  obtain ⟨old, hold, rfl⟩ := List.mem_map.mp hmember
  have hvalue := allNumbersMembers_iff.mp h old hold
  by_cases hname : old.1 = name
  · rw [if_pos hname]
    exact hf hvalue
  · rw [if_neg hname]
    exact hvalue

/-- An object is changed by a change of its fields. -/
theorem keepsNumbers_withFields {g : Fields → Fields}
    (hg : ∀ {fields : Fields}, AllNumbersMembers P fields → AllNumbersMembers P (g fields)) :
    KeepsNumbers P (Json.withFields g) := by
  intro j h
  cases j with
  | obj fields => exact hg h
  | _ => exact h

/-- A field of an object is changed by a change of its value. -/
theorem keepsNumbers_changeAt (name : String) (hf : KeepsNumbers P f) :
    KeepsNumbers P (Json.changeAt name f) :=
  keepsNumbers_withFields fun h => allNumbers_modify h name hf

/-- The items of an array are changed one by one. -/
theorem keepsNumbers_mapItems (hf : KeepsNumbers P f) : KeepsNumbers P (Json.mapItems f) := by
  intro j h
  cases j with
  | arr items =>
    refine allNumbersItems_iff.mpr ?_
    intro item hitem
    obtain ⟨old, hold, rfl⟩ := List.mem_map.mp hitem
    exact hf (allNumbersItems_iff.mp h old hold)
  | _ => exact h

/-- A change of one item of an array by a change that puts no numbers in puts none in. -/
theorem keepsNumbers_changeItem (i : ℕ) (hf : KeepsNumbers P f) :
    KeepsNumbers P (Json.changeItem i f) := by
  intro j h
  cases j with
  | arr items =>
    exact allNumbersItems_iff.mpr
      (forall_mem_modify (fun _ hitem => hf hitem) (allNumbersItems_iff.mp h) i)
  | _ => exact h

/-- A tagged value is changed by a change of its fields, whatever its tag becomes. -/
theorem keepsNumbers_normTagged {κ : Type} (kinds : List (String × κ)) (tag : κ → String)
    (suits : κ → Fields → Bool) {norm : κ → Fields → Fields}
    (hnorm : ∀ kind {fields : Fields}, AllNumbersMembers P fields →
      AllNumbersMembers P (norm kind fields)) :
    KeepsNumbers P (Json.normTagged kinds tag suits norm) := by
  intro j h
  rw [Json.normTagged]
  cases j with
  | obj fields =>
    cases (Json.obj fields).kind? kinds with
    | none => exact h
    | some kind =>
      dsimp only [Json.fields?]
      by_cases hsuits : suits kind fields = true
      · rw [if_pos hsuits]
        exact hnorm kind (allNumbers_insert h "type" trivial)
      · rw [if_neg hsuits]
        exact h
  | _ => exact h

/-! ## Kinds of nodes -/

/-- The normal form of the record of a source text has only numbers of the record. -/
theorem allNumbers_literalExtra (h : AllNumbersMembers P fields) :
    AllNumbersMembers P (LiteralExtra.norm fields) := by
  have hempty : (Json.str "").AllNumbers P := trivial
  exact allNumbers_insert (allNumbers_insert h "raw" (allNumbers_getD h "raw" hempty)) "rawValue"
    (allNumbers_getD h "rawValue" hempty)

/-- The normal form of a string literal has only numbers of the literal. -/
theorem allNumbers_stringLiteral (h : AllNumbersMembers P fields) :
    AllNumbersMembers P (StringLiteral.norm fields) := by
  unfold StringLiteral.norm
  split
  · exact allNumbers_without h _
  · exact allNumbers_modify h "extra" (keepsNumbers_withFields allNumbers_literalExtra)

/-- The normal form of an expression has only numbers of the expression. -/
theorem keepsNumbers_expression : KeepsNumbers P Expression.norm := by
  refine keepsNumbers_normTagged _ _ _ ?_
  intro kind fields h
  cases kind with
  | string => exact allNumbers_stringLiteral h
  | _ => exact h

/-- The normal form of a declarator has only numbers of the declarator. -/
theorem keepsNumbers_declarator : KeepsNumbers P Declarator.norm := by
  refine keepsNumbers_withFields ?_
  intro fields h
  have hpattern : KeepsNumbers P Pattern.norm := keepsNumbers_normTagged _ _ _ fun _ _ h => h
  exact allNumbers_insert (allNumbers_modify h "id" hpattern) "init"
    (keepsNumbers_expression (allNumbers_getD h "init" trivial))

/-- The normal form of a keyword has only numbers of the value that spells it. -/
theorem keepsNumbers_variableKind : KeepsNumbers P VariableKind.norm := by
  intro j h
  unfold VariableKind.norm
  split
  · trivial
  · trivial
  · exact h

/-- The normal form of a declaration of variables has only numbers of the declaration. -/
theorem allNumbers_variableDeclaration (h : AllNumbersMembers P fields) :
    AllNumbersMembers P (VariableDeclaration.norm fields) :=
  allNumbers_modify (allNumbers_modify h "kind" keepsNumbers_variableKind) "declarations"
    (keepsNumbers_mapItems keepsNumbers_declarator)

/-- The normal form of a declaration has only numbers of the declaration. -/
theorem keepsNumbers_declaration : KeepsNumbers P Declaration.norm := by
  refine keepsNumbers_normTagged _ _ _ ?_
  intro kind fields h
  cases kind with
  | bindings => exact allNumbers_variableDeclaration h
  | _ => exact h

/-- The normal form of a statement has only numbers of the statement. -/
theorem keepsNumbers_statement : KeepsNumbers P Statement.norm := by
  refine keepsNumbers_normTagged _ _ _ ?_
  intro kind fields h
  cases kind with
  | exporting =>
    exact allNumbers_insert h "declaration"
      (keepsNumbers_declaration (allNumbers_getD h "declaration" trivial))
  | bindings => exact allNumbers_variableDeclaration h
  | _ => exact h

/-- The normal form of a module has only numbers of the module. -/
theorem keepsNumbers_program : KeepsNumbers P Program.norm :=
  keepsNumbers_changeAt "body" (keepsNumbers_mapItems keepsNumbers_statement)

/-- Another text in a string literal puts no numbers in. -/
theorem keepsNumbers_relabel (value : String) : KeepsNumbers P (StringLiteral.relabel value) := by
  have htext : KeepsNumbers P fun _ => .str value := fun _ => trivial
  have hraw : KeepsNumbers P (StringLiteral.respell value) := by
    intro j h
    cases j with
    | str raw => trivial
    | _ => exact h
  intro j h
  exact keepsNumbers_changeAt "extra"
    (fun hextra => keepsNumbers_changeAt "rawValue" htext (keepsNumbers_changeAt "raw" hraw hextra))
    (keepsNumbers_changeAt "value" htext h)

/-- Another text at a place of a module puts no numbers in. -/
theorem keepsNumbers_relabelAt (place : ℕ × ℕ) (value : String) :
    KeepsNumbers P (Program.relabelAt place value) :=
  keepsNumbers_changeAt "body" <| keepsNumbers_changeItem place.1 <|
    keepsNumbers_changeAt "declaration" <| keepsNumbers_changeAt "declarations" <|
      keepsNumbers_changeItem place.2 <| keepsNumbers_changeAt "init" (keepsNumbers_relabel value)

end SelfNamed
