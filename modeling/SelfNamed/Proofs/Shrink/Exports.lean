import SelfNamed.Proofs.Places
import SelfNamed.Walk.Listing

/-!
# The self-named exports of a module and where they stand

An export of variables has declarators, no other statement has any that count. A place is the index
of a statement and the index of a declarator in it; the places of the self-named declarators, in
this order, are where a pass may change a module. Giving such a place a value sets the literal there
and touches nothing else.
-/

namespace SelfNamed

/-- The initial value with another text in a string literal. -/
def Expression.withValue (value : String) : Expression → Expression
  | .string literal => .string (literal.setValue value)
  | other => other

/-- The declarator with another text in the string literal that initialises it. -/
def Declarator.withValue (value : String) (d : Declarator) : Declarator :=
  { d with init := d.init.map (Expression.withValue value) }

/-- The string literal of a self-named declarator, in a list. -/
def Declarator.literals (d : Declarator) : List StringLiteral :=
  match d.isSelfNamed, d.init with
  | true, some (.string literal) => [literal]
  | _, _ => []

/-- The declarators that an export of variables declares. -/
def NamedExport.declarators (node : NamedExport) : List Declarator :=
  match node.declaration with
  | some (.bindings bindings) => bindings.declarators
  | _ => []

/-- The declarators that a statement exports. -/
def Statement.exported : Statement → List Declarator
  | .exporting node => node.declarators
  | _ => []

/-- A declaration of variables with a value for the string literal of one declarator. -/
def VariableDeclaration.withValueAt (i : ℕ) (value : String) (node : VariableDeclaration) :
    VariableDeclaration :=
  { node with declarators := node.declarators.modify i (Declarator.withValue value) }

/-- An export with a value for the string literal of one declarator. -/
def NamedExport.withValueAt (i : ℕ) (value : String) (node : NamedExport) : NamedExport :=
  match node.declaration with
  | some (.bindings bindings) =>
    { node with declaration := some (.bindings (bindings.withValueAt i value)) }
  | _ => node

/-- A statement with a value for the string literal of one exported declarator. -/
def Statement.withValueAt (i : ℕ) (value : String) : Statement → Statement
  | .exporting node => .exporting (node.withValueAt i value)
  | other => other

namespace Program

/-- The declarators that a module exports, in source order. -/
def exported (p : Program) : List Declarator := p.body.flatMap Statement.exported

/-- The self-named declarators that a module exports, in source order. -/
def selfNamedExports (p : Program) : List Declarator := p.exported.filter Declarator.isSelfNamed

/-- The places of the self-named exports of a module: the index of the statement, then the index of
the declarator, in lexicographic order. -/
def places (p : Program) : List (ℕ × ℕ) :=
  placesIn (fun s => s.exported.findIdxs Declarator.isSelfNamed) p.body

/-- The exported declarator that stands at a place. -/
def declaratorAt? (p : Program) (place : ℕ × ℕ) : Option Declarator :=
  p.body[place.1]?.bind fun s => s.exported[place.2]?

/-- The module with a value for the string literal at one place. -/
def withValueAt (place : ℕ × ℕ) (value : String) (p : Program) : Program :=
  { p with body := p.body.modify place.1 (Statement.withValueAt place.2 value) }

/-- The module with the given values in its self-named exports, the first for the first place and so
on. -/
def withValues (values : List String) (p : Program) : Program :=
  changeAll withValueAt p.places values p

/-- A module that is given no values stays as it is. -/
theorem withValues_nil (p : Program) : p.withValues [] = p := changeAll_no_values p.places p

/-- The values only change its statements. -/
theorem withValues_eq (values : List String) (p : Program) :
    p.withValues values =
      { p with body := changeAll (changeIn Statement.withValueAt) p.places values p.body } :=
  changeAll_wrap (fun body => (⟨body, p.rest⟩ : Program)) (fun _ _ _ => rfl) p.places values p.body

end Program

/-- A self-named declarator binds the text of the string literal that initialises it. -/
theorem Declarator.isSelfNamed_iff {d : Declarator} : d.isSelfNamed = true ↔
    ∃ literal, d.init = some (.string literal) ∧ d.name? = some literal.value := by
  unfold isSelfNamed Declarator.name? Pattern.name?
  cases d.id with
  | verbatim value => simp
  | identifier id =>
    cases d.init with
    | none => simp
    | some init =>
      cases init with
      | string literal => simp [@eq_comm _ id.name]
      | _ => simp

/-- A self-named declarator has one literal, and it is the one that initialises it. -/
theorem Declarator.literals_of_isSelfNamed {d : Declarator} {literal : StringLiteral}
    (h : d.isSelfNamed = true) (hinit : d.init = some (.string literal)) :
    d.literals = [literal] := by
  rw [literals, h, hinit]

/-- A declarator that is not self-named has no literal to change. -/
theorem Declarator.literals_of_not_isSelfNamed {d : Declarator} (h : d.isSelfNamed = false) :
    d.literals = [] := by
  rw [literals, h]

/-- The literals of declarators are those that initialise the self-named ones, in order. -/
theorem filter_isSelfNamed_map_init (ds : List Declarator) :
    (ds.filter Declarator.isSelfNamed).map Declarator.init =
      (ds.flatMap Declarator.literals).map fun literal => some (.string literal) := by
  induction ds with
  | nil => rfl
  | cons d ds ih =>
    rw [List.flatMap_cons, List.map_append, ← ih]
    cases h : d.isSelfNamed with
    | false => rw [List.filter_cons_of_neg (by simp [h]), d.literals_of_not_isSelfNamed h]; rfl
    | true =>
      obtain ⟨literal, hinit, -⟩ := Declarator.isSelfNamed_iff.mp h
      rw [List.filter_cons_of_pos h, d.literals_of_isSelfNamed h hinit, List.map_cons, hinit]
      rfl

/-- A declarator as a place of its own: it is one exactly when it is self-named. -/
def Declarator.ownPlaces (d : Declarator) : List Unit := if d.isSelfNamed then [()] else []

/-- A declarator is a place as often as it has a literal. -/
theorem Declarator.length_ownPlaces (d : Declarator) : d.ownPlaces.length = d.literals.length := by
  unfold ownPlaces
  cases h : d.isSelfNamed with
  | false => rw [d.literals_of_not_isSelfNamed h]; rfl
  | true =>
    obtain ⟨literal, hinit, -⟩ := isSelfNamed_iff.mp h
    rw [d.literals_of_isSelfNamed h hinit]
    rfl

/-- The places of declarators are the indices of the self-named ones. -/
theorem placesIn_ownPlaces (ds : List Declarator) :
    placesIn Declarator.ownPlaces ds =
      (ds.findIdxs Declarator.isSelfNamed).map fun i => (i, ()) := by
  induction ds with
  | nil => rfl
  | cons d ds ih =>
    rw [placesIn_cons, ih, List.findIdxs_cons, List.findIdxs_start (s := 1), Declarator.ownPlaces]
    cases d.isSelfNamed <;> simp [Prod.map, Function.comp_def]

/-- Items with as many places as literals make lists with as many places as literals. -/
theorem length_placesIn {α π : Type} {places : α → List π} {literals : α → List StringLiteral}
    (h : ∀ item, (places item).length = (literals item).length) (items : List α) :
    (placesIn places items).length = (items.flatMap literals).length := by
  induction items with
  | nil => rfl
  | cons item items ih => simp [placesIn_cons, h, ih]

/-- The declarators at the indices of the self-named ones are those. -/
theorem findIdxs_isSelfNamed_map (ds : List Declarator) :
    (ds.findIdxs Declarator.isSelfNamed).map (fun i => ds[i]?) =
      (ds.filter Declarator.isSelfNamed).map some := by
  induction ds with
  | nil => rfl
  | cons d ds ih =>
    rw [List.findIdxs_cons, List.findIdxs_start (s := 1)]
    cases h : d.isSelfNamed with
    | false => rw [List.filter_cons_of_neg (by simp [h]), ← ih]; simp [Function.comp_def]
    | true => rw [List.filter_cons_of_pos h, List.map_cons, ← ih]; simp [Function.comp_def]

/-- There are as many indices of self-named declarators as literals. -/
theorem length_findIdxs_isSelfNamed (ds : List Declarator) :
    (ds.findIdxs Declarator.isSelfNamed).length = (ds.flatMap Declarator.literals).length := by
  rw [← length_placesIn Declarator.length_ownPlaces, placesIn_ownPlaces, List.length_map]

/-- After a value was put into an export at an index, the declarator at this index has it and the
others are as they were. -/
theorem NamedExport.declarators_withValueAt (i : ℕ) (value : String) (node : NamedExport) :
    (node.withValueAt i value).declarators =
      node.declarators.modify i (Declarator.withValue value) := by
  obtain ⟨declaration, rest⟩ := node
  cases declaration with
  | none => exact (List.modify_nil _ i).symm
  | some declaration =>
    cases declaration with
    | bindings bindings => rfl
    | _ => exact (List.modify_nil _ i).symm

/-- After a value was put into a statement at an index, the exported declarator at this index has it
and the others are as they were. -/
theorem Statement.exported_withValueAt (i : ℕ) (value : String) (s : Statement) :
    (s.withValueAt i value).exported = s.exported.modify i (Declarator.withValue value) := by
  cases s with
  | exporting node => exact node.declarators_withValueAt i value
  | bindings node => exact (List.modify_nil _ i).symm
  | function node => exact (List.modify_nil _ i).symm
  | classes node => exact (List.modify_nil _ i).symm
  | verbatim value => exact (List.modify_nil _ i).symm

namespace Program

/-- The places of a module hold its self-named exports, in the same order. -/
theorem places_map_declaratorAt? (p : Program) :
    p.places.map p.declaratorAt? = p.selfNamedExports.map some := by
  have h := placesIn_map_look (fun s : Statement => findIdxs_isSelfNamed_map s.exported) p.body
  rw [selfNamedExports, exported, List.filter_flatMap]
  exact h

/-- There are as many places as self-named exports. -/
theorem length_places (p : Program) : p.places.length = p.selfNamedExports.length := by
  have h := congrArg List.length p.places_map_declaratorAt?
  rw [List.length_map, List.length_map] at h
  exact h

/-- A place holds the self-named export of the same number. -/
theorem declaratorAt?_of_places {p : Program} {k : ℕ} {place : ℕ × ℕ}
    (h : p.places[k]? = some place) :
    ∃ d, p.selfNamedExports[k]? = some d ∧ p.declaratorAt? place = some d := by
  have hmap := congrArg (fun found => found[k]?) p.places_map_declaratorAt?
  simp only [List.getElem?_map, h, Option.map_some] at hmap
  cases hd : p.selfNamedExports[k]? with
  | none =>
    rw [hd] at hmap
    cases hmap
  | some d =>
    rw [hd] at hmap
    exact ⟨d, rfl, Option.some.inj hmap⟩

/-- The literals of a module are those that initialise its self-named exports, in the same order,
and spell the bound names. -/
theorem literal_of_selfNamedExports {p : Program} {k : ℕ} {d : Declarator}
    (h : p.selfNamedExports[k]? = some d) :
    ∃ literal, (p.exported.flatMap Declarator.literals)[k]? = some literal ∧
      d.init = some (.string literal) ∧ d.name? = some literal.value := by
  have hself : d.isSelfNamed = true := (List.mem_filter.mp (List.mem_of_getElem? h)).2
  obtain ⟨literal, hinit, hname⟩ := Declarator.isSelfNamed_iff.mp hself
  have hmap := congrArg (fun inits => inits[k]?) (filter_isSelfNamed_map_init p.exported)
  simp only [List.getElem?_map] at hmap
  rw [← selfNamedExports, h, Option.map_some, hinit] at hmap
  obtain ⟨found, hfound, heq⟩ := Option.map_eq_some_iff.mp hmap.symm
  cases heq
  exact ⟨literal, hfound, hinit, hname⟩

/-- The places of a module come in lexicographic order. -/
theorem sorted_places (p : Program) : p.places.Pairwise (Prod.Lex (· < ·) (· < ·)) :=
  pairwise_placesIn (fun _ => List.pairwise_findIdxs) p.body

/-- No place of a module comes twice. -/
theorem nodup_places (p : Program) : p.places.Nodup := by
  refine p.sorted_places.imp ?_
  rintro place _ hlt rfl
  cases hlt with
  | left _ _ hlt => exact Nat.lt_irrefl _ hlt
  | right _ hlt => exact Nat.lt_irrefl _ hlt

/-- The place of a change holds the declarator with the value. -/
theorem declaratorAt?_withValueAt (place : ℕ × ℕ) (value : String) (p : Program) :
    (p.withValueAt place value).declaratorAt? place =
      (p.declaratorAt? place).map (Declarator.withValue value) := by
  rw [declaratorAt?, declaratorAt?, withValueAt, List.getElem?_modify_eq]
  cases p.body[place.1]? with
  | none => rfl
  | some s =>
    have hexported := s.exported_withValueAt place.2 value
    simp only [Option.map_eq_map, Option.map_some, Option.bind_some, hexported,
      List.getElem?_modify_eq]

/-- A value that is put in at one place leaves the declarators at all other places as they are. -/
theorem declaratorAt?_withValueAt_of_ne {place other : ℕ × ℕ} (value : String) (p : Program)
    (h : place ≠ other) :
    (p.withValueAt place value).declaratorAt? other = p.declaratorAt? other := by
  rw [declaratorAt?, declaratorAt?, withValueAt]
  by_cases hfirst : place.1 = other.1
  · have hsecond : place.2 ≠ other.2 := fun heq => h (Prod.ext hfirst heq)
    rw [← hfirst, List.getElem?_modify_eq]
    cases p.body[place.1]? with
    | none => rfl
    | some s =>
      have hexported := s.exported_withValueAt place.2 value
      simp only [Option.map_eq_map, Option.map_some, Option.bind_some, hexported,
        List.getElem?_modify_ne _ _ hsecond]
  · rw [List.getElem?_modify_ne _ _ hfirst]

/-- The values stand at the places of a module in the same order. -/
theorem declaratorAt?_withValues {p : Program} {values : List String} {k : ℕ} {place : ℕ × ℕ}
    {value : String} (hplace : p.places[k]? = some place) (hvalue : values[k]? = some value) :
    (p.withValues values).declaratorAt? place =
      (p.declaratorAt? place).map (Declarator.withValue value) :=
  look_changeAll (fun place value p => declaratorAt?_withValueAt place value p)
    (fun _ value p _ h => declaratorAt?_withValueAt_of_ne value p h) p.nodup_places hplace hvalue p

end Program

end SelfNamed
