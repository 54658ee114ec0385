import SelfNamed.Proofs.Tree.Change

/-!
# Self-named exports of a JSON tree

Which declarators of a tree are self-named exports, and where they stand, can be said of the JSON
value: the statement must be an export, what it declares must suit a declaration of variables, and
of the declarator only what is bound and the initial value count. Main statement: the places found
in a canonical value are those of the module that is read off it.
-/

namespace SelfNamed

open Json (Canonical CanonicalMembers Fields)

/-- The name that a pattern in a tree binds. -/
def Pattern.boundName? (j : Json) : Option String :=
  (j.kind? [("Identifier", ())]).bind fun _ => (j.field? "name").bind Json.text?

/-- The text of a string literal in a tree. -/
def Expression.literalText? (j : Json) : Option String :=
  match j.kind? Expression.kinds, j.fields? with
  | some .string, some fields =>
    if StringLiteral.suits fields then (fields.get? "value").bind Json.text? else none
  | _, _ => none

/-- Whether a declarator in a tree binds a name to a string literal that spells it. -/
def Declarator.spellsName (j : Json) : Bool :=
  match (j.field? "id").bind Pattern.boundName?, (j.field? "init").bind Expression.literalText? with
  | some name, some text => text == name
  | _, _ => false

/-- The declarators of a declaration in a tree; none unless it is a declaration of variables. -/
def Declaration.items (j : Json) : List Json :=
  match j.kind? Declaration.kinds, j.fields? with
  | some .bindings, some fields =>
    if VariableDeclaration.suits fields then
      ((fields.get? "declarations").bind Json.items?).getD []
    else []
  | _, _ => []

/-- The declarators that a statement in a tree exports. -/
def Statement.exportedItems (j : Json) : List Json :=
  match j.kind? Statement.kinds with
  | some .exporting => ((j.field? "declaration").map Declaration.items).getD []
  | _ => []

/-- The statements of a module in a tree. -/
def Program.statements (j : Json) : List Json := ((j.field? "body").bind Json.items?).getD []

/-- The places of the self-named exports in a tree: the index of the statement, then the index of
the declarator, in lexicographic order. -/
def Program.placesOf (j : Json) : List (ℕ × ℕ) :=
  placesIn (fun s => (Statement.exportedItems s).findIdxs Declarator.spellsName)
    (Program.statements j)

/-- A place of a tree is the index of a statement and that of a declarator which it exports and
which binds a name to a literal that spells it. -/
theorem Program.mem_placesOf {j : Json} {place : ℕ × ℕ} :
    place ∈ Program.placesOf j ↔
      ∃ s d, (Program.statements j)[place.1]? = some s ∧
        (Statement.exportedItems s)[place.2]? = some d ∧ Declarator.spellsName d = true := by
  rw [placesOf, mem_placesIn]
  refine exists_congr fun s => ?_
  rw [List.mem_findIdxs_iff_exists_getElem_pos]
  constructor
  · rintro ⟨hs, hlt, hspells⟩
    exact ⟨_, hs, List.getElem?_eq_getElem hlt, hspells⟩
  · rintro ⟨d, hs, hd, hspells⟩
    obtain ⟨hlt, rfl⟩ := List.getElem?_eq_some_iff.mp hd
    exact ⟨hs, hlt, hspells⟩

/-- The places of a tree come in lexicographic order. -/
theorem Program.sorted_placesOf (j : Json) :
    (Program.placesOf j).Pairwise (Prod.Lex (· < ·) (· < ·)) :=
  pairwise_placesIn (fun _ => List.pairwise_findIdxs) (Program.statements j)

/-! ## Reading keeps names and texts -/

/-- The text of an expression that is a string literal. -/
def Expression.text? : Expression → Option String
  | .string literal => some literal.value
  | _ => none

/-- The declarators of what is declared. -/
def Declaration.declarators : Declaration → List Declarator
  | .bindings node => node.declarators
  | _ => []

/-- A pattern that is read binds the name that it binds in the tree. -/
theorem name?_ofJson (j : Json) : (Pattern.ofJson j).name? = Pattern.boundName? j := by
  cases j with
  | obj fields =>
    rw [Pattern.ofJson, readTagged_obj, Pattern.boundName?]
    cases (Json.obj fields).kind? [("Identifier", ())] with
    | none => rfl
    | some kind =>
      change Pattern.name? ((Option.map Pattern.identifier ((((Fields.without ["type"]
        fields).get? "name").bind Json.text?).bind _)).getD _) =
          (Fields.get? "name" fields).bind Json.text?
      rw [get?_without_tag (by decide)]
      cases (Fields.get? "name" fields).bind Json.text? <;> rfl
  | _ => rfl

/-- An expression that is read has the text that it has in the tree. -/
theorem text?_ofJson {j : Json} (h : Canonical j) :
    (Expression.ofJson j).text? = Expression.literalText? j := by
  cases j with
  | obj fields =>
    have hstring := normalises_stringLiteral h
    rw [Expression.ofJson, readTagged_obj, Expression.literalText?, Json.fields?]
    cases (Json.obj fields).kind? Expression.kinds with
    | none => rfl
    | some kind =>
      rw [Option.bind_some]
      cases kind with
      | string =>
        change Expression.text? ((Option.map Expression.string _).getD _) = if _ then _ else _
        rw [Option.map_map] at hstring
        obtain ⟨hsuits, literal, hread, -⟩ | ⟨hsuits, hread⟩ := some_or_none_of_map_eq hstring
        · obtain ⟨hvalue, -⟩ := of_stringLiteral_ofJson? hread
          rw [get?_without_tag (by decide)] at hvalue
          rw [hread, hsuits, hvalue]
          rfl
        · rw [hread, hsuits]
          rfl
      | numeric =>
        change Expression.text? ((Option.map Expression.numeric _).getD _) = none
        cases NumericLiteral.ofJson? _ <;> rfl
      | boolean =>
        change Expression.text? ((Option.map Expression.boolean _).getD _) = none
        cases BooleanLiteral.ofJson? _ <;> rfl
      | null => rfl
      | identifier =>
        change Expression.text? ((Option.map Expression.identifier _).getD _) = none
        cases Identifier.ofJson? _ <;> rfl
  | _ => rfl

/-- A declarator is self-named when the text of its initial value is the name that it binds. -/
theorem isSelfNamed_eq (d : Declarator) :
    d.isSelfNamed = match d.name?, d.init.bind Expression.text? with
      | some name, some text => text == name
      | _, _ => false := by
  obtain ⟨id, init, rest⟩ := d
  cases id with
  | verbatim value => rfl
  | identifier id =>
    cases init with
    | none => rfl
    | some init => cases init <;> rfl

/-- A declarator that is read is self-named when it is in the tree. -/
theorem isSelfNamed_ofJson? {j : Json} (h : Canonical j) {d : Declarator}
    (hread : Declarator.ofJson? j = some d) : d.isSelfNamed = Declarator.spellsName j := by
  obtain ⟨fields, id, rfl, hid, rfl⟩ := of_declarator_ofJson? hread
  obtain ⟨-, hmembers⟩ := Json.canonical_obj.mp h
  have hfield : (Json.obj fields).field? "id" = some id := hid
  have hinit : ((Fields.getD fields "init" .null).unlessNull Expression.ofJson).bind
      Expression.text? = ((Json.obj fields).field? "init").bind Expression.literalText? := by
    change _ = (Fields.get? "init" fields).bind Expression.literalText?
    rw [Fields.getD]
    cases hvalue : Fields.get? "init" fields with
    | none => rfl
    | some value =>
      have htext := text?_ofJson (hmembers.get? hvalue)
      cases value with
      | null => rfl
      | _ => exact htext
  rw [isSelfNamed_eq, Declarator.name?, name?_ofJson, hinit, Declarator.spellsName, hfield,
    Option.bind_some]

/-- Declarators that are read are self-named where they are in the tree. -/
theorem isSelfNamed_mapM {items : List Json} (h : ∀ item ∈ items, Canonical item)
    {ds : List Declarator} (hread : items.mapM Declarator.ofJson? = some ds) :
    ds.map Declarator.isSelfNamed = items.map Declarator.spellsName := by
  induction items generalizing ds with
  | nil =>
    obtain rfl := Option.some.inj hread
    rfl
  | cons item items ih =>
    rw [List.mapM_cons] at hread
    obtain ⟨d, hd, hread⟩ := Option.bind_eq_some_iff.mp hread
    obtain ⟨ds, hds, hread⟩ := Option.bind_eq_some_iff.mp hread
    obtain rfl := Option.some.inj hread
    have hitem := isSelfNamed_ofJson? (h item List.mem_cons_self) hd
    have hitems := ih (fun other hother => h other (List.mem_cons_of_mem item hother)) hds
    rw [List.map_cons, List.map_cons, hitem, hitems]

/-- A declaration of variables that is read has declarators that are self-named where they are in
the tree. -/
theorem isSelfNamed_bindings {fields : Fields} (h : Canonical (.obj fields))
    {node : VariableDeclaration} (hread : VariableDeclaration.ofJson? (.obj fields) = some node) :
    node.declarators.map Declarator.isSelfNamed =
      (((fields.get? "declarations").bind Json.items?).getD []).map Declarator.spellsName := by
  obtain ⟨items, hitems, hreads, -⟩ := of_variableDeclaration_ofJson? hread
  have hcanonical := (Json.canonical_obj.mp h).2.get?_items hitems
  rw [bind_items?_eq_some_iff.mpr hitems, Option.getD_some]
  exact isSelfNamed_mapM hcanonical hreads

/-- The declarators of a declaration that is read are self-named where they are in the tree. -/
theorem isSelfNamed_declaration {j : Json} (h : Canonical j) :
    (Declaration.ofJson j).declarators.map Declarator.isSelfNamed =
      (Declaration.items j).map Declarator.spellsName := by
  cases j with
  | obj fields =>
    obtain ⟨hincreasing, hmembers⟩ := Json.canonical_obj.mp h
    have hwritten (node : VariableDeclaration) : (Declaration.bindings node).toJson =
      tagged "VariableDeclaration" node.members := rfl
    have hbindings := normalises_variableDeclaration hwritten h
    rw [Declaration.ofJson, readTagged_obj, Declaration.items, Json.fields?]
    cases (Json.obj fields).kind? Declaration.kinds with
    | none => rfl
    | some kind =>
      rw [Option.bind_some]
      cases kind with
      | bindings =>
        change (Declaration.declarators ((Option.map Declaration.bindings _).getD _)).map _ =
          List.map _ (if _ then _ else _)
        rw [Option.map_map] at hbindings
        obtain ⟨hsuits, node, hread, -⟩ | ⟨hsuits, hread⟩ := some_or_none_of_map_eq hbindings
        · have hcanonical : Canonical (.obj (Fields.without ["type"] fields)) :=
            Json.canonical_obj.mpr ⟨hincreasing.without _, hmembers.without _⟩
          have hitems := isSelfNamed_bindings hcanonical hread
          rw [get?_without_tag (by decide)] at hitems
          rw [hread, hsuits]
          exact hitems
        · rw [hread, hsuits]
          rfl
      | _ => rfl
  | _ => rfl

/-- An export declares the declarators of its declaration, and none if this is null. -/
theorem declarators_unlessNull (j : Json) (rest : Fields) :
    NamedExport.declarators ⟨j.unlessNull Declaration.ofJson, rest⟩ =
      (Declaration.ofJson j).declarators := by
  have hsome (declaration : Declaration) : NamedExport.declarators ⟨some declaration, rest⟩ =
      declaration.declarators := by
    cases declaration <;> rfl
  cases j with
  | null => rfl
  | _ => exact hsome _

/-- The declarators that a statement that is read exports are self-named where they are in the
tree. -/
theorem isSelfNamed_exported {j : Json} (h : Canonical j) :
    (Statement.ofJson j).exported.map Declarator.isSelfNamed =
      (Statement.exportedItems j).map Declarator.spellsName := by
  cases j with
  | obj fields =>
    obtain ⟨-, hmembers⟩ := Json.canonical_obj.mp h
    rw [Statement.ofJson, readTagged_obj, Statement.exportedItems]
    cases (Json.obj fields).kind? Statement.kinds with
    | none => rfl
    | some kind =>
      rw [Option.bind_some]
      cases kind with
      | exporting =>
        have hnull : Canonical .null := trivial
        have hdeclaration := isSelfNamed_declaration (hmembers.getD "declaration" hnull)
        change (NamedExport.declarators ⟨((Fields.without ["type"] fields).getD "declaration"
          .null).unlessNull Declaration.ofJson, _⟩).map _ = _
        rw [declarators_unlessNull, getD_without_tag (by decide), hdeclaration]
        change _ = List.map _ ((Option.map _ (Fields.get? "declaration" fields)).getD [])
        rw [Fields.getD]
        cases Fields.get? "declaration" fields <;> rfl
      | bindings =>
        change (Statement.exported ((Option.map Statement.bindings _).getD _)).map _ = []
        cases VariableDeclaration.ofJson? _ <;> rfl
      | _ => rfl
  | _ => rfl

/-- The places of the self-named exports of a module that is read are those in the tree. -/
theorem places_ofJson? {j : Json} (h : Canonical j) {p : Program}
    (hread : Program.ofJson? j = some p) : p.places = Program.placesOf j := by
  obtain ⟨fields, items, rfl, hitems, rfl⟩ := of_program_ofJson? hread
  have hcanonical := (Json.canonical_obj.mp h).2.get?_items hitems
  have hstatements : Program.statements (.obj fields) = items :=
    congrArg (fun found => Option.getD found []) (bind_items?_eq_some_iff.mpr hitems)
  rw [Program.placesOf, hstatements]
  refine placesIn_map fun item hitem => ?_
  have hexported := isSelfNamed_exported (hcanonical item hitem)
  have hidxs := congrArg (List.findIdxs id) hexported
  simpa only [List.findIdxs_map, Function.id_comp] using hidxs

end SelfNamed
