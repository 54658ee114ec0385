import SelfNamed.Proofs.Tree.Sound

/-!
# Changing a literal in a written tree

A written module is changed along a path of names and indices that ends at a literal. The change
touches what stands at the end of the path and no other field of any node. Main statement: giving a
literal of a sound module another text and writing the module is writing the module and changing it
along the path of the literal.
-/

namespace SelfNamed

open Json (Canonical CanonicalMembers Fields)

namespace Json

/-- An object with another value where one stands under the name. -/
def changeAt (name : String) (f : Json → Json) : Json → Json := withFields (Fields.modify name f)

/-- An array with another item at an index. -/
def changeItem (i : ℕ) (f : Json → Json) : Json → Json
  | .arr items => .arr (items.modify i f)
  | j => j

end Json

/-- The source text of a literal, spelled anew for another value in the style that it shows. -/
def StringLiteral.respell (value : String) : Json → Json
  | .str raw => .str (((styleOf raw.toList).getD .single).literal value)
  | j => j

/-- A written string literal with another text. A record of the source says the new text as well. -/
def StringLiteral.relabel (value : String) (j : Json) : Json :=
  (j.changeAt "value" fun _ => .str value).changeAt "extra" fun extra =>
    (extra.changeAt "raw" (respell value)).changeAt "rawValue" fun _ => .str value

/-- A written declaration of variables with another text in one initial value. -/
def VariableDeclaration.relabelAt (i : ℕ) (value : String) : Json → Json :=
  Json.changeAt "declarations"
    (Json.changeItem i (Json.changeAt "init" (StringLiteral.relabel value)))

/-- A written module with another text in one exported literal. -/
def Program.relabelAt (place : ℕ × ℕ) (value : String) : Json → Json :=
  Json.changeAt "body" (Json.changeItem place.1
    (Json.changeAt "declaration" (VariableDeclaration.relabelAt place.2 value)))

/-! ## Changes of canonical forms -/

/-- Canonical forms are found under the same names. -/
theorem get?_sortedMembers (name : String) (members : Fields) :
    Fields.get? name (Json.sortedMembers members) = (members.get? name).map Json.sorted := by
  induction members with
  | nil => rfl
  | cons member members ih =>
    obtain ⟨n, v⟩ := member
    rw [Json.sortedMembers, Fields.get?_cons, Fields.get?_cons, ih]
    by_cases h : n = name
    · rw [if_pos h, if_pos h, Option.map_some]
    · rw [if_neg h, if_neg h]

/-- A change under a name that does not occur leaves the canonical form. -/
theorem modify_sortedMembers {name : String} {members : Fields} (h : members.get? name = none)
    (f : Json → Json) :
    Fields.modify name f (Json.sortedMembers members) = Json.sortedMembers members := by
  refine Fields.modify_of_get?_eq_none ?_ f
  rw [get?_sortedMembers, h, Option.map_none]

/-- A change under a name that does not occur leaves the object. -/
theorem changeAt_of_missing {name : String} {members : Fields} (h : members.get? name = none)
    (f : Json → Json) : (Json.obj members).sorted.changeAt name f = (Json.obj members).sorted := by
  rw [Json.sorted, Json.changeAt, Json.withFields, Fields.modify_ofMembers,
    modify_sortedMembers h]

/-- Two changes under one name are one change. -/
theorem Json.changeAt_changeAt (name : String) (f g : Json → Json) (j : Json) :
    (j.changeAt name g).changeAt name f = j.changeAt name fun value => f (g value) := by
  cases j with
  | obj members =>
    refine congrArg Json.obj ?_
    rw [Fields.modify, Fields.modify, Fields.modify, List.map_map]
    refine List.map_congr_left fun member _ => ?_
    by_cases h : member.1 = name <;> simp [h]
  | _ => rfl

/-- A value of an object is changed in the canonical form when no other member has its name. -/
theorem sorted_changeAt {name : String} {f : Json → Json} (before : Fields) {rest : Fields}
    {x y : Json} (hbefore : before.get? name = none) (hrest : rest.get? name = none)
    (h : y.sorted = f x.sorted) :
    (Json.obj (before ++ (name, y) :: rest)).sorted =
      (Json.obj (before ++ (name, x) :: rest)).sorted.changeAt name f := by
  have hmodify : Fields.modify name f
      (Json.sortedMembers before ++ (name, x.sorted) :: Json.sortedMembers rest) =
        Json.sortedMembers before ++ (name, y.sorted) :: Json.sortedMembers rest := by
    rw [Fields.modify, List.map_append, List.map_cons, if_pos rfl, ← h]
    change Fields.modify name f _ ++ _ :: Fields.modify name f _ = _
    rw [modify_sortedMembers hbefore, modify_sortedMembers hrest]
  rw [Json.sorted, Json.sorted, Json.changeAt, Json.withFields, Fields.modify_ofMembers,
    sortedMembers_append, sortedMembers_append, Json.sortedMembers, Json.sortedMembers, hmodify]

/-- An item of a list is changed in the canonical form. -/
theorem sorted_changeItem {α : Type} {toJson : α → Json} {change : α → α} {f : Json → Json}
    {items : List α} {i : ℕ}
    (h : ∀ a, items[i]? = some a → (toJson (change a)).sorted = f (toJson a).sorted) :
    (Json.arr ((items.modify i change).map toJson)).sorted =
      (Json.arr (items.map toJson)).sorted.changeItem i f := by
  rw [Json.sorted, Json.sorted, Json.changeItem, sortedItems_eq_map, sortedItems_eq_map]
  refine congrArg Json.arr (List.ext_getElem? fun k => ?_)
  simp only [List.getElem?_map, List.getElem?_modify, Option.map_eq_map]
  by_cases hk : i = k
  · subst hk
    cases hitem : items[i]? with
    | none => rfl
    | some a => simp [h a hitem]
  · cases items[k]? with
    | none => rfl
    | some a => simp [hk]

/-! ## Changes along a path -/

/-- The record of a source text that says another text. -/
theorem sorted_literalExtra {extra : LiteralExtra} (h : extra.Sound) {spelled : String}
    (value : String)
    (hspelled : Json.str spelled = StringLiteral.respell value (.str extra.raw)) :
    (Json.obj (LiteralExtra.members ⟨spelled, value, extra.rest⟩)).sorted =
      ((Json.obj extra.members).sorted.changeAt "raw" (StringLiteral.respell value)).changeAt
        "rawValue" fun _ => .str value := by
  have hrest : Fields.get? "raw" (("rawValue", .str extra.rawValue) :: extra.rest) = none := by
    rw [Fields.get?_cons, if_neg (by decide), h.2 "raw" (by decide)]
  have hraw : (Json.obj (("raw", .str spelled) :: ("rawValue", .str extra.rawValue) ::
      extra.rest)).sorted = (Json.obj extra.members).sorted.changeAt "raw"
        (StringLiteral.respell value) := sorted_changeAt [] rfl hrest hspelled
  rw [← hraw]
  exact sorted_changeAt [("raw", .str spelled)] rfl (h.2 "rawValue" (by decide)) rfl

/-- Setting the value of a sound literal writes what relabelling the written literal gives. -/
theorem sorted_setValue {literal : StringLiteral} (h : literal.Sound) (value : String) :
    (Expression.string (literal.setValue value)).toJson.sorted =
      StringLiteral.relabel value (Expression.string literal).toJson.sorted := by
  obtain ⟨old, extra, rest⟩ := literal
  have hvalue := h.2.2 "value" (by decide)
  have hextra := h.2.2 "extra" (by decide)
  cases extra with
  | none =>
    have hmissing : Fields.get? "extra" (("type", .str "StringLiteral") ::
        ("value", .str value) :: rest) = none := by
      rw [Fields.get?_cons, if_neg (by decide), Fields.get?_cons, if_neg (by decide), hextra]
    have hfirst : (Expression.string ⟨value, none, rest⟩).toJson.sorted =
        (Expression.string ⟨old, none, rest⟩).toJson.sorted.changeAt "value" fun _ => .str value :=
      sorted_changeAt [("type", .str "StringLiteral")] rfl hvalue rfl
    rw [StringLiteral.relabel, ← hfirst]
    exact (changeAt_of_missing hmissing _).symm
  | some extra =>
    have hrecord := sorted_literalExtra (h.1 extra rfl) value rfl
    have hrest : Fields.get? "value" (("extra", .obj extra.members) :: rest) = none := by
      rw [Fields.get?_cons, if_neg (by decide), hvalue]
    have hfirst : (Expression.string ⟨value, some extra, rest⟩).toJson.sorted =
        (Expression.string ⟨old, some extra, rest⟩).toJson.sorted.changeAt "value"
          fun _ => .str value :=
      sorted_changeAt [("type", .str "StringLiteral")] rfl hrest rfl
    rw [StringLiteral.relabel, ← hfirst]
    exact sorted_changeAt [("type", .str "StringLiteral"), ("value", .str value)] rfl hextra hrecord

/-- Setting the literal of a sound declarator relabels the initial value of the written declarator.
-/
theorem sorted_withValue {d : Declarator} (h : d.Sound) {literal : StringLiteral}
    (hinit : d.init = some (.string literal)) (value : String) :
    (d.withValue value).toJson.sorted =
      d.toJson.sorted.changeAt "init" (StringLiteral.relabel value) := by
  obtain ⟨id, init, rest⟩ := d
  obtain rfl : init = some (.string literal) := hinit
  have hliteral : literal.Sound := (h.2.1 _ rfl).1
  exact sorted_changeAt [("id", id.toJson)] rfl (h.2.2.2 "init" (by decide))
    (sorted_setValue hliteral value)

/-- Setting one literal of a sound declaration of variables relabels the written declaration at the
same index. -/
theorem sorted_bindings {node : VariableDeclaration} (h : node.Sound) {i : ℕ} {d : Declarator}
    (hd : node.declarators[i]? = some d) {literal : StringLiteral}
    (hinit : d.init = some (.string literal)) (value : String) :
    (Declaration.bindings (node.withValueAt i value)).toJson.sorted =
      VariableDeclaration.relabelAt i value (Declaration.bindings node).toJson.sorted := by
  have hitems : (Json.arr ((node.declarators.modify i (Declarator.withValue value)).map
      Declarator.toJson)).sorted = (Json.arr (node.declarators.map
        Declarator.toJson)).sorted.changeItem i
          (Json.changeAt "init" (StringLiteral.relabel value)) := by
    refine sorted_changeItem fun found hfound => ?_
    obtain rfl := Option.some.inj (hd.symm.trans hfound)
    exact sorted_withValue (h.1 d (List.mem_of_getElem? hd)) hinit value
  exact sorted_changeAt [("type", .str "VariableDeclaration"), ("kind", .str node.kind.keyword)] rfl
    (h.2.2 "declarations" (by decide)) hitems

/-- Setting one exported literal of a sound statement relabels what the written statement declares.
-/
theorem sorted_statement {s : Statement} (h : s.Sound) {i : ℕ} {d : Declarator}
    (hd : s.exported[i]? = some d) {literal : StringLiteral}
    (hinit : d.init = some (.string literal)) (value : String) :
    (s.withValueAt i value).toJson.sorted =
      s.toJson.sorted.changeAt "declaration" (VariableDeclaration.relabelAt i value) := by
  cases s with
  | exporting node =>
    obtain ⟨declaration, rest⟩ := node
    cases declaration with
    | none => cases hd
    | some declaration =>
      cases declaration with
      | bindings bindings =>
        have hbindings : bindings.Sound := (h.1 _ rfl).1
        exact sorted_changeAt [("type", .str "ExportNamedDeclaration")] rfl
          (h.2.2 "declaration" (by decide)) (sorted_bindings hbindings hd hinit value)
      | _ => cases hd
  | _ => cases hd

/-- Setting the literal at a place of a sound module relabels the written module at this place. -/
theorem sorted_withValueAt {p : Program} (h : p.Sound) {place : ℕ × ℕ} {d : Declarator}
    (hd : p.declaratorAt? place = some d) {literal : StringLiteral}
    (hinit : d.init = some (.string literal)) (value : String) :
    (p.withValueAt place value).toJson.sorted = Program.relabelAt place value p.toJson.sorted := by
  obtain ⟨s, hs, hd⟩ := Option.bind_eq_some_iff.mp hd
  have hitems : (Json.arr ((p.body.modify place.1 (Statement.withValueAt place.2 value)).map
      Statement.toJson)).sorted = (Json.arr (p.body.map Statement.toJson)).sorted.changeItem place.1
          (Json.changeAt "declaration" (VariableDeclaration.relabelAt place.2 value)) := by
    refine sorted_changeItem fun found hfound => ?_
    obtain rfl := Option.some.inj (hs.symm.trans hfound)
    exact sorted_statement (h.1 s (List.mem_of_getElem? hs)) hd hinit value
  exact sorted_changeAt [] rfl (h.2.2 "body" (by decide)) hitems

/-- Another text in an initial value leaves it a string literal. -/
theorem declaratorAt?_withValueAt_literal {p : Program} {place other : ℕ × ℕ} {value : String}
    (h : ∃ d literal, p.declaratorAt? other = some d ∧ d.init = some (.string literal)) :
    ∃ d literal, (p.withValueAt place value).declaratorAt? other = some d ∧
      d.init = some (.string literal) := by
  obtain ⟨d, literal, hd, hinit⟩ := h
  by_cases hplace : place = other
  · refine ⟨d.withValue value, literal.setValue value, ?_, ?_⟩
    · rw [hplace, Program.declaratorAt?_withValueAt, hd, Option.map_some]
    · rw [Declarator.withValue, hinit]
      rfl
  · exact ⟨d, literal, (Program.declaratorAt?_withValueAt_of_ne value p hplace).trans hd, hinit⟩

/-- Setting the literals of all self-named exports of a sound module relabels the written module at
their places. -/
theorem sorted_withValues {p : Program} (h : p.Sound) (values : List String) :
    (p.withValues values).toJson.sorted =
      changeAll Program.relabelAt p.places values p.toJson.sorted := by
  have hplaces : ∀ place ∈ p.places, ∃ d literal, p.declaratorAt? place = some d ∧
      d.init = some (.string literal) := by
    intro place hplace
    obtain ⟨k, hk⟩ := List.mem_iff_getElem?.mp hplace
    obtain ⟨d, hd, hat⟩ := Program.declaratorAt?_of_places hk
    obtain ⟨literal, -, hinit, -⟩ := Program.literal_of_selfNamedExports hd
    exact ⟨d, literal, hat, hinit⟩
  refine (changeAll_image (fun q : Program => q.toJson.sorted)
    (P := fun q => q.Sound ∧ ∀ place ∈ p.places, ∃ d literal, q.declaratorAt? place = some d ∧
      d.init = some (.string literal)) ?_ values ⟨h, hplaces⟩).symm
  intro place hplace value q ⟨hsound, hliterals⟩
  obtain ⟨d, literal, hd, hinit⟩ := hliterals place hplace
  refine ⟨⟨hsound.withValueAt place value, fun other hother => ?_⟩, ?_⟩
  · exact declaratorAt?_withValueAt_literal (hliterals other hother)
  · exact (sorted_withValueAt hsound hd hinit value).symm

end SelfNamed
