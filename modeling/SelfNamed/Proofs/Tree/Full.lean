import SelfNamed.Proofs.Tree.Reading

/-!
# Trees that are their own normal forms

A node is full when it says what every written node of its kind says: the kind by name, a keyword as
a text, an initial value and a declaration even if they are null, and in the record of a source text
the text and the value. A record that is null is not written at all. Main statement: the full trees
are those that are their own normal forms, so reading and writing changes all others.
-/

namespace SelfNamed

open Json (Canonical Fields)

/-! ## Which nodes are full -/

/-- Whether a tagged value that suits its kind names the kind and has full fields. -/
def Json.fullTagged {κ : Type} (kinds : List (String × κ)) (tag : κ → String)
    (suits : κ → Fields → Bool) (full : κ → Fields → Bool) (j : Json) : Bool :=
  match j.fields?, j.kind? kinds with
  | some fields, some kind =>
    !suits kind fields ||
      ((fields.get? "type").bind Json.text? == some (tag kind) && full kind fields)
  | _, _ => true

/-- Whether a pattern is full. -/
def Pattern.full : Json → Bool :=
  Json.fullTagged [("Identifier", ())] (fun _ => "Identifier") (fun _ => Identifier.suits)
    fun _ _ => true

/-- Whether the record of a source text is full: it has the text and the value. -/
def LiteralExtra.full (j : Json) : Bool :=
  (j.field? "raw").isSome && (j.field? "rawValue").isSome

/-- Whether the fields of a string literal are full: a record that there is has to be. -/
def StringLiteral.full (fields : Fields) : Bool := (fields.get? "extra").all LiteralExtra.full

/-- Whether an expression is full. -/
def Expression.full : Json → Bool :=
  Json.fullTagged Expression.kinds Expression.Kind.tag Expression.suits fun kind fields =>
    match kind with
    | .string => StringLiteral.full fields
    | _ => true

/-- Whether a declarator is full: it has an initial value. -/
def Declarator.full (j : Json) : Bool :=
  (j.field? "id").all Pattern.full && (j.field? "init").any Expression.full

/-- Whether the fields of a declaration of variables are full: the keyword is a text. -/
def VariableDeclaration.full (fields : Fields) : Bool :=
  ((fields.get? "kind").bind Json.text?).isSome &&
    ((fields.get? "declarations").bind Json.items?).any fun items => items.all Declarator.full

/-- Whether a declaration is full. -/
def Declaration.full : Json → Bool :=
  Json.fullTagged Declaration.kinds Declaration.Kind.tag Declaration.suits fun kind fields =>
    match kind with
    | .bindings => VariableDeclaration.full fields
    | _ => true

/-- Whether the fields of an export are full: it has a declaration. -/
def NamedExport.full (fields : Fields) : Bool := (fields.get? "declaration").any Declaration.full

/-- Whether a statement is full. -/
def Statement.full : Json → Bool :=
  Json.fullTagged Statement.kinds Statement.Kind.tag Statement.suits fun kind fields =>
    match kind with
    | .exporting => NamedExport.full fields
    | .bindings => VariableDeclaration.full fields
    | _ => true

/-- Whether a module is full: its statements are. -/
def Program.full (j : Json) : Bool :=
  ((j.field? "body").bind Json.items?).any fun items => items.all Statement.full

/-! ## Changes that change nothing -/

namespace Json

variable {fields : Fields} {f : Json → Json} {full : Json → Bool}

/-- Putting two values in changes nothing exactly when both stand there. -/
theorem Fields.Increasing.insert_insert_eq_self_iff (h : Fields.Increasing fields)
    {first second : String} (hne : second ≠ first) (value other : Json) :
    (fields.insert first value).insert second other = fields ↔
      fields.get? first = some value ∧ fields.get? second = some other := by
  constructor
  · intro hsame
    have hfirst : fields.get? first = some value := by
      rw [← hsame, get?_insert_of_ne hne, get?_insert_eq, if_pos rfl]
    have hsecond : fields.get? second = some other := by
      rw [← hsame, get?_insert_eq, if_pos rfl]
    exact ⟨hfirst, hsecond⟩
  · rintro ⟨hfirst, hsecond⟩
    rw [h.insert_of_get? hfirst, h.insert_of_get? hsecond]

/-- Putting in the normal form of what stands there, or of what stands for it, changes nothing
exactly when something full stands there. -/
theorem Fields.get?_eq_some_iff_any {name : String} {missing : Json}
    (h : ∀ value, fields.get? name = some value → (f value = value ↔ full value = true)) :
    fields.get? name = some (f (fields.getD name missing)) ↔
      (fields.get? name).any full = true := by
  rw [getD]
  cases hvalue : fields.get? name with
  | none => simp
  | some value =>
    have hsame := h value hvalue
    rw [Option.getD_some, Option.any_some, ← hsame, Option.some.injEq]
    exact eq_comm

/-- Changing a value that stands there changes nothing exactly when the value is full. -/
theorem Fields.Increasing.modify_eq_self_iff (h : Fields.Increasing fields) {name : String}
    {value : Json} (hvalue : fields.get? name = some value) :
    fields.modify name f = fields ↔ f value = value := by
  rw [h.modify_eq_insert hvalue]
  constructor
  · intro hsame
    have hfound : fields.get? name = some (f value) := by
      rw [← hsame, get?_insert_eq, if_pos rfl]
    exact Option.some.inj (hfound.symm.trans hvalue)
  · intro hsame
    rw [hsame]
    exact h.insert_of_get? hvalue

/-- Changing items changes nothing exactly when all of them are full. -/
theorem mapItems_eq_self_iff {items : List Json}
    (h : ∀ item ∈ items, (f item = item ↔ full item = true)) :
    mapItems f (.arr items) = .arr items ↔ items.all full = true := by
  rw [mapItems, Json.arr.injEq, List.all_eq_true]
  constructor
  · intro hsame item hitem
    have hall : items.map f = items.map id := by rw [hsame, List.map_id]
    exact (h item hitem).mp (List.map_inj_left.mp hall item hitem)
  · intro hall
    have hsame : items.map f = items.map id :=
      List.map_congr_left fun item hitem => (h item hitem).mpr (hall item hitem)
    rw [hsame, List.map_id]

/-- A tagged value is its own normal form exactly when it is full, if that is so for the fields of
each kind and the normal form of these has nothing to do with the tag. -/
theorem normTagged_eq_self_iff {κ : Type} {kinds : List (String × κ)} {tag : κ → String}
    {suits full : κ → Fields → Bool} {norm : κ → Fields → Fields}
    (htag : ∀ kind (fields : Fields), (norm kind fields).get? "type" = fields.get? "type")
    (hfull : ∀ kind {fields : Fields}, Canonical (.obj fields) → suits kind fields = true →
      (norm kind fields = fields ↔ full kind fields = true)) {j : Json} (h : Canonical j) :
    j.normTagged kinds tag suits norm = j ↔ j.fullTagged kinds tag suits full = true := by
  rw [normTagged, fullTagged]
  cases j with
  | obj fields =>
    rw [fields?]
    cases (obj fields).kind? kinds with
    | none => simp
    | some kind =>
      dsimp only
      by_cases hsuits : suits kind fields = true
      · have hincreasing := (canonical_obj.mp h).1
        rw [if_pos hsuits, hsuits, Bool.not_true, Bool.false_or, Bool.and_eq_true, beq_iff_eq,
          ← hfull kind h hsuits, obj.injEq]
        constructor
        · intro hsame
          have hfound : Fields.get? "type" fields = some (.str (tag kind)) := by
            rw [← hsame, htag, Fields.get?_insert_eq, if_pos rfl]
          rw [hincreasing.insert_of_get? hfound] at hsame
          rw [hfound]
          exact ⟨rfl, hsame⟩
        · rintro ⟨hnamed, hsame⟩
          obtain ⟨value, hfound, htext⟩ := Option.bind_eq_some_iff.mp hnamed
          obtain rfl : value = .str (tag kind) := by
            cases value <;> cases htext
            rfl
          rw [hincreasing.insert_of_get? hfound]
          exact hsame
      · rw [if_neg hsuits, Bool.eq_false_iff.mpr hsuits]
        simp
  | _ => simp [fields?]

end Json

/-! ## The kinds of nodes -/

/-- A pattern is its own normal form exactly when it is full. -/
theorem pattern_norm_eq_self_iff {j : Json} (h : Canonical j) :
    Pattern.norm j = j ↔ Pattern.full j = true :=
  Json.normTagged_eq_self_iff (fun _ _ => rfl) (fun _ _ _ _ => by simp) h

/-- The record of a source text is its own normal form exactly when it is full. -/
theorem literalExtra_norm_eq_self_iff {fields : Fields} (h : Fields.Increasing fields) :
    LiteralExtra.norm fields = fields ↔ LiteralExtra.full (.obj fields) = true := by
  have hany (name : String) : fields.get? name = some (fields.getD name (.str "")) ↔
      (fields.get? name).isSome = true := by
    rw [Fields.getD]
    cases fields.get? name <;> simp
  rw [LiteralExtra.norm, h.insert_insert_eq_self_iff (by decide), hany, hany, LiteralExtra.full,
    Bool.and_eq_true]
  rfl

/-- The fields of a string literal are their own normal form exactly when they are full. A record
that is null is left out, so it is not full. -/
theorem stringLiteral_norm_eq_self_iff {fields : Fields} (h : Canonical (.obj fields))
    (hsuits : StringLiteral.suits fields = true) :
    StringLiteral.norm fields = fields ↔ StringLiteral.full fields = true := by
  obtain ⟨hincreasing, hmembers⟩ := Json.canonical_obj.mp h
  rw [StringLiteral.suits, Bool.and_eq_true] at hsuits
  have hextra := hsuits.2
  rw [Fields.getD] at hextra
  rw [StringLiteral.norm, StringLiteral.full]
  cases hvalue : fields.get? "extra" with
  | none => simp [Fields.modify_of_get?_eq_none hvalue]
  | some value =>
    rw [hvalue] at hextra
    cases value with
    | null =>
      have hleft : fields.without ["extra"] ≠ fields := by
        intro hsame
        rw [← hsame, Fields.get?_without, if_pos (List.mem_singleton.mpr rfl)] at hvalue
        cases hvalue
      exact iff_of_false hleft (by decide)
    | obj extra =>
      have hrecord := (Json.canonical_obj.mp (hmembers.get? hvalue)).1
      dsimp only
      rw [hincreasing.modify_eq_self_iff hvalue, Json.withFields, Json.obj.injEq,
        literalExtra_norm_eq_self_iff hrecord]
      rfl
    | _ => cases hextra

/-- The normal form of a string literal keeps all fields but the record of the source. -/
theorem get?_stringLiteral_norm {name : String} (h : name ≠ "extra") (fields : Fields) :
    (StringLiteral.norm fields).get? name = fields.get? name := by
  rw [StringLiteral.norm]
  split
  · rw [Fields.get?_without, if_neg (mt List.mem_singleton.mp h)]
  · rw [Fields.get?_modify, if_neg h.symm]

/-- An expression is its own normal form exactly when it is full. -/
theorem expression_norm_eq_self_iff {j : Json} (h : Canonical j) :
    Expression.norm j = j ↔ Expression.full j = true := by
  refine Json.normTagged_eq_self_iff ?_ ?_ h
  · intro kind fields
    cases kind with
    | string => exact get?_stringLiteral_norm (by decide) fields
    | _ => rfl
  · intro kind fields hfields hsuits
    cases kind with
    | string => exact stringLiteral_norm_eq_self_iff hfields hsuits
    | _ => simp

/-- A declarator that suits is its own normal form exactly when it is full. -/
theorem declarator_norm_eq_self_iff {j : Json} (h : Canonical j)
    (hsuits : Declarator.suits j = true) : Declarator.norm j = j ↔ Declarator.full j = true := by
  rw [Declarator.suits] at hsuits
  obtain ⟨id, hid⟩ := Option.isSome_iff_exists.mp hsuits
  cases j with
  | obj fields =>
    obtain ⟨hincreasing, hmembers⟩ := Json.canonical_obj.mp h
    have hpattern := pattern_norm_eq_self_iff (hmembers.get? hid)
    have hinit : Fields.get? "init" fields =
        some (Expression.norm (Fields.getD fields "init" .null)) ↔
          (Fields.get? "init" fields).any Expression.full = true :=
      Fields.get?_eq_some_iff_any fun value hvalue =>
        expression_norm_eq_self_iff (hmembers.get? hvalue)
    change Fields.get? "id" fields = some id at hid
    rw [Declarator.norm, Json.withFields, Json.obj.injEq, hincreasing.modify_eq_insert hid,
      hincreasing.insert_insert_eq_self_iff (by decide), hid, hinit, Declarator.full,
      Bool.and_eq_true, Option.some.injEq, eq_comm, hpattern]
    simp [Json.field?, hid]
  | _ => cases hid

/-- A keyword is its own normal form exactly when it is a text. -/
theorem variableKind_norm_eq_self_iff {j : Json} (h : VariableKind.suits j = true) :
    VariableKind.norm j = j ↔ j.text?.isSome = true := by
  constructor
  · intro hsame
    rw [VariableKind.suits, hsame] at h
    cases j with
    | str name => rfl
    | _ => cases h
  · intro htext
    cases j with
    | str name => rfl
    | _ => cases htext

/-- The normal form of a declaration of variables has what the declaration has under any other name
than those that it changes. -/
theorem get?_variableDeclaration_norm {name : String} (hkind : "kind" ≠ name)
    (hitems : "declarations" ≠ name) (fields : Fields) :
    (VariableDeclaration.norm fields).get? name = fields.get? name := by
  rw [VariableDeclaration.norm, Fields.get?_modify, if_neg hitems, Fields.get?_modify,
    if_neg hkind]

/-- The fields of a declaration of variables that suit are their own normal form exactly when they
are full. -/
theorem variableDeclaration_norm_eq_self_iff {fields : Fields} (h : Canonical (.obj fields))
    (hsuits : VariableDeclaration.suits fields = true) :
    VariableDeclaration.norm fields = fields ↔ VariableDeclaration.full fields = true := by
  obtain ⟨hincreasing, hmembers⟩ := Json.canonical_obj.mp h
  rw [VariableDeclaration.suits, Bool.and_eq_true] at hsuits
  obtain ⟨hkeyword, hlist⟩ := hsuits
  obtain ⟨keyword, hkind, hkeyword⟩ := (Option.any_eq_true _ _).mp hkeyword
  obtain ⟨items, hfound, hitems⟩ := (Option.any_eq_true _ _).mp hlist
  have hdeclarations := bind_items?_eq_some_iff.mp hfound
  have hnamed : fields.get? "kind" = some (VariableKind.norm keyword) ↔
      keyword.text?.isSome = true := by
    rw [hkind, Option.some.injEq, eq_comm]
    exact variableKind_norm_eq_self_iff hkeyword
  have hdeclared : fields.get? "declarations" =
      some (Json.mapItems Declarator.norm (.arr items)) ↔ items.all Declarator.full = true := by
    rw [hdeclarations, Option.some.injEq, eq_comm]
    refine Json.mapItems_eq_self_iff ?_
    intro item hitem
    exact declarator_norm_eq_self_iff (hmembers.get?_items hdeclarations item hitem)
      (List.all_eq_true.mp hitems item hitem)
  have hafter : (fields.insert "kind" (VariableKind.norm keyword)).get? "declarations" =
      some (.arr items) := by
    rw [Fields.get?_insert_of_ne (by decide), hdeclarations]
  rw [VariableDeclaration.norm, hincreasing.modify_eq_insert hkind,
    (hincreasing.insert _ _).modify_eq_insert hafter,
    hincreasing.insert_insert_eq_self_iff (by decide), hnamed, hdeclared,
    VariableDeclaration.full, hkind, hdeclarations, Bool.and_eq_true]
  rfl

/-- A declaration is its own normal form exactly when it is full. -/
theorem declaration_norm_eq_self_iff {j : Json} (h : Canonical j) :
    Declaration.norm j = j ↔ Declaration.full j = true := by
  refine Json.normTagged_eq_self_iff ?_ ?_ h
  · intro kind fields
    cases kind with
    | bindings => exact get?_variableDeclaration_norm (by decide) (by decide) fields
    | _ => rfl
  · intro kind fields hfields hsuits
    cases kind with
    | bindings => exact variableDeclaration_norm_eq_self_iff hfields hsuits
    | _ => simp

/-- The fields of an export are their own normal form exactly when they are full. -/
theorem namedExport_norm_eq_self_iff {fields : Fields} (h : Canonical (.obj fields)) :
    NamedExport.norm fields = fields ↔ NamedExport.full fields = true := by
  obtain ⟨hincreasing, hmembers⟩ := Json.canonical_obj.mp h
  have hdeclaration : fields.get? "declaration" =
      some (Declaration.norm (fields.getD "declaration" .null)) ↔
        (fields.get? "declaration").any Declaration.full = true :=
    Fields.get?_eq_some_iff_any fun value hvalue =>
      declaration_norm_eq_self_iff (hmembers.get? hvalue)
  rw [NamedExport.norm, NamedExport.full, ← hdeclaration]
  constructor
  · intro hsame
    rw [← hsame, Fields.get?_insert_eq, if_pos rfl, hsame]
  · exact hincreasing.insert_of_get?

/-- A statement is its own normal form exactly when it is full. -/
theorem statement_norm_eq_self_iff {j : Json} (h : Canonical j) :
    Statement.norm j = j ↔ Statement.full j = true := by
  refine Json.normTagged_eq_self_iff ?_ ?_ h
  · intro kind fields
    cases kind with
    | exporting => exact Fields.get?_insert_of_ne (by decide) _ fields
    | bindings => exact get?_variableDeclaration_norm (by decide) (by decide) fields
    | _ => rfl
  · intro kind fields hfields hsuits
    cases kind with
    | exporting => exact namedExport_norm_eq_self_iff hfields
    | bindings => exact variableDeclaration_norm_eq_self_iff hfields hsuits
    | _ => simp

/-- The modules that are their own normal forms are the full ones. -/
theorem program_norm_eq_self_iff {j : Json} (h : Canonical j) (hsuits : Program.suits j = true) :
    Program.norm j = j ↔ Program.full j = true := by
  cases j with
  | obj fields =>
    obtain ⟨items, hfound⟩ := Option.isSome_iff_exists.mp hsuits
    have hbody := bind_items?_eq_some_iff.mp hfound
    obtain ⟨hincreasing, hmembers⟩ := Json.canonical_obj.mp h
    have hstatements : Json.mapItems Statement.norm (.arr items) = .arr items ↔
        items.all Statement.full = true := by
      refine Json.mapItems_eq_self_iff ?_
      intro item hitem
      exact statement_norm_eq_self_iff (hmembers.get?_items hbody item hitem)
    rw [Program.norm, Json.withFields, Json.obj.injEq, hincreasing.modify_eq_self_iff hbody,
      hstatements, Program.full, hfound]
    rfl
  | _ => cases hsuits

end SelfNamed
