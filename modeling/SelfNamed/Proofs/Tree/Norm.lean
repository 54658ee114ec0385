import SelfNamed.Proofs.Tree.Reading
import SelfNamed.Tree.Encode

/-!
# Reading and writing gives the normal form

A tagged value that suits its kind is read, and the node is written with its tag and its modelled
fields in front of all others. In order these are the fields of the value with the modelled ones
renewed, so nothing else of the value is lost or moved. Main statement: reading a canonical value as
a module and writing the module gives the normal form, exactly when the value suits a module.
-/

namespace SelfNamed

open Json (Canonical CanonicalMembers Fields)

variable {α : Type}

/-- The canonical forms of joined members are those of the first members and then those of the
second. -/
theorem sortedMembers_append (first second : Fields) :
    Json.sortedMembers (first ++ second) =
      Json.sortedMembers first ++ Json.sortedMembers second := by
  induction first with
  | nil => rfl
  | cons member first ih => rw [List.cons_append, Json.sortedMembers, Json.sortedMembers, ih]; rfl

/-- Canonical forms stand under the same names. -/
theorem sortedMembers_map_fst (members : Fields) :
    (Json.sortedMembers members).map Prod.fst = members.map Prod.fst := by
  induction members with
  | nil => rfl
  | cons member members ih => rw [Json.sortedMembers, List.map_cons, List.map_cons, ih]

/-- Members in front of what they leave of a canonical object take the places of the fields of their
names once they are put in order. -/
theorem sorted_obj (members : Fields) {fields : Fields} (h : Canonical (.obj fields)) :
    (Json.obj (members ++ fields.without (members.map Prod.fst))).sorted =
      .obj (Fields.insertInto (Json.sortedMembers members) fields) := by
  rw [Canonical] at h
  rw [Json.sorted, sortedMembers_append, Json.sortedMembers_of_canonical (h.2.without _),
    ← sortedMembers_map_fst members, Fields.ofMembers_append_without _ h.1]

/-- A tag and members in front of what they leave of a canonical object take the places of the
fields of their names once they are put in order. -/
theorem sorted_tagged (tag : String) (members : Fields) {fields : Fields}
    (h : Canonical (.obj fields)) :
    (tagged tag (members ++ (fields.without ["type"]).without (members.map Prod.fst))).sorted =
      .obj (Fields.insertInto (Json.sortedMembers members) (fields.insert "type" (.str tag))) := by
  have hobj := sorted_obj (("type", .str tag) :: members) h
  have hwithout : (fields.without ["type"]).without (members.map Prod.fst) =
      fields.without (("type" :: members.map Prod.fst)) :=
    Fields.without_without fields fun name => by simp
  rw [tagged, hwithout]
  exact hobj

/-- What is told by a condition is there under the condition and only then. -/
theorem some_or_none_of_map_eq {β : Type} {found : Option α} {f : α → β} {c : Bool} {b : β}
    (h : found.map f = if c then some b else none) :
    (c = true ∧ ∃ a, found = some a ∧ f a = b) ∨ (c = false ∧ found = none) := by
  cases c with
  | true => exact Or.inl ⟨rfl, Option.map_eq_some_iff.mp h⟩
  | false => exact Or.inr ⟨rfl, Option.map_eq_none_iff.mp h⟩

/-- Reading the fields of a kind but the tag and writing the node gives the normal form of the kind,
exactly when the fields suit. -/
def Normalises (read : Json → Option α) (toJson : α → Json) (tag : String) (suits : Fields → Bool)
    (norm : Fields → Fields) : Prop :=
  ∀ ⦃fields : Fields⦄, Canonical (.obj fields) →
    ((read (.obj (fields.without ["type"]))).map fun a => (toJson a).sorted) =
      if suits fields then some (.obj (norm (fields.insert "type" (.str tag)))) else none

/-- A tagged value is normalised when every kind is. -/
theorem toJson_readTagged {κ : Type} {kinds : List (String × κ)} {tag : κ → String}
    {suits : κ → Fields → Bool} {norm : κ → Fields → Fields} {read : κ → Json → Option α}
    {verbatim : Json → α} {toJson : α → Json} (hverbatim : ∀ j, toJson (verbatim j) = j)
    (h : ∀ kind, Normalises (read kind) toJson (tag kind) (suits kind) (norm kind)) {j : Json}
    (hj : Canonical j) :
    (toJson (j.readTagged kinds read verbatim)).sorted = j.normTagged kinds tag suits norm := by
  have hself : (toJson (verbatim j)).sorted = j := by rw [hverbatim, Json.sorted_of_canonical hj]
  cases j with
  | obj fields =>
    rw [readTagged_obj, Json.normTagged, Json.fields?]
    cases (Json.obj fields).kind? kinds with
    | none => exact hself
    | some kind =>
      rw [Option.bind_some]
      obtain ⟨hsuits, a, hread, hnorm⟩ | ⟨hsuits, hread⟩ := some_or_none_of_map_eq (h kind hj)
      · rw [hread, Option.getD_some, hnorm]
        exact (if_pos hsuits).symm
      · rw [hread, Option.getD_none, hself]
        exact (if_neg (Bool.eq_false_iff.mp hsuits)).symm
  | _ => exact hself

/-- A field that is written as it stands changes nothing but the tag. -/
theorem sorted_tagged_field (tag : String) {name : String} {value : Json} {fields : Fields}
    (h : Canonical (.obj fields)) (hne : "type" ≠ name) (hvalue : fields.get? name = some value) :
    (tagged tag ((name, value) :: (fields.without ["type"]).without [name])).sorted =
      .obj (fields.insert "type" (.str tag)) := by
  have hsorted := sorted_tagged tag [(name, value)] h
  rw [Canonical] at h
  have hcanonical : value.sorted = value := Json.sorted_of_canonical (h.2.get? hvalue)
  have hfound : (fields.insert "type" (.str tag)).get? name = some value := by
    rw [Fields.get?_insert_of_ne hne, hvalue]
  have hinsert := (h.1.insert "type" (.str tag)).insert_of_get? hfound
  refine hsorted.trans ?_
  rw [Json.sortedMembers, Json.sortedMembers, hcanonical]
  exact congrArg Json.obj hinsert

/-- What stands under another name than the tag is found without the tag. -/
theorem get?_without_tag {name : String} (h : name ≠ "type") (fields : Fields) :
    (fields.without ["type"]).get? name = fields.get? name := by
  rw [Fields.get?_without, if_neg (mt List.mem_singleton.mp h)]

/-- What is found under another name than the tag, or stands for it, is the same without the tag. -/
theorem getD_without_tag {name : String} (h : name ≠ "type") (missing : Json) (fields : Fields) :
    (fields.without ["type"]).getD name missing = fields.getD name missing := by
  rw [Fields.getD, Fields.getD, get?_without_tag h]

/-- What stands under a name or for it is canonical. -/
theorem Json.CanonicalMembers.getD {fields : Fields} (h : CanonicalMembers fields) (name : String)
    {missing : Json} (hmissing : Canonical missing) : Canonical (fields.getD name missing) := by
  rw [Fields.getD]
  cases hvalue : fields.get? name with
  | none => exact hmissing
  | some value => exact h.get? hvalue

/-- What may be missing is normalised when everything is and null stays null. -/
theorem toJson_unlessNull {read : Json → α} {toJson : α → Json} {norm : Json → Json}
    (hnull : norm .null = .null) (h : ∀ {j}, Canonical j → (toJson (read j)).sorted = norm j)
    {j : Json} (hj : Canonical j) : (optionalJson toJson (j.unlessNull read)).sorted = norm j := by
  cases j with
  | null => exact hnull.symm
  | _ => exact h hj

/-- Only null has null as its normal form. -/
theorem eq_null_of_normTagged {κ : Type} {kinds : List (String × κ)} {tag : κ → String}
    {suits : κ → Fields → Bool} {norm : κ → Fields → Fields} {j : Json}
    (h : j.normTagged kinds tag suits norm = .null) : j = .null := by
  rw [Json.normTagged] at h
  split at h
  · split at h
    · cases h
    · exact h
  · exact h

/-- Kinds of nodes with one modelled field, which must be given, are normalised. -/
theorem normalises_given {β ν : Type} {tag name : String} (hne : name ≠ "type")
    {look : Json → Option β} {write : β → Json}
    (hwrite : ∀ value b, look value = some b → value = write b) {node : β → Fields → ν}
    {make : ν → α} {toJson : α → Json}
    (h : ∀ b rest, toJson (make (node b rest)) = SelfNamed.tagged tag ((name, write b) :: rest)) :
    Normalises
      (fun j => Option.map make do
        let fields ← j.fields?
        let b ← (fields.get? name).bind look
        return node b (fields.without [name]))
      toJson tag (fun fields => fields.has name look) id := by
  intro fields hfields
  change Option.map _ (Option.map make ((((fields.without ["type"]).get? name).bind look).bind
    fun b => some _)) = if ((fields.get? name).bind look).isSome then _ else _
  rw [get?_without_tag hne]
  cases hfound : fields.get? name with
  | none => rfl
  | some value =>
    rw [Option.bind_some]
    cases hlook : look value with
    | none => rfl
    | some b =>
      have hsorted := sorted_tagged_field tag hfields hne.symm hfound
      rw [hwrite value b hlook] at hsorted
      exact congrArg some ((congrArg Json.sorted (h b _)).trans hsorted)

/-- Kinds of nodes without modelled fields are normalised. -/
theorem normalises_all {ν : Type} {tag : String} {node : Fields → ν} {make : ν → α}
    {toJson : α → Json} (h : ∀ rest, toJson (make (node rest)) = SelfNamed.tagged tag rest) :
    Normalises (fun j => (j.fields?.map node).map make) toJson tag (fun _ => true) id := by
  intro fields hfields
  have hsorted := sorted_tagged tag [] hfields
  rw [List.nil_append, List.map_nil, Fields.without_nil] at hsorted
  exact congrArg some ((congrArg Json.sorted (h _)).trans hsorted)

/-- Identifiers are normalised, as patterns and as expressions. -/
theorem normalises_identifier {make : Identifier → α} {toJson : α → Json}
    (h : ∀ node, toJson (make node) = tagged "Identifier" node.members) :
    Normalises (fun j => (Identifier.ofJson? j).map make) toJson "Identifier" Identifier.suits
      id := by
  have hwrite (value : Json) (name : String) (hname : value.text? = some name) :
      value = .str name := by
    cases value <;> cases hname
    rfl
  exact normalises_given (by decide) hwrite fun name rest => h ⟨name, rest⟩

/-- Patterns of the one kind that is modelled are normalised. -/
theorem normalises_pattern (_kind : Unit) :
    Normalises (fun j => (Identifier.ofJson? j).map Pattern.identifier) Pattern.toJson "Identifier"
      Identifier.suits id :=
  normalises_identifier fun _ => rfl

/-- Reading a canonical value as a pattern and writing it gives the normal form. -/
theorem toJson_pattern {j : Json} (h : Canonical j) :
    (Pattern.ofJson j).toJson.sorted = Pattern.norm j :=
  toJson_readTagged (fun _ => rfl) normalises_pattern h

/-- Reading an object as the record of a source text and writing it gives the normal form, exactly
when the object suits. -/
theorem literalExtra_norm {extra : Fields} (h : Canonical (.obj extra)) :
    ((LiteralExtra.ofJson? (.obj extra)).map fun node => (Json.obj node.members).sorted) =
      if LiteralExtra.suits (.obj extra) then some (.obj (LiteralExtra.norm extra)) else none := by
  change Option.map _ ((extra.getD "raw" (.str "")).text?.bind fun raw =>
    (extra.getD "rawValue" (.str "")).text?.bind fun rawValue => some _) =
      if (extra.getD "raw" (.str "")).text?.isSome && (extra.getD "rawValue" (.str "")).text?.isSome
        then _ else _
  rw [LiteralExtra.norm]
  cases extra.getD "raw" (.str "") with
  | str raw =>
    cases extra.getD "rawValue" (.str "") with
    | str rawValue =>
      exact congrArg some (sorted_obj [("raw", .str raw), ("rawValue", .str rawValue)] h)
    | _ => rfl
  | _ => rfl

/-- Null is left out of a string literal in normal form. -/
theorem stringLiteral_norm_of_null {fields : Fields} (h : fields.getD "extra" .null = .null) :
    StringLiteral.norm fields = fields.without ["extra"] := by
  rw [StringLiteral.norm]
  cases hextra : fields.get? "extra" with
  | none =>
    change fields.modify "extra" _ = _
    rw [Fields.modify_of_get?_eq_none hextra, Fields.without_of_get?_eq_none hextra]
  | some value =>
    rw [Fields.getD, hextra] at h
    obtain rfl : value = .null := h
    rfl

/-- A record of the source is put in normal form. -/
theorem stringLiteral_norm_of_obj {fields : Fields} (hfields : Fields.Increasing fields)
    {extra : Fields} (h : fields.getD "extra" .null = .obj extra) :
    StringLiteral.norm fields = fields.insert "extra" (.obj (LiteralExtra.norm extra)) := by
  rw [StringLiteral.norm]
  cases hextra : fields.get? "extra" with
  | none =>
    rw [Fields.getD, hextra] at h
    cases h
  | some value =>
    rw [Fields.getD, hextra] at h
    obtain rfl : value = .obj extra := h
    exact hfields.modify_eq_insert hextra _

/-- A string literal without a record of the source is written as its fields with the tag and
without a record. -/
theorem sorted_stringLiteral_none {fields : Fields} (h : Canonical (.obj fields)) {value : String}
    (hvalue : fields.get? "value" = some (.str value)) :
    (Expression.toJson (.string ⟨value, none,
      (fields.without ["type"]).without ["value", "extra"]⟩)).sorted =
        .obj ((fields.insert "type" (.str "StringLiteral")).without ["extra"]) := by
  obtain ⟨hincreasing, hmembers⟩ := Json.canonical_obj.mp h
  have hothers : Canonical (.obj (fields.without ["extra"])) :=
    Json.canonical_obj.mpr ⟨hincreasing.without _, hmembers.without _⟩
  have hfound : (fields.without ["extra"]).get? "value" = some (.str value) := by
    rw [Fields.get?_without, if_neg (by decide), hvalue]
  have hrest : ((fields.without ["extra"]).without ["type"]).without ["value"] =
      (fields.without ["type"]).without ["value", "extra"] := by
    have hall : (fields.without ["type"]).without ["value", "extra"] =
        fields.without ["extra", "type", "value"] :=
      Fields.without_without fields fun name => by simp; tauto
    have hfirst : (fields.without ["extra"]).without ["type"] = fields.without ["extra", "type"] :=
      Fields.without_without fields fun name => by simp
    rw [hall, hfirst]
    exact Fields.without_without fields fun name => by simp [or_assoc]
  have hsorted := sorted_tagged_field "StringLiteral" hothers (by decide) hfound
  rw [hrest] at hsorted
  rw [← hincreasing.without_insert (by decide)]
  exact hsorted

/-- A string literal with a record of the source is written as its fields with the tag and the
written record. -/
theorem sorted_stringLiteral_some {fields : Fields} (h : Canonical (.obj fields)) {value : String}
    (hvalue : fields.get? "value" = some (.str value)) {node : LiteralExtra} {extra : Fields}
    (hnode : (Json.obj node.members).sorted = .obj extra) :
    (Expression.toJson (.string ⟨value, some node,
      (fields.without ["type"]).without ["value", "extra"]⟩)).sorted =
        .obj ((fields.insert "type" (.str "StringLiteral")).insert "extra" (.obj extra)) := by
  have hincreasing := (Json.canonical_obj.mp h).1
  have hsorted := sorted_tagged "StringLiteral"
    [("value", .str value), ("extra", .obj node.members)] h
  have hfound : (fields.insert "type" (.str "StringLiteral")).get? "value" = some (.str value) := by
    rw [Fields.get?_insert_of_ne (by decide), hvalue]
  have hinsert := (hincreasing.insert "type" (.str "StringLiteral")).insert_of_get? hfound
  refine hsorted.trans (congrArg Json.obj ?_)
  change ((fields.insert "type" (.str "StringLiteral")).insert "value" (.str value)).insert "extra"
    (Json.obj node.members).sorted = _
  rw [hinsert, hnode]

/-- Reading the fields of a string literal and writing it gives their normal form, exactly when they
suit. -/
theorem normalises_stringLiteral :
    Normalises (fun j => (StringLiteral.ofJson? j).map Expression.string) Expression.toJson
      "StringLiteral" StringLiteral.suits StringLiteral.norm := by
  intro fields hfields
  obtain ⟨hincreasing, hmembers⟩ := Json.canonical_obj.mp hfields
  change Option.map _ (Option.map _ ((((fields.without ["type"]).get? "value").bind
    Json.text?).bind fun value => (Json.optional? LiteralExtra.ofJson?
      ((fields.without ["type"]).getD "extra" .null)).bind fun extra => some _)) =
        if (((fields.get? "value").bind Json.text?).isSome &&
          LiteralExtra.suits (fields.getD "extra" .null)) then _ else _
  have hextra_tagged : (fields.insert "type" (.str "StringLiteral")).getD "extra" .null =
      fields.getD "extra" .null := by
    rw [Fields.getD, Fields.getD, Fields.get?_insert_of_ne (by decide)]
  rw [get?_without_tag (by decide), getD_without_tag (by decide)]
  cases hvalue : fields.get? "value" with
  | none => rfl
  | some value =>
    cases value with
    | str value =>
      cases hextra : fields.getD "extra" .null with
      | null =>
        rw [hextra] at hextra_tagged
        rw [stringLiteral_norm_of_null hextra_tagged]
        exact congrArg some (sorted_stringLiteral_none hfields hvalue)
      | obj extra =>
        rw [hextra] at hextra_tagged
        rw [stringLiteral_norm_of_obj (hincreasing.insert _ _) hextra_tagged]
        have hcanonical : Canonical (.obj extra) := hextra ▸ hmembers.getD "extra" trivial
        change Option.map _ (Option.map _ (((LiteralExtra.ofJson? (.obj extra)).map some).bind
          fun extra => some _)) = if LiteralExtra.suits (.obj extra) then _ else _
        obtain ⟨hsuits, node, hread, hnode⟩ | ⟨hsuits, hread⟩ :=
          some_or_none_of_map_eq (literalExtra_norm hcanonical)
        · rw [hread, hsuits]
          exact congrArg some (sorted_stringLiteral_some hfields hvalue hnode)
        · rw [hread, hsuits]
          rfl
      | _ => rfl
    | _ => rfl

/-- Reading the fields of an expression of any kind and writing it gives their normal form, exactly
when they suit. -/
theorem normalises_expression (kind : Expression.Kind) :
    Normalises (Expression.ofKind? kind) Expression.toJson kind.tag (Expression.suits kind)
      fun fields => match kind with
        | .string => StringLiteral.norm fields
        | _ => fields := by
  cases kind with
  | string => exact normalises_stringLiteral
  | numeric =>
    have hwrite (value : Json) (n : Json.Number) (hn : value.number? = some n) :
        value = .num n := by
      cases value <;> cases hn
      rfl
    exact normalises_given (by decide) hwrite fun _ _ => rfl
  | boolean =>
    have hwrite (value : Json) (b : Bool) (hb : value.bool? = some b) : value = .bool b := by
      cases value <;> cases hb
      rfl
    exact normalises_given (by decide) hwrite fun _ _ => rfl
  | null => exact normalises_all fun _ => rfl
  | identifier => exact normalises_identifier fun _ => rfl

/-- Reading a canonical value as an expression and writing it gives the normal form. -/
theorem toJson_expression {j : Json} (h : Canonical j) :
    (Expression.ofJson j).toJson.sorted = Expression.norm j :=
  toJson_readTagged (fun _ => rfl) normalises_expression h

/-- Reading a canonical value as a declarator and writing it gives the normal form, exactly when the
value suits. -/
theorem toJson_declarator {j : Json} (h : Canonical j) :
    ((Declarator.ofJson? j).map fun d => d.toJson.sorted) =
      if Declarator.suits j then some (Declarator.norm j) else none := by
  cases j with
  | obj fields =>
    change Option.map _ ((Fields.get? "id" fields).bind fun id => some _) =
      if (Fields.get? "id" fields).isSome then some (Json.obj ((Fields.modify "id" Pattern.norm
        fields).insert "init" _)) else none
    obtain ⟨hincreasing, hmembers⟩ := Json.canonical_obj.mp h
    cases hid : Fields.get? "id" fields with
    | none => rfl
    | some id =>
      rw [hincreasing.modify_eq_insert hid]
      have hpattern := toJson_pattern (hmembers.get? hid)
      have hinit : (optionalJson Expression.toJson
          ((Fields.getD fields "init" .null).unlessNull Expression.ofJson)).sorted =
            Expression.norm (Fields.getD fields "init" .null) :=
        toJson_unlessNull rfl toJson_expression (hmembers.getD "init" trivial)
      have hsorted := sorted_obj [("id", (Pattern.ofJson id).toJson), ("init", optionalJson
        Expression.toJson ((Fields.getD fields "init" .null).unlessNull Expression.ofJson))] h
      refine congrArg some (hsorted.trans (congrArg Json.obj ?_))
      rw [Json.sortedMembers, Json.sortedMembers, Json.sortedMembers, hpattern, hinit]
      rfl
  | _ => rfl

/-- The canonical forms of items are those of each item. -/
theorem sortedItems_eq_map (items : List Json) :
    Json.sortedItems items = items.map Json.sorted := by
  induction items with
  | nil => rfl
  | cons item items ih => rw [Json.sortedItems, ih, List.map_cons]

/-- Lists of declarators are normalised when all of their items suit. -/
theorem toJson_declarators {items : List Json} (h : ∀ item ∈ items, Canonical item) :
    ((items.mapM Declarator.ofJson?).map fun ds => ds.map fun d => d.toJson.sorted) =
      if items.all Declarator.suits then some (items.map Declarator.norm) else none := by
  induction items with
  | nil => rfl
  | cons item items ih =>
    have hitem := toJson_declarator (h item List.mem_cons_self)
    have hitems := ih fun other hother => h other (List.mem_cons_of_mem item hother)
    rw [List.mapM_cons, List.all_cons, List.map_cons]
    obtain ⟨hsuits, d, hread, hnorm⟩ | ⟨hsuits, hread⟩ := some_or_none_of_map_eq hitem
    · rw [hread, hsuits, Bool.true_and, ← hnorm]
      obtain ⟨hall, ds, hreads, hnorms⟩ | ⟨hall, hreads⟩ := some_or_none_of_map_eq hitems
      · rw [hreads, hall, ← hnorms]
        rfl
      · rw [hreads, hall]
        rfl
    · rw [hread, hsuits]
      rfl

/-- The keyword of a name is the name. -/
theorem keyword_choices (name : String) :
    (((VariableKind.choices.find? fun choice => choice.1 == name).map Prod.snd).map
      fun kind => Json.str kind.keyword) =
        if ["var", "let", "const"].contains name then some (.str name) else none := by
  by_cases hvar : name = "var"
  · subst hvar
    rfl
  · by_cases hlet : name = "let"
    · subst hlet
      rfl
    · by_cases hconst : name = "const"
      · subst hconst
        rfl
      · simp [VariableKind.choices, hvar, hlet, hconst, Ne.symm hvar, Ne.symm hlet, Ne.symm hconst]

/-- Reading a value as a keyword and writing it gives the normal form, exactly when the value suits.
-/
theorem toJson_variableKind (j : Json) :
    ((VariableKind.ofJson? j).map fun kind => Json.str kind.keyword) =
      if VariableKind.suits j then some (VariableKind.norm j) else none := by
  cases j with
  | str name => exact keyword_choices name
  | obj members =>
    cases members with
    | nil => rfl
    | cons member members =>
      obtain ⟨name, value⟩ := member
      cases members with
      | cons _ _ =>
        cases value with
        | obj inner => cases inner <;> rfl
        | _ => rfl
      | nil =>
        cases value with
        | null => exact keyword_choices name
        | obj inner =>
          cases inner with
          | nil => exact keyword_choices name
          | cons _ _ => rfl
        | _ => rfl
  | _ => rfl

/-- A declaration of variables that was read is written as its fields with the tag, the keyword as a
text and the declarators in normal form. -/
theorem sorted_variableDeclaration {fields : Fields} (h : Canonical (.obj fields)) {value : Json}
    (hvalue : fields.get? "kind" = some value) {kind : VariableKind}
    (hkind : .str kind.keyword = VariableKind.norm value) {items : List Json}
    (hitems : fields.get? "declarations" = some (.arr items)) {ds : List Declarator}
    (hds : ds.map (fun d => d.toJson.sorted) = items.map Declarator.norm) :
    (tagged "VariableDeclaration" (VariableDeclaration.members
      ⟨kind, ds, (fields.without ["type"]).without ["kind", "declarations"]⟩)).sorted =
        .obj (VariableDeclaration.norm (fields.insert "type" (.str "VariableDeclaration"))) := by
  have hsorted := sorted_tagged "VariableDeclaration"
    [("kind", .str kind.keyword), ("declarations", .arr (ds.map Declarator.toJson))] h
  have hincreasing := (Json.canonical_obj.mp h).1.insert "type" (.str "VariableDeclaration")
  have hvalue' : (fields.insert "type" (.str "VariableDeclaration")).get? "kind" = some value := by
    rw [Fields.get?_insert_of_ne (by decide), hvalue]
  have hitems' : ((fields.insert "type" (.str "VariableDeclaration")).insert "kind"
      (VariableKind.norm value)).get? "declarations" = some (.arr items) := by
    rw [Fields.get?_insert_of_ne (by decide), Fields.get?_insert_of_ne (by decide), hitems]
  refine hsorted.trans (congrArg Json.obj ?_)
  rw [VariableDeclaration.norm, hincreasing.modify_eq_insert hvalue',
    (hincreasing.insert _ _).modify_eq_insert hitems', ← hkind, Json.mapItems, ← hds]
  simp only [Json.sortedMembers, Json.sorted, sortedItems_eq_map, List.map_map]
  rfl

/-- Reading the fields of a declaration of variables and writing it gives their normal form, exactly
when they suit. -/
theorem normalises_variableDeclaration {make : VariableDeclaration → α} {toJson : α → Json}
    (h : ∀ node, toJson (make node) = tagged "VariableDeclaration" node.members) :
    Normalises (fun j => (VariableDeclaration.ofJson? j).map make) toJson "VariableDeclaration"
      VariableDeclaration.suits VariableDeclaration.norm := by
  intro fields hfields
  obtain ⟨hincreasing, hmembers⟩ := Json.canonical_obj.mp hfields
  change Option.map _ (Option.map _ ((((fields.without ["type"]).get? "kind").bind
    VariableKind.ofJson?).bind fun kind => (((fields.without ["type"]).get? "declarations").bind
      Json.items?).bind fun items => (items.mapM Declarator.ofJson?).bind fun ds => some _)) =
        if ((fields.get? "kind").any VariableKind.suits && ((fields.get? "declarations").bind
          Json.items?).any fun items => items.all Declarator.suits) then _ else _
  rw [get?_without_tag (by decide), get?_without_tag (by decide)]
  cases hkind : fields.get? "kind" with
  | none => rfl
  | some value =>
    rw [Option.bind_some, Option.any_some]
    obtain ⟨hsuits, kind, hread, hnorm⟩ | ⟨hsuits, hread⟩ :=
      some_or_none_of_map_eq (toJson_variableKind value)
    · rw [hread, hsuits, Bool.true_and]
      cases hlist : fields.get? "declarations" with
      | none => rfl
      | some list =>
        cases list with
        | arr items =>
          change Option.map _ (Option.map make ((items.mapM Declarator.ofJson?).bind fun ds =>
            some _)) = if items.all Declarator.suits then _ else _
          obtain ⟨hall, ds, hreads, hnorms⟩ | ⟨hall, hreads⟩ :=
            some_or_none_of_map_eq (toJson_declarators (hmembers.get?_items hlist))
          · rw [hreads, hall]
            exact congrArg some ((congrArg Json.sorted (h _)).trans
              (sorted_variableDeclaration hfields hkind hnorm hlist hnorms))
          · rw [hreads, hall]
            rfl
        | _ => rfl
    · rw [hread, hsuits]
      rfl

/-- Reading the fields of a declaration of any kind and writing it gives their normal form, exactly
when they suit. -/
theorem normalises_declaration (kind : Declaration.Kind) :
    Normalises (Declaration.ofKind? kind) Declaration.toJson kind.tag (Declaration.suits kind)
      fun fields => match kind with
        | .bindings => VariableDeclaration.norm fields
        | _ => fields := by
  cases kind with
  | bindings => exact normalises_variableDeclaration fun _ => rfl
  | function => exact normalises_all fun _ => rfl
  | classes => exact normalises_all fun _ => rfl

/-- Reading a canonical value as a declaration and writing it gives the normal form. -/
theorem toJson_declaration {j : Json} (h : Canonical j) :
    (Declaration.ofJson j).toJson.sorted = Declaration.norm j :=
  toJson_readTagged (fun _ => rfl) normalises_declaration h

/-- Reading the fields of an export and writing it gives their normal form, whatever they are. -/
theorem normalises_namedExport :
    Normalises (fun j => (NamedExport.ofJson? j).map Statement.exporting) Statement.toJson
      "ExportNamedDeclaration" (fun _ => true) NamedExport.norm := by
  intro fields hfields
  have hmembers := (Json.canonical_obj.mp hfields).2
  have hdeclaration : (optionalJson Declaration.toJson
      ((fields.getD "declaration" .null).unlessNull Declaration.ofJson)).sorted =
        Declaration.norm (fields.getD "declaration" .null) :=
    toJson_unlessNull rfl toJson_declaration (hmembers.getD "declaration" trivial)
  have hfound : (fields.insert "type" (.str "ExportNamedDeclaration")).getD "declaration" .null =
      fields.getD "declaration" .null := by
    rw [Fields.getD, Fields.getD, Fields.get?_insert_of_ne (by decide)]
  have hsorted := sorted_tagged "ExportNamedDeclaration" [("declaration", optionalJson
    Declaration.toJson ((fields.getD "declaration" .null).unlessNull Declaration.ofJson))] hfields
  rw [if_pos rfl, NamedExport.norm, hfound, ← hdeclaration]
  change some (Json.sorted (tagged _ (("declaration", optionalJson Declaration.toJson
    (((fields.without ["type"]).getD "declaration" .null).unlessNull _)) :: _))) = _
  rw [getD_without_tag (by decide)]
  exact congrArg some hsorted

/-- Reading the fields of a statement of any kind and writing it gives their normal form, exactly
when they suit. -/
theorem normalises_statement (kind : Statement.Kind) :
    Normalises (Statement.ofKind? kind) Statement.toJson kind.tag (Statement.suits kind)
      fun fields => match kind with
        | .exporting => NamedExport.norm fields
        | .bindings => VariableDeclaration.norm fields
        | _ => fields := by
  cases kind with
  | exporting => exact normalises_namedExport
  | bindings => exact normalises_variableDeclaration fun _ => rfl
  | function => exact normalises_all fun _ => rfl
  | classes => exact normalises_all fun _ => rfl

/-- Reading a canonical value as a statement and writing it gives the normal form. -/
theorem toJson_statement {j : Json} (h : Canonical j) :
    (Statement.ofJson j).toJson.sorted = Statement.norm j :=
  toJson_readTagged (fun _ => rfl) normalises_statement h

/-- Reading a canonical value as a module and writing it gives the normal form, exactly when the
value suits. -/
theorem toJson_program {j : Json} (h : Canonical j) :
    ((Program.ofJson? j).map fun p => p.toJson.sorted) =
      if Program.suits j then some (Program.norm j) else none := by
  cases j with
  | obj fields =>
    obtain ⟨hincreasing, hmembers⟩ := Json.canonical_obj.mp h
    change Option.map _ (((Fields.get? "body" fields).bind Json.items?).bind fun items => some _) =
      if ((Fields.get? "body" fields).bind Json.items?).isSome then
        some (Json.obj (Fields.modify "body" _ fields)) else none
    cases hbody : Fields.get? "body" fields with
    | none => rfl
    | some list =>
      cases list with
      | arr items =>
        have hstatements : (items.map Statement.ofJson).map (fun s => s.toJson.sorted) =
            items.map Statement.norm := by
          rw [List.map_map]
          exact List.map_congr_left fun item hitem =>
            toJson_statement (hmembers.get?_items hbody item hitem)
        have hsorted := sorted_obj
          [("body", .arr ((items.map Statement.ofJson).map Statement.toJson))] h
        rw [hincreasing.modify_eq_insert hbody, Json.mapItems, ← hstatements]
        refine congrArg some (hsorted.trans (congrArg Json.obj ?_))
        simp only [Json.sortedMembers, Json.sorted, sortedItems_eq_map, List.map_map]
        rfl
      | _ => rfl
  | _ => rfl

end SelfNamed
