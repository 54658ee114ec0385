import SelfNamed.Proofs.Tree.Full
import SelfNamed.Proofs.Tree.Norm

/-!
# What decoding and encoding keeps

Any value can be decoded as a statement, a declaration, a pattern or an expression. One that suits
a kind becomes a node of the kind, and any other is kept verbatim; either way encoding gives the
normal form of the value, which has all members of the value but those that its kind models. A value
that suits a module is decoded as one. Main statement: this, and that a value is encoded as it was
exactly when it is full.
-/

namespace SelfNamed

open Json (Canonical Decoded Draft Fields)

/-! ## Tagged values -/

/-- Whether a value is tagged with a kind that its fields suit. -/
def Json.modelled {κ : Type} (kinds : List (String × κ)) (suits : κ → Fields → Bool) (j : Json) :
    Bool :=
  match j.fields?, j.kind? kinds with
  | some fields, some kind => suits kind fields
  | _, _ => false

/-- What comes of a value that is decoded as a node of one of some kinds and encoded again. -/
structure Renewed {α κ : Type} (decode : Draft → Decoded α) (toJson : α → Json)
    (verbatim : Json → α) (kinds : List (String × κ)) (modelled full : Json → Bool)
    (names : κ → List String) (norm : Json → Json) (j : Json) : Prop where
  /-- Decoding succeeds with a node whose encoding is the normal form of the value. The node is
  verbatim, and its encoding the value itself, when the value is not modelled and only then. -/
  encoded : ∃ node,
    Json.decodeValue (fun _ => decode) j = .ok node ∧ (toJson node).sorted = norm j ∧
    if modelled j then ∀ value, node ≠ verbatim value else node = verbatim j ∧ toJson node = j
  /-- The normal form is the value itself exactly when the value is full. -/
  same_iff : norm j = j ↔ full j = true
  /-- Every member stays under its name that is not the tag or modelled by the kind. -/
  others : ∀ name, name ≠ "type" → (∀ kind, j.kind? kinds = some kind → name ∉ names kind) →
    (norm j).field? name = j.field? name

variable {α κ : Type} {kinds : List (String × κ)} {tag : κ → String}
  {suits full : κ → Fields → Bool} {norm : κ → Fields → Fields} {read : κ → Json → Option α}
  {verbatim : Json → α} {toJson : α → Json} {names : κ → List String} {j : Json}

/-- A modelled value is read as a node of its kind, and any other stays verbatim. -/
theorem readTagged_cases (kinds : List (String × κ)) (verbatim : Json → α)
    (h : ∀ kind, Normalises (read kind) toJson (tag kind) (suits kind) (norm kind))
    (hj : Canonical j) :
    (j.modelled kinds suits = true ∧
      ∃ kind inner node, read kind inner = some node ∧ j.readTagged kinds read verbatim = node) ∨
      (j.modelled kinds suits = false ∧ j.readTagged kinds read verbatim = verbatim j) := by
  cases j with
  | obj fields =>
    rw [readTagged_obj, Json.modelled, Json.fields?]
    cases (Json.obj fields).kind? kinds with
    | none => exact .inr ⟨rfl, rfl⟩
    | some kind =>
      rw [Option.bind_some]
      obtain ⟨hsuits, node, hread, -⟩ | ⟨hsuits, hread⟩ := some_or_none_of_map_eq (h kind hj)
      · refine .inl ⟨hsuits, kind, _, node, hread, ?_⟩
        rw [hread, Option.getD_some]
      · refine .inr ⟨hsuits, ?_⟩
        rw [hread, Option.getD_none]
  | _ => exact .inr ⟨rfl, rfl⟩

/-- A tagged value in normal form has the members that the normal form of its kind leaves. -/
theorem field?_normTagged
    (h : ∀ kind (fields : Fields) name, name ∉ names kind →
      (norm kind fields).get? name = fields.get? name) {name : String} (htype : name ≠ "type")
    (hname : ∀ kind, j.kind? kinds = some kind → name ∉ names kind) :
    (j.normTagged kinds tag suits norm).field? name = j.field? name := by
  rw [Json.normTagged]
  cases j with
  | obj fields =>
    rw [Json.fields?]
    cases hkind : (Json.obj fields).kind? kinds with
    | none => rfl
    | some kind =>
      dsimp only
      split
      · change Fields.get? name (norm kind _) = Fields.get? name fields
        rw [h kind _ name (hname kind hkind), Fields.get?_insert_of_ne htype.symm]
      · rfl
  | _ => rfl

/-- Tagged values are renewed when the fields of every kind are normalised and keep what the kind
does not model. -/
theorem renewed_of_tagged {decode : Draft → Decoded α}
    (hreads : Reads decode fun j => some (j.readTagged kinds read verbatim))
    (hverbatim : ∀ j, toJson (verbatim j) = j)
    (hread : ∀ kind inner value, read kind inner ≠ some (verbatim value))
    (hnormal : ∀ kind, Normalises (read kind) toJson (tag kind) (suits kind) (norm kind))
    (hothers : ∀ kind (fields : Fields) name, name ∉ names kind →
      (norm kind fields).get? name = fields.get? name)
    (hfull : j.normTagged kinds tag suits norm = j ↔ j.fullTagged kinds tag suits full = true)
    (hj : Canonical j) :
    Renewed decode toJson verbatim kinds (Json.modelled kinds suits)
      (Json.fullTagged kinds tag suits full) names (Json.normTagged kinds tag suits norm) j where
  encoded := by
    have hdecoded := (hreads.decodeValue_eq_ok_iff hj).mpr rfl
    have hencoded : (toJson (j.readTagged kinds read verbatim)).sorted =
        j.normTagged kinds tag suits norm := toJson_readTagged hverbatim hnormal hj
    refine ⟨_, hdecoded, hencoded, ?_⟩
    obtain ⟨hmodelled, kind, inner, node, hnode, heq⟩ | ⟨hmodelled, heq⟩ :=
      readTagged_cases kinds verbatim hnormal hj
    · rw [if_pos hmodelled, heq]
      rintro value rfl
      exact hread kind inner value hnode
    · rw [if_neg (Bool.eq_false_iff.mp hmodelled), heq]
      exact ⟨rfl, hverbatim j⟩
  same_iff := hfull
  others := fun _ htype hname => field?_normTagged hothers htype hname

/-! ## The kinds of nodes -/

/-- The names of a kind of statements that may stand for other values in the normal form. -/
def Statement.Kind.renewed : Statement.Kind → List String
  | .exporting => ["declaration"]
  | .bindings => ["kind", "declarations"]
  | _ => []

/-- The names of a kind of declarations that may stand for other values in the normal form. -/
def Declaration.Kind.renewed : Declaration.Kind → List String
  | .bindings => ["kind", "declarations"]
  | _ => []

/-- The names of a kind of expressions that may stand for other values in the normal form. -/
def Expression.Kind.renewed : Expression.Kind → List String
  | .string => ["extra"]
  | _ => []

/-- The normal form of a declaration of variables keeps all fields but the keyword and the list. -/
theorem get?_variableDeclaration_norm_of_not_mem {name : String}
    (h : name ∉ ["kind", "declarations"]) (fields : Fields) :
    (VariableDeclaration.norm fields).get? name = fields.get? name := by
  have hkind : name ≠ "kind" := List.ne_of_not_mem_cons h
  have hlist : name ≠ "declarations" :=
    List.ne_of_not_mem_cons (List.not_mem_of_not_mem_cons h)
  exact get?_variableDeclaration_norm hkind.symm hlist.symm fields

/-- Decoding a canonical value as a statement and encoding it renews the value. -/
theorem renewed_statement (h : Canonical j) :
    Renewed Statement.decode Statement.toJson .verbatim Statement.kinds
      (Json.modelled Statement.kinds Statement.suits) Statement.full Statement.Kind.renewed
      Statement.norm j := by
  refine renewed_of_tagged reads_statement (fun _ => rfl) ?_ normalises_statement ?_
    (statement_norm_eq_self_iff h) h
  · intro kind inner value hread
    cases kind <;> obtain ⟨_, -, heq⟩ := Option.map_eq_some_iff.mp hread <;> cases heq
  · intro kind fields name hname
    cases kind with
    | exporting =>
      have hne : name ≠ "declaration" := List.ne_of_not_mem_cons hname
      exact Fields.get?_insert_of_ne hne.symm _ _
    | bindings => exact get?_variableDeclaration_norm_of_not_mem hname fields
    | _ => rfl

/-- Decoding a canonical value as a declaration and encoding it renews the value. -/
theorem renewed_declaration (h : Canonical j) :
    Renewed Declaration.decode Declaration.toJson .verbatim Declaration.kinds
      (Json.modelled Declaration.kinds Declaration.suits) Declaration.full Declaration.Kind.renewed
      Declaration.norm j := by
  refine renewed_of_tagged reads_declaration (fun _ => rfl) ?_ normalises_declaration ?_
    (declaration_norm_eq_self_iff h) h
  · intro kind inner value hread
    cases kind <;> obtain ⟨_, -, heq⟩ := Option.map_eq_some_iff.mp hread <;> cases heq
  · intro kind fields name hname
    cases kind with
    | bindings => exact get?_variableDeclaration_norm_of_not_mem hname fields
    | _ => rfl

/-- Decoding a canonical value as a pattern and encoding it renews the value; no field of an
identifier changes. -/
theorem renewed_pattern (h : Canonical j) :
    Renewed Pattern.decode Pattern.toJson .verbatim [("Identifier", ())]
      (Json.modelled [("Identifier", ())] fun _ => Identifier.suits) Pattern.full (fun _ => [])
      Pattern.norm j := by
  refine renewed_of_tagged reads_pattern (fun _ => rfl) ?_ normalises_pattern (fun _ _ _ _ => rfl)
    (pattern_norm_eq_self_iff h) h
  intro kind inner value hread
  obtain ⟨_, -, heq⟩ := Option.map_eq_some_iff.mp hread
  cases heq

/-- Decoding a canonical value as an expression and encoding it renews the value; only the record of
a string literal changes. -/
theorem renewed_expression (h : Canonical j) :
    Renewed Expression.decode Expression.toJson .verbatim Expression.kinds
      (Json.modelled Expression.kinds Expression.suits) Expression.full Expression.Kind.renewed
      Expression.norm j := by
  refine renewed_of_tagged reads_expression (fun _ => rfl) ?_ normalises_expression ?_
    (expression_norm_eq_self_iff h) h
  · intro kind inner value hread
    cases kind <;> obtain ⟨_, -, heq⟩ := Option.map_eq_some_iff.mp hread <;> cases heq
  · intro kind fields name hname
    cases kind with
    | string => exact get?_stringLiteral_norm (List.ne_of_not_mem_cons hname) fields
    | _ => rfl

/-- The normal form of a declarator keeps all fields but what is bound and the initial value. -/
theorem field?_declarator_norm {name : String} (hid : name ≠ "id") (hinit : name ≠ "init")
    (j : Json) : (Declarator.norm j).field? name = j.field? name := by
  cases j with
  | obj fields =>
    change Fields.get? name (Fields.insert "init" _ _) = Fields.get? name fields
    rw [Fields.get?_insert_of_ne hinit.symm, Fields.get?_modify, if_neg hid.symm]
  | _ => rfl

/-- The normal form of the record of a source text keeps all fields but the text and the value. -/
theorem get?_literalExtra_norm {name : String} (hraw : name ≠ "raw") (hvalue : name ≠ "rawValue")
    (fields : Fields) : (LiteralExtra.norm fields).get? name = fields.get? name := by
  rw [LiteralExtra.norm, Fields.get?_insert_of_ne hvalue.symm, Fields.get?_insert_of_ne hraw.symm]

/-- The normal form of a module keeps all fields but the statements. -/
theorem field?_program_norm {name : String} (hbody : name ≠ "body") (j : Json) :
    (Program.norm j).field? name = j.field? name := by
  cases j with
  | obj fields =>
    change Fields.get? name (Fields.modify "body" _ fields) = Fields.get? name fields
    rw [Fields.get?_modify, if_neg hbody.symm]
  | _ => rfl

/-- A value that is decoded as a module is encoded in normal form. -/
theorem toJson_of_decoded_program (h : Canonical j) {p : Program}
    (hp : Json.decodeValue (fun _ => Program.decode) j = .ok p) :
    p.toJson.sorted = Program.norm j ∧ Program.suits j = true := by
  have hread := (reads_program.decodeValue_eq_ok_iff h).mp hp
  have hnorm := toJson_program h
  rw [hread, Option.map_some] at hnorm
  cases hsuits : Program.suits j with
  | true =>
    rw [hsuits, if_pos rfl] at hnorm
    exact ⟨Option.some.inj hnorm, rfl⟩
  | false =>
    rw [hsuits, if_neg Bool.false_ne_true] at hnorm
    cases hnorm

/-- Whatever a JSON value is, decoding it as a statement, a declaration, a pattern or an expression
and encoding the node gives the value itself if it is kept verbatim, and its normal form if it suits
a kind. So it is for a module that can be decoded. The normal form has every member of the value but
those that are modelled, at each level, and it is the value exactly when the value is full. -/
theorem decode_encode_normalises (h : Canonical j) :
    Renewed Statement.decode Statement.toJson .verbatim Statement.kinds
      (Json.modelled Statement.kinds Statement.suits) Statement.full Statement.Kind.renewed
      Statement.norm j ∧
    Renewed Declaration.decode Declaration.toJson .verbatim Declaration.kinds
      (Json.modelled Declaration.kinds Declaration.suits) Declaration.full Declaration.Kind.renewed
      Declaration.norm j ∧
    Renewed Pattern.decode Pattern.toJson .verbatim [("Identifier", ())]
      (Json.modelled [("Identifier", ())] fun _ => Identifier.suits) Pattern.full (fun _ => [])
      Pattern.norm j ∧
    Renewed Expression.decode Expression.toJson .verbatim Expression.kinds
      (Json.modelled Expression.kinds Expression.suits) Expression.full Expression.Kind.renewed
      Expression.norm j ∧
    (∀ p, Json.decodeValue (fun _ => Program.decode) j = .ok p →
      p.toJson.sorted = Program.norm j ∧ (Program.norm j = j ↔ Program.full j = true)) ∧
    (∀ name, name ≠ "body" → (Program.norm j).field? name = j.field? name) ∧
    (∀ name, name ≠ "id" → name ≠ "init" → (Declarator.norm j).field? name = j.field? name) ∧
    ∀ (fields : Fields) name, name ≠ "raw" → name ≠ "rawValue" →
      (LiteralExtra.norm fields).get? name = fields.get? name := by
  refine ⟨renewed_statement h, renewed_declaration h, renewed_pattern h, renewed_expression h, ?_,
    fun name hname => field?_program_norm hname j,
    fun name hid hinit => field?_declarator_norm hid hinit j,
    fun fields name hraw hvalue => get?_literalExtra_norm hraw hvalue fields⟩
  intro p hp
  obtain ⟨hencoded, hsuits⟩ := toJson_of_decoded_program h hp
  exact ⟨hencoded, program_norm_eq_self_iff h hsuits⟩

/-- The index of a kind as a tag: as a statement the value is an export, which gains a declaration;
as an expression it lacks a text and is kept; and a module renews it among its statements. -/
theorem decode_encode_normalises_index :
    let j : Json := .obj [("type", .num (.natural 0)), ("x", .bool true)]
    let renewed : Json := .obj
      [("declaration", .null), ("type", .str "ExportNamedDeclaration"), ("x", .bool true)]
    let program : Json := .obj [("body", .arr [j]), ("type", .str "Program")]
    Canonical j ∧ Canonical program ∧
      (∃ s, Json.decodeValue (fun _ => Statement.decode) j = .ok s ∧ s.toJson.sorted = renewed ∧
        ∀ value, s ≠ .verbatim value) ∧
      (∃ e, Json.decodeValue (fun _ => Expression.decode) j = .ok e ∧ e.toJson = j) ∧
      ∃ p, Json.decodeValue (fun _ => Program.decode) program = .ok p ∧
        p.toJson.sorted = .obj [("body", .arr [renewed]), ("type", .str "Program")] := by
  intro j renewed program
  have hj : Canonical j := Json.canonical_sorted j
  have hincreasing : ["body", "type"].Pairwise (· < ·) := by decide
  have hprogram : Canonical program :=
    Json.canonical_obj.mpr ⟨hincreasing, ⟨hj, trivial⟩, trivial, trivial⟩
  obtain ⟨hstatement, -, -, hexpression, -⟩ := decode_encode_normalises hj
  obtain ⟨-, -, -, -, hmodule, -⟩ := decode_encode_normalises hprogram
  obtain ⟨s, hs, hsorted, hnode⟩ := hstatement.encoded
  obtain ⟨e, he, -, hverbatim⟩ := hexpression.encoded
  obtain ⟨p, hp⟩ : ∃ p, Json.decodeValue (fun _ => Program.decode) program = .ok p := ⟨_, rfl⟩
  exact ⟨hj, hprogram, ⟨s, hs, hsorted, hnode⟩, ⟨e, he, hverbatim.2⟩, p, hp, (hmodule p hp).1⟩

/-- A keyword over an empty object is renewed like one over null: the declaration is not verbatim,
its tag and all other fields are in words and given, and yet it is encoded as another value. -/
theorem keyword_over_empty_is_renewed :
    let j (kind : Json) : Json :=
      .obj [("declarations", .arr []), ("kind", kind), ("type", .str "VariableDeclaration")]
    let given := j (.obj [("let", .obj [])])
    Canonical given ∧ ∃ node, Json.decodeValue (fun _ => Statement.decode) given =
        .ok (.bindings node) ∧
      (Statement.bindings node).toJson.sorted = j (.str "let") ∧
      j (.str "let") ≠ given := by
  intro j given
  refine ⟨Json.canonical_sorted given, _, rfl, rfl, ?_⟩
  intro heq
  dsimp only [j, given] at heq
  cases heq

end SelfNamed
