import Mathlib.Data.List.Nodup
import Mathlib.Tactic.MkIffOfInductiveProp
import SelfNamed.Proofs.Tree.Kept

/-!
# Which nodes are modelled

A value is decoded as a node of a kind when its tag says the kind and its fields conform to it; what
that takes can be said for each kind by what stands under a few names. A node inside another one
that does not conform is kept verbatim there and takes nothing from the outer node, but a declarator
without a binding takes its whole declaration with it. Main statement: any value can be decoded as a
statement, a declaration, a pattern or an expression, it becomes a node of a kind exactly when it is
an object that is tagged with the kind and conforms to it, and any other value is kept verbatim; it
can be decoded as a module exactly when it is an object with a list of statements.
-/

namespace SelfNamed

open Json (Canonical Decoded Draft Fields)

/-! ## What a tag says -/

/-- The tag says a kind: it is the name or the index that the kind has among all kinds. -/
def Json.Fields.Tagged {κ : Type} (kinds : List (String × κ)) (kind : κ) (fields : Fields) : Prop :=
  ∃ (i : ℕ) (name : String), kinds[i]? = some (name, kind) ∧
    (fields.get? "type" = some (.str name) ∨
      ∃ index : UInt64, index.toNat = i ∧ fields.get? "type" = some (.num (.natural index)))

/-- Among kinds of distinct names the kind of a name is the one that has it. -/
theorem find?_kind_eq_some_iff {κ : Type} {kinds : List (String × κ)}
    (h : (kinds.map Prod.fst).Nodup) {name : String} {kind : κ} :
    (kinds.find? fun entry => entry.1 == name).map Prod.snd = some kind ↔
      (name, kind) ∈ kinds := by
  have hfound {entry : String × κ}
      (hentry : (kinds.find? fun entry => entry.1 == name) = some entry) :
      entry ∈ kinds ∧ entry.1 = name :=
    ⟨List.mem_of_find?_eq_some hentry, by simpa using List.find?_some hentry⟩
  constructor
  · intro hkind
    obtain ⟨entry, hentry, rfl⟩ := Option.map_eq_some_iff.mp hkind
    obtain ⟨hmem, rfl⟩ := hfound hentry
    exact hmem
  · intro hmem
    obtain ⟨entry, hentry⟩ : ∃ entry, (kinds.find? fun entry => entry.1 == name) = some entry :=
      Option.isSome_iff_exists.mp (List.find?_isSome.mpr ⟨_, hmem, beq_self_eq_true name⟩)
    obtain ⟨hentry', hname⟩ := hfound hentry
    have hsame : entry = (name, kind) := List.inj_on_of_nodup_map h hentry' hmem hname
    rw [hentry, Option.map_some, hsame]

/-- The kind that an object says is the one that its tag says. -/
theorem kind?_eq_some_iff {κ : Type} {kinds : List (String × κ)} (h : (kinds.map Prod.fst).Nodup)
    {fields : Fields} {kind : κ} :
    (Json.obj fields).kind? kinds = some kind ↔ fields.Tagged kinds kind := by
  change (fields.get? "type").bind (Json.kindIn? kinds) = some kind ↔ _
  rw [Fields.Tagged]
  cases fields.get? "type" with
  | none => simp
  | some tag =>
    cases tag with
    | str name =>
      change (kinds.find? _).map _ = some kind ↔ _
      rw [find?_kind_eq_some_iff h, List.mem_iff_getElem?]
      simp
    | num n =>
      cases n with
      | natural index =>
        change kinds[index.toNat]?.map _ = some kind ↔ _
        simp
      | _ => simp [Json.kindIn?]
    | _ => simp [Json.kindIn?]

/-! ## What conforms to a kind -/

/-- The fields of an identifier: the name is a text. -/
def Identifier.Conforms (fields : Fields) : Prop :=
  ∃ name, fields.get? "name" = some (.str name)

/-- Whatever stands under a name is a text. -/
def Json.Fields.TextIfAny (fields : Fields) (name : String) : Prop :=
  ∀ value, fields.get? name = some value → ∃ text, value = .str text

/-- What may stand as the record of a source text: nothing, null, or an object that says its text
and its value as texts or not at all. -/
inductive LiteralExtra.Given : Option Json → Prop
  /-- There is no record. -/
  | absent : Given none
  /-- The record is null. -/
  | null : Given (some .null)
  /-- The record is an object. -/
  | record {extra : Fields} (raw : extra.TextIfAny "raw") (rawValue : extra.TextIfAny "rawValue") :
    Given (some (.obj extra))

/-- The fields of a string literal. -/
@[mk_iff]
structure StringLiteral.Conforms (fields : Fields) : Prop where
  /-- The value is a text. -/
  value : ∃ text, fields.get? "value" = some (.str text)
  /-- What is said about the source suits. -/
  extra : LiteralExtra.Given (fields.get? "extra")

/-- The fields of an expression of a kind. -/
def Expression.Conforms : Expression.Kind → Fields → Prop
  | .string, fields => StringLiteral.Conforms fields
  | .numeric, fields => ∃ n, fields.get? "value" = some (.num n)
  | .boolean, fields => ∃ b, fields.get? "value" = some (.bool b)
  | .null, _ => True
  | .identifier, fields => Identifier.Conforms fields

/-- The spellings of a keyword: the word, or the word over null or over an empty object. -/
inductive VariableKind.Spelled : Json → Prop
  /-- The word alone. -/
  | word {name : String} (h : name ∈ ["var", "let", "const"]) : Spelled (.str name)
  /-- The word as the one name of an object, with null. -/
  | overNull {name : String} (h : name ∈ ["var", "let", "const"]) : Spelled (.obj [(name, .null)])
  /-- The word as the one name of an object, with an empty object. -/
  | overEmpty {name : String} (h : name ∈ ["var", "let", "const"]) :
    Spelled (.obj [(name, .obj [])])

/-- A declarator is an object that says what is bound, whatever that is. -/
def Declarator.Conforms (j : Json) : Prop :=
  ∃ fields : Fields, j = .obj fields ∧ ∃ id, fields.get? "id" = some id

/-- The fields of a declaration of variables. -/
@[mk_iff]
structure VariableDeclaration.Conforms (fields : Fields) : Prop where
  /-- The keyword is spelled. -/
  kind : ∃ value, fields.get? "kind" = some value ∧ VariableKind.Spelled value
  /-- The declarators are a list, and all of them conform. -/
  declarations : ∃ items, fields.get? "declarations" = some (.arr items) ∧
    ∀ item ∈ items, Declarator.Conforms item

/-- The fields of a declaration of a kind. -/
def Declaration.Conforms : Declaration.Kind → Fields → Prop
  | .bindings, fields => VariableDeclaration.Conforms fields
  | .function, _ => True
  | .classes, _ => True

/-- The fields of a statement of a kind. -/
def Statement.Conforms : Statement.Kind → Fields → Prop
  | .exporting, _ => True
  | .bindings, fields => VariableDeclaration.Conforms fields
  | .function, _ => True
  | .classes, _ => True

/-! ## What conforms is what suits -/

/-- Something that is read stands under a name when a value is there that it is written as. -/
theorem has_eq_true_iff {α : Type} {read : Json → Option α} {write : α → Json}
    (h : ∀ value a, read value = some a ↔ value = write a) {fields : Fields} {name : String} :
    fields.has name read = true ↔ ∃ a, fields.get? name = some (write a) := by
  rw [Fields.has, Option.isSome_iff_exists]
  refine exists_congr fun a => ?_
  rw [Option.bind_eq_some_iff]
  simp [h]

/-- A value with a text is the text. -/
theorem text?_eq_some_iff (value : Json) (text : String) :
    value.text? = some text ↔ value = .str text := by
  cases value <;> simp [Json.text?]

/-- A value with a number is the number. -/
theorem number?_eq_some_iff (value : Json) (n : Json.Number) :
    value.number? = some n ↔ value = .num n := by
  cases value <;> simp [Json.number?]

/-- A value with a truth value is the truth value. -/
theorem bool?_eq_some_iff (value : Json) (b : Bool) : value.bool? = some b ↔ value = .bool b := by
  cases value <;> simp [Json.bool?]

/-- A text is found, or stands for what is missing, when whatever is there is a text. -/
theorem text?_getD_isSome_iff {fields : Fields} {name missing : String} :
    (fields.getD name (.str missing)).text?.isSome = true ↔ fields.TextIfAny name := by
  rw [Fields.getD, Fields.TextIfAny]
  cases fields.get? name with
  | none => simp [Json.text?]
  | some value => simp [Option.isSome_iff_exists, text?_eq_some_iff]

/-- What stands as the record of a source text suits exactly when it is nothing, null or a record.
-/
theorem LiteralExtra.suits_iff {given : Option Json} :
    LiteralExtra.suits (given.getD .null) = true ↔ LiteralExtra.Given given := by
  cases given with
  | none => exact ⟨fun _ => .absent, fun _ => rfl⟩
  | some value =>
    cases value with
    | null => exact ⟨fun _ => .null, fun _ => rfl⟩
    | obj extra =>
      change (_ && _) = true ↔ _
      rw [Bool.and_eq_true, text?_getD_isSome_iff, text?_getD_isSome_iff]
      constructor
      · rintro ⟨hraw, hvalue⟩
        exact .record hraw hvalue
      · intro h
        cases h with
        | record hraw hvalue => exact ⟨hraw, hvalue⟩
    | _ => exact ⟨nofun, nofun⟩

/-- The fields of an expression suit a kind exactly when they conform to it. -/
theorem Expression.suits_iff {kind : Expression.Kind} {fields : Fields} :
    Expression.suits kind fields = true ↔ Expression.Conforms kind fields := by
  cases kind with
  | string =>
    change (_ && LiteralExtra.suits ((fields.get? "extra").getD .null)) = true ↔ _
    rw [Bool.and_eq_true, has_eq_true_iff text?_eq_some_iff, LiteralExtra.suits_iff]
    exact (StringLiteral.conforms_iff fields).symm
  | numeric => exact has_eq_true_iff number?_eq_some_iff
  | boolean => exact has_eq_true_iff bool?_eq_some_iff
  | null => exact ⟨fun _ => trivial, fun _ => rfl⟩
  | identifier => exact has_eq_true_iff text?_eq_some_iff

/-- A keyword in normal form is the word when the word is spelled, alone or over nothing. -/
theorem VariableKind.norm_eq_str_iff {j : Json} {name : String} :
    VariableKind.norm j = .str name ↔
      j = .str name ∨ j = .obj [(name, .null)] ∨ j = .obj [(name, .obj [])] := by
  rw [VariableKind.norm.eq_def]
  split
  · simp
  · simp
  · next hnull hempty =>
    constructor
    · exact Or.inl
    · rintro (heq | heq | heq)
      · exact heq
      · exact absurd heq (hnull name)
      · exact absurd heq (hempty name)

/-- A value suits a keyword exactly when it spells one. -/
theorem VariableKind.suits_iff {j : Json} :
    VariableKind.suits j = true ↔ VariableKind.Spelled j := by
  rw [VariableKind.suits]
  constructor
  · intro h
    split at h
    · next name hnorm =>
      have hname : name ∈ ["var", "let", "const"] := List.contains_iff_mem.mp h
      obtain rfl | rfl | rfl := VariableKind.norm_eq_str_iff.mp hnorm
      · exact .word hname
      · exact .overNull hname
      · exact .overEmpty hname
    · cases h
  · rintro (hname | hname | hname) <;> exact List.contains_iff_mem.mpr hname

/-- A value suits a declarator exactly when it conforms to one. -/
theorem Declarator.suits_iff {j : Json} : Declarator.suits j = true ↔ Declarator.Conforms j := by
  cases j with
  | obj fields =>
    change (Fields.get? "id" fields).isSome = true ↔ _
    rw [Option.isSome_iff_exists]
    constructor
    · intro hid
      exact ⟨fields, rfl, hid⟩
    · rintro ⟨_, heq, hid⟩
      obtain rfl := Json.obj.inj heq
      exact hid
  | _ =>
    refine ⟨nofun, ?_⟩
    rintro ⟨_, heq, -⟩
    cases heq

/-- Fields suit a declaration of variables exactly when they conform to one. -/
theorem VariableDeclaration.suits_iff {fields : Fields} :
    VariableDeclaration.suits fields = true ↔ VariableDeclaration.Conforms fields := by
  rw [VariableDeclaration.suits, Bool.and_eq_true, Option.any_eq_true, Option.any_eq_true]
  simp only [VariableKind.suits_iff, bind_items?_eq_some_iff, List.all_eq_true,
    Declarator.suits_iff]
  exact (VariableDeclaration.conforms_iff fields).symm

/-- The fields of a declaration suit a kind exactly when they conform to it. -/
theorem Declaration.suits_iff {kind : Declaration.Kind} {fields : Fields} :
    Declaration.suits kind fields = true ↔ Declaration.Conforms kind fields := by
  cases kind with
  | bindings => exact VariableDeclaration.suits_iff
  | _ => exact ⟨fun _ => trivial, fun _ => rfl⟩

/-- The fields of a statement suit a kind exactly when they conform to it. -/
theorem Statement.suits_iff {kind : Statement.Kind} {fields : Fields} :
    Statement.suits kind fields = true ↔ Statement.Conforms kind fields := by
  cases kind with
  | bindings => exact VariableDeclaration.suits_iff
  | _ => exact ⟨fun _ => trivial, fun _ => rfl⟩

/-! ## The kind of a node -/

/-- The kind of a pattern, unless it is verbatim. -/
def Pattern.kind? : Pattern → Option Unit
  | .identifier _ => some ()
  | .verbatim _ => none

/-- The kind of an expression, unless it is verbatim. -/
def Expression.kind? : Expression → Option Expression.Kind
  | .string _ => some .string
  | .numeric _ => some .numeric
  | .boolean _ => some .boolean
  | .null _ => some .null
  | .identifier _ => some .identifier
  | .verbatim _ => none

/-- The kind of a declaration, unless it is verbatim. -/
def Declaration.kind? : Declaration → Option Declaration.Kind
  | .bindings _ => some .bindings
  | .function _ => some .function
  | .classes _ => some .classes
  | .verbatim _ => none

/-- The kind of a statement, unless it is verbatim. -/
def Statement.kind? : Statement → Option Statement.Kind
  | .exporting _ => some .exporting
  | .bindings _ => some .bindings
  | .function _ => some .function
  | .classes _ => some .classes
  | .verbatim _ => none

/-- Decoding a value gives a node, of a kind exactly when the value is tagged with the kind and
conforms to it, and else verbatim. -/
structure DecodedByKind {α κ : Type} (decode : Draft → Decoded α) (kindOf : α → Option κ)
    (verbatim : Json → α) (kinds : List (String × κ)) (conforms : κ → Fields → Prop) (j : Json)
    (node : α) : Prop where
  /-- The value is decoded as the node. -/
  decoded : Json.decodeValue (fun _ => decode) j = .ok node
  /-- The kind of the node is what the value is tagged with and conforms to. -/
  kind_iff : ∀ kind, kindOf node = some kind ↔
    ∃ fields : Fields, j = .obj fields ∧ fields.Tagged kinds kind ∧ conforms kind fields
  /-- A node of no kind is the value. -/
  verbatim_of_none : kindOf node = none → node = verbatim j

section Tagged

variable {α κ : Type} {kinds : List (String × κ)} {read : κ → Json → Option α}
  {verbatim : Json → α} {kindOf : α → Option κ}

/-- A tagged object is of the kind that its tag says when it can be read as one, and of no kind when
it cannot. -/
theorem kindOf_readTagged_eq_some_iff (hverbatim : ∀ j, kindOf (verbatim j) = none)
    (hkind : ∀ {kind inner node}, read kind inner = some node → kindOf node = some kind)
    {fields : Fields} {kind : κ} :
    kindOf ((Json.obj fields).readTagged kinds read verbatim) = some kind ↔
      (Json.obj fields).kind? kinds = some kind ∧
        (read kind (.obj (fields.without ["type"]))).isSome = true := by
  rw [readTagged_obj]
  cases (Json.obj fields).kind? kinds with
  | none => simp [hverbatim]
  | some said =>
    rw [Option.bind_some, Option.some.injEq]
    cases hread : read said (.obj (fields.without ["type"])) with
    | none =>
      rw [Option.getD_none, hverbatim]
      refine ⟨nofun, ?_⟩
      rintro ⟨rfl, hsome⟩
      rw [hread] at hsome
      cases hsome
    | some node =>
      rw [Option.getD_some, hkind hread, Option.some.injEq]
      refine ⟨?_, And.left⟩
      rintro rfl
      rw [hread]
      exact ⟨rfl, rfl⟩

/-- A tagged value of no kind is verbatim. -/
theorem readTagged_eq_verbatim
    (hkind : ∀ {kind inner node}, read kind inner = some node → kindOf node = some kind) {j : Json}
    (h : kindOf (j.readTagged kinds read verbatim) = none) :
    j.readTagged kinds read verbatim = verbatim j := by
  rw [Json.readTagged] at h ⊢
  cases hnode : (j.tagged? kinds).bind fun node => read node.1 node.2 with
  | none => rfl
  | some node =>
    obtain ⟨_, -, hread⟩ := Option.bind_eq_some_iff.mp hnode
    rw [hnode, Option.getD_some, hkind hread] at h
    cases h

/-- What is normalised is read exactly when it suits. -/
theorem Normalises.isSome_iff {toJson : α → Json} {read : Json → Option α} {tag : String}
    {suits : Fields → Bool} {norm : Fields → Fields} (h : Normalises read toJson tag suits norm)
    {fields : Fields} (hfields : Canonical (.obj fields)) :
    (read (.obj (fields.without ["type"]))).isSome = true ↔ suits fields = true := by
  obtain ⟨hsuits, node, hread, -⟩ | ⟨hsuits, hread⟩ := some_or_none_of_map_eq (h hfields)
  · rw [hread, hsuits, Option.isSome_some]
  · rw [hread, hsuits, Option.isSome_none]

/-- Tagged values are decoded by kind when what is read for a kind is of the kind, and what suits a
kind is what conforms to it. -/
theorem decodedByKind_of_tagged {decode : Draft → Decoded α} {toJson : α → Json} {tag : κ → String}
    {suits : κ → Fields → Bool} {norm : κ → Fields → Fields} {conforms : κ → Fields → Prop}
    {j : Json} (hreads : Reads decode fun j => some (j.readTagged kinds read verbatim))
    (hnormal : ∀ kind, Normalises (read kind) toJson (tag kind) (suits kind) (norm kind))
    (hsuits : ∀ {kind fields}, suits kind fields = true ↔ conforms kind fields)
    (hnames : (kinds.map Prod.fst).Nodup) (hverbatim : ∀ j, kindOf (verbatim j) = none)
    (hkind : ∀ {kind inner node}, read kind inner = some node → kindOf node = some kind)
    (hj : Canonical j) :
    ∃ node, DecodedByKind decode kindOf verbatim kinds conforms j node := by
  refine ⟨j.readTagged kinds read verbatim, (hreads.decodeValue_eq_ok_iff hj).mpr rfl, ?_,
    readTagged_eq_verbatim hkind⟩
  intro kind
  cases j with
  | obj fields =>
    rw [kindOf_readTagged_eq_some_iff hverbatim hkind, kind?_eq_some_iff hnames,
      (hnormal kind).isSome_iff hj, hsuits]
    simp
  | _ =>
    constructor
    · intro hsome
      cases (hverbatim _).symm.trans hsome
    · rintro ⟨_, heq, -⟩
      cases heq

end Tagged

variable {j : Json}

/-- Every canonical value is decoded as a statement, of the kind that it is tagged with and conforms
to. -/
theorem decodedByKind_statement (h : Canonical j) :
    ∃ node, DecodedByKind Statement.decode Statement.kind? .verbatim Statement.kinds
      Statement.Conforms j node := by
  refine decodedByKind_of_tagged reads_statement normalises_statement Statement.suits_iff
    (by decide) (fun _ => rfl) ?_ h
  intro kind inner node hread
  cases kind <;> obtain ⟨_, -, rfl⟩ := Option.map_eq_some_iff.mp hread <;> rfl

/-- Every canonical value is decoded as a declaration, of the kind that it is tagged with and
conforms to. -/
theorem decodedByKind_declaration (h : Canonical j) :
    ∃ node, DecodedByKind Declaration.decode Declaration.kind? .verbatim Declaration.kinds
      Declaration.Conforms j node := by
  refine decodedByKind_of_tagged reads_declaration normalises_declaration Declaration.suits_iff
    (by decide) (fun _ => rfl) ?_ h
  intro kind inner node hread
  cases kind <;> obtain ⟨_, -, rfl⟩ := Option.map_eq_some_iff.mp hread <;> rfl

/-- Every canonical value is decoded as a pattern, which is an identifier when the value is tagged
as one and conforms. -/
theorem decodedByKind_pattern (h : Canonical j) :
    ∃ node, DecodedByKind Pattern.decode Pattern.kind? .verbatim [("Identifier", ())]
      (fun _ => Identifier.Conforms) j node := by
  refine decodedByKind_of_tagged reads_pattern normalises_pattern
    (has_eq_true_iff text?_eq_some_iff) (by decide) (fun _ => rfl) ?_ h
  intro kind inner node hread
  obtain ⟨_, -, rfl⟩ := Option.map_eq_some_iff.mp hread
  rfl

/-- Every canonical value is decoded as an expression, of the kind that it is tagged with and
conforms to. -/
theorem decodedByKind_expression (h : Canonical j) :
    ∃ node, DecodedByKind Expression.decode Expression.kind? .verbatim Expression.kinds
      Expression.Conforms j node := by
  refine decodedByKind_of_tagged reads_expression normalises_expression Expression.suits_iff
    (by decide) (fun _ => rfl) ?_ h
  intro kind inner node hread
  cases kind <;> obtain ⟨_, -, rfl⟩ := Option.map_eq_some_iff.mp hread <;> rfl

/-- Modules are the objects with a list of statements. -/
theorem decoded_program_iff (h : Canonical j) :
    (∃ p, Json.decodeValue (fun _ => Program.decode) j = .ok p) ↔
      ∃ (fields : Fields) (items : List Json),
        j = .obj fields ∧ fields.get? "body" = some (.arr items) := by
  constructor
  · rintro ⟨p, hp⟩
    obtain ⟨fields, items, rfl, hitems, -⟩ :=
      of_program_ofJson? ((reads_program.decodeValue_eq_ok_iff h).mp hp)
    exact ⟨fields, items, rfl, hitems⟩
  · rintro ⟨fields, items, rfl, hitems⟩
    refine ⟨⟨items.map Statement.ofJson, fields.without ["body"]⟩,
      (reads_program.decodeValue_eq_ok_iff h).mpr ?_⟩
    change ((fields.get? "body").bind Json.items?).bind _ = _
    rw [bind_items?_eq_some_iff.mpr hitems]
    rfl

/-- Whatever a JSON value is, it is decoded as a statement, a declaration, a pattern or an
expression: as a node of a kind exactly when it is an object that is tagged with the kind, by name
or by index, and conforms to it, and verbatim otherwise. It is decoded as a module exactly when it
is an object with a list of statements. -/
theorem modelled_iff_conforms (h : Canonical j) :
    (∃ node, DecodedByKind Statement.decode Statement.kind? .verbatim Statement.kinds
      Statement.Conforms j node) ∧
    (∃ node, DecodedByKind Declaration.decode Declaration.kind? .verbatim Declaration.kinds
      Declaration.Conforms j node) ∧
    (∃ node, DecodedByKind Pattern.decode Pattern.kind? .verbatim [("Identifier", ())]
      (fun _ => Identifier.Conforms) j node) ∧
    (∃ node, DecodedByKind Expression.decode Expression.kind? .verbatim Expression.kinds
      Expression.Conforms j node) ∧
    ((∃ p, Json.decodeValue (fun _ => Program.decode) j = .ok p) ↔
      ∃ (fields : Fields) (items : List Json),
        j = .obj fields ∧ fields.get? "body" = some (.arr items)) :=
  ⟨decodedByKind_statement h, decodedByKind_declaration h, decodedByKind_pattern h,
    decodedByKind_expression h, decoded_program_iff h⟩

/-- A declaration of variables is told by its name among the statements and by its index among the
declarations, and its declarators may bind anything. With the name it is no expression, and it is no
module. -/
theorem modelled_iff_conforms_index :
    let j (tag : Json) : Json := .obj
      [("declarations", .arr [.obj [("id", .null)], .obj [("id", .num (.natural 7))]]),
        ("kind", .obj [("let", .null)]), ("type", tag)]
    let named := j (.str "VariableDeclaration")
    let numbered := j (.num (.natural 0))
    (Canonical named ∧ Canonical numbered) ∧
      (∃ s, Json.decodeValue (fun _ => Statement.decode) named = .ok s ∧
        s.kind? = some .bindings) ∧
      (∃ d, Json.decodeValue (fun _ => Declaration.decode) numbered = .ok d ∧
        d.kind? = some .bindings) ∧
      Json.decodeValue (fun _ => Expression.decode) named = .ok (.verbatim named) ∧
      ∀ p, Json.decodeValue (fun _ => Program.decode) named ≠ .ok p := by
  intro j named numbered
  have hnamed : Canonical named := Json.canonical_sorted named
  have hnumbered : Canonical numbered := Json.canonical_sorted numbered
  obtain ⟨⟨s, hs⟩, -, -, ⟨e, he⟩, hprogram⟩ := modelled_iff_conforms hnamed
  obtain ⟨-, ⟨d, hd⟩, -⟩ := modelled_iff_conforms hnumbered
  have hconforms (tag : Json) : VariableDeclaration.Conforms
      [("declarations", .arr [.obj [("id", .null)], .obj [("id", .num (.natural 7))]]),
        ("kind", .obj [("let", .null)]), ("type", tag)] := by
    refine ⟨⟨_, rfl, .overNull (by decide)⟩, _, rfl, fun item hitem => ?_⟩
    obtain rfl | rfl := List.mem_pair.mp hitem
    · exact ⟨_, rfl, _, rfl⟩
    · exact ⟨_, rfl, _, rfl⟩
  have hstatement : s.kind? = some .bindings :=
    (hs.kind_iff _).mpr ⟨_, rfl, ⟨1, _, rfl, .inl rfl⟩, hconforms _⟩
  have hdeclaration : d.kind? = some .bindings :=
    (hd.kind_iff _).mpr ⟨_, rfl, ⟨0, _, rfl, .inr ⟨0, rfl, rfl⟩⟩, hconforms _⟩
  have hexpression : e.kind? = none := by
    cases hkind : e.kind? with
    | none => rfl
    | some kind =>
      obtain ⟨fields, heq, htagged, -⟩ := (he.kind_iff kind).mp hkind
      have hsaid := (kind?_eq_some_iff (by decide)).mpr htagged
      rw [← heq] at hsaid
      cases (show none = some kind from hsaid)
  refine ⟨⟨hnamed, hnumbered⟩, ⟨s, hs.decoded, hstatement⟩, ⟨d, hd.decoded, hdeclaration⟩,
    he.verbatim_of_none hexpression ▸ he.decoded, fun p hp => ?_⟩
  obtain ⟨fields, items, heq, hitems⟩ := hprogram.mp ⟨p, hp⟩
  obtain rfl := Json.obj.inj heq
  cases hitems

/-- The word of a keyword over an empty object spells it like the word over null: the value is
decoded as a declaration of variables, though its keyword is neither a text nor an object over
null. -/
theorem keyword_over_empty_is_modelled :
    let j (kind : Json) : Json :=
      .obj [("declarations", .arr []), ("kind", kind), ("type", .str "VariableDeclaration")]
    let kind : Json := .obj [("let", .obj [])]
    Canonical (j kind) ∧
      (∃ node, Json.decodeValue (fun _ => Statement.decode) (j kind) = .ok (.bindings node)) ∧
      (j kind).field? "kind" = some kind ∧
      ∀ name, kind ≠ .str name ∧ kind ≠ .obj [(name, .null)] := by
  intro j kind
  refine ⟨Json.canonical_sorted (j (.obj [("let", .obj [])])), ⟨_, rfl⟩, rfl,
    fun name => ⟨nofun, ?_⟩⟩
  intro heq
  dsimp only [kind] at heq
  cases heq

end SelfNamed
