import SelfNamed.Proofs.Shrink.Run
import SelfNamed.Proofs.Tree.RoundTrip

/-!
# Modules that can be held

A module comes from a value that is decoded or from builders, and passes leave another module behind
whether their source fails or not. Each of these ways gives a sound module: decoding keeps no field
under a modelled name, a builder keeps only fields of fixed other names and no verbatim nodes, and a
pass changes the texts of literals alone. Main statement: every module that can be held is decoded
from its own encoding, exactly as it is.
-/

namespace SelfNamed

open Json (Canonical Fields)

variable {σ : Type}

/-! ## What builders make -/

/-- Expressions from the constructors. -/
inductive Expression.Built : Expression → Prop where
  /-- A string between single quotes. -/
  | text (value : String) : Built (.text value)
  /-- A string without a record of the source. -/
  | bare (value : String) : Built (.string (.bare value))
  /-- A string between given quotes. -/
  | quoted (value : String) (quote : QuoteStyle) : Built (.string (.quoted value quote))
  /-- A number. -/
  | number (value : Json.Number) : Built (.number value)
  /-- A truth value. -/
  | truth (value : Bool) : Built (.truth value)
  /-- The null value. -/
  | nothing : Built .nothing
  /-- The value of a name. -/
  | reference (name : String) : Built (.reference name)

/-- Declarators from their builder. -/
inductive Declarator.Built : Declarator → Prop where
  /-- The binding of a name. -/
  | build (name : String) {init : Option Expression} (h : ∀ e, init = some e → e.Built) :
    Built (.build name init)

/-- Declarations of variables from their builder. -/
inductive VariableDeclaration.Built : VariableDeclaration → Prop where
  /-- A declaration of built declarators. -/
  | build (kind : VariableKind) {ds : List Declarator} (h : ∀ d ∈ ds, d.Built) :
    Built (.build kind ds)

/-- Declarations of what is built. -/
inductive Declaration.Built : Declaration → Prop where
  /-- Variables. -/
  | bindings {node : VariableDeclaration} (h : node.Built) : Built (.bindings node)
  /-- A function. -/
  | function (name : String) : Built (.function (.build name))
  /-- A class. -/
  | classes (name : String) : Built (.classes (.build name))

/-- Exports from their builders. -/
inductive NamedExport.Built : NamedExport → Prop where
  /-- The export of a declaration. -/
  | build {declaration : Declaration} (h : declaration.Built) : Built (.build declaration)
  /-- The export of a list of names. -/
  | ofNames (names : List String) : Built (.ofNames names)

/-- Statements of what is built. -/
inductive Statement.Built : Statement → Prop where
  /-- An export. -/
  | exporting {node : NamedExport} (h : node.Built) : Built (.exporting node)
  /-- Variables. -/
  | bindings {node : VariableDeclaration} (h : node.Built) : Built (.bindings node)
  /-- A function. -/
  | function (name : String) : Built (.function (.build name))
  /-- A class. -/
  | classes (name : String) : Built (.classes (.build name))

/-- Modules that can be held. -/
inductive Program.Held : Program → Prop where
  /-- A module decoded from a value. The members of an object are a map from names, in the order of
  the names, which is what canonical says; every value that a text means is so
  (`Json.canonical_read`). -/
  | decoded {j : Json} {p : Program} (hj : Canonical j)
    (hp : Json.decodeValue (fun _ => Program.decode) j = .ok p) : Held p
  /-- A module built of built statements. -/
  | build {body : List Statement} (h : ∀ s ∈ body, s.Built) : Held (.build body)
  /-- A module as a pass leaves it, with any source and whatever the outcome. -/
  | shrunk {σ : Type} (supply : Supply σ) (source : σ) {p : Program} (h : p.Held) :
    Held (p.shrink supply source).2.1

/-! ## What builders make is sound -/

/-- Canonical values under increasing names stand beside all other names. -/
theorem beside_of_names {fields : Fields} (keys : List String) (hkeys : fields.map Prod.fst = keys)
    (hincreasing : keys.Pairwise (· < ·)) (hvalues : ∀ member ∈ fields, Canonical member.2)
    {names : List String} (hnames : ∀ name ∈ names, name ∉ keys) : fields.Beside names := by
  have hfields : fields.Increasing := by rw [Fields.Increasing, hkeys]; exact hincreasing
  refine ⟨Json.canonical_obj.mpr ⟨hfields, Json.canonicalMembers_iff.mpr hvalues⟩, ?_⟩
  intro name hname
  refine Fields.get?_eq_none_iff.mpr fun member hmember heq => hnames name hname ?_
  rw [← hkeys, ← heq]
  exact List.mem_map_of_mem hmember

/-- No fields stand beside any names. -/
theorem beside_nil (names : List String) : Fields.Beside [] names :=
  ⟨Json.canonical_obj.mpr ⟨List.Pairwise.nil, trivial⟩, fun _ _ => rfl⟩

/-- The JSON value of an identifier is canonical. -/
theorem canonical_nameNode (name : String) : Canonical (nameNode name) := by
  have hbeside : Fields.Beside [("name", .str name), ("type", .str "Identifier")] [] :=
    beside_of_names ["name", "type"] rfl (by decide) (by simp [Canonical]) nofun
  exact hbeside.1

/-- A node with an empty body is canonical. -/
theorem canonical_emptyBody (nodeType : String) :
    Canonical (.obj [("body", .arr []), ("type", .str nodeType)]) := by
  have hbeside : Fields.Beside [("body", .arr []), ("type", .str nodeType)] [] :=
    beside_of_names ["body", "type"] rfl (by decide) (by simp [Canonical, Json.CanonicalItems])
      nofun
  exact hbeside.1

/-- One name in a list of exported names is canonical. -/
theorem canonical_specifier (name : String) : Canonical (NamedExport.specifier name) := by
  have hbeside : Fields.Beside [("exported", nameNode name), ("local", nameNode name),
      ("type", .str "ExportSpecifier")] [] :=
    beside_of_names ["exported", "local", "type"] rfl (by decide)
      (by simp [canonical_nameNode, Canonical]) nofun
  exact hbeside.1

/-- Functions that are built are sound. -/
theorem beside_function (name : String) :
    (FunctionDeclaration.build name).rest.Beside ["type"] := by
  refine beside_of_names ["async", "body", "generator", "id", "params"] rfl (by decide) ?_
    (by decide)
  simp only [FunctionDeclaration.build, List.forall_mem_cons]
  exact ⟨trivial, canonical_emptyBody _, trivial, canonical_nameNode name, trivial, nofun⟩

/-- Classes that are built are sound. -/
theorem beside_class (name : String) : (ClassDeclaration.build name).rest.Beside ["type"] := by
  refine beside_of_names ["body", "id", "superClass"] rfl (by decide) ?_ (by decide)
  simp only [ClassDeclaration.build, List.forall_mem_cons]
  exact ⟨canonical_emptyBody _, canonical_nameNode name, trivial, nofun⟩

/-- Expressions that are built are sound and not kept verbatim. -/
theorem Expression.Built.sound {e : Expression} (h : e.Built) :
    e.Sound ∧ ∀ j, e ≠ .verbatim j := by
  cases h with
  | text value =>
    refine ⟨⟨fun extra hextra => ?_, beside_nil _⟩, nofun⟩
    obtain rfl := Option.some.inj hextra
    exact beside_nil _
  | bare value => exact ⟨⟨nofun, beside_nil _⟩, nofun⟩
  | quoted value quote =>
    refine ⟨⟨fun extra hextra => ?_, beside_nil _⟩, nofun⟩
    obtain rfl := Option.some.inj hextra
    exact beside_nil _
  | _ => exact ⟨beside_nil _, nofun⟩

/-- Declarators that are built are sound. -/
theorem Declarator.Built.sound {d : Declarator} (h : d.Built) : d.Sound := by
  cases h with
  | build name hinit =>
    refine ⟨beside_nil _, fun e he => ?_, ?_⟩
    · obtain ⟨hsound, hne⟩ := (hinit e he).sound
      exact ⟨hsound, hne .null⟩
    · exact beside_of_names ["type"] rfl (by decide) (by simp [typeField, Declarator.build,
        Canonical]) (by decide)

/-- Declarations of variables that are built are sound. -/
theorem VariableDeclaration.Built.sound {node : VariableDeclaration} (h : node.Built) :
    node.Sound := by
  cases h with
  | build kind hds => exact ⟨fun d hd => (hds d hd).sound, beside_nil _⟩

/-- Declarations that are built are sound and not kept verbatim. -/
theorem Declaration.Built.sound {declaration : Declaration} (h : declaration.Built) :
    declaration.Sound ∧ ∀ j, declaration ≠ .verbatim j := by
  cases h with
  | bindings hnode => exact ⟨hnode.sound, nofun⟩
  | function name => exact ⟨beside_function name, nofun⟩
  | classes name => exact ⟨beside_class name, nofun⟩

/-- Exports that are built are sound. -/
theorem NamedExport.Built.sound {node : NamedExport} (h : node.Built) : node.Sound := by
  cases h with
  | build hbuilt =>
    obtain ⟨hsound, hne⟩ := hbuilt.sound
    refine ⟨fun declaration hdeclaration => ?_, ?_⟩
    · obtain rfl := Option.some.inj hdeclaration
      exact ⟨hsound, hne .null⟩
    · exact beside_of_names ["source", "specifiers"] rfl (by decide)
        (by simp [NamedExport.build, NamedExport.ofDeclaration?, Canonical, Json.CanonicalItems])
        (by decide)
  | ofNames names =>
    have hitems : Canonical (.arr (names.map NamedExport.specifier)) := by
      rw [Canonical, Json.canonicalItems_iff]
      intro item hitem
      obtain ⟨name, -, rfl⟩ := List.mem_map.mp hitem
      exact canonical_specifier name
    refine ⟨fun declaration hdeclaration => ?_, ?_⟩
    · cases hdeclaration
    · refine beside_of_names ["source", "specifiers"] rfl (by decide) ?_ (by decide)
      simpa [NamedExport.ofNames, Canonical] using hitems

/-- Statements that are built are sound. -/
theorem Statement.Built.sound {s : Statement} (h : s.Built) : s.Sound := by
  cases h with
  | exporting hnode => exact hnode.sound
  | bindings hnode => exact hnode.sound
  | function name => exact beside_function name
  | classes name => exact beside_class name

/-- Modules of built statements are sound. -/
theorem sound_build {body : List Statement} (h : ∀ s ∈ body, s.Built) :
    (Program.build body).Sound := by
  refine ⟨fun s hs => (h s hs).sound, ?_⟩
  exact beside_of_names ["sourceType", "type"] rfl (by decide)
    (by simp [Program.build, Canonical]) (by decide)

/-! ## Passes keep modules sound -/

/-- New texts in all self-named exports keep a module sound. -/
theorem Program.Sound.withValues {p : Program} (h : p.Sound) (values : List String) :
    (p.withValues values).Sound := by
  rw [Program.withValues, changeAll]
  refine List.foldlRecOn (p.places.zip values) _ h fun q hq placed _ => ?_
  exact hq.withValueAt placed.1 placed.2

/-- Modules that can be held are sound. -/
theorem Program.Held.sound {p : Program} (h : p.Held) : p.Sound := by
  induction h with
  | decoded hj hp => exact sound_program hj ((reads_program.decodeValue_eq_ok_iff hj).mp hp)
  | build hbody => exact sound_build hbody
  | shrunk supply source _ ih =>
    obtain ⟨log, hshrink⟩ := Program.shrink_eq supply _ source
    rw [hshrink]
    exact ih.withValues _

/-- A module that can be held is encoded as a value that is decoded as the same module. -/
theorem Program.decode_encode_of_held {p : Program} (h : p.Held) :
    Json.decodeValue (fun _ => Program.decode) p.toJson.sorted = .ok p :=
  (reads_program.decodeValue_eq_ok_iff (Json.canonical_sorted _)).mpr (ofJson?_program h.sound)

/-- A module of a statement that is kept verbatim, decoded and left by a pass, and a built one in
which a pass failed at the second export. -/
theorem Program.decode_encode_of_held_failed :
    let source := Source.script ⟨[.ok "x", .error (.exhausted 2)], 0⟩
    let value : Json := .obj [("body", .arr [.null]), ("type", .str "Program")]
    let decoded : Program := ⟨[.verbatim .null], [("type", .str "Program")]⟩
    let left := (decoded.shrink Source.supply source).2.1
    let failed := (mixed.shrink Source.supply source).2.1
    Json.decodeValue (fun _ => Program.decode) value = .ok decoded ∧ left.Held ∧
      Json.decodeValue (fun _ => Program.decode) left.toJson.sorted = .ok left ∧
      (mixed.shrink Source.supply source).1 = .error (.exhausted 2) ∧ failed.Held ∧
      Json.decodeValue (fun _ => Program.decode) failed.toJson.sorted = .ok failed := by
  intro source value decoded left failed
  have hvalue : Canonical value := by
    have hbeside : Fields.Beside [("body", .arr [.null]), ("type", .str "Program")] [] :=
      beside_of_names ["body", "type"] rfl (by decide) (by simp [Canonical, Json.CanonicalItems])
        (List.forall_mem_nil _)
    exact hbeside.1
  have hdecoded : Json.decodeValue (fun _ => Program.decode) value = .ok decoded := rfl
  have hleft : left.Held := .shrunk _ _ (.decoded hvalue hdecoded)
  have hliteral (name text : String) :
      (Declarator.build name (some (.text text))).Built := by
    refine .build name fun e he => ?_
    obtain rfl := Option.some.inj he
    exact .text text
  have hmixed : mixed.Held := by
    refine .build ?_
    simp only [List.forall_mem_cons]
    refine ⟨.bindings (.build _ ?_), .exporting (.build (.bindings (.build _ ?_))),
      .exporting (.build (.function "f")),
      List.forall_mem_nil _⟩
    · simp only [List.forall_mem_cons]
      exact ⟨hliteral "a" "a", List.forall_mem_nil _⟩
    · simp only [List.forall_mem_cons]
      exact ⟨hliteral "b" "b", hliteral "c" "d", hliteral "e" "e", List.forall_mem_nil _⟩
  have hfailed : failed.Held := .shrunk _ _ hmixed
  exact ⟨hdecoded, hleft, decode_encode_of_held hleft, rfl, hfailed, decode_encode_of_held hfailed⟩

end SelfNamed
