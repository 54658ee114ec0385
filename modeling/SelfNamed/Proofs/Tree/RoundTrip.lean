import SelfNamed.Proofs.Tree.Sound

/-!
# Writing and reading gives the same node

A sound node is written as its modelled fields in front of fields under other names. In order each
modelled name is found with its own value, and without the modelled names the kept fields are left.
So what is read has the modelled fields and the kept ones of the node, kind by kind. Main statement:
a sound module that is written and read is the module.
-/

namespace SelfNamed

open Json (Canonical CanonicalMembers Fields)

variable {α : Type}

/-! ## Written fields -/

/-- Members in front of fields, in order. -/
def written (members rest : Fields) : Fields :=
  Fields.insertInto (Json.sortedMembers members) rest

section Written

variable {names : List String} {members rest : Fields}

/-- Leaving out names that do not occur changes nothing. -/
theorem Json.Fields.Beside.without_eq (h : rest.Beside names) : rest.without names = rest := by
  have hincreasing := (Json.canonical_obj.mp h.1).1
  refine (hincreasing.without names).ext hincreasing fun name => ?_
  rw [Fields.get?_without]
  by_cases hname : name ∈ names
  · rw [if_pos hname, h.2 name hname]
  · rw [if_neg hname]

/-- Members in front of fields under other names are put in order as written. -/
theorem sorted_members (h : rest.Beside names) (hmembers : members.map Prod.fst ⊆ names) :
    (Json.obj (members ++ rest)).sorted = .obj (written members rest) := by
  have hbeside : rest.Beside (members.map Prod.fst) :=
    ⟨h.1, fun name hname => h.2 name (hmembers hname)⟩
  have hsorted := sorted_obj members h.1
  rw [hbeside.without_eq] at hsorted
  exact hsorted

/-- A name that is not one of the members is not written by them. -/
theorem get?_reverse_of_not_mem {name : String} (h : name ∉ members.map Prod.fst) :
    Fields.get? name (Json.sortedMembers members).reverse = none := by
  refine Fields.get?_eq_none_iff.mpr fun member hmember heq => h ?_
  rw [← sortedMembers_map_fst, ← heq]
  exact List.mem_map_of_mem (List.mem_reverse.mp hmember)

/-- The last member of a name is found before the fields. -/
theorem get?_written (name : String) (members rest : Fields) :
    (written members rest).get? name =
      (Fields.get? name (Json.sortedMembers members).reverse).or (rest.get? name) :=
  Fields.get?_insertInto name (Json.sortedMembers members) rest

/-- A member is found when no later one has its name. -/
theorem get?_written_of_some {name : String} {value : Json}
    (h : Fields.get? name (Json.sortedMembers members).reverse = some value) :
    (written members rest).get? name = some value := by
  rw [get?_written, h, Option.some_or]

/-- Members in front of increasing names leave increasing names. -/
theorem increasing_written (h : rest.Increasing) (members : Fields) :
    (written members rest).Increasing := h.insertInto _

/-- Without the members in front the fields are left. -/
theorem without_written (h : rest.Beside names) (members : Fields)
    (hmembers : members.map Prod.fst ⊆ names) : (written members rest).without names = rest := by
  have hincreasing := (Json.canonical_obj.mp h.1).1
  refine ((increasing_written hincreasing members).without names).ext hincreasing fun name => ?_
  rw [Fields.get?_without, get?_written]
  by_cases hname : name ∈ names
  · rw [if_pos hname, h.2 name hname]
  · rw [if_neg hname, get?_reverse_of_not_mem fun hmem => hname (hmembers hmem), Option.none_or]

/-- Without a tag in front of the members they are in front alone. -/
theorem without_written_tag (h : rest.Beside ("type" :: names))
    (hmembers : members.map Prod.fst ⊆ names) (htype : "type" ∉ names) (tag : Json) :
    (written (("type", tag) :: members) rest).without ["type"] = written members rest := by
  have hincreasing := (Json.canonical_obj.mp h.1).1
  refine ((increasing_written hincreasing _).without _).ext (increasing_written hincreasing _)
    fun name => ?_
  rw [Fields.get?_without, get?_written, get?_written, Json.sortedMembers, List.reverse_cons,
    Fields.get?_append]
  by_cases hname : name = "type"
  · have hnone := get?_reverse_of_not_mem fun hmem => htype (hmembers hmem)
    rw [if_pos (List.mem_singleton.mpr hname), hname, hnone, h.2 "type" List.mem_cons_self]
    rfl
  · rw [if_neg (mt List.mem_singleton.mp hname), Fields.get?_cons, if_neg (Ne.symm hname),
      Fields.get?, Option.or_none]

/-- A tagged node is read from its members in front of fields under other names. -/
theorem readTagged_tagged {κ : Type} {kinds : List (String × κ)} {known : κ → Json → Option α}
    {verbatim : Json → α} {tag : String} (kind : κ)
    (hkind : (Json.str tag).kindIn? kinds = some kind) (h : rest.Beside ("type" :: names))
    (members : Fields) (hmembers : members.map Prod.fst ⊆ names) (htype : "type" ∉ names) {node : α}
    (hnode : known kind (.obj (written members rest)) = some node) :
    (tagged tag (members ++ rest)).sorted.readTagged kinds known verbatim = node := by
  have hall : (("type", Json.str tag) :: members).map Prod.fst ⊆ "type" :: names := by
    simpa using List.subset_cons_of_subset "type" hmembers
  have hsorted : (tagged tag (members ++ rest)).sorted =
    .obj (written (("type", .str tag) :: members) rest) := sorted_members h hall
  have hfound : (written (("type", .str tag) :: members) rest).get? "type" = some (.str tag) := by
    refine get?_written_of_some ?_
    rw [Json.sortedMembers, List.reverse_cons, Fields.get?_append,
      get?_reverse_of_not_mem fun hmem => htype (hmembers hmem)]
    rfl
  have hsays :
      (Json.obj (written (("type", .str tag) :: members) rest)).kind? kinds = some kind := by
    change ((written _ rest).get? "type").bind _ = _
    rw [hfound, Option.bind_some, hkind]
  rw [hsorted, readTagged_obj, hsays, without_written_tag h hmembers htype, Option.bind_some, hnode,
    Option.getD_some]

end Written

/-! ## Nodes of each kind -/

/-- Fields beside a tag and other names stand beside the other names. -/
theorem Json.Fields.Beside.tail {rest : Fields} {name : String} {names : List String}
    (h : rest.Beside (name :: names)) : rest.Beside names :=
  ⟨h.1, fun other hother => h.2 other (List.mem_cons_of_mem name hother)⟩

/-- A node with one modelled field is read from this field in front of the fields that it keeps. -/
theorem ofJson?_given {β ν : Type} (look : Json → Option β) (name : String) {value : Json} {b : β}
    (hvalue : look value.sorted = some b) {rest : Fields} (h : rest.Beside ["type", name])
    (node : β → Fields → ν) :
    (do
      let fields ← (Json.obj (written [(name, value)] rest)).fields?
      let b ← (fields.get? name).bind look
      return node b (fields.without [name])) = some (node b rest) := by
  have hfound : (written [(name, value)] rest).get? name = some value.sorted := by
    refine get?_written_of_some ?_
    simp [Json.sortedMembers, Fields.get?]
  change Option.bind (((written [(name, value)] rest).get? name).bind look) _ = _
  rw [hfound, Option.bind_some, hvalue, Option.bind_some,
    without_written h.tail [(name, value)] (List.Subset.refl _)]
  rfl

/-- A sound identifier is read from its members. -/
theorem ofJson?_identifier {node : Identifier} (h : node.Sound) :
    Identifier.ofJson? (.obj (written [("name", .str node.name)] node.rest)) = some node :=
  ofJson?_given Json.text? "name" rfl h Identifier.mk

/-- A sound record of a source text is read as it was written. -/
theorem ofJson?_literalExtra {extra : LiteralExtra} (h : extra.Sound) :
    LiteralExtra.ofJson? (Json.obj extra.members).sorted = some extra := by
  let members : Fields := [("raw", .str extra.raw), ("rawValue", .str extra.rawValue)]
  have hnames : members.map Prod.fst ⊆ ["raw", "rawValue"] := List.Subset.refl _
  have hsorted : (Json.obj extra.members).sorted = .obj (written members extra.rest) :=
    sorted_members h hnames
  have hraw : (written members extra.rest).getD "raw" (.str "") = .str extra.raw := by
    rw [Fields.getD, get?_written_of_some rfl]
    rfl
  have hrawValue : (written members extra.rest).getD "rawValue" (.str "") =
      .str extra.rawValue := by
    rw [Fields.getD, get?_written_of_some rfl]
    rfl
  rw [hsorted]
  change Option.bind (Json.text? (Fields.getD (written members extra.rest) _ _)) (fun raw =>
    Option.bind (Json.text? (Fields.getD (written members extra.rest) _ _)) _) = _
  rw [hraw, hrawValue, without_written h members hnames]
  rfl

/-- Fields with a text and with a record of the source or without one are a string literal. -/
theorem ofJson?_stringLiteral {fields : Fields} {value : String} {extra : Option LiteralExtra}
    (hvalue : fields.get? "value" = some (.str value))
    (hextra : Json.optional? LiteralExtra.ofJson? (fields.getD "extra" .null) = some extra) :
    StringLiteral.ofJson? (.obj fields) =
      some ⟨value, extra, fields.without ["value", "extra"]⟩ := by
  change Option.bind ((fields.get? "value").bind Json.text?) (fun value =>
    Option.bind (Json.optional? LiteralExtra.ofJson? (fields.getD "extra" .null)) _) = _
  rw [hvalue, hextra]
  rfl

/-- A sound string literal is read as it was written. -/
theorem read_stringLiteral {node : StringLiteral} (h : node.Sound) :
    Expression.ofJson (Expression.string node).toJson.sorted = .string node := by
  obtain ⟨value, extra, rest⟩ := node
  obtain ⟨hextra, hrest⟩ := h
  cases extra with
  | none =>
    let members : Fields := [("value", .str value)]
    have hnames : members.map Prod.fst ⊆ ["value", "extra"] := by simp [members]
    have hnone : (written members rest).getD "extra" .null = .null := by
      rw [Fields.getD, get?_written, hrest.2 "extra" (by simp)]
      rfl
    have hread : StringLiteral.ofJson? (.obj (written members rest)) =
        some ⟨value, none, (written members rest).without ["value", "extra"]⟩ :=
      ofJson?_stringLiteral (get?_written_of_some rfl) (by rw [hnone]; rfl)
    refine readTagged_tagged .string rfl hrest members hnames (by simp) ?_
    rw [Expression.ofKind?, hread, without_written hrest.tail members hnames]
    rfl
  | some extra =>
    let members : Fields := [("value", .str value), ("extra", .obj extra.members)]
    have hnames : members.map Prod.fst ⊆ ["value", "extra"] := List.Subset.refl _
    have hsome : (written members rest).getD "extra" .null = (Json.obj extra.members).sorted := by
      rw [Fields.getD, get?_written_of_some rfl]
      rfl
    have hrecord : Json.optional? LiteralExtra.ofJson? (Json.obj extra.members).sorted =
        some (some extra) := by
      have hread := ofJson?_literalExtra (hextra extra rfl)
      rw [Json.sorted] at hread ⊢
      rw [Json.optional?, hread]
      · rfl
      · intro hnull
        cases hnull
    have hread : StringLiteral.ofJson? (.obj (written members rest)) =
        some ⟨value, some extra, (written members rest).without ["value", "extra"]⟩ :=
      ofJson?_stringLiteral (get?_written_of_some rfl) (by rw [hsome, hrecord])
    refine readTagged_tagged .string rfl hrest members hnames (by simp) ?_
    rw [Expression.ofKind?, hread, without_written hrest.tail members hnames]
    rfl

/-- A sound pattern is read as it was written. -/
theorem read_pattern {p : Pattern} (h : p.Sound) : Pattern.ofJson p.toJson.sorted = p := by
  cases p with
  | identifier node =>
    have hnode := congrArg (Option.map Pattern.identifier) (ofJson?_identifier h)
    exact readTagged_tagged () rfl h [("name", .str node.name)] (by simp) (by simp) hnode
  | verbatim j =>
    rw [Pattern.toJson, Json.sorted_of_canonical h.1]
    exact h.2

/-- A sound expression is read as it was written. -/
theorem read_expression {e : Expression} (h : e.Sound) : Expression.ofJson e.toJson.sorted = e := by
  cases e with
  | string node => exact read_stringLiteral h
  | numeric node =>
    have hread : NumericLiteral.ofJson? (.obj (written [("value", .num node.value)] node.rest)) =
        some node := ofJson?_given Json.number? "value" rfl h NumericLiteral.mk
    have hnode := congrArg (Option.map Expression.numeric) hread
    refine readTagged_tagged .numeric rfl h [("value", .num node.value)] (by simp) (by simp) ?_
    exact hnode
  | boolean node =>
    have hread : BooleanLiteral.ofJson? (.obj (written [("value", .bool node.value)] node.rest)) =
        some node := ofJson?_given Json.bool? "value" rfl h BooleanLiteral.mk
    have hnode := congrArg (Option.map Expression.boolean) hread
    refine readTagged_tagged .boolean rfl h [("value", .bool node.value)] (by simp) (by simp) ?_
    exact hnode
  | null node => exact readTagged_tagged .null rfl h [] (by simp) (by simp) rfl
  | identifier node =>
    have hnode := congrArg (Option.map Expression.identifier) (ofJson?_identifier h)
    refine readTagged_tagged .identifier rfl h [("name", .str node.name)] (by simp) (by simp) ?_
    exact hnode
  | verbatim j =>
    rw [Expression.toJson, Json.sorted_of_canonical h.1]
    exact h.2

/-- What may be missing is read as it was written when everything is and null is no node. -/
theorem unlessNull_sorted {P : α → Prop} {read verbatim : Json → α} {toJson : α → Json}
    (hread : ∀ {a}, P a → read (toJson a).sorted = a) (hnull : read .null = verbatim .null)
    {found : Option α} (h : ∀ a, found = some a → P a ∧ a ≠ verbatim .null) :
    (optionalJson toJson found).sorted.unlessNull read = found := by
  cases found with
  | none => rfl
  | some a =>
    obtain ⟨hsound, hne⟩ := h a rfl
    have ha := hread hsound
    rw [optionalJson]
    cases hwritten : (toJson a).sorted with
    | null =>
      rw [hwritten, hnull] at ha
      exact absurd ha.symm hne
    | _ => rw [hwritten] at ha; exact congrArg some ha

/-- A sound declarator is read as it was written. -/
theorem read_declarator {d : Declarator} (h : d.Sound) :
    Declarator.ofJson? d.toJson.sorted = some d := by
  obtain ⟨id, init, rest⟩ := d
  obtain ⟨hid, hinit, hrest⟩ := h
  let members : Fields := [("id", id.toJson), ("init", optionalJson Expression.toJson init)]
  have hnames : members.map Prod.fst ⊆ ["id", "init"] := List.Subset.refl _
  have hsorted : (Declarator.toJson ⟨id, init, rest⟩).sorted = .obj (written members rest) :=
    sorted_members hrest hnames
  have hfirst : (written members rest).get? "id" = some id.toJson.sorted := get?_written_of_some rfl
  have hsecond : (written members rest).getD "init" .null =
      (optionalJson Expression.toJson init).sorted := by
    rw [Fields.getD, get?_written_of_some rfl]
    rfl
  have hread := unlessNull_sorted read_expression rfl hinit
  rw [hsorted]
  change Option.bind ((written members rest).get? "id") (fun id => some
    (Declarator.mk (Pattern.ofJson id) (((written members rest).getD "init" .null).unlessNull _)
      _)) = _
  rw [hfirst, hsecond, hread, without_written hrest members hnames, Option.bind_some,
    read_pattern hid]

/-- Items that are read as they were written make a list that is read as it was written. -/
theorem mapM_map_of_forall {read : Json → Option α} {write : α → Json} {items : List α}
    (h : ∀ a ∈ items, read (write a) = some a) : (items.map write).mapM read = some items := by
  induction items with
  | nil => rfl
  | cons a items ih =>
    have hfirst := h a List.mem_cons_self
    have hlater := ih fun other hother => h other (List.mem_cons_of_mem a hother)
    rw [List.map_cons, List.mapM_cons, hfirst, hlater]
    rfl

/-- A list that is written has its items written. -/
theorem sorted_arr_map (toJson : α → Json) (items : List α) :
    (Json.arr (items.map toJson)).sorted = .arr (items.map fun a => (toJson a).sorted) := by
  rw [Json.sorted, sortedItems_eq_map, List.map_map]
  rfl

/-- A keyword is read as it was written. -/
theorem ofJson?_keyword (kind : VariableKind) :
    VariableKind.ofJson? (.str kind.keyword) = some kind := by
  cases kind <;> rfl

/-- The members of a written declaration of variables. -/
abbrev VariableDeclaration.modelled (node : VariableDeclaration) : Fields :=
  [("kind", .str node.kind.keyword),
    ("declarations", .arr (node.declarators.map Declarator.toJson))]

/-- A sound declaration of variables is read from its members. -/
theorem ofJson?_variableDeclaration {node : VariableDeclaration} (h : node.Sound) :
    VariableDeclaration.ofJson? (.obj (written node.modelled node.rest)) = some node := by
  obtain ⟨kind, ds, rest⟩ := node
  obtain ⟨hds, hrest⟩ := h
  let members := VariableDeclaration.modelled ⟨kind, ds, rest⟩
  have hfirst : (written members rest).get? "kind" = some (.str kind.keyword) :=
    get?_written_of_some rfl
  have hsecond : (written members rest).get? "declarations" =
      some (.arr (ds.map fun d => d.toJson.sorted)) := by
    rw [← sorted_arr_map Declarator.toJson]
    exact get?_written_of_some rfl
  have hitems : (ds.map fun d => d.toJson.sorted).mapM Declarator.ofJson? = some ds :=
    mapM_map_of_forall fun d hd => read_declarator (hds d hd)
  change Option.bind (((written members rest).get? "kind").bind VariableKind.ofJson?) (fun kind =>
    Option.bind (((written members rest).get? "declarations").bind Json.items?) fun items =>
      Option.bind (items.mapM Declarator.ofJson?) fun ds =>
        some (VariableDeclaration.mk kind ds ((written members rest).without _))) = _
  rw [hfirst, hsecond, Option.bind_some, ofJson?_keyword, Option.bind_some, Option.bind_some,
    Json.items?, Option.bind_some, hitems, Option.bind_some,
    without_written hrest.tail members (List.Subset.refl _)]

/-- A sound declaration is read as it was written. -/
theorem read_declaration {declaration : Declaration} (h : declaration.Sound) :
    Declaration.ofJson declaration.toJson.sorted = declaration := by
  cases declaration with
  | bindings node =>
    have hnode := congrArg (Option.map Declaration.bindings) (ofJson?_variableDeclaration h)
    refine readTagged_tagged .bindings rfl h.2 node.modelled (List.Subset.refl _) (by simp) ?_
    exact hnode
  | function node => exact readTagged_tagged .function rfl h [] (by simp) (by simp) rfl
  | classes node => exact readTagged_tagged .classes rfl h [] (by simp) (by simp) rfl
  | verbatim j =>
    rw [Declaration.toJson, Json.sorted_of_canonical h.1]
    exact h.2

/-- A sound export is read from its members. -/
theorem ofJson?_namedExport {node : NamedExport} (h : node.Sound) :
    NamedExport.ofJson? (.obj (written
      [("declaration", optionalJson Declaration.toJson node.declaration)] node.rest)) =
        some node := by
  obtain ⟨declaration, rest⟩ := node
  obtain ⟨hdeclaration, hrest⟩ := h
  let members : Fields := [("declaration", optionalJson Declaration.toJson declaration)]
  have hfound : (written members rest).getD "declaration" .null =
      (optionalJson Declaration.toJson declaration).sorted := by
    rw [Fields.getD, get?_written_of_some rfl]
    rfl
  have hread := unlessNull_sorted read_declaration rfl hdeclaration
  change some (NamedExport.mk (((written members rest).getD "declaration" .null).unlessNull _)
    ((written members rest).without _)) = _
  rw [hfound, hread, without_written hrest.tail members (List.Subset.refl _)]

/-- A sound statement is read as it was written. -/
theorem read_statement {s : Statement} (h : s.Sound) : Statement.ofJson s.toJson.sorted = s := by
  cases s with
  | exporting node =>
    have hnode := congrArg (Option.map Statement.exporting) (ofJson?_namedExport h)
    refine readTagged_tagged .exporting rfl h.2
      [("declaration", optionalJson Declaration.toJson node.declaration)] (List.Subset.refl _)
      (by simp) ?_
    exact hnode
  | bindings node =>
    have hnode := congrArg (Option.map Statement.bindings) (ofJson?_variableDeclaration h)
    refine readTagged_tagged .bindings rfl h.2 node.modelled (List.Subset.refl _) (by simp) ?_
    exact hnode
  | function node => exact readTagged_tagged .function rfl h [] (by simp) (by simp) rfl
  | classes node => exact readTagged_tagged .classes rfl h [] (by simp) (by simp) rfl
  | verbatim j =>
    rw [Statement.toJson, Json.sorted_of_canonical h.1]
    exact h.2

/-- A sound module is read as it was written. -/
theorem ofJson?_program {p : Program} (h : p.Sound) :
    Program.ofJson? p.toJson.sorted = some p := by
  obtain ⟨body, rest⟩ := p
  obtain ⟨hbody, hrest⟩ := h
  let members : Fields := [("body", .arr (body.map Statement.toJson))]
  have hnames : members.map Prod.fst ⊆ ["body"] := List.Subset.refl _
  have hsorted : (Program.toJson ⟨body, rest⟩).sorted = .obj (written members rest) :=
    sorted_members hrest hnames
  have hfound : (written members rest).get? "body" =
      some (.arr (body.map fun s => s.toJson.sorted)) := by
    rw [← sorted_arr_map Statement.toJson]
    exact get?_written_of_some rfl
  have hitems : (body.map fun s => s.toJson.sorted).map Statement.ofJson = body := by
    rw [List.map_map]
    exact (List.map_congr_left fun s hs => read_statement (hbody s hs)).trans (List.map_id body)
  rw [hsorted]
  change Option.bind (((written members rest).get? "body").bind Json.items?) (fun items =>
    some (Program.mk (items.map Statement.ofJson) ((written members rest).without _))) = _
  rw [hfound, Option.bind_some, Json.items?, Option.bind_some, hitems,
    without_written hrest members hnames]

end SelfNamed
