import SelfNamed.Proofs.Tree.Unordered

/-!
# Decoding a text straight and through its value

A text can be decoded as it is read, or its value is read first and then decoded. Only the first
meets the members in written order, only the second has seen the whole text before it starts. Main
statement: when no object of the text repeats a name, both succeed for the same texts and with the
same module, and so they do when the members of the objects are written in another order.
-/

namespace SelfNamed

open Json (Decoded Draft Fields decodeRead decodeText)
open Json.Draft (Reordered)

variable {α β : Type}

/-! ## Faults -/

/-- A decoder gives something only where the draft has a value. -/
def NeedsValue {α : Type} (decode : Draft → Decoded α) : Prop :=
  ∀ ⦃d a⦄, decode d = .ok a → ∃ j, d.value = .ok j

/-- When a decoding step and what follows it succeed, the step does and so does what follows, on its
result. -/
theorem eq_ok_of_bind {x : Decoded α} {f : α → Decoded β} {b : β} (h : x >>= f = .ok b) :
    ∃ a, x = .ok a ∧ f a = .ok b := by
  cases x with
  | error e => cases h
  | ok a => exact ⟨a, rfl, h⟩

/-- A result that no fault goes before. -/
theorem eq_of_afterFault {stop : Option Json.Fault} {result : Decoded α} {a : α}
    (h : Json.afterFault stop result = .ok a) : stop = none ∧ result = .ok a := by
  cases stop with
  | none => exact ⟨rfl, h⟩
  | some fault => cases h

/-- What is kept has a value. -/
theorem needsValue_kept : NeedsValue Draft.kept := by
  intro d j h
  cases hvalue : d.value with
  | error fault =>
    rw [Draft.kept, hvalue] at h
    cases h
  | ok j => exact ⟨j, rfl⟩

/-- A tagged node is decoded only from a draft with a value, since it might have to be kept
verbatim. -/
theorem needsValue_tagged {κ : Type} (kinds : List (String × κ)) (known : κ → Draft → Decoded α)
    (verbatim : Json → α) : NeedsValue (decodeTagged kinds known verbatim) := by
  intro d a h
  obtain ⟨j, hkept, -⟩ := eq_ok_of_bind h
  exact needsValue_kept hkept

/-- Items are decoded only from drafts with values when each of them is. -/
theorem NeedsValue.items {decode : Draft → Decoded α} (h : NeedsValue decode) {items : List Draft}
    {as : List α} (hitems : Draft.items decode items = .ok as) :
    ∃ values, Draft.itemValues items = .ok values := by
  induction items generalizing as with
  | nil => exact ⟨[], rfl⟩
  | cons item items ih =>
    obtain ⟨a, hfirst, hrest⟩ := eq_ok_of_bind hitems
    obtain ⟨later, hlater, -⟩ := eq_ok_of_bind hrest
    obtain ⟨j, hvalue⟩ := h hfirst
    obtain ⟨values, hvalues⟩ := ih hlater
    exact ⟨j :: values, by rw [Draft.itemValues, hvalue, hvalues]; rfl⟩

/-- A list is decoded only from a draft with a value when its items are. -/
theorem NeedsValue.list {decode : Draft → Decoded α} (h : NeedsValue decode) :
    NeedsValue (Draft.list decode) := by
  intro d as hlist
  cases d with
  | arr start items stop =>
    obtain ⟨_, hitems, hstop⟩ := eq_ok_of_bind hlist
    obtain ⟨rfl, -⟩ := eq_of_afterFault hstop
    obtain ⟨values, hvalues⟩ := h.items hitems
    exact ⟨.arr values, by rw [Draft.value, hvalues]; rfl⟩
  | _ => cases hlist

/-- The members of an object, where all known fields and all others need their values. -/
theorem memberValues_of_fillMembers {ρ : Type} {slots : List (Json.Slot ρ)}
    {other : String → Draft → ρ → Decoded ρ}
    (hslots : ∀ slot ∈ slots, ∀ r, NeedsValue fun d => slot.fill d r)
    (hother : ∀ name r, NeedsValue fun d => other name d r) {members : List (String × Draft)}
    {seen : List String} {r r' : ρ} (h : Json.fillMembers slots other seen members r = .ok r') :
    ∃ fields, Draft.memberValues members = .ok fields := by
  induction members generalizing seen r with
  | nil => exact ⟨[], rfl⟩
  | cons member members ih =>
    obtain ⟨name, d⟩ := member
    rw [Json.fillMembers] at h
    have hboth : (∃ j, d.value = .ok j) ∧ ∃ fields, Draft.memberValues members = .ok fields := by
      cases hslot : slots.find? fun slot => slot.name == name with
      | none =>
        simp only [hslot] at h
        obtain ⟨_, hfirst, hrest⟩ := eq_ok_of_bind h
        exact ⟨hother name r hfirst, ih hrest⟩
      | some slot =>
        simp only [hslot] at h
        split at h
        · cases h
        · obtain ⟨_, hfirst, hrest⟩ := eq_ok_of_bind h
          exact ⟨hslots slot (List.mem_of_find?_eq_some hslot) r hfirst, ih hrest⟩
    obtain ⟨⟨j, hvalue⟩, fields, hvalues⟩ := hboth
    exact ⟨(name, j) :: fields, Draft.memberValues_cons hvalue hvalues⟩

/-- A module is decoded only from a draft with a value. -/
theorem needsValue_program : NeedsValue Program.decode := by
  intro d p h
  obtain ⟨fields, hfields, -⟩ := eq_ok_of_bind h
  cases d with
  | obj start members stop =>
    obtain ⟨_, hmembers, hstop⟩ := eq_ok_of_bind hfields
    obtain ⟨rfl, -⟩ := eq_of_afterFault hstop
    have hbody : NeedsValue (Draft.list Statement.decode) :=
      (needsValue_tagged Statement.kinds Statement.decodeKind Statement.verbatim).list
    obtain ⟨values, hvalues⟩ := memberValues_of_fillMembers (fun slot hslot r d _ hfill => by
      obtain rfl := List.mem_singleton.mp hslot
      obtain ⟨_, hlist, -⟩ := eq_ok_of_bind hfill
      exact hbody hlist) (fun name r d _ hkeep => by
      obtain ⟨_, hmember, -⟩ := eq_ok_of_bind hkeep
      obtain ⟨_, hkept, -⟩ := eq_ok_of_bind hmember
      exact needsValue_kept hkept) hmembers
    exact ⟨.obj (Fields.ofMembers values), by rw [Draft.value, hvalues]; rfl⟩
  | _ => cases hfields

/-! ## Texts -/

namespace Json

/-- No object of a text has two members of one name. -/
structure RepeatsNoName (depth : Option Nat) (text : List Char) : Prop where
  /-- The members as written. -/
  distinct : (readDraft depth text).1.DistinctNames

/-- Both texts are read without faults, and they write the same but for the order of the members of
their objects. -/
structure WritesReordered (depth : Option Nat) (text other : List Char) : Prop where
  /-- Nothing stands after the first value. -/
  ends : (readDraft depth text).2 = none
  /-- Nothing stands after the second value. -/
  ends' : (readDraft depth other).2 = none
  /-- The values as written. -/
  reordered : Reordered (readDraft depth text).1 (readDraft depth other).1

variable {depth : Option Nat} {text other : List Char} {decode : Draft → Decoded α} {a : α}

/-- A text means a value when its draft does and nothing stands behind it. -/
theorem read_eq_ok_iff {j : Json} : read depth text = .ok j ↔
    (readDraft depth text).1.value = .ok j ∧ (readDraft depth text).2 = none := by
  change (readDraft depth text).1.value >>= (fun j => Draft.settle (readDraft depth text).2 j) = _ ↔
    _
  cases (readDraft depth text).1.value with
  | error fault => exact ⟨nofun, nofun⟩
  | ok value =>
    cases (readDraft depth text).2 with
    | none => exact ⟨fun h => ⟨h, rfl⟩, And.left⟩
    | some fault => exact ⟨nofun, nofun⟩

/-- A text is decoded when its draft is and nothing stands behind it. -/
theorem decodeText_eq_ok_iff : decodeText (fun _ => decode) depth text = .ok a ↔
    decode (readDraft depth text).1 = .ok a ∧ (readDraft depth text).2 = none := by
  refine ⟨fun h => ?_, fun ⟨hdecode, hends⟩ => ?_⟩
  · obtain ⟨found, hfound, hends⟩ := eq_ok_of_bind h
    obtain ⟨hends, heq⟩ := eq_of_afterFault hends
    exact ⟨Except.ok.inj heq ▸ hfound, hends⟩
  · change (decode (readDraft depth text).1 >>= fun a =>
      afterFault (readDraft depth text).2 (.ok a)) = _
    rw [hdecode, hends]
    rfl

/-- A text is decoded through its value when it means one and the value is decoded. -/
theorem decodeRead_eq_ok_iff : decodeRead (fun _ => decode) depth text = .ok a ↔
    ∃ j, read depth text = .ok j ∧ decode (.ofValue j) = .ok a := by
  rw [decodeRead]
  cases read depth text with
  | error fault => exact ⟨nofun, nofun⟩
  | ok j =>
    refine ⟨fun h => ⟨j, rfl, h⟩, ?_⟩
    rintro ⟨_, hvalue, h⟩
    cases hvalue
    exact h

/-- Texts that repeat no name write the same but for the order of members exactly when they mean the
same value. -/
theorem writesReordered_iff (h : RepeatsNoName depth text) (h' : RepeatsNoName depth other) :
    WritesReordered depth text other ↔ ∃ j, read depth text = .ok j ∧ read depth other = .ok j := by
  simp only [read_eq_ok_iff]
  refine ⟨fun hwrites => ?_, fun ⟨j, ⟨hvalue, hends⟩, hvalue', hends'⟩ => ?_⟩
  · obtain ⟨j, hvalue, hvalue'⟩ :=
      (Draft.reordered_iff_value h.distinct h'.distinct).mp hwrites.reordered
    exact ⟨j, ⟨hvalue, hwrites.ends⟩, hvalue', hwrites.ends'⟩
  · have hreordered :=
      (Draft.reordered_iff_value h.distinct h'.distinct).mpr ⟨j, hvalue, hvalue'⟩
    exact ⟨hends, hends', hreordered⟩

end Json

/-- Where no object repeats a name, a module is decoded straight from a text exactly as it is
through the value of the text, whatever order the members are written in. -/
theorem Program.decoded_alike (depth : Option Nat) {text : List Char}
    (hnames : Json.RepeatsNoName depth text) :
    (∀ p : Program, decodeText (fun _ => Program.decode) depth text = .ok p ↔
      decodeRead (fun _ => Program.decode) depth text = .ok p) ∧
    ∀ other, Json.WritesReordered depth text other → ∀ p : Program,
      decodeText (fun _ => Program.decode) depth other = .ok p ↔
        decodeText (fun _ => Program.decode) depth text = .ok p := by
  refine ⟨fun p => ?_, fun other hother p => ?_⟩
  · rw [Json.decodeText_eq_ok_iff, Json.decodeRead_eq_ok_iff]
    have hsame {j : Json} (hvalue : (Json.readDraft depth text).1.value = .ok j) :
        Program.decode (Json.readDraft depth text).1 = .ok p ↔
          Program.decode (.ofValue j) = .ok p :=
      ignoresOrder_program.eq_ok_iff (Draft.reordered_ofValue hvalue hnames.distinct)
        hnames.distinct
    refine ⟨fun ⟨hdecode, hends⟩ => ?_, fun ⟨j, hread, hdecode⟩ => ?_⟩
    · obtain ⟨j, hvalue⟩ := needsValue_program hdecode
      exact ⟨j, Json.read_eq_ok_iff.mpr ⟨hvalue, hends⟩, (hsame hvalue).mp hdecode⟩
    · obtain ⟨hvalue, hends⟩ := Json.read_eq_ok_iff.mp hread
      exact ⟨(hsame hvalue).mpr hdecode, hends⟩
  · rw [Json.decodeText_eq_ok_iff, Json.decodeText_eq_ok_iff,
      ignoresOrder_program.eq_ok_iff hother.reordered hnames.distinct]
    exact and_congr_right fun _ => iff_of_true hother.ends' hother.ends

/-- An export with the tags in front and the modelled fields in the order of the grammar. -/
def tagsFirst : String :=
  "\x7b\"type\":\"Program\",\"body\":[
    \x7b\"type\":\"ExportNamedDeclaration\",\"declaration\":
      \x7b\"type\":\"VariableDeclaration\",\"kind\":\"const\",\"declarations\":[
        \x7b\"id\":\x7b\"type\":\"Identifier\",\"name\":\"k\"\x7d,\"init\":null\x7d]\x7d\x7d]\x7d"

/-- The same export with the tags behind and the modelled fields the other way round. -/
def tagsLast : String :=
  "\x7b\"body\":[
    \x7b\"declaration\":\x7b\"declarations\":[
        \x7b\"init\":null,\"id\":\x7b\"name\":\"k\",\"type\":\"Identifier\"\x7d\x7d],
      \"kind\":\"const\",\"type\":\"VariableDeclaration\"\x7d,
      \"type\":\"ExportNamedDeclaration\"\x7d],\"type\":\"Program\"\x7d"

/-- The export that both texts mean. -/
def bareExport : Program :=
  ⟨[.exporting ⟨some (.bindings ⟨.constant, [⟨.identifier ⟨"k", []⟩, none, []⟩], []⟩), []⟩],
    [("type", .str "Program")]⟩

/-- The value that both texts mean. -/
def bareExportTree : Json :=
  .obj [
    ("body", .arr [.obj [
      ("declaration", .obj [
        ("declarations", .arr [.obj [
          ("id", .obj [("name", .str "k"), ("type", .str "Identifier")]), ("init", .null)]]),
        ("kind", .str "const"),
        ("type", .str "VariableDeclaration")]),
      ("type", .str "ExportNamedDeclaration")]]),
    ("type", .str "Program")]

/-- The first text repeats no name. -/
theorem repeatsNoName_tagsFirst :
    Json.RepeatsNoName (some Json.nestingBound) tagsFirst.toList := by
  constructor
  rw [tagsFirst, String.toList_ofList]
  decide +kernel

/-- The second text repeats no name. -/
theorem repeatsNoName_tagsLast :
    Json.RepeatsNoName (some Json.nestingBound) tagsLast.toList := by
  constructor
  rw [tagsLast, String.toList_ofList]
  decide +kernel

set_option maxRecDepth 4000 in
/-- The first text means the value. -/
theorem read_tagsFirst :
    Json.read (some Json.nestingBound) tagsFirst.toList = .ok bareExportTree := by
  rw [tagsFirst, String.toList_ofList]
  rfl

set_option maxRecDepth 4000 in
/-- The second text means the value. -/
theorem read_tagsLast :
    Json.read (some Json.nestingBound) tagsLast.toList = .ok bareExportTree := by
  rw [tagsLast, String.toList_ofList]
  rfl

/-- The export is decoded from the second text, since it is what the value of the first says. -/
theorem decoded_alike_tags :
    Json.RepeatsNoName (some Json.nestingBound) tagsFirst.toList ∧
      Json.WritesReordered (some Json.nestingBound) tagsFirst.toList tagsLast.toList ∧
      decodeText (fun _ => Program.decode) (some Json.nestingBound) tagsLast.toList =
        .ok bareExport := by
  obtain ⟨halike, hreordered⟩ := Program.decoded_alike _ repeatsNoName_tagsFirst
  have hread : decodeRead (fun _ => Program.decode) (some Json.nestingBound) tagsFirst.toList =
      .ok bareExport :=
    Json.decodeRead_eq_ok_iff.mpr ⟨bareExportTree, read_tagsFirst, rfl⟩
  have hwrites : Json.WritesReordered (some Json.nestingBound) tagsFirst.toList tagsLast.toList :=
    (Json.writesReordered_iff repeatsNoName_tagsFirst repeatsNoName_tagsLast).mpr
      ⟨bareExportTree, read_tagsFirst, read_tagsLast⟩
  have hfirst := (halike bareExport).mpr hread
  exact ⟨repeatsNoName_tagsFirst, hwrites, (hreordered _ hwrites bareExport).mpr hfirst⟩

end SelfNamed
