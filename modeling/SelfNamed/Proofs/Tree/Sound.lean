import SelfNamed.Proofs.Shrink.Exports
import SelfNamed.Proofs.Tree.Norm

/-!
# Sound trees

A modelled node keeps the fields that it does not model, and nothing in its type forbids that one of
them has the name of a modelled field, or that a node that is kept verbatim could have been
modelled. A sound tree has neither: its kept fields are canonical and stand beside the modelled
ones, and its verbatim nodes do not suit any kind. Main statement: what is read off a canonical
value is sound, and giving a literal another text keeps a module sound.
-/

namespace SelfNamed

open Json (Canonical CanonicalMembers Fields)

/-- Canonical fields under other names than the given ones. -/
def Json.Fields.Beside (fields : Fields) (names : List String) : Prop :=
  Canonical (.obj fields) ∧ ∀ name ∈ names, fields.get? name = none

/-- A sound identifier. -/
def Identifier.Sound (node : Identifier) : Prop := node.rest.Beside ["type", "name"]

/-- A sound record of a source text. -/
def LiteralExtra.Sound (node : LiteralExtra) : Prop := node.rest.Beside ["raw", "rawValue"]

/-- A sound string literal. -/
def StringLiteral.Sound (node : StringLiteral) : Prop :=
  (∀ extra, node.extra = some extra → extra.Sound) ∧ node.rest.Beside ["type", "value", "extra"]

/-- A sound pattern. -/
def Pattern.Sound : Pattern → Prop
  | .identifier node => node.Sound
  | .verbatim j => Canonical j ∧ Pattern.ofJson j = .verbatim j

/-- A sound expression. -/
def Expression.Sound : Expression → Prop
  | .string node => node.Sound
  | .numeric node => node.rest.Beside ["type", "value"]
  | .boolean node => node.rest.Beside ["type", "value"]
  | .null node => node.rest.Beside ["type"]
  | .identifier node => node.Sound
  | .verbatim j => Canonical j ∧ Expression.ofJson j = .verbatim j

/-- A sound declarator. -/
def Declarator.Sound (d : Declarator) : Prop :=
  d.id.Sound ∧ (∀ init, d.init = some init → init.Sound ∧ init ≠ .verbatim .null) ∧
    d.rest.Beside ["id", "init"]

/-- A sound declaration of variables. -/
def VariableDeclaration.Sound (node : VariableDeclaration) : Prop :=
  (∀ d ∈ node.declarators, d.Sound) ∧ node.rest.Beside ["type", "kind", "declarations"]

/-- A sound declaration. -/
def Declaration.Sound : Declaration → Prop
  | .bindings node => node.Sound
  | .function node => node.rest.Beside ["type"]
  | .classes node => node.rest.Beside ["type"]
  | .verbatim j => Canonical j ∧ Declaration.ofJson j = .verbatim j

/-- A sound export. -/
def NamedExport.Sound (node : NamedExport) : Prop :=
  (∀ declaration, node.declaration = some declaration →
      declaration.Sound ∧ declaration ≠ .verbatim .null) ∧
    node.rest.Beside ["type", "declaration"]

/-- A sound statement. -/
def Statement.Sound : Statement → Prop
  | .exporting node => node.Sound
  | .bindings node => node.Sound
  | .function node => node.rest.Beside ["type"]
  | .classes node => node.rest.Beside ["type"]
  | .verbatim j => Canonical j ∧ Statement.ofJson j = .verbatim j

/-- A sound module. -/
def Program.Sound (p : Program) : Prop := (∀ s ∈ p.body, s.Sound) ∧ p.rest.Beside ["body"]

/-! ## What is read is sound -/

/-- The fields that are left stand beside those that are left out. -/
theorem beside_without {fields : Fields} (h : Canonical (.obj fields)) (names : List String) :
    (fields.without names).Beside names := by
  obtain ⟨hincreasing, hmembers⟩ := Json.canonical_obj.mp h
  refine ⟨Json.canonical_obj.mpr ⟨hincreasing.without names, hmembers.without names⟩, ?_⟩
  intro name hname
  rw [Fields.get?_without, if_pos hname]

/-- The fields that are left of those without the tag stand beside the tag as well. -/
theorem beside_without_tag {fields : Fields} (h : Canonical (.obj fields)) (names : List String) :
    ((fields.without ["type"]).without names).Beside ("type" :: names) := by
  have hwithout : (fields.without ["type"]).without names = fields.without ("type" :: names) :=
    Fields.without_without fields fun name => by simp
  rw [hwithout]
  exact beside_without h _

variable {α : Type}

/-- Every node of a kind that is read from the fields behind a tag has the property. -/
def ReadsOnly (read : Json → Option α) (P : α → Prop) : Prop :=
  ∀ ⦃fields : Fields⦄, Canonical (.obj fields) →
    ∀ a, read (.obj (fields.without ["type"])) = some a → P a

/-- A tagged value is read as a node of its kind or kept verbatim. -/
theorem readTagged_sound {κ : Type} {kinds : List (String × κ)} {read : κ → Json → Option α}
    {verbatim : Json → α} {P : α → Prop} (h : ∀ kind, ReadsOnly (read kind) P) {j : Json}
    (hj : Canonical j)
    (hverbatim : j.readTagged kinds read verbatim = verbatim j → P (verbatim j)) :
    P (j.readTagged kinds read verbatim) := by
  cases j with
  | obj fields =>
    rw [readTagged_obj] at hverbatim ⊢
    cases hread : ((Json.obj fields).kind? kinds).bind fun kind =>
        read kind (.obj (Fields.without ["type"] fields)) with
    | none => exact hverbatim (by rw [hread]; rfl)
    | some a =>
      obtain ⟨kind, -, hread⟩ := Option.bind_eq_some_iff.mp hread
      exact h kind hj a hread
  | _ => exact hverbatim rfl

/-- Nodes with one modelled field are sound. -/
theorem readsOnly_given {β ν : Type} {name : String} {look : Json → Option β}
    {node : β → Fields → ν} {make : ν → α} {P : α → Prop}
    (h : ∀ b (rest : Fields), rest.Beside ["type", name] → P (make (node b rest))) :
    ReadsOnly
      (fun j => Option.map make do
        let fields ← j.fields?
        let b ← (fields.get? name).bind look
        return node b (fields.without [name])) P := by
  intro fields hfields a ha
  obtain ⟨found, hfound, rfl⟩ := Option.map_eq_some_iff.mp ha
  change (((fields.without ["type"]).get? name).bind look).bind _ = _ at hfound
  obtain ⟨b, -, hfound⟩ := Option.bind_eq_some_iff.mp hfound
  obtain rfl := Option.some.inj hfound
  exact h b _ (beside_without_tag hfields [name])

/-- Nodes that only keep their fields are sound. -/
theorem readsOnly_fields {ν : Type} {node : Fields → ν} {make : ν → α} {P : α → Prop}
    (h : ∀ rest : Fields, rest.Beside ["type"] → P (make (node rest))) :
    ReadsOnly (fun j => (j.fields?.map node).map make) P := by
  intro fields hfields a ha
  obtain rfl := Option.some.inj ha
  exact h _ (beside_without hfields ["type"])

/-- Patterns that are read are sound. -/
theorem sound_pattern {j : Json} (h : Canonical j) : (Pattern.ofJson j).Sound := by
  refine readTagged_sound (fun _ => ?_) h fun hverbatim => ⟨h, hverbatim⟩
  exact readsOnly_given fun _ _ hrest => hrest

/-- Records of a source text that are read are sound. -/
theorem sound_literalExtra {j : Json} (h : Canonical j) {extra : LiteralExtra}
    (hextra : LiteralExtra.ofJson? j = some extra) : extra.Sound := by
  cases j with
  | obj fields =>
    change (Json.text? _).bind _ = _ at hextra
    obtain ⟨raw, -, hextra⟩ := Option.bind_eq_some_iff.mp hextra
    obtain ⟨rawValue, -, hextra⟩ := Option.bind_eq_some_iff.mp hextra
    obtain rfl := Option.some.inj hextra
    exact beside_without h _
  | _ => cases hextra

/-- String literals that are read are sound. -/
theorem readsOnly_stringLiteral :
    ReadsOnly (fun j => (StringLiteral.ofJson? j).map Expression.string) Expression.Sound := by
  intro fields hfields a ha
  obtain ⟨node, hnode, rfl⟩ := Option.map_eq_some_iff.mp ha
  obtain ⟨-, hread, hrest⟩ := of_stringLiteral_ofJson? hnode
  refine ⟨fun extra hextra => ?_, hrest ▸ beside_without_tag hfields ["value", "extra"]⟩
  have hmembers := (Json.canonical_obj.mp hfields).2
  have hcanonical : Canonical (fields.getD "extra" .null) := hmembers.getD "extra" trivial
  rw [getD_without_tag (by decide), hextra] at hread
  exact sound_literalExtra hcanonical (eq_some_of_optional? hread)

/-- Expressions that are read are sound. -/
theorem sound_expression {j : Json} (h : Canonical j) : (Expression.ofJson j).Sound := by
  refine readTagged_sound (fun kind => ?_) h fun hverbatim => ⟨h, hverbatim⟩
  cases kind with
  | string => exact readsOnly_stringLiteral
  | numeric => exact readsOnly_given fun _ _ hrest => hrest
  | boolean => exact readsOnly_given fun _ _ hrest => hrest
  | null => exact readsOnly_fields fun _ hrest => hrest
  | identifier => exact readsOnly_given fun _ _ hrest => hrest

/-- What may be missing is sound when everything is, and null is not read as a node. -/
theorem sound_unlessNull {P : α → Prop} {read verbatim : Json → α} {toJson : α → Json}
    {norm : Json → Json} (hsound : ∀ {j}, Canonical j → P (read j))
    (hverbatim : ∀ j, toJson (verbatim j) = j)
    (hnorm : ∀ {j}, Canonical j → (toJson (read j)).sorted = norm j)
    (hnull : ∀ {j}, norm j = .null → j = .null) {j : Json} (hj : Canonical j) {a : α}
    (h : j.unlessNull read = some a) : P a ∧ a ≠ verbatim .null := by
  cases j with
  | null => cases h
  | _ =>
    obtain rfl := Option.some.inj h
    refine ⟨hsound hj, fun heq => ?_⟩
    have hwritten := hnorm hj
    rw [heq, hverbatim] at hwritten
    cases hnull hwritten.symm

/-- Declarators that are read are sound. -/
theorem sound_declarator {j : Json} (h : Canonical j) {d : Declarator}
    (hd : Declarator.ofJson? j = some d) : d.Sound := by
  obtain ⟨fields, id, rfl, hid, rfl⟩ := of_declarator_ofJson? hd
  have hmembers := (Json.canonical_obj.mp h).2
  have hcanonical : Canonical (Fields.getD fields "init" .null) := hmembers.getD "init" trivial
  refine ⟨sound_pattern (hmembers.get? hid), fun init hinit => ?_, beside_without h _⟩
  exact sound_unlessNull sound_expression (fun _ => rfl) toJson_expression eq_null_of_normTagged
    hcanonical hinit

/-- What is read of a list is read of its items. -/
theorem exists_of_mem_mapM {β : Type} {read : α → Option β} {items : List α} {found : List β}
    (h : items.mapM read = some found) {b : β} (hb : b ∈ found) :
    ∃ item ∈ items, read item = some b := by
  induction items generalizing found with
  | nil =>
    obtain rfl : [] = found := Option.some.inj h
    cases hb
  | cons item items ih =>
    rw [List.mapM_cons] at h
    obtain ⟨first, hfirst, h⟩ := Option.bind_eq_some_iff.mp h
    obtain ⟨later, hlater, h⟩ := Option.bind_eq_some_iff.mp h
    obtain rfl := Option.some.inj h
    obtain rfl | hb := List.mem_cons.mp hb
    · exact ⟨item, List.mem_cons_self, hfirst⟩
    · obtain ⟨other, hother, hread⟩ := ih hlater hb
      exact ⟨other, List.mem_cons_of_mem item hother, hread⟩

/-- Declarations of variables that are read are sound. -/
theorem readsOnly_variableDeclaration {make : VariableDeclaration → α} {P : α → Prop}
    (h : ∀ node : VariableDeclaration, node.Sound → P (make node)) :
    ReadsOnly (fun j => (VariableDeclaration.ofJson? j).map make) P := by
  intro fields hfields a ha
  have hmembers := (Json.canonical_obj.mp hfields).2
  obtain ⟨node, hnode, rfl⟩ := Option.map_eq_some_iff.mp ha
  obtain ⟨items, hitems, hreads, hrest⟩ := of_variableDeclaration_ofJson? hnode
  rw [get?_without_tag (by decide)] at hitems
  refine h node ⟨fun d hd => ?_, hrest ▸ beside_without_tag hfields ["kind", "declarations"]⟩
  obtain ⟨item, hitem, hread⟩ := exists_of_mem_mapM hreads hd
  exact sound_declarator (hmembers.get?_items hitems item hitem) hread

/-- Declarations that are read are sound. -/
theorem sound_declaration {j : Json} (h : Canonical j) : (Declaration.ofJson j).Sound := by
  refine readTagged_sound (fun kind => ?_) h fun hverbatim => ⟨h, hverbatim⟩
  cases kind with
  | bindings => exact readsOnly_variableDeclaration fun _ hnode => hnode
  | function => exact readsOnly_fields fun _ hrest => hrest
  | classes => exact readsOnly_fields fun _ hrest => hrest

/-- Exports that are read are sound. -/
theorem readsOnly_namedExport :
    ReadsOnly (fun j => (NamedExport.ofJson? j).map Statement.exporting) Statement.Sound := by
  intro fields hfields a ha
  have hmembers := (Json.canonical_obj.mp hfields).2
  have hcanonical : Canonical (fields.getD "declaration" .null) :=
    hmembers.getD "declaration" trivial
  obtain rfl := Option.some.inj ha
  refine ⟨fun declaration hdeclaration => ?_, beside_without_tag hfields ["declaration"]⟩
  change ((fields.without ["type"]).getD "declaration" .null).unlessNull _ = _ at hdeclaration
  rw [getD_without_tag (by decide)] at hdeclaration
  exact sound_unlessNull sound_declaration (fun _ => rfl) toJson_declaration eq_null_of_normTagged
    hcanonical hdeclaration

/-- Statements that are read are sound. -/
theorem sound_statement {j : Json} (h : Canonical j) : (Statement.ofJson j).Sound := by
  refine readTagged_sound (fun kind => ?_) h fun hverbatim => ⟨h, hverbatim⟩
  cases kind with
  | exporting => exact readsOnly_namedExport
  | bindings => exact readsOnly_variableDeclaration fun _ hnode => hnode
  | function => exact readsOnly_fields fun _ hrest => hrest
  | classes => exact readsOnly_fields fun _ hrest => hrest

/-- Modules that are read are sound. -/
theorem sound_program {j : Json} (h : Canonical j) {p : Program} (hp : Program.ofJson? j = some p) :
    p.Sound := by
  obtain ⟨fields, items, rfl, hitems, rfl⟩ := of_program_ofJson? hp
  have hmembers := (Json.canonical_obj.mp h).2
  refine ⟨fun s hs => ?_, beside_without h _⟩
  obtain ⟨item, hitem, rfl⟩ := List.mem_map.mp hs
  exact sound_statement (hmembers.get?_items hitems item hitem)

/-! ## Another text keeps a tree sound -/

/-- A sound string literal stays sound when it gets another text. -/
theorem StringLiteral.Sound.setValue {literal : StringLiteral} (h : literal.Sound)
    (value : String) : (literal.setValue value).Sound := by
  refine ⟨?_, h.2⟩
  intro extra hextra
  obtain ⟨before, hbefore, rfl⟩ := Option.map_eq_some_iff.mp hextra
  exact h.1 before hbefore

/-- A sound declarator stays sound when its string literal gets another text. -/
theorem Declarator.Sound.withValue {d : Declarator} (h : d.Sound) (value : String) :
    (d.withValue value).Sound := by
  refine ⟨h.1, ?_, h.2.2⟩
  intro init hinit
  obtain ⟨before, hbefore, rfl⟩ := Option.map_eq_some_iff.mp hinit
  obtain ⟨hsound, hne⟩ := h.2.1 before hbefore
  cases before with
  | string literal => exact ⟨StringLiteral.Sound.setValue hsound value, nofun⟩
  | _ => exact ⟨hsound, hne⟩

/-- A change at one index keeps what holds of all items. -/
theorem forall_mem_modify {P : α → Prop} {f : α → α} (hf : ∀ a, P a → P (f a)) {items : List α}
    (h : ∀ a ∈ items, P a) (i : ℕ) : ∀ a ∈ items.modify i f, P a := by
  intro a ha
  obtain ⟨k, hk⟩ := List.mem_iff_getElem?.mp ha
  rw [List.getElem?_modify] at hk
  obtain ⟨before, hbefore, heq⟩ := Option.map_eq_some_iff.mp hk
  have hmem := h before (List.mem_of_getElem? hbefore)
  split at heq
  · exact heq ▸ hf before hmem
  · exact heq ▸ hmem

/-- A sound declaration of variables stays sound when one of its literals gets another text. -/
theorem VariableDeclaration.Sound.withValueAt {node : VariableDeclaration} (h : node.Sound) (i : ℕ)
    (value : String) : (node.withValueAt i value).Sound := by
  have hall : ∀ d ∈ node.declarators.modify i (Declarator.withValue value), d.Sound :=
    forall_mem_modify (fun _ hd => hd.withValue value) h.1 i
  exact ⟨hall, h.2⟩

/-- A sound export stays sound when one of its literals gets another text. -/
theorem NamedExport.Sound.withValueAt {node : NamedExport} (h : node.Sound) (i : ℕ)
    (value : String) : (node.withValueAt i value).Sound := by
  obtain ⟨declaration, rest⟩ := node
  cases declaration with
  | none => exact h
  | some declaration =>
    cases declaration with
    | bindings bindings =>
      refine ⟨fun after hafter => ?_, h.2⟩
      obtain rfl := Option.some.inj hafter
      have hbindings : bindings.Sound := (h.1 _ rfl).1
      exact ⟨hbindings.withValueAt i value, nofun⟩
    | _ => exact h

/-- A sound module stays sound when one of its literals gets another text. -/
theorem Program.Sound.withValueAt {p : Program} (h : p.Sound) (place : ℕ × ℕ) (value : String) :
    (p.withValueAt place value).Sound := by
  refine ⟨forall_mem_modify (fun s hs => ?_) h.1 place.1, h.2⟩
  cases s with
  | exporting node => exact NamedExport.Sound.withValueAt hs place.2 value
  | _ => exact hs

end SelfNamed
