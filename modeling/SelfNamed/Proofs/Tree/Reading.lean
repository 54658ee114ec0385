import SelfNamed.Proofs.Tree.Partial

/-!
# Nodes read off canonical values

Decoding goes through drafts, settings and errors. On a canonical value none of these shows, except
that a node does not suit, so each kind of node is also a plain function of the value: fields are
looked up, a missing optional field reads like null, a missing text of a source record like the
empty text. Main statement: the decoders of statements and of modules agree with these functions on
all canonical values.
-/

namespace SelfNamed

open Json (Canonical CanonicalMembers CanonicalItems Decoded Draft Fields Slot)

namespace Json

/-- Nothing for null, and else what is read. -/
def optional? {α : Type} (read : Json → Option α) : Json → Option (Option α)
  | .null => some none
  | j => (read j).map some

/-- Nothing for null, and else what is read, where everything can be. -/
def unlessNull {α : Type} (read : Json → α) : Json → Option α
  | .null => none
  | j => some (read j)

/-- The kind of a tagged object and the object without its tag. -/
def tagged? {κ : Type} (kinds : List (String × κ)) (j : Json) : Option (κ × Json) := do
  let fields ← j.fields?
  let tag ← fields.get? "type"
  let kind ← tag.kindIn? kinds
  return (kind, .obj (fields.without ["type"]))

/-- Reads a tagged value, which stays verbatim where it does not suit. -/
def readTagged {κ α : Type} (kinds : List (String × κ)) (known : κ → Json → Option α)
    (verbatim : Json → α) (j : Json) : α :=
  ((j.tagged? kinds).bind fun node => known node.1 node.2).getD (verbatim j)

end Json

/-! ## The functions -/

/-- The identifier that a value is. -/
def Identifier.ofJson? (j : Json) : Option Identifier := do
  let fields ← j.fields?
  let name ← (fields.get? "name").bind Json.text?
  return ⟨name, fields.without ["name"]⟩

/-- The record of a source text that a value is. -/
def LiteralExtra.ofJson? (j : Json) : Option LiteralExtra := do
  let fields ← j.fields?
  let raw ← (fields.getD "raw" (.str "")).text?
  let rawValue ← (fields.getD "rawValue" (.str "")).text?
  return ⟨raw, rawValue, fields.without ["raw", "rawValue"]⟩

/-- The string literal that a value is. -/
def StringLiteral.ofJson? (j : Json) : Option StringLiteral := do
  let fields ← j.fields?
  let value ← (fields.get? "value").bind Json.text?
  let extra ← Json.optional? LiteralExtra.ofJson? (fields.getD "extra" .null)
  return ⟨value, extra, fields.without ["value", "extra"]⟩

/-- The number that a value is. -/
def NumericLiteral.ofJson? (j : Json) : Option NumericLiteral := do
  let fields ← j.fields?
  let value ← (fields.get? "value").bind Json.number?
  return ⟨value, fields.without ["value"]⟩

/-- The truth value that a value is. -/
def BooleanLiteral.ofJson? (j : Json) : Option BooleanLiteral := do
  let fields ← j.fields?
  let value ← (fields.get? "value").bind Json.bool?
  return ⟨value, fields.without ["value"]⟩

/-- The null value that a value is. -/
def NullLiteral.ofJson? (j : Json) : Option NullLiteral := j.fields?.map .mk

/-- The pattern that a value is. -/
def Pattern.ofJson : Json → Pattern :=
  Json.readTagged [("Identifier", ())] (fun _ j => (Identifier.ofJson? j).map .identifier) .verbatim

/-- The expression of a kind that a value is. -/
def Expression.ofKind? : Expression.Kind → Json → Option Expression
  | .string, j => (StringLiteral.ofJson? j).map .string
  | .numeric, j => (NumericLiteral.ofJson? j).map .numeric
  | .boolean, j => (BooleanLiteral.ofJson? j).map .boolean
  | .null, j => (NullLiteral.ofJson? j).map .null
  | .identifier, j => (Identifier.ofJson? j).map .identifier

/-- The expression that a value is. -/
def Expression.ofJson : Json → Expression :=
  Json.readTagged Expression.kinds Expression.ofKind? .verbatim

/-- The declarator that a value is. -/
def Declarator.ofJson? (j : Json) : Option Declarator := do
  let fields ← j.fields?
  let id ← fields.get? "id"
  return ⟨.ofJson id, (fields.getD "init" .null).unlessNull Expression.ofJson,
    fields.without ["id", "init"]⟩

/-- The keyword that a value is: its text, or the one name of an object that says no more. -/
def VariableKind.ofJson? : Json → Option VariableKind
  | .str name => (VariableKind.choices.find? fun choice => choice.1 == name).map Prod.snd
  | .obj [(name, .null)] => (VariableKind.choices.find? fun choice => choice.1 == name).map Prod.snd
  | .obj [(name, .obj [])] =>
    (VariableKind.choices.find? fun choice => choice.1 == name).map Prod.snd
  | _ => none

/-- The declaration of variables that a value is. -/
def VariableDeclaration.ofJson? (j : Json) : Option VariableDeclaration := do
  let fields ← j.fields?
  let kind ← (fields.get? "kind").bind VariableKind.ofJson?
  let items ← (fields.get? "declarations").bind Json.items?
  let declarators ← items.mapM Declarator.ofJson?
  return ⟨kind, declarators, fields.without ["kind", "declarations"]⟩

/-- The function that a value is. -/
def FunctionDeclaration.ofJson? (j : Json) : Option FunctionDeclaration := j.fields?.map .mk

/-- The class that a value is. -/
def ClassDeclaration.ofJson? (j : Json) : Option ClassDeclaration := j.fields?.map .mk

/-- The declaration of a kind that a value is. -/
def Declaration.ofKind? : Declaration.Kind → Json → Option Declaration
  | .bindings, j => (VariableDeclaration.ofJson? j).map .bindings
  | .function, j => (FunctionDeclaration.ofJson? j).map .function
  | .classes, j => (ClassDeclaration.ofJson? j).map .classes

/-- The declaration that a value is. -/
def Declaration.ofJson : Json → Declaration :=
  Json.readTagged Declaration.kinds Declaration.ofKind? .verbatim

/-- The export that a value is. -/
def NamedExport.ofJson? (j : Json) : Option NamedExport := do
  let fields ← j.fields?
  return ⟨(fields.getD "declaration" .null).unlessNull Declaration.ofJson,
    fields.without ["declaration"]⟩

/-- The statement of a kind that a value is. -/
def Statement.ofKind? : Statement.Kind → Json → Option Statement
  | .exporting, j => (NamedExport.ofJson? j).map .exporting
  | .bindings, j => (VariableDeclaration.ofJson? j).map .bindings
  | .function, j => (FunctionDeclaration.ofJson? j).map .function
  | .classes, j => (ClassDeclaration.ofJson? j).map .classes

/-- The statement that a value is. -/
def Statement.ofJson : Json → Statement :=
  Json.readTagged Statement.kinds Statement.ofKind? .verbatim

/-- The module that a value is. -/
def Program.ofJson? (j : Json) : Option Program := do
  let fields ← j.fields?
  let items ← (fields.get? "body").bind Json.items?
  return ⟨items.map Statement.ofJson, fields.without ["body"]⟩

/-! ## Decoders and functions -/

/-- A decoder and a function agree on canonical values. -/
def Reads {α : Type} (decode : Draft → Decoded α) (read : Json → Option α) : Prop :=
  ∀ ⦃j⦄, Canonical j → (decode (.ofValue j)).toOption = read j

variable {α β : Type}

/-- Decoding a canonical value succeeds with what is read. -/
theorem Reads.decodeValue_eq_ok_iff {decode : Draft → Decoded α} {read : Json → Option α}
    (h : Reads decode read) {j : Json} (hj : Canonical j) {a : α} :
    Json.decodeValue (fun _ => decode) j = .ok a ↔ read j = some a := by
  rw [← h hj, Json.decodeValue]
  cases decode (.ofValue j) with
  | error e => exact ⟨nofun, nofun⟩
  | ok found => rw [Except.ok.injEq]; exact Option.some_inj.symm

/-- Texts are decoded from canonical values exactly as they are looked up. -/
theorem reads_text : Reads Draft.text Json.text? := by
  intro j _
  cases j <;> rfl

/-- Numbers are decoded from canonical values exactly as they are looked up. -/
theorem reads_number : Reads Draft.number Json.number? := by
  intro j _
  cases j <;> rfl

/-- Truth values are decoded from canonical values exactly as they are looked up. -/
theorem reads_boolean : Reads Draft.boolean Json.bool? := by
  intro j _
  cases j <;> rfl

/-- What may be missing is decoded as it is read when everything there is. -/
theorem Reads.optional {decode : Draft → Decoded α} {read : Json → Option α}
    (h : Reads decode read) : Reads (Draft.optional decode) (Json.optional? read) := by
  intro j hj
  have hread := h hj
  cases j with
  | null => rfl
  | _ =>
    rw [Json.optional?, ← hread]
    · change ((decode _).map some).toOption = _
      cases decode _ <;> rfl
    · exact nofun

/-- Something that may be missing and is there is read. -/
theorem eq_some_of_optional? {read : Json → Option α} {j : Json} {a : α}
    (h : Json.optional? read j = some (some a)) : read j = some a := by
  cases j with
  | null => cases h
  | _ =>
    change (read _).map some = _ at h
    obtain ⟨_, hread, heq⟩ := Option.map_eq_some_iff.mp h
    rw [hread, Option.some.inj heq]

/-- The items of a list are decoded in order as each of them is read. -/
theorem Reads.items {decode : Draft → Decoded α} {read : Json → Option α} (h : Reads decode read)
    {items : List Json} (hitems : CanonicalItems items) :
    (Draft.items decode (Draft.ofItems items)).toOption = items.mapM read := by
  induction items with
  | nil => rfl
  | cons item items ih =>
    rw [Draft.ofItems, Draft.items, List.mapM_cons, toOption_bind, h hitems.1]
    refine Option.bind_congr fun a _ => ?_
    rw [toOption_bind, ih hitems.2]
    rfl

/-- A list is decoded as its items are read. -/
theorem Reads.list {decode : Draft → Decoded α} {read : Json → Option α} (h : Reads decode read) :
    Reads (Draft.list decode) fun j => j.items?.bind fun items => items.mapM read := by
  intro j hj
  cases j with
  | arr items =>
    rw [Canonical] at hj
    change (_ >>= fun as => Json.afterFault none (.ok as)).toOption = _
    rw [toOption_bind, h.items hj]
    exact Option.bind_fun_some _
  | _ => rfl

/-- What is read of a modelled field: nothing when it is missing. -/
def found (name : String) (read : Json → Option α) (fields : Fields) : Option (Option α) :=
  match fields.get? name with
  | none => some none
  | some value => (read value).map some

/-- What decoding finds for a field is what is read of it. -/
theorem Reads.taken {decode : Draft → Decoded α} {read : Json → Option α} (h : Reads decode read)
    {fields : Fields} (hfields : CanonicalMembers fields) (name : String) :
    Partial.taken (some (name, decode)) none fields = found name read fields := by
  rw [Partial.taken, found]
  cases hvalue : fields.get? name with
  | none => rfl
  | some value => simp only [h (hfields.get? hvalue)]

/-- A field that must be given: its value is read. -/
theorem found_demand (name : String) (read : Json → Option α) (fields : Fields) :
    ((found name read fields).bind fun a => (Json.demand name a).toOption) =
      (fields.get? name).bind read := by
  rw [found]
  cases fields.get? name with
  | none => rfl
  | some value =>
    change ((read value).map some).bind _ = read value
    cases read value <;> rfl

/-- A field that may be missing: its value, or what stands for it, is read. -/
theorem found_getD (name : String) {read : Json → Option α} (missing : Json) {a : α}
    (h : read missing = some a) (fields : Fields) :
    ((found name read fields).bind fun b => (pure (b.getD a) : Decoded α).toOption) =
      read (fields.getD name missing) := by
  rw [found, Fields.getD]
  cases fields.get? name with
  | none => exact h.symm
  | some value =>
    change ((read value).map some).bind _ = read value
    cases read value <;> rfl

/-- A node with one modelled field is decoded as the field is looked up; all other fields are kept.
-/
theorem Reads.node {γ δ : Type} {decode : Draft → Decoded α} {read : Json → Option α}
    (h : Reads decode read) (title name : String) {finish : Option α → Decoded γ}
    {look : Fields → Option γ}
    (hfinish : ∀ fields, ((found name read fields).bind fun a => (finish a).toOption) = look fields)
    (make : γ → Fields → δ) :
    Reads
      (fun d => do
        let p : Partial α Unit ← Partial.ofDraft title [Partial.firstSlot name decode] d
        return make (← finish p.first) p.rest)
      fun j => do
        let fields ← j.fields?
        let a ← look fields
        return make a (fields.without [name]) := by
  intro j hj
  have hdraft := Partial.toOption_ofDraft (some (name, decode)) (none : Partial.Plan Unit) nofun
    title hj
  rw [toOption_bind]
  refine (congrArg (fun p => Option.bind p _) hdraft).trans ?_
  cases j with
  | obj fields =>
    rw [Canonical] at hj
    change ((Partial.taken _ none fields).bind _).bind _ = (look fields).bind _
    rw [h.taken hj.2, ← hfinish]
    cases found name read fields with
    | none => rfl
    | some a => exact toOption_bind _ _
  | _ => rfl

/-- A node with two modelled fields is decoded as both are looked up; all other fields are kept. -/
theorem Reads.node₂ {γ γ' δ : Type} {decode : Draft → Decoded α} {read : Json → Option α}
    (h : Reads decode read) {decode' : Draft → Decoded β} {read' : Json → Option β}
    (h' : Reads decode' read') (title : String) {name name' : String} (hne : name ≠ name')
    {finish : Option α → Decoded γ} {look : Fields → Option γ}
    (hfinish : ∀ fields, ((found name read fields).bind fun a => (finish a).toOption) = look fields)
    {finish' : Option β → Decoded γ'} {look' : Fields → Option γ'}
    (hfinish' : ∀ fields,
      ((found name' read' fields).bind fun b => (finish' b).toOption) = look' fields)
    (make : γ → γ' → Fields → δ) :
    Reads
      (fun d => do
        let p : Partial α β ←
          Partial.ofDraft title
            [Partial.firstSlot name decode, Partial.secondSlot name' decode'] d
        return make (← finish p.first) (← finish' p.second) p.rest)
      fun j => do
        let fields ← j.fields?
        let a ← look fields
        let b ← look' fields
        return make a b (fields.without [name, name']) := by
  intro j hj
  have hdistinct (n : String) (d : Draft → Decoded α) (d' : Draft → Decoded β)
      (heq : some (name, decode) = some (n, d)) : some (name', decode') ≠ some (n, d') := by
    intro heq'
    cases heq
    cases heq'
    exact hne rfl
  have hdraft := Partial.toOption_ofDraft _ _ hdistinct title hj
  rw [toOption_bind]
  refine (congrArg (fun p => Option.bind p _) hdraft).trans ?_
  cases j with
  | obj fields =>
    rw [Canonical] at hj
    change ((Partial.taken _ none fields).bind fun a =>
      (Partial.taken _ none fields).bind _).bind _ =
        (look fields).bind fun a => (look' fields).bind _
    rw [h.taken hj.2, h'.taken hj.2, ← hfinish, ← hfinish']
    cases found name read fields with
    | none => rfl
    | some a =>
      cases found name' read' fields with
      | none => exact (Option.bind_fun_none (finish a).toOption).symm
      | some b =>
        change (finish a >>= fun c => finish' b >>= fun c' => pure (make c c' _)).toOption = _
        rw [toOption_bind]
        exact Option.bind_congr fun c _ => toOption_bind _ _
  | _ => rfl

/-- A node without modelled fields is decoded as the fields of the object. -/
theorem reads_rest (title : String) : Reads (decodeRest title) Json.fields? := by
  intro j hj
  have hdraft := Partial.toOption_ofDraft (α := Unit) (β := Unit) none none nofun title hj
  have hslots : Partial.slots (none : Partial.Plan Unit) (none : Partial.Plan Unit) = [] := rfl
  rw [hslots] at hdraft
  rw [decodeRest, toOption_bind, hdraft]
  cases j with
  | obj fields => exact congrArg some (Fields.without_nil fields)
  | _ => rfl

/-- Identifiers are decoded as they are read. -/
theorem reads_identifier : Reads Identifier.decode Identifier.ofJson? :=
  reads_text.node "Identifier" "name" (found_demand "name" Json.text?) Identifier.mk

/-- Numbers of the source are decoded as they are read. -/
theorem reads_numericLiteral : Reads NumericLiteral.decode NumericLiteral.ofJson? :=
  reads_number.node "NumericLiteral" "value" (found_demand "value" Json.number?) NumericLiteral.mk

/-- Truth values of the source are decoded as they are read. -/
theorem reads_booleanLiteral : Reads BooleanLiteral.decode BooleanLiteral.ofJson? :=
  reads_boolean.node "BooleanLiteral" "value" (found_demand "value" Json.bool?) BooleanLiteral.mk

/-- Records of a source text are decoded as they are read, missing texts like empty ones. -/
theorem reads_literalExtra : Reads LiteralExtra.decode LiteralExtra.ofJson? :=
  reads_text.node₂ reads_text "LiteralExtra" (by decide) (found_getD "raw" (.str "") rfl)
    (found_getD "rawValue" (.str "") rfl) LiteralExtra.mk

/-- String literals are decoded as they are read, a missing record like null. -/
theorem reads_stringLiteral : Reads StringLiteral.decode StringLiteral.ofJson? :=
  reads_text.node₂ reads_literalExtra.optional "StringLiteral" (by decide)
    (found_demand "value" Json.text?) (found_getD "extra" .null rfl) StringLiteral.mk

/-- What is made of a node without modelled fields is made of the fields of the object. -/
theorem reads_make (title : String) (make : Fields → α) :
    Reads (fun d => do return make (← decodeRest title d)) fun j => j.fields?.map make := by
  intro j hj
  rw [toOption_bind, reads_rest title hj]
  exact Option.map_eq_bind.symm

/-- A canonical object has at most one member of a name, the one that is found under it. -/
theorem filter_ofMembers {fields : Fields} (h : Fields.Increasing fields) (name : String) :
    (Draft.ofMembers fields).filter (fun member => member.1 == name) =
      ((fields.get? name).map fun value => (name, Draft.ofValue value)).toList := by
  induction fields with
  | nil => rfl
  | cons member fields ih =>
    obtain ⟨n, v⟩ := member
    obtain ⟨hlt, hfields⟩ := Fields.increasing_cons.mp h
    rw [Draft.ofMembers, List.filter_cons, ih hfields, Fields.get?_cons]
    by_cases hname : n = name
    · rw [← hname, Fields.get?_of_lt hlt]
      simp
    · simp [hname]

/-- The members of an object of other names than one are those that are left without it. -/
theorem filter_ofMembers_ne (fields : Fields) (name : String) :
    (Draft.ofMembers fields).filter (fun member => member.1 != name) =
      Draft.ofMembers (fields.without [name]) := by
  induction fields with
  | nil => rfl
  | cons member fields ih =>
    obtain ⟨n, v⟩ := member
    rw [Draft.ofMembers, List.filter_cons, ih]
    by_cases hname : n = name
    · rw [Fields.without_cons_of_mem (List.mem_singleton.mpr hname)]
      simp [hname]
    · rw [Fields.without_cons_of_not_mem (mt List.mem_singleton.mp hname)]
      simp [hname, Draft.ofMembers]

/-- The kind that the tag of a canonical value says. -/
theorem kindOf?_ofValue {κ : Type} (kinds : List (String × κ)) (tag : Json) :
    kindOf? kinds (.ofValue tag) = tag.kindIn? kinds := by
  cases tag with
  | num n => cases n <;> rfl
  | _ => rfl

/-- A tagged object is read by its kind from the fields behind the tag. -/
theorem readTagged_obj {κ : Type} (kinds : List (String × κ)) (known : κ → Json → Option α)
    (verbatim : Json → α) (fields : Fields) :
    (Json.obj fields).readTagged kinds known verbatim =
      (((Json.obj fields).kind? kinds).bind fun kind =>
        known kind (.obj (fields.without ["type"]))).getD (verbatim (.obj fields)) := by
  change (Option.bind ((fields.get? "type").bind fun tag => (tag.kindIn? kinds).bind
    fun kind => some (kind, Json.obj (fields.without ["type"]))) fun node =>
      known node.1 node.2).getD _ = (((fields.get? "type").bind _).bind _).getD _
  rw [Option.bind_assoc, Option.bind_assoc]
  refine congrArg (fun found => Option.getD found _) (Option.bind_congr fun tag _ => ?_)
  rw [Option.bind_assoc]
  rfl

/-- The tag of a canonical value is split off its draft as it is off the value. -/
theorem splitTag?_ofValue {κ : Type} (kinds : List (String × κ)) {j : Json} (h : Canonical j) :
    splitTag? kinds (.ofValue j) =
      (j.tagged? kinds).map fun node => (node.1, .ofValue node.2) := by
  cases j with
  | obj fields =>
    rw [Canonical] at h
    rw [Draft.ofValue, splitTag?, filter_ofMembers h.1, filter_ofMembers_ne]
    change _ = ((Fields.get? "type" fields).bind fun tag => (tag.kindIn? kinds).bind _).map _
    cases Fields.get? "type" fields with
    | none => rfl
    | some tag =>
      change (kindOf? kinds (.ofValue tag)).map _ = _
      rw [kindOf?_ofValue, Option.bind_some]
      cases tag.kindIn? kinds <;> rfl
  | _ => rfl

/-- The inside of a canonical tagged value is canonical. -/
theorem canonical_of_tagged? {κ : Type} {kinds : List (String × κ)} {j : Json} (h : Canonical j)
    {node : κ × Json} (hnode : j.tagged? kinds = some node) : Canonical node.2 := by
  cases j with
  | obj fields =>
    rw [Canonical] at h
    change ((Fields.get? "type" fields).bind fun tag => (tag.kindIn? kinds).bind _) = _ at hnode
    obtain ⟨tag, -, hnode⟩ := Option.bind_eq_some_iff.mp hnode
    obtain ⟨kind, -, hnode⟩ := Option.bind_eq_some_iff.mp hnode
    obtain rfl := Option.some.inj hnode
    rw [Canonical]
    exact ⟨h.1.without _, h.2.without _⟩
  | _ => cases hnode

/-- Tagged nodes can always be decoded, as they are read: by kind where the value suits, and else
verbatim. -/
theorem reads_tagged {κ : Type} {kinds : List (String × κ)} {known : κ → Draft → Decoded α}
    {read : κ → Json → Option α} (h : ∀ kind, Reads (known kind) (read kind))
    (verbatim : Json → α) :
    Reads (decodeTagged kinds known verbatim)
      fun j => some (j.readTagged kinds read verbatim) := by
  intro j hj
  change _ = some (j.readTagged kinds read verbatim)
  rw [decodeTagged, Json.kept_ofValue hj, splitTag?_ofValue kinds hj, Json.readTagged]
  cases hnode : j.tagged? kinds with
  | none => rfl
  | some node =>
    have hread := h node.1 (canonical_of_tagged? hj hnode)
    rw [Option.bind_some, ← hread]
    simp only [Option.map_some]
    cases known node.1 (.ofValue node.2) <;> rfl

/-- What is made of a decoded value is made of the value that is read. -/
theorem Reads.map {decode : Draft → Decoded α} {read : Json → Option α} (h : Reads decode read)
    (f : α → β) : Reads (fun d => (decode d).map f) fun j => (read j).map f := by
  intro j hj
  change ((decode (.ofValue j)).map f).toOption = (read j).map f
  rw [← h hj]
  cases decode (.ofValue j) <;> rfl

/-- Patterns are decoded as they are read. -/
theorem reads_pattern : Reads Pattern.decode fun j => some (Pattern.ofJson j) :=
  reads_tagged (fun _ => reads_identifier.map Pattern.identifier) Pattern.verbatim

/-- Expressions are decoded as they are read, kind by kind. -/
theorem reads_expression : Reads Expression.decode fun j => some (Expression.ofJson j) := by
  refine reads_tagged (fun kind => ?_) Expression.verbatim
  cases kind with
  | string => exact reads_stringLiteral.map Expression.string
  | numeric => exact reads_numericLiteral.map Expression.numeric
  | boolean => exact reads_booleanLiteral.map Expression.boolean
  | null => exact (reads_make "NullLiteral" NullLiteral.mk).map Expression.null
  | identifier => exact reads_identifier.map Expression.identifier

/-- Where everything can be read, what is not null is read. -/
theorem optional?_some (read : Json → α) (j : Json) :
    Json.optional? (fun j => some (read j)) j = some (j.unlessNull read) := by
  cases j <;> rfl

/-- Where everything can be read, what may be missing is decoded as it is read. -/
theorem Reads.unlessNull {decode : Draft → Decoded α} {read : Json → α}
    (h : Reads decode fun j => some (read j)) :
    Reads (Draft.optional decode) fun j => some (j.unlessNull read) :=
  fun j hj => (h.optional hj).trans (optional?_some read j)

/-- Declarators are decoded as they are read, a missing initial value like null. -/
theorem reads_declarator : Reads Declarator.decode Declarator.ofJson? := by
  intro j hj
  have hread := reads_pattern.node₂ reads_expression.unlessNull "VariableDeclarator" (by decide)
    (found_demand "id" _) (found_getD "init" .null rfl) Declarator.mk hj
  refine hread.trans ?_
  cases j with
  | obj fields =>
    change ((Fields.get? "id" fields).bind fun id => some (Pattern.ofJson id)).bind _ =
      (Fields.get? "id" fields).bind _
    rw [Option.bind_assoc]
    rfl
  | _ => rfl

/-- A name chooses what stands behind it in the list of choices, if it is there. -/
theorem toOption_choose (choices : List (String × α)) (name : String) :
    (Json.choose choices name).toOption =
      (choices.find? fun choice => choice.1 == name).map Prod.snd := by
  rw [Json.choose]
  cases choices.find? fun choice => choice.1 == name <;> rfl

/-- Keywords are decoded as they are read. -/
theorem reads_variableKind : Reads (VariableKind.decode .held) VariableKind.ofJson? := by
  intro j _
  cases j with
  | str name => exact toOption_choose _ name
  | obj fields =>
    cases fields with
    | nil => rfl
    | cons member fields =>
      obtain ⟨name, value⟩ := member
      cases fields with
      | cons _ _ =>
        cases value with
        | obj members => cases members <;> rfl
        | _ => rfl
      | nil =>
        change (Json.choose VariableKind.choices name >>= fun kind =>
          Json.unit .held (.ofValue value) >>= fun _ => pure kind).toOption = _
        rw [toOption_bind, toOption_choose]
        cases value with
        | null => exact Option.bind_fun_some _
        | obj members =>
          cases members with
          | nil => exact Option.bind_fun_some _
          | cons member members => exact Option.bind_fun_none _
        | _ => exact Option.bind_fun_none _
  | _ => rfl

/-- Declarations of variables are decoded as they are read. -/
theorem reads_variableDeclaration :
    Reads (VariableDeclaration.decode .held) VariableDeclaration.ofJson? := by
  intro j hj
  have hread := reads_variableKind.node₂ reads_declarator.list "VariableDeclaration" (by decide)
    (found_demand "kind" _) (found_demand "declarations" _) VariableDeclaration.mk hj
  refine hread.trans ?_
  cases j with
  | obj fields =>
    change (Option.bind _ fun kind => ((Fields.get? "declarations" fields).bind fun value =>
      value.items?.bind fun items => items.mapM Declarator.ofJson?).bind _) = Option.bind _
        fun kind => ((Fields.get? "declarations" fields).bind Json.items?).bind _
    refine Option.bind_congr fun kind _ => ?_
    rw [Option.bind_assoc, Option.bind_assoc]
    refine Option.bind_congr fun value _ => ?_
    rw [Option.bind_assoc]
    rfl
  | _ => rfl

/-- Declarations are decoded as they are read, kind by kind. -/
theorem reads_declaration : Reads Declaration.decode fun j => some (Declaration.ofJson j) := by
  refine reads_tagged (fun kind => ?_) Declaration.verbatim
  cases kind with
  | bindings => exact reads_variableDeclaration.map Declaration.bindings
  | function =>
    exact (reads_make "FunctionDeclaration" FunctionDeclaration.mk).map Declaration.function
  | classes => exact (reads_make "ClassDeclaration" ClassDeclaration.mk).map Declaration.classes

/-- Exports are decoded as they are read, a missing declaration like null. -/
theorem reads_namedExport : Reads NamedExport.decode NamedExport.ofJson? :=
  reads_declaration.unlessNull.node "ExportNamedDeclaration" "declaration"
    (found_getD "declaration" .null rfl) NamedExport.mk

/-- Statements are decoded as they are read, kind by kind. -/
theorem reads_statement : Reads Statement.decode fun j => some (Statement.ofJson j) := by
  refine reads_tagged (fun kind => ?_) Statement.verbatim
  cases kind with
  | exporting => exact reads_namedExport.map Statement.exporting
  | bindings => exact reads_variableDeclaration.map Statement.bindings
  | function =>
    exact (reads_make "FunctionDeclaration" FunctionDeclaration.mk).map Statement.function
  | classes => exact (reads_make "ClassDeclaration" ClassDeclaration.mk).map Statement.classes

/-- Modules are decoded as they are read. -/
theorem reads_program : Reads Program.decode Program.ofJson? := by
  intro j hj
  have hread := reads_statement.list.node "Program" "body" (found_demand "body" _) Program.mk hj
  refine hread.trans ?_
  cases j with
  | obj fields =>
    change (((Fields.get? "body" fields).bind fun value =>
      value.items?.bind fun items => items.mapM fun j => some (Statement.ofJson j)).bind _) =
        ((Fields.get? "body" fields).bind Json.items?).bind _
    have hitems (items : List Json) : items.mapM (fun j => some (Statement.ofJson j)) =
      some (items.map Statement.ofJson) := List.mapM_pure
    simp only [hitems]
    rw [Option.bind_assoc, Option.bind_assoc]
    refine Option.bind_congr fun value _ => ?_
    rw [Option.bind_assoc]
    rfl
  | _ => rfl

/-! ## What a node was read from -/

/-- The items under a name are those of an array that stands there. -/
theorem bind_items?_eq_some_iff {fields : Fields} {name : String} {items : List Json} :
    (fields.get? name).bind Json.items? = some items ↔ fields.get? name = some (.arr items) := by
  cases fields.get? name with
  | none => exact ⟨nofun, nofun⟩
  | some value =>
    cases value with
    | arr found =>
      rw [Option.bind_some, Json.items?, Option.some.injEq, Option.some.injEq, Json.arr.injEq]
    | _ => exact ⟨nofun, nofun⟩

/-- A string literal was read from a text, a record of the source or none, and fields that it keeps.
-/
theorem of_stringLiteral_ofJson? {fields : Fields} {literal : StringLiteral}
    (h : StringLiteral.ofJson? (.obj fields) = some literal) :
    (fields.get? "value").bind Json.text? = some literal.value ∧
      Json.optional? LiteralExtra.ofJson? (fields.getD "extra" .null) = some literal.extra ∧
      literal.rest = fields.without ["value", "extra"] := by
  change ((fields.get? "value").bind Json.text?).bind _ = _ at h
  obtain ⟨value, hvalue, h⟩ := Option.bind_eq_some_iff.mp h
  obtain ⟨extra, hextra, h⟩ := Option.bind_eq_some_iff.mp h
  obtain rfl := Option.some.inj h
  exact ⟨hvalue, hextra, rfl⟩

/-- A declarator was read from an object that says what is bound, an initial value or none, and
fields that it keeps. -/
theorem of_declarator_ofJson? {j : Json} {d : Declarator} (h : Declarator.ofJson? j = some d) :
    ∃ fields id, j = .obj fields ∧ Fields.get? "id" fields = some id ∧
      d = ⟨.ofJson id, (Fields.getD fields "init" .null).unlessNull Expression.ofJson,
        Fields.without ["id", "init"] fields⟩ := by
  cases j with
  | obj fields =>
    change (Fields.get? "id" fields).bind _ = _ at h
    obtain ⟨id, hid, h⟩ := Option.bind_eq_some_iff.mp h
    exact ⟨fields, id, rfl, hid, (Option.some.inj h).symm⟩
  | _ => cases h

/-- A declaration of variables was read from a list of declarators and fields that it keeps. -/
theorem of_variableDeclaration_ofJson? {fields : Fields} {node : VariableDeclaration}
    (h : VariableDeclaration.ofJson? (.obj fields) = some node) :
    ∃ items, fields.get? "declarations" = some (.arr items) ∧
      items.mapM Declarator.ofJson? = some node.declarators ∧
      node.rest = fields.without ["kind", "declarations"] := by
  change ((fields.get? "kind").bind VariableKind.ofJson?).bind _ = _ at h
  obtain ⟨kind, -, h⟩ := Option.bind_eq_some_iff.mp h
  obtain ⟨items, hitems, h⟩ := Option.bind_eq_some_iff.mp h
  obtain ⟨ds, hds, h⟩ := Option.bind_eq_some_iff.mp h
  obtain rfl := Option.some.inj h
  exact ⟨items, bind_items?_eq_some_iff.mp hitems, hds, rfl⟩

/-- A module was read from an object with a list of statements and fields that it keeps. -/
theorem of_program_ofJson? {j : Json} {p : Program} (h : Program.ofJson? j = some p) :
    ∃ fields items, j = .obj fields ∧ Fields.get? "body" fields = some (.arr items) ∧
      p = ⟨items.map Statement.ofJson, Fields.without ["body"] fields⟩ := by
  cases j with
  | obj fields =>
    change ((Fields.get? "body" fields).bind Json.items?).bind _ = _ at h
    obtain ⟨items, hitems, h⟩ := Option.bind_eq_some_iff.mp h
    exact ⟨fields, items, rfl, bind_items?_eq_some_iff.mp hitems, (Option.some.inj h).symm⟩
  | _ => cases h

end SelfNamed
