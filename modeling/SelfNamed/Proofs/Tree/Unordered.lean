import SelfNamed.Proofs.Tree.Partial

/-!
# Decoding without regard to the order of members

Decoding straight from a text meets the members of an object as they are written, decoding from a
value meets them in the order of their names. Where no object repeats a name, this makes no
difference: a tag is found wherever it stands, a field is looked up, and the other fields are put in
the order of their names. Main statement: every decoder of the tree gives the same for reordered
drafts, errors left out.
-/

namespace SelfNamed

open Json (Decoded Draft Fields)
open Json.Draft (Reordered ReorderedItems ReorderedMembers DistinctNames DistinctNamesItems
  DistinctNamesMembers)

/-- A decoder gives the same, errors left out, whatever order the members are written in. -/
def IgnoresOrder {α : Type} (decode : Draft → Decoded α) : Prop :=
  ∀ ⦃d e⦄, Reordered d e → d.DistinctNames → (decode d).toOption = (decode e).toOption

variable {α β : Type}

/-- Decoding a text has nothing to do with the order of members. -/
theorem ignoresOrder_text : IgnoresOrder Draft.text := by
  intro d e h _
  cases h <;> rfl

/-- Decoding a number has nothing to do with the order of members. -/
theorem ignoresOrder_number : IgnoresOrder Draft.number := by
  intro d e h _
  cases h <;> rfl

/-- Decoding a truth value has nothing to do with the order of members. -/
theorem ignoresOrder_boolean : IgnoresOrder Draft.boolean := by
  intro d e h _
  cases h <;> rfl

/-- A decoder that ignores the order of members does so with anything behind it that sees its
outcome only. -/
theorem IgnoresOrder.bind {decode : Draft → Decoded α} (h : IgnoresOrder decode)
    (f : α → Decoded β) : IgnoresOrder fun d => decode d >>= f := by
  intro d e hreordered hnames
  rw [toOption_bind, toOption_bind, h hreordered hnames]

/-- What is made of something that is decoded. -/
theorem IgnoresOrder.map {decode : Draft → Decoded α} (h : IgnoresOrder decode) (f : α → β) :
    IgnoresOrder fun d => (decode d).map f := by
  have hmap : (fun d => (decode d).map f) = fun d => decode d >>= fun a => pure (f a) := by
    funext d
    cases decode d <;> rfl
  rw [hmap]
  exact h.bind _

/-- Decoding what may be missing ignores the order of members when decoding what is there does. -/
theorem IgnoresOrder.optional {decode : Draft → Decoded α} (h : IgnoresOrder decode) :
    IgnoresOrder (Draft.optional decode) := by
  intro d e hreordered hnames
  have hsome := h.map some hreordered hnames
  cases hreordered with
  | null => rfl
  | _ => exact hsome

/-- Items that say the same are decoded alike when the decoder of an item ignores the order of
members. -/
theorem IgnoresOrder.items {decode : Draft → Decoded α} (h : IgnoresOrder decode)
    {items others : List Draft} (hreordered : ReorderedItems items others)
    (hnames : DistinctNamesItems items) :
    (Draft.items decode items).toOption = (Draft.items decode others).toOption := by
  induction items generalizing others with
  | nil =>
    cases hreordered
    rfl
  | cons item items ih =>
    cases hreordered with
    | cons hfirst hrest =>
      rw [Draft.items, Draft.items, toOption_bind, toOption_bind, h hfirst hnames.1]
      refine Option.bind_congr fun a _ => ?_
      rw [toOption_bind, toOption_bind, ih hrest hnames.2]

/-- Decoding a list ignores the order of members when decoding an item does. -/
theorem IgnoresOrder.list {decode : Draft → Decoded α} (h : IgnoresOrder decode) :
    IgnoresOrder (Draft.list decode) := by
  intro d e hreordered hnames
  cases hreordered with
  | arr _ _ hitems =>
    rw [DistinctNames] at hnames
    rw [Draft.list, Draft.list, toOption_bind, toOption_bind, h.items hitems hnames]
  | _ => rfl

/-! ## Fields -/

/-- A field is found alike in members that say the same one by one. -/
theorem takenFrom_reordered {decode : Draft → Decoded α} (h : IgnoresOrder decode) (name : String)
    {members others : List (String × Draft)} (hreordered : ReorderedMembers members others)
    (hnames : DistinctNamesMembers members) (before : Option α) :
    Partial.takenFrom (some (name, decode)) before members =
      Partial.takenFrom (some (name, decode)) before others := by
  induction members generalizing others with
  | nil =>
    cases hreordered
    rfl
  | cons member members ih =>
    cases hreordered with
    | cons n hfirst hrest =>
      by_cases hname : n = name
      · rw [Partial.takenFrom, Partial.takenFrom, List.find?_cons_of_pos (by simpa using hname),
          List.find?_cons_of_pos (by simpa using hname)]
        exact congrArg (Option.map some) (h hfirst hnames.1)
      · have hne : ∀ decode', some (name, decode) ≠ some (n, decode') := by
          rintro _ heq
          cases heq
          exact hname rfl
        rw [Partial.takenFrom_cons_of_ne hne, Partial.takenFrom_cons_of_ne hne, ih hrest hnames.2]

/-- The decoder of a modelled field, if there is one, ignores the order of members. -/
def FieldIgnoresOrder (plan : Partial.Plan α) : Prop :=
  ∀ name decode, plan = some (name, decode) → IgnoresOrder decode

/-- A field is found alike in reordered members. -/
theorem FieldIgnoresOrder.takenFrom {plan : Partial.Plan α} (h : FieldIgnoresOrder plan)
    {members between others : List (String × Draft)}
    (hreordered : ReorderedMembers members between) (hperm : between.Perm others)
    (hnames : (members.map Prod.fst).Nodup) (hinside : DistinctNamesMembers members)
    (before : Option α) :
    Partial.takenFrom plan before members = Partial.takenFrom plan before others := by
  cases plan with
  | none => rfl
  | some field =>
    obtain ⟨name, decode⟩ := field
    rw [takenFrom_reordered (h name decode rfl) name hreordered hinside]
    rw [hreordered.map_fst] at hnames
    rw [Partial.takenFrom, Partial.takenFrom, Draft.find?_eq_of_perm hperm hnames]

/-- Splitting a node into its modelled fields and the others ignores the order of members when the
decoders of the modelled fields do. -/
theorem ignoresOrder_ofDraft {first : Partial.Plan α} {second : Partial.Plan β}
    (hfirst : FieldIgnoresOrder first) (hsecond : FieldIgnoresOrder second)
    (hdistinct : ∀ name decode decode', first = some (name, decode) → second ≠ some (name, decode'))
    (title : String) : IgnoresOrder (Partial.ofDraft title (Partial.slots first second)) := by
  intro d e hreordered hnames
  cases hreordered with
  | obj s t hmembers hperm =>
    rw [DistinctNames] at hnames
    obtain ⟨fields, hvalues, hvalues'⟩ := hmembers.memberValues hnames.2
    obtain ⟨permuted, hpermuted, hfields⟩ := Draft.memberValues_of_perm hperm hvalues'
    have hothers := (hperm.map Prod.fst).nodup_iff.mp (hmembers.map_fst ▸ hnames.1)
    have hrest : ((Fields.without (Partial.names first second) fields).map Prod.fst).Nodup := by
      have hall := hnames.1
      rw [← Draft.map_fst_of_memberValues hvalues] at hall
      exact hall.sublist (List.filter_sublist.map Prod.fst)
    have hperm' : (Fields.without (Partial.names first second) fields).Perm
        (Fields.without (Partial.names first second) permuted) := hfields.filter _
    rw [Partial.toOption_ofDraft_obj _ _ hdistinct title s hvalues hnames.1,
      Partial.toOption_ofDraft_obj _ _ hdistinct title t hpermuted hothers,
      hfirst.takenFrom hmembers hperm hnames.1 hnames.2,
      hsecond.takenFrom hmembers hperm hnames.1 hnames.2,
      Fields.ofMembers_eq_of_perm hrest hperm']
  | _ => rfl

/-- A plan without a field has no decoder that could see the order. -/
theorem fieldIgnoresOrder_none : FieldIgnoresOrder (none : Partial.Plan α) :=
  fun _ _ heq => nomatch heq

/-- A plan with a field ignores the order of members when the decoder of the field does. -/
theorem IgnoresOrder.plan {decode : Draft → Decoded α} (h : IgnoresOrder decode) (name : String) :
    FieldIgnoresOrder (some (name, decode)) := by
  rintro _ _ heq
  cases heq
  exact h

/-- Decoding a node with one modelled field ignores the order of members when decoding the field
does. -/
theorem IgnoresOrder.field {decode : Draft → Decoded α} (h : IgnoresOrder decode)
    (title name : String) :
    IgnoresOrder (Partial.ofDraft (β := Unit) title [Partial.firstSlot name decode]) :=
  ignoresOrder_ofDraft (h.plan name) fieldIgnoresOrder_none (fun _ _ _ _ heq => nomatch heq) title

/-- Decoding a node with two modelled fields ignores the order of members when decoding both fields
does. -/
theorem IgnoresOrder.fields {decode : Draft → Decoded α} {decode' : Draft → Decoded β}
    (h : IgnoresOrder decode) (h' : IgnoresOrder decode') (title : String) {name name' : String}
    (hne : name ≠ name') :
    IgnoresOrder
      (Partial.ofDraft title
        [Partial.firstSlot name decode, Partial.secondSlot name' decode']) := by
  refine ignoresOrder_ofDraft (h.plan name) (h'.plan name') ?_ title
  rintro n d d' heq heq'
  cases heq
  cases heq'
  exact hne rfl

/-- Decoding a node without modelled fields ignores the order of members, since the fields that are
kept are put in order. -/
theorem ignoresOrder_rest (title : String) : IgnoresOrder (decodeRest title) :=
  (ignoresOrder_ofDraft (α := Unit) (β := Unit) fieldIgnoresOrder_none fieldIgnoresOrder_none
    (fun _ _ _ heq => nomatch heq) title).bind _

/-! ## Tags -/

/-- Reordered tags say the same kind. -/
theorem kindOf?_reordered {κ : Type} (kinds : List (String × κ)) {d e : Draft}
    (h : Reordered d e) : kindOf? kinds d = kindOf? kinds e := by
  cases h with
  | num s t n => cases n <;> rfl
  | _ => rfl

/-- Of reordered objects the tag is split off both or off none; the kind is the same and what is
left is reordered. -/
theorem splitTag?_reordered {κ : Type} (kinds : List (String × κ)) {d e : Draft}
    (h : Reordered d e) (hnames : d.DistinctNames) :
    (splitTag? kinds d = none ∧ splitTag? kinds e = none) ∨
      ∃ kind inner inner', splitTag? kinds d = some (kind, inner) ∧
        splitTag? kinds e = some (kind, inner') ∧ Reordered inner inner' ∧ inner.DistinctNames := by
  cases h with
  | @obj s t members between others hmembers hperm =>
    rw [DistinctNames] at hnames
    have hbetween := hnames.1
    rw [hmembers.map_fst] at hbetween
    have htags := hmembers.filter fun name => name == "type"
    rw [Draft.filter_eq_of_perm hperm hbetween] at htags
    have hinner : Reordered (.obj s (members.filter fun member => member.1 != "type") none)
        (.obj t (others.filter fun member => member.1 != "type") none) :=
      .obj s t (hmembers.filter (· != "type")) (hperm.filter _)
    have hinside :
        (Draft.obj s (members.filter fun member => member.1 != "type") none).DistinctNames :=
      ⟨hnames.1.sublist (List.filter_sublist.map _), hnames.2.filter (· != "type")⟩
    rw [splitTag?, splitTag?]
    revert htags
    generalize members.filter (fun member => member.1 == "type") = tags
    generalize others.filter (fun member => member.1 == "type") = tags'
    intro htags
    cases htags with
    | nil => exact Or.inl ⟨rfl, rfl⟩
    | cons _ htag hrest =>
      cases hrest with
      | cons => exact Or.inl ⟨rfl, rfl⟩
      | nil =>
        simp only [kindOf?_reordered kinds htag]
        cases kindOf? kinds _ with
        | none => exact Or.inl ⟨rfl, rfl⟩
        | some kind => exact Or.inr ⟨kind, _, _, rfl, rfl, hinner, hinside⟩
  | _ => exact Or.inl ⟨rfl, rfl⟩

/-- A tagged node is what its kind makes of it, and the value verbatim where that is nothing. -/
theorem toOption_decodeTagged {κ : Type} (kinds : List (String × κ)) (known : κ → Draft → Decoded α)
    (verbatim : Json → α) (d : Draft) :
    (decodeTagged kinds known verbatim d).toOption = d.kept.toOption.map fun j =>
      ((splitTag? kinds d).bind fun node => (known node.1 node.2).toOption).getD (verbatim j) := by
  rw [decodeTagged, toOption_bind]
  cases d.kept with
  | error fault => rfl
  | ok j =>
    cases splitTag? kinds d with
    | none => rfl
    | some node =>
      obtain ⟨kind, inner⟩ := node
      have hsome : (Except.ok j : Decoded Json).toOption = some j := rfl
      cases hknown : known kind inner with
      | error fault =>
        simp only [hsome, Option.bind_some, Option.map_some, hknown]
        rfl
      | ok node =>
        simp only [hsome, Option.bind_some, Option.map_some, hknown]
        rfl

/-- Tagged nodes: what suits a kind and what is kept verbatim. -/
theorem ignoresOrder_tagged {κ : Type} (kinds : List (String × κ)) {known : κ → Draft → Decoded α}
    (h : ∀ kind, IgnoresOrder (known kind)) (verbatim : Json → α) :
    IgnoresOrder (decodeTagged kinds known verbatim) := by
  intro d e hreordered hnames
  obtain ⟨j, hvalue, hvalue'⟩ := hreordered.value hnames
  have hkept : d.kept = .ok j := by rw [Draft.kept, hvalue]
  have hkept' : e.kept = .ok j := by rw [Draft.kept, hvalue']
  rw [toOption_decodeTagged, toOption_decodeTagged, hkept, hkept']
  obtain ⟨hnone, hnone'⟩ | ⟨kind, inner, inner', hsome, hsome', hinner, hinside⟩ :=
    splitTag?_reordered kinds hreordered hnames
  · rw [hnone, hnone']
  · rw [hsome, hsome', Option.bind_some, Option.bind_some, h kind hinner hinside]

/-! ## Nodes -/

/-- Decoding an identifier ignores the order of members. -/
theorem ignoresOrder_identifier : IgnoresOrder Identifier.decode :=
  (ignoresOrder_text.field "Identifier" "name").bind _

/-- Decoding the record of a source text ignores the order of members. -/
theorem ignoresOrder_literalExtra : IgnoresOrder LiteralExtra.decode :=
  (ignoresOrder_text.fields ignoresOrder_text "LiteralExtra" (by decide)).bind _

/-- Decoding a string literal ignores the order of members. -/
theorem ignoresOrder_stringLiteral : IgnoresOrder StringLiteral.decode :=
  (ignoresOrder_text.fields ignoresOrder_literalExtra.optional "StringLiteral" (by decide)).bind _

/-- Decoding a number of the source ignores the order of members. -/
theorem ignoresOrder_numericLiteral : IgnoresOrder NumericLiteral.decode :=
  (ignoresOrder_number.field "NumericLiteral" "value").bind _

/-- Decoding a truth value of the source ignores the order of members. -/
theorem ignoresOrder_booleanLiteral : IgnoresOrder BooleanLiteral.decode :=
  (ignoresOrder_boolean.field "BooleanLiteral" "value").bind _

/-- Decoding a pattern ignores the order of members, wherever the tag stands. -/
theorem ignoresOrder_pattern : IgnoresOrder Pattern.decode :=
  ignoresOrder_tagged _ (fun _ => ignoresOrder_identifier.map _) _

/-- Decoding an expression ignores the order of members, wherever the tag stands. -/
theorem ignoresOrder_expression : IgnoresOrder Expression.decode := by
  refine ignoresOrder_tagged _ (fun kind => ?_) _
  cases kind with
  | string => exact ignoresOrder_stringLiteral.map _
  | numeric => exact ignoresOrder_numericLiteral.map _
  | boolean => exact ignoresOrder_booleanLiteral.map _
  | null => exact ((ignoresOrder_rest _).bind _).map _
  | identifier => exact ignoresOrder_identifier.map _

/-- Decoding a declarator ignores the order of members. -/
theorem ignoresOrder_declarator : IgnoresOrder Declarator.decode :=
  (ignoresOrder_pattern.fields ignoresOrder_expression.optional "VariableDeclarator"
    (by decide)).bind _

/-- Decoding what stands for a choice inside a tagged node ignores the order of members: it may have
none. -/
theorem ignoresOrder_unit : IgnoresOrder (Json.unit .held) := by
  intro d e h _
  cases h with
  | @obj s t members between others hmembers hperm =>
    cases hmembers with
    | nil =>
      rw [List.nil_perm.mp hperm]
      rfl
    | cons =>
      cases others with
      | nil => cases List.perm_nil.mp hperm
      | cons => rfl
  | _ => rfl

/-- Decoding a keyword inside a tagged node ignores the order of members: an object says one only
with a single name, and that stays the only one in any order. -/
theorem ignoresOrder_variableKind : IgnoresOrder (VariableKind.decode .held) := by
  intro d e h hnames
  cases h with
  | @obj s t members between others hmembers hperm =>
    rw [DistinctNames] at hnames
    cases hmembers with
    | nil =>
      rw [List.nil_perm.mp hperm]
      rfl
    | cons name hvalue hrest =>
      cases hrest with
      | nil =>
        obtain rfl := List.perm_singleton.mp hperm.symm
        have hsingle (start : List Char) (value : Draft) :
            VariableKind.decode .held (.obj start [(name, value)] none) =
              Json.choose VariableKind.choices name >>= fun a =>
                Json.unit .held value >>= fun _ => pure a := rfl
        rw [hsingle, hsingle, toOption_bind, toOption_bind]
        refine Option.bind_congr fun a _ => ?_
        rw [toOption_bind, toOption_bind, ignoresOrder_unit hvalue hnames.2.1]
      | cons =>
        cases others with
        | nil => cases List.perm_nil.mp hperm
        | cons _ others =>
          cases others with
          | nil => cases List.perm_singleton.mp hperm
          | cons => rfl
  | _ => rfl

/-- Decoding a declaration of variables ignores the order of members. -/
theorem ignoresOrder_variableDeclaration : IgnoresOrder (VariableDeclaration.decode .held) :=
  (ignoresOrder_variableKind.fields ignoresOrder_declarator.list "VariableDeclaration"
    (by decide)).bind _

/-- Decoding a declaration ignores the order of members, wherever the tag stands. -/
theorem ignoresOrder_declaration : IgnoresOrder Declaration.decode := by
  refine ignoresOrder_tagged _ (fun kind => ?_) _
  cases kind with
  | bindings => exact ignoresOrder_variableDeclaration.map _
  | function => exact ((ignoresOrder_rest _).bind _).map _
  | classes => exact ((ignoresOrder_rest _).bind _).map _

/-- Decoding an export ignores the order of members. -/
theorem ignoresOrder_namedExport : IgnoresOrder NamedExport.decode :=
  (ignoresOrder_declaration.optional.field "ExportNamedDeclaration" "declaration").bind _

/-- Decoding a statement ignores the order of members, wherever the tag stands. -/
theorem ignoresOrder_statement : IgnoresOrder Statement.decode := by
  refine ignoresOrder_tagged _ (fun kind => ?_) _
  cases kind with
  | exporting => exact ignoresOrder_namedExport.map _
  | bindings => exact ignoresOrder_variableDeclaration.map _
  | function => exact ((ignoresOrder_rest _).bind _).map _
  | classes => exact ((ignoresOrder_rest _).bind _).map _

/-- Decoding a module ignores the order of members. -/
theorem ignoresOrder_program : IgnoresOrder Program.decode :=
  (ignoresOrder_statement.list.field "Program" "body").bind _

/-- A decoder that ignores the order of members succeeds on reordered drafts alike, with the same.
-/
theorem IgnoresOrder.eq_ok_iff {decode : Draft → Decoded α} (h : IgnoresOrder decode) {d e : Draft}
    (hreordered : Reordered d e) (hnames : d.DistinctNames) {a : α} :
    decode d = .ok a ↔ decode e = .ok a := by
  rw [← toOption_eq_some_iff, ← toOption_eq_some_iff, h hreordered hnames]

end SelfNamed
