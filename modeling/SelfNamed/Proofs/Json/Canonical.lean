import SelfNamed.Json.Decode
import SelfNamed.Proofs.Json.Fields

/-!
# Canonical values

What a draft means, and with it what a text means, is canonical, and so is every canonical form. The
other way round a canonical value is its own canonical form and is what its draft means. Both
directions go by induction on the value together with its items and members.
-/

namespace SelfNamed.Json

/-- Items are canonical when each of them is. -/
theorem canonicalItems_iff {items : List Json} :
    CanonicalItems items ↔ ∀ item ∈ items, Canonical item := by
  induction items with
  | nil => simp [CanonicalItems]
  | cons item items ih => simp [CanonicalItems, ih]

/-- Members are canonical when each of their values is. -/
theorem canonicalMembers_iff {members : Fields} :
    CanonicalMembers members ↔ ∀ member ∈ members, Canonical member.2 := by
  induction members with
  | nil => simp [CanonicalMembers]
  | cons member members ih => simp [CanonicalMembers, ih]

/-- An object is canonical when its names increase and its values are canonical. -/
theorem canonical_obj {members : Fields} :
    Canonical (.obj members) ↔ Fields.Increasing members ∧ CanonicalMembers members := by
  rw [Canonical]

/-- What is found among canonical members is canonical. -/
theorem CanonicalMembers.get? {members : Fields} (h : CanonicalMembers members) {name : String}
    {value : Json} (hvalue : members.get? name = some value) : Canonical value :=
  canonicalMembers_iff.mp h (name, value) (Fields.mem_of_get? hvalue)

/-- The items of an array in a canonical object are canonical. -/
theorem CanonicalMembers.get?_items {members : Fields} (h : CanonicalMembers members)
    {name : String} {items : List Json} (hitems : members.get? name = some (.arr items)) :
    ∀ item ∈ items, Canonical item := by
  have hcanonical := h.get? hitems
  rw [Canonical] at hcanonical
  exact canonicalItems_iff.mp hcanonical

/-- Members that are left of canonical members are canonical. -/
theorem CanonicalMembers.without {members : Fields} (h : CanonicalMembers members)
    (names : List String) : CanonicalMembers (members.without names) :=
  canonicalMembers_iff.mpr fun member hmember =>
    canonicalMembers_iff.mp h member (List.mem_of_mem_filter hmember)

/-- Canonical members put into canonical fields leave canonical fields. -/
theorem CanonicalMembers.insertInto {members fields : Fields} (h : CanonicalMembers members)
    (hfields : CanonicalMembers fields) : CanonicalMembers (members.insertInto fields) := by
  refine canonicalMembers_iff.mpr fun member hmember => ?_
  obtain hnew | hold := Fields.mem_insertInto hmember
  · exact canonicalMembers_iff.mp h member hnew
  · exact canonicalMembers_iff.mp hfields member hold

/-- Canonical members in order make a canonical object. -/
theorem canonical_ofMembers {members : Fields} (h : CanonicalMembers members) :
    Canonical (.obj (Fields.ofMembers members)) :=
  ⟨Fields.increasing_ofMembers members, h.insertInto (show CanonicalMembers [] from trivial)⟩

mutual

/-- A canonical form is canonical. -/
theorem canonical_sorted : (j : Json) → Canonical j.sorted
  | .arr items => by
    rw [sorted, Canonical]
    exact canonicalItems_sortedItems items
  | .obj members => by
    rw [sorted]
    exact canonical_ofMembers (canonicalMembers_sortedMembers members)
  | .null => trivial
  | .bool _ => trivial
  | .num _ => trivial
  | .str _ => trivial

/-- The canonical forms of items are canonical. -/
theorem canonicalItems_sortedItems : (items : List Json) → CanonicalItems (sortedItems items)
  | [] => trivial
  | item :: items => ⟨canonical_sorted item, canonicalItems_sortedItems items⟩

/-- Members with canonical forms as values are canonical. -/
theorem canonicalMembers_sortedMembers :
    (members : List (String × Json)) → CanonicalMembers (sortedMembers members)
  | [] => trivial
  | (_, value) :: members => ⟨canonical_sorted value, canonicalMembers_sortedMembers members⟩

end

mutual

/-- A canonical value is its own canonical form. -/
theorem sorted_of_canonical : {j : Json} → Canonical j → j.sorted = j
  | .arr items, h => by
    rw [Canonical] at h
    rw [sorted, sortedItems_of_canonical h]
  | .obj members, h => by
    rw [Canonical] at h
    rw [sorted, sortedMembers_of_canonical h.2, h.1.ofMembers_eq]
  | .null, _ => rfl
  | .bool _, _ => rfl
  | .num _, _ => rfl
  | .str _, _ => rfl

/-- Canonical items are their own canonical forms. -/
theorem sortedItems_of_canonical : {items : List Json} → CanonicalItems items →
    sortedItems items = items
  | [], _ => rfl
  | _ :: _, h => by rw [sortedItems, sorted_of_canonical h.1, sortedItems_of_canonical h.2]

/-- The values of canonical members are their own canonical forms. -/
theorem sortedMembers_of_canonical : {members : List (String × Json)} → CanonicalMembers members →
    sortedMembers members = members
  | [], _ => rfl
  | _ :: _, h => by rw [sortedMembers, sorted_of_canonical h.1, sortedMembers_of_canonical h.2]

end

mutual

/-- A canonical value is what its draft means. -/
theorem value_ofValue : {j : Json} → Canonical j → (Draft.ofValue j).value = .ok j
  | .arr items, h => by
    rw [Canonical] at h
    rw [Draft.ofValue, Draft.value, itemValues_ofItems h]
    rfl
  | .obj members, h => by
    rw [Canonical] at h
    rw [Draft.ofValue, Draft.value, memberValues_ofMembers h.2]
    have hvalue : Fields.ofMembers members = members := h.1.ofMembers_eq
    change Except.ok (obj (Fields.ofMembers members)) = Except.ok (obj members)
    rw [hvalue]
  | .null, _ => rfl
  | .bool _, _ => rfl
  | .num _, _ => rfl
  | .str _, _ => rfl

/-- Canonical items are what their drafts mean. -/
theorem itemValues_ofItems : {items : List Json} → CanonicalItems items →
    Draft.itemValues (Draft.ofItems items) = .ok items
  | [], _ => rfl
  | _ :: _, h => by
    rw [Draft.ofItems, Draft.itemValues, value_ofValue h.1, itemValues_ofItems h.2]
    rfl

/-- Canonical members are what their drafts mean. -/
theorem memberValues_ofMembers : {members : List (String × Json)} → CanonicalMembers members →
    Draft.memberValues (Draft.ofMembers members) = .ok members
  | [], _ => rfl
  | _ :: _, h => by
    rw [Draft.ofMembers, Draft.memberValues, value_ofValue h.1, memberValues_ofMembers h.2]
    rfl

end

/-- A canonical value is kept as it is. -/
theorem kept_ofValue {j : Json} (h : Canonical j) : (Draft.ofValue j).kept = .ok j := by
  rw [Draft.kept, value_ofValue h]

/-- A draft that is settled has no fault. -/
theorem eq_of_settle {α : Type} {stop : Option Fault} {result a : α}
    (h : Draft.settle stop result = .ok a) : result = a := by
  cases stop with
  | none => exact Except.ok.inj h
  | some fault => cases h

mutual

/-- What a draft means is canonical. -/
theorem canonical_value : {d : Draft} → {j : Json} → d.value = .ok j → Canonical j
  | .arr _ items stop, j, h => by
    rw [Draft.value] at h
    cases hitems : Draft.itemValues items with
    | error fault => rw [hitems] at h; cases h
    | ok values =>
      rw [hitems] at h
      obtain rfl : arr values = j := eq_of_settle h
      rw [Canonical]
      exact canonicalItems_itemValues hitems
  | .obj _ members stop, j, h => by
    rw [Draft.value] at h
    cases hmembers : Draft.memberValues members with
    | error fault => rw [hmembers] at h; cases h
    | ok values =>
      rw [hmembers] at h
      obtain rfl : obj (Fields.ofMembers values) = j := eq_of_settle h
      exact canonical_ofMembers (canonicalMembers_memberValues hmembers)
  | .null _, _, h => by cases h; trivial
  | .bool _ _, _, h => by cases h; trivial
  | .num _ _, _, h => by cases h; trivial
  | .str _ _, _, h => by cases h; trivial
  | .bad _ _, _, h => by cases h
  | .cut _, _, h => by cases h

/-- What the drafts of items mean is canonical. -/
theorem canonicalItems_itemValues : {items : List Draft} → {values : List Json} →
    Draft.itemValues items = .ok values → CanonicalItems values
  | [], _, h => by cases h; trivial
  | item :: items, values, h => by
    rw [Draft.itemValues] at h
    cases hitem : item.value with
    | error fault => rw [hitem] at h; cases h
    | ok value =>
      cases hitems : Draft.itemValues items with
      | error fault => rw [hitem, hitems] at h; cases h
      | ok later =>
        rw [hitem, hitems] at h
        obtain rfl : value :: later = values := Except.ok.inj h
        exact ⟨canonical_value hitem, canonicalItems_itemValues hitems⟩

/-- What the drafts of members mean is canonical. -/
theorem canonicalMembers_memberValues : {members : List (String × Draft)} →
    {values : List (String × Json)} → Draft.memberValues members = .ok values →
    CanonicalMembers values
  | [], _, h => by cases h; trivial
  | (name, member) :: members, values, h => by
    rw [Draft.memberValues] at h
    cases hmember : member.value with
    | error fault => rw [hmember] at h; cases h
    | ok value =>
      cases hmembers : Draft.memberValues members with
      | error fault => rw [hmember, hmembers] at h; cases h
      | ok later =>
        rw [hmember, hmembers] at h
        obtain rfl : (name, value) :: later = values := Except.ok.inj h
        exact ⟨canonical_value hmember, canonicalMembers_memberValues hmembers⟩

end

/-- What a text means is canonical. -/
theorem canonical_read {depth : Option Nat} {text : List Char} {j : Json}
    (h : read depth text = .ok j) : Canonical j := by
  rw [read] at h
  cases hvalue : (readDraft depth text).1.value with
  | error fault => simp only [hvalue] at h; cases h
  | ok value =>
    simp only [hvalue] at h
    obtain rfl : value = j := eq_of_settle h
    exact canonical_value hvalue

end SelfNamed.Json
