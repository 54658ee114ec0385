import Mathlib.Data.List.Perm.Basic
import SelfNamed.Proofs.Json.Canonical

/-!
# Drafts with their members in another order

A draft has the members of an object as they are written. When no name is written twice in an
object, bringing its members into order only permutes them, so a draft means the same value in
whatever order its members are written. Main statement: a draft without faults in which no object
repeats a name is the draft of the value that it means, but for the order of members and for places.
-/

namespace SelfNamed.Json

namespace Fields

variable {name : String} {value : Json} {fields members : Fields}

/-- A value under a new name comes to the others. -/
theorem perm_insert (h : name ∉ fields.map Prod.fst) :
    (fields.insert name value).Perm ((name, value) :: fields) := by
  induction fields with
  | nil => exact List.Perm.refl _
  | cons first fields ih =>
    obtain ⟨n, v⟩ := first
    rw [List.map_cons, List.mem_cons, not_or] at h
    unfold Fields.insert
    rw [if_neg h.1]
    split
    · exact List.Perm.refl _
    · exact ((ih h.2).cons _).trans (List.Perm.swap _ _ _)

/-- The names after a value was put under a name. -/
theorem mem_map_insert {other : String} (h : other ∈ (fields.insert name value).map Prod.fst) :
    other = name ∨ other ∈ fields.map Prod.fst := by
  obtain ⟨member, hmember, rfl⟩ := List.mem_map.mp h
  obtain rfl | hold := mem_insert hmember
  · exact Or.inl rfl
  · exact Or.inr (List.mem_map_of_mem hold)

/-- Members under distinct new names come to the others. -/
theorem perm_insertInto (hnames : (members.map Prod.fst).Nodup)
    (hnew : ∀ name ∈ members.map Prod.fst, name ∉ fields.map Prod.fst) :
    (members.insertInto fields).Perm (members ++ fields) := by
  induction members generalizing fields with
  | nil => exact List.Perm.refl _
  | cons member members ih =>
    obtain ⟨n, v⟩ := member
    obtain ⟨hn, hmembers⟩ := List.nodup_cons.mp hnames
    have hfirst : n ∉ fields.map Prod.fst := hnew n List.mem_cons_self
    have hothers : ∀ name ∈ members.map Prod.fst, name ∉ (fields.insert n v).map Prod.fst := by
      intro name hname hmem
      obtain rfl | hold := mem_map_insert hmem
      · exact hn hname
      · exact hnew name (List.mem_cons_of_mem _ hname) hold
    have hlater := ih hmembers hothers
    have hinserted : (fields.insert n v).Perm ((n, v) :: fields) := perm_insert hfirst
    exact (hlater.trans (hinserted.append_left members)).trans List.perm_middle

/-- Members of distinct names are permuted when they are brought into order. -/
theorem perm_ofMembers (h : (members.map Prod.fst).Nodup) : (ofMembers members).Perm members := by
  have hperm : (members.insertInto []).Perm (members ++ []) :=
    perm_insertInto h fun _ _ => List.not_mem_nil
  rwa [List.append_nil] at hperm

/-- Permuted members of distinct names are brought into one order. -/
theorem ofMembers_eq_of_perm {others : Fields} (hnames : (members.map Prod.fst).Nodup)
    (h : members.Perm others) : ofMembers members = ofMembers others := by
  have hothers : (others.map Prod.fst).Nodup := (h.map Prod.fst).nodup_iff.mp hnames
  have hperm : (ofMembers members).Perm (ofMembers others) :=
    ((perm_ofMembers hnames).trans h).trans (perm_ofMembers hothers).symm
  have hfirst := increasing_ofMembers members
  have hsecond := increasing_ofMembers others
  rw [Increasing, List.pairwise_map] at hfirst hsecond
  refine hperm.eq_of_pairwise ?_ hfirst hsecond
  intro a b _ _ hab hba
  exact absurd hab (lt_asymm hba)

end Fields

/-! ## Drafts that repeat no name -/

mutual

/-- No object of the draft has two members of one name. -/
def Draft.DistinctNames : Draft → Prop
  | .arr _ items _ => Draft.DistinctNamesItems items
  | .obj _ members _ => (members.map Prod.fst).Nodup ∧ Draft.DistinctNamesMembers members
  | .null _ => True
  | .bool _ _ => True
  | .num _ _ => True
  | .str _ _ => True
  | .bad _ _ => True
  | .cut _ => True

/-- None of the items has such an object. -/
def Draft.DistinctNamesItems : List Draft → Prop
  | [] => True
  | item :: rest => Draft.DistinctNames item ∧ Draft.DistinctNamesItems rest

/-- None of the values of the members has such an object. -/
def Draft.DistinctNamesMembers : List (String × Draft) → Prop
  | [] => True
  | (_, member) :: rest => Draft.DistinctNames member ∧ Draft.DistinctNamesMembers rest

end

mutual

/-- Whether some object of a draft has two members of one name can be computed. -/
def Draft.decidableDistinctNames : (d : Draft) → Decidable d.DistinctNames
  | .arr _ items _ => Draft.decidableDistinctNamesItems items
  | .obj _ members _ =>
    have := Draft.decidableDistinctNamesMembers members
    inferInstanceAs (Decidable (_ ∧ _))
  | .null _ => .isTrue trivial
  | .bool _ _ => .isTrue trivial
  | .num _ _ => .isTrue trivial
  | .str _ _ => .isTrue trivial
  | .bad _ _ => .isTrue trivial
  | .cut _ => .isTrue trivial

/-- The same for items. -/
def Draft.decidableDistinctNamesItems :
    (items : List Draft) → Decidable (Draft.DistinctNamesItems items)
  | [] => .isTrue trivial
  | item :: rest =>
    have := Draft.decidableDistinctNames item
    have := Draft.decidableDistinctNamesItems rest
    inferInstanceAs (Decidable (_ ∧ _))

/-- The same for the values of members. -/
def Draft.decidableDistinctNamesMembers :
    (members : List (String × Draft)) → Decidable (Draft.DistinctNamesMembers members)
  | [] => .isTrue trivial
  | (_, member) :: rest =>
    have := Draft.decidableDistinctNames member
    have := Draft.decidableDistinctNamesMembers rest
    inferInstanceAs (Decidable (_ ∧ _))

end

/-- Repeated names can be looked for. -/
instance (d : Draft) : Decidable d.DistinctNames := d.decidableDistinctNames

mutual

/-- Two drafts without faults say the same, but for the order of the members of their objects and
for the places that they come from. -/
inductive Draft.Reordered : Draft → Draft → Prop where
  /-- The null value. -/
  | null (s t : List Char) : Reordered (.null s) (.null t)
  /-- The same truth value. -/
  | bool (s t : List Char) (b : Bool) : Reordered (.bool s b) (.bool t b)
  /-- The same number. -/
  | num (s t : List Char) (n : Number) : Reordered (.num s n) (.num t n)
  /-- The same text. -/
  | str (s t : List Char) (x : String) : Reordered (.str s x) (.str t x)
  /-- Items that say the same one by one. -/
  | arr (s t : List Char) {items others : List Draft} (h : Draft.ReorderedItems items others) :
    Reordered (.arr s items none) (.arr t others none)
  /-- Members that say the same one by one, and then in any order. -/
  | obj (s t : List Char) {members between others : List (String × Draft)}
    (h : Draft.ReorderedMembers members between) (hperm : between.Perm others) :
    Reordered (.obj s members none) (.obj t others none)

/-- Items that say the same one by one. -/
inductive Draft.ReorderedItems : List Draft → List Draft → Prop where
  /-- No items. -/
  | nil : ReorderedItems [] []
  /-- One item before others. -/
  | cons {d e : Draft} {items others : List Draft} (h : Draft.Reordered d e)
    (hrest : ReorderedItems items others) : ReorderedItems (d :: items) (e :: others)

/-- Members of the same names that say the same one by one. -/
inductive Draft.ReorderedMembers : List (String × Draft) → List (String × Draft) → Prop where
  /-- No members. -/
  | nil : ReorderedMembers [] []
  /-- One member before others. -/
  | cons (name : String) {d e : Draft} {members others : List (String × Draft)}
    (h : Draft.Reordered d e) (hrest : ReorderedMembers members others) :
    ReorderedMembers ((name, d) :: members) ((name, e) :: others)

end

namespace Draft

variable {members between others : List (String × Draft)}

/-- When members have values, so have the first member and the others, one by one. -/
theorem of_memberValues_cons {name : String} {d : Draft} {fields : Fields}
    (h : memberValues ((name, d) :: members) = .ok fields) :
    ∃ j later, d.value = .ok j ∧ memberValues members = .ok later ∧
      fields = (name, j) :: later := by
  rw [memberValues] at h
  cases hvalue : d.value with
  | error fault => rw [hvalue] at h; cases h
  | ok j =>
    cases hvalues : memberValues members with
    | error fault => rw [hvalue, hvalues] at h; cases h
    | ok later =>
      rw [hvalue, hvalues] at h
      exact ⟨j, later, rfl, rfl, (Except.ok.inj h).symm⟩

/-- When items have values, so have the first item and the others, one by one. -/
theorem of_itemValues_cons {d : Draft} {items : List Draft} {values : List Json}
    (h : itemValues (d :: items) = .ok values) :
    ∃ j later, d.value = .ok j ∧ itemValues items = .ok later ∧ values = j :: later := by
  rw [itemValues] at h
  cases hvalue : d.value with
  | error fault => rw [hvalue] at h; cases h
  | ok j =>
    cases hvalues : itemValues items with
    | error fault => rw [hvalue, hvalues] at h; cases h
    | ok later =>
      rw [hvalue, hvalues] at h
      exact ⟨j, later, rfl, rfl, (Except.ok.inj h).symm⟩

/-- An array that has a value ends without a fault, and its items have values. -/
theorem of_value_arr {start : List Char} {items : List Draft} {stop : Option Fault} {j : Json}
    (h : (arr start items stop).value = .ok j) :
    ∃ values, itemValues items = .ok values ∧ stop = none ∧ j = .arr values := by
  rw [Draft.value] at h
  cases hvalues : itemValues items with
  | error fault => rw [hvalues] at h; cases h
  | ok values =>
    rw [hvalues] at h
    cases stop with
    | some fault => cases h
    | none => exact ⟨values, rfl, rfl, (Except.ok.inj h).symm⟩

/-- An object that has a value ends without a fault, and its members have values. -/
theorem of_value_obj {start : List Char} {stop : Option Fault} {j : Json}
    (h : (obj start members stop).value = .ok j) :
    ∃ fields, memberValues members = .ok fields ∧ stop = none ∧
      j = .obj (Fields.ofMembers fields) := by
  rw [Draft.value] at h
  cases hvalues : memberValues members with
  | error fault => rw [hvalues] at h; cases h
  | ok fields =>
    rw [hvalues] at h
    cases stop with
    | some fault => cases h
    | none => exact ⟨fields, rfl, rfl, (Except.ok.inj h).symm⟩

/-- The values of members are members of the same names. -/
theorem map_fst_of_memberValues {fields : Fields} (h : memberValues members = .ok fields) :
    fields.map Prod.fst = members.map Prod.fst := by
  induction members generalizing fields with
  | nil =>
    cases h
    rfl
  | cons member members ih =>
    obtain ⟨j, later, -, hlater, rfl⟩ := of_memberValues_cons h
    rw [List.map_cons, List.map_cons, ih hlater]

/-- Members that have values have them one by one. -/
theorem memberValues_cons {name : String} {d : Draft} {j : Json} {later : Fields}
    (hvalue : d.value = .ok j) (hvalues : memberValues members = .ok later) :
    memberValues ((name, d) :: members) = .ok ((name, j) :: later) := by
  rw [memberValues, hvalue, hvalues]
  rfl

/-- The values of permuted members are permuted. -/
theorem memberValues_of_perm (h : members.Perm others) {fields : Fields}
    (hvalues : memberValues members = .ok fields) :
    ∃ permuted, memberValues others = .ok permuted ∧ fields.Perm permuted := by
  induction h generalizing fields with
  | nil => exact ⟨fields, hvalues, List.Perm.refl _⟩
  | cons member _ ih =>
    obtain ⟨j, later, hvalue, hlater, rfl⟩ := of_memberValues_cons hvalues
    obtain ⟨permuted, hpermuted, hperm⟩ := ih hlater
    exact ⟨_, memberValues_cons hvalue hpermuted, hperm.cons _⟩
  | swap first second _ =>
    obtain ⟨j, later, hvalue, hlater, rfl⟩ := of_memberValues_cons hvalues
    obtain ⟨k, last, hvalue', hlast, rfl⟩ := of_memberValues_cons hlater
    exact ⟨_, memberValues_cons hvalue' (memberValues_cons hvalue hlast), List.Perm.swap _ _ _⟩
  | trans _ _ ih ih' =>
    obtain ⟨between, hbetween, hfirst⟩ := ih hvalues
    obtain ⟨permuted, hpermuted, hsecond⟩ := ih' hbetween
    exact ⟨permuted, hpermuted, hfirst.trans hsecond⟩

/-- Members that say the same have the same names. -/
theorem ReorderedMembers.map_fst (h : ReorderedMembers members others) :
    members.map Prod.fst = others.map Prod.fst := by
  induction members generalizing others with
  | nil =>
    cases h
    rfl
  | cons member members ih =>
    cases h with
    | cons name _ hrest => rw [List.map_cons, List.map_cons, ih hrest]

/-- The members of one name are the same in any order: there is at most one. -/
theorem filter_eq_of_perm (h : members.Perm others) (hnames : (members.map Prod.fst).Nodup)
    (name : String) :
    members.filter (fun member => member.1 == name) =
      others.filter fun member => member.1 == name := by
  have hothers : (others.map Prod.fst).Nodup := (h.map Prod.fst).nodup_iff.mp hnames
  have hfirst := (List.pairwise_map.mp hnames).filter fun member => member.1 == name
  have hsecond := (List.pairwise_map.mp hothers).filter fun member => member.1 == name
  refine (h.filter _).eq_of_pairwise ?_ hfirst hsecond
  intro a b ha hb hne _
  rw [List.mem_filter, beq_iff_eq] at ha hb
  exact absurd (ha.2.trans hb.2.symm) hne

/-- A name is found with the same in any order. -/
theorem find?_eq_of_perm (h : members.Perm others) (hnames : (members.map Prod.fst).Nodup)
    (name : String) :
    members.find? (fun member => member.1 == name) =
      others.find? fun member => member.1 == name := by
  rw [← List.head?_filter, ← List.head?_filter, filter_eq_of_perm h hnames]

/-- Members that say the same one by one still do when the same names are left out. -/
theorem ReorderedMembers.filter (h : ReorderedMembers members others) (p : String → Bool) :
    ReorderedMembers (members.filter fun member => p member.1)
      (others.filter fun member => p member.1) := by
  induction members generalizing others with
  | nil =>
    cases h
    exact .nil
  | cons member members ih =>
    cases h with
    | cons name hfirst hrest =>
      rw [List.filter_cons, List.filter_cons]
      cases p name with
      | false => exact ih hrest
      | true => exact .cons name hfirst (ih hrest)

/-- Members that are left over repeat no name inside. -/
theorem DistinctNamesMembers.filter (h : DistinctNamesMembers members) (p : String → Bool) :
    DistinctNamesMembers (members.filter fun member => p member.1) := by
  induction members with
  | nil => exact h
  | cons member members ih =>
    rw [List.filter_cons]
    cases p member.1 with
    | false => exact ih h.2
    | true => exact ⟨h.1, ih h.2⟩

/-! ## What reordered drafts mean -/

mutual

/-- Drafts that say the same mean the same value, when no object repeats a name. -/
theorem Reordered.value : {d e : Draft} → Reordered d e → d.DistinctNames →
    ∃ j, d.value = .ok j ∧ e.value = .ok j
  | _, _, .null _ _, _ => ⟨_, rfl, rfl⟩
  | _, _, .bool _ _ _, _ => ⟨_, rfl, rfl⟩
  | _, _, .num _ _ _, _ => ⟨_, rfl, rfl⟩
  | _, _, .str _ _ _, _ => ⟨_, rfl, rfl⟩
  | _, _, .arr _ _ h, hnames => by
    rw [DistinctNames] at hnames
    obtain ⟨values, hfirst, hsecond⟩ := h.itemValues hnames
    exact ⟨.arr values, by rw [Draft.value, hfirst]; rfl, by rw [Draft.value, hsecond]; rfl⟩
  | _, _, .obj _ _ h hperm, hnames => by
    rw [DistinctNames] at hnames
    obtain ⟨fields, hfirst, hsecond⟩ := h.memberValues hnames.2
    obtain ⟨permuted, hpermuted, hfields⟩ := memberValues_of_perm hperm hsecond
    have hdistinct : (fields.map Prod.fst).Nodup := by
      rw [map_fst_of_memberValues hfirst]
      exact hnames.1
    have hordered := Fields.ofMembers_eq_of_perm hdistinct hfields
    refine ⟨.obj (Fields.ofMembers fields), by rw [Draft.value, hfirst]; rfl, ?_⟩
    rw [Draft.value, hpermuted, hordered]
    rfl

/-- Items that say the same mean the same values. -/
theorem ReorderedItems.itemValues : {items others : List Draft} → ReorderedItems items others →
    DistinctNamesItems items →
    ∃ values, itemValues items = .ok values ∧ itemValues others = .ok values
  | _, _, .nil, _ => ⟨[], rfl, rfl⟩
  | _, _, .cons h hrest, hnames => by
    obtain ⟨j, hfirst, hsecond⟩ := h.value hnames.1
    obtain ⟨values, hlater, hlater'⟩ := hrest.itemValues hnames.2
    refine ⟨j :: values, ?_, ?_⟩
    · rw [Draft.itemValues, hfirst, hlater]
      rfl
    · rw [Draft.itemValues, hsecond, hlater']
      rfl

/-- Members that say the same one by one mean the same values. -/
theorem ReorderedMembers.memberValues : {members others : List (String × Draft)} →
    ReorderedMembers members others → DistinctNamesMembers members →
    ∃ fields, memberValues members = .ok fields ∧ memberValues others = .ok fields
  | _, _, .nil, _ => ⟨[], rfl, rfl⟩
  | _, _, .cons name h hrest, hnames => by
    obtain ⟨j, hfirst, hsecond⟩ := h.value hnames.1
    obtain ⟨fields, hlater, hlater'⟩ := hrest.memberValues hnames.2
    exact ⟨(name, j) :: fields, memberValues_cons hfirst hlater, memberValues_cons hsecond hlater'⟩

end

/-! ## The draft of what a draft means -/

/-- The drafts of the members of a value are made one by one under the same names. -/
theorem ofMembers_eq_map (fields : Fields) :
    ofMembers fields = fields.map fun member => (member.1, ofValue member.2) := by
  induction fields with
  | nil => rfl
  | cons member fields ih => rw [ofMembers, ih, List.map_cons]

mutual

/-- A draft without faults that repeats no name is reordered when its value is drafted. -/
theorem reordered_ofValue : {d : Draft} → {j : Json} → d.value = .ok j → d.DistinctNames →
    Reordered d (ofValue j)
  | .null s, _, h, _ => by cases h; exact .null s []
  | .bool s b, _, h, _ => by cases h; exact .bool s [] b
  | .num s n, _, h, _ => by cases h; exact .num s [] n
  | .str s x, _, h, _ => by cases h; exact .str s [] x
  | .arr s items stop, j, h, hnames => by
    rw [DistinctNames] at hnames
    obtain ⟨values, hvalues, rfl, rfl⟩ := of_value_arr h
    exact .arr s [] (reorderedItems_ofItems hvalues hnames)
  | .obj s members stop, j, h, hnames => by
    rw [DistinctNames] at hnames
    obtain ⟨fields, hvalues, rfl, rfl⟩ := of_value_obj h
    have hdistinct : (fields.map Prod.fst).Nodup := by
      rw [map_fst_of_memberValues hvalues]
      exact hnames.1
    have hperm : (ofMembers fields).Perm (ofMembers (Fields.ofMembers fields)) := by
      rw [ofMembers_eq_map, ofMembers_eq_map]
      exact (Fields.perm_ofMembers hdistinct).symm.map _
    exact .obj s [] (reorderedMembers_ofMembers hvalues hnames.2) hperm
  | .bad _ _, _, h, _ => by cases h
  | .cut _, _, h, _ => by cases h

/-- Items that repeat no name say what their values drafted one by one say. -/
theorem reorderedItems_ofItems : {items : List Draft} → {values : List Json} →
    itemValues items = .ok values → DistinctNamesItems items →
    ReorderedItems items (ofItems values)
  | [], _, h, _ => by cases h; exact .nil
  | item :: items, values, h, hnames => by
    obtain ⟨j, later, hvalue, hlater, rfl⟩ := of_itemValues_cons h
    exact .cons (reordered_ofValue hvalue hnames.1) (reorderedItems_ofItems hlater hnames.2)

/-- Members that repeat no name say what their values drafted one by one say. -/
theorem reorderedMembers_ofMembers : {members : List (String × Draft)} → {fields : Fields} →
    memberValues members = .ok fields → DistinctNamesMembers members →
    ReorderedMembers members (ofMembers fields)
  | [], _, h, _ => by cases h; exact .nil
  | (name, d) :: members, fields, h, hnames => by
    obtain ⟨j, later, hvalue, hlater, rfl⟩ := of_memberValues_cons h
    exact .cons name (reordered_ofValue hvalue hnames.1)
      (reorderedMembers_ofMembers hlater hnames.2)

end

/-! ## Drafts of one value -/

/-- Permuted values come from permuted members. -/
theorem exists_perm_memberValues {fields permuted : Fields} (h : fields.Perm permuted)
    {members : List (String × Draft)} (hvalues : memberValues members = .ok fields) :
    ∃ others, members.Perm others ∧ memberValues others = .ok permuted := by
  induction h generalizing members with
  | nil => exact ⟨members, List.Perm.refl _, hvalues⟩
  | cons field _ ih =>
    cases members with
    | nil => cases hvalues
    | cons member members =>
      obtain ⟨j, later, hvalue, hlater, heq⟩ := of_memberValues_cons hvalues
      obtain ⟨rfl, rfl⟩ := List.cons.inj heq
      obtain ⟨others, hperm, hothers⟩ := ih hlater
      exact ⟨member :: others, hperm.cons _, memberValues_cons hvalue hothers⟩
  | swap first second fields =>
    cases members with
    | nil => cases hvalues
    | cons member members =>
      obtain ⟨j, later, hvalue, hlater, heq⟩ := of_memberValues_cons hvalues
      obtain ⟨rfl, rfl⟩ := List.cons.inj heq
      cases members with
      | nil => cases hlater
      | cons member' members =>
        obtain ⟨k, last, hvalue', hlast, heq'⟩ := of_memberValues_cons hlater
        obtain ⟨rfl, rfl⟩ := List.cons.inj heq'
        exact ⟨member' :: member :: members, List.Perm.swap _ _ _,
          memberValues_cons hvalue' (memberValues_cons hvalue hlast)⟩
  | trans _ _ ih ih' =>
    obtain ⟨between, hfirst, hbetween⟩ := ih hvalues
    obtain ⟨others, hsecond, hothers⟩ := ih' hbetween
    exact ⟨others, hfirst.trans hsecond, hothers⟩

/-- Permuted members repeat no name inside. -/
theorem DistinctNamesMembers.perm (hperm : members.Perm others)
    (h : DistinctNamesMembers members) : DistinctNamesMembers others := by
  induction hperm with
  | nil => exact h
  | cons _ _ ih => exact ⟨h.1, ih h.2⟩
  | swap _ _ _ => exact ⟨h.2.1, h.1, h.2.2⟩
  | trans _ _ ih ih' => exact ih' (ih h)

mutual

/-- Drafts that repeat no name and mean the same value are reordered. -/
theorem reordered_of_value : {d e : Draft} → {j : Json} → d.value = .ok j → e.value = .ok j →
    d.DistinctNames → e.DistinctNames → Reordered d e
  | .null _, _, _, hd, he, _, hnames => by
    cases hd
    cases reordered_ofValue he hnames with
    | null => exact .null _ _
  | .bool _ _, _, _, hd, he, _, hnames => by
    cases hd
    cases reordered_ofValue he hnames with
    | bool => exact .bool _ _ _
  | .num _ _, _, _, hd, he, _, hnames => by
    cases hd
    cases reordered_ofValue he hnames with
    | num => exact .num _ _ _
  | .str _ _, _, _, hd, he, _, hnames => by
    cases hd
    cases reordered_ofValue he hnames with
    | str => exact .str _ _ _
  | .arr _ items stop, _, _, hd, he, hnames, hnames' => by
    obtain ⟨values, hvalues, rfl, rfl⟩ := of_value_arr hd
    cases reordered_ofValue he hnames' with
    | arr =>
      rw [DistinctNames] at hnames hnames'
      obtain ⟨_, hvalues', -, heq⟩ := of_value_arr he
      cases heq
      exact .arr _ _ (reorderedItems_of_itemValues hvalues hvalues' hnames hnames')
  | .obj _ members stop, _, _, hd, he, hnames, hnames' => by
    obtain ⟨fields, hvalues, rfl, rfl⟩ := of_value_obj hd
    cases reordered_ofValue he hnames' with
    | obj =>
      rw [DistinctNames] at hnames hnames'
      obtain ⟨fields', hvalues', -, heq⟩ := of_value_obj he
      have hdistinct := hnames.1
      have hdistinct' := hnames'.1
      rw [← map_fst_of_memberValues hvalues] at hdistinct
      rw [← map_fst_of_memberValues hvalues'] at hdistinct'
      have hperm : fields'.Perm fields := by
        have hordered := Fields.perm_ofMembers hdistinct
        rw [Json.obj.inj heq] at hordered
        exact (Fields.perm_ofMembers hdistinct').symm.trans hordered
      obtain ⟨between, hbetween, hvalues''⟩ := exists_perm_memberValues hperm hvalues'
      exact .obj _ _ (reorderedMembers_of_memberValues hvalues hvalues'' hnames.2
        (hnames'.2.perm hbetween)) hbetween.symm
  | .bad _ _, _, _, hd, _, _, _ => by cases hd
  | .cut _, _, _, hd, _, _, _ => by cases hd

/-- Items that repeat no name and mean the same values say the same one by one. -/
theorem reorderedItems_of_itemValues : {items others : List Draft} → {values : List Json} →
    itemValues items = .ok values → itemValues others = .ok values →
    DistinctNamesItems items → DistinctNamesItems others → ReorderedItems items others
  | [], others, _, hd, he, _, _ => by
    cases hd
    cases others with
    | nil => exact .nil
    | cons _ _ =>
      obtain ⟨_, _, -, -, heq⟩ := of_itemValues_cons he
      cases heq
  | item :: items, others, _, hd, he, hnames, hnames' => by
    obtain ⟨j, later, hvalue, hlater, rfl⟩ := of_itemValues_cons hd
    cases others with
    | nil => cases he
    | cons _ _ =>
      obtain ⟨_, _, hvalue', hlater', heq⟩ := of_itemValues_cons he
      cases heq
      exact .cons (reordered_of_value hvalue hvalue' hnames.1 hnames'.1)
        (reorderedItems_of_itemValues hlater hlater' hnames.2 hnames'.2)

/-- Members that repeat no name and mean the same values say the same one by one. -/
theorem reorderedMembers_of_memberValues : {members others : List (String × Draft)} →
    {fields : Fields} → memberValues members = .ok fields → memberValues others = .ok fields →
    DistinctNamesMembers members → DistinctNamesMembers others → ReorderedMembers members others
  | [], others, _, hd, he, _, _ => by
    cases hd
    cases others with
    | nil => exact .nil
    | cons _ _ =>
      obtain ⟨_, _, -, -, heq⟩ := of_memberValues_cons he
      cases heq
  | (name, d) :: members, others, _, hd, he, hnames, hnames' => by
    obtain ⟨j, later, hvalue, hlater, rfl⟩ := of_memberValues_cons hd
    cases others with
    | nil => cases he
    | cons _ _ =>
      obtain ⟨_, _, hvalue', hlater', heq⟩ := of_memberValues_cons he
      cases heq
      exact .cons _ (reordered_of_value hvalue hvalue' hnames.1 hnames'.1)
        (reorderedMembers_of_memberValues hlater hlater' hnames.2 hnames'.2)

end

/-- Of two drafts that repeat no name and are without faults, one is the other reordered exactly
when they mean the same value. -/
theorem reordered_iff_value {d e : Draft} (hd : d.DistinctNames) (he : e.DistinctNames) :
    Reordered d e ↔ ∃ j, d.value = .ok j ∧ e.value = .ok j :=
  ⟨fun h => h.value hd, fun ⟨_, hvalue, hvalue'⟩ => reordered_of_value hvalue hvalue' hd he⟩

end Draft

end SelfNamed.Json
