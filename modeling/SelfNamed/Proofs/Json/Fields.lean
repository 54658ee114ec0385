import Mathlib.Data.String.Basic
import SelfNamed.Json.Basic

/-!
# Fields are what is found under their names

Fields whose names increase are determined by their look-ups, so an equation between two ways of
putting fields together is settled name by name. For this every operation says what it does to a
look-up. Main statement: fields put in front of all others of the same object, and then brought into
order, are these fields put into the object one by one.
-/

namespace SelfNamed.Json.Fields

/-- The fields but those of some names. -/
def without (names : List String) (fields : Fields) : Fields :=
  fields.filter fun member => !names.contains member.1

/-- The fields with another value where one stands under the name. -/
def modify (name : String) (f : Json → Json) (fields : Fields) : Fields :=
  fields.map fun member => if member.1 = name then (member.1, f member.2) else member

/-- Puts members into fields, one after another. -/
def insertInto (members fields : Fields) : Fields :=
  members.foldl (fun fields member => fields.insert member.1 member.2) fields

variable {name : String} {value : Json} {fields : Fields}

/-! ## Look-ups -/

theorem get?_cons (name other : String) (value : Json) (fields : Fields) :
    get? name ((other, value) :: fields) = if other = name then some value else get? name fields :=
  rfl

/-- Nothing is found exactly under the names that do not occur. -/
theorem get?_eq_none_iff : get? name fields = none ↔ ∀ member ∈ fields, member.1 ≠ name := by
  induction fields with
  | nil => simp [get?]
  | cons member fields ih =>
    obtain ⟨n, v⟩ := member
    rw [get?_cons]
    by_cases h : n = name <;> simp [h, ih]

/-- What is found is a member. -/
theorem mem_of_get? (h : get? name fields = some value) : (name, value) ∈ fields := by
  induction fields with
  | nil => cases h
  | cons member fields ih =>
    obtain ⟨n, v⟩ := member
    rw [get?_cons] at h
    by_cases hname : n = name
    · rw [if_pos hname, Option.some.injEq] at h
      rw [hname, h]
      exact List.mem_cons_self
    · rw [if_neg hname] at h
      exact List.mem_cons_of_mem _ (ih h)

/-- Earlier fields are found before later ones. -/
theorem get?_append (name : String) (first second : Fields) :
    get? name (first ++ second) = (get? name first).or (get? name second) := by
  induction first with
  | nil => rfl
  | cons member first ih =>
    obtain ⟨n, v⟩ := member
    rw [List.cons_append, get?_cons, get?_cons, ih]
    by_cases h : n = name <;> simp [h]

/-- A value that is put under another name does not disturb. -/
theorem get?_insert_of_ne {other : String} (h : other ≠ name) (value : Json) (fields : Fields) :
    get? name (insert other value fields) = get? name fields := by
  induction fields with
  | nil => rw [insert, get?_cons, if_neg h]
  | cons member fields ih =>
    obtain ⟨n, v⟩ := member
    unfold insert
    split
    · rw [get?_cons, if_neg h]
    · split
      · next hname => rw [get?_cons, if_neg h, get?_cons, if_neg (fun e => h (hname.trans e))]
      · rw [get?_cons, get?_cons, ih]

/-- What is found after a value was put under a name. -/
theorem get?_insert_eq (name other : String) (value : Json) (fields : Fields) :
    get? name (insert other value fields) =
      if other = name then some value else get? name fields := by
  by_cases h : other = name
  · rw [if_pos h, h]
    exact get?_insert name value fields
  · rw [if_neg h, get?_insert_of_ne h]

/-- Without names to leave out all fields stay. -/
theorem without_nil (fields : Fields) : fields.without [] = fields :=
  List.filter_eq_self.mpr fun _ _ => rfl

/-- A member of a left out name goes. -/
theorem without_cons_of_mem {names : List String} (h : name ∈ names) (value : Json)
    (fields : Fields) : without names ((name, value) :: fields) = fields.without names := by
  simp [without, h]

/-- A member of any other name stays. -/
theorem without_cons_of_not_mem {names : List String} (h : name ∉ names) (value : Json)
    (fields : Fields) :
    without names ((name, value) :: fields) = (name, value) :: fields.without names := by
  simp [without, h]

/-- Left out names are not found, all others as before. -/
theorem get?_without (name : String) (names : List String) (fields : Fields) :
    get? name (fields.without names) = if name ∈ names then none else get? name fields := by
  induction fields with
  | nil => simp [without, get?]
  | cons member fields ih =>
    obtain ⟨n, v⟩ := member
    unfold without at ih ⊢
    rw [List.filter_cons]
    by_cases hmem : n ∈ names <;> by_cases hname : n = name <;> simp_all [get?_cons]

/-- Leaving out names twice is leaving out all of them. -/
theorem without_without (fields : Fields) {first second names : List String}
    (h : ∀ name, name ∈ names ↔ name ∈ first ∨ name ∈ second) :
    (fields.without first).without second = fields.without names := by
  rw [without, without, without, List.filter_filter]
  refine List.filter_congr fun member _ => ?_
  by_cases hfirst : member.1 ∈ first <;> by_cases hsecond : member.1 ∈ second <;>
    simp [h, hfirst, hsecond]

/-- A changed value is found changed, all others as before. -/
theorem get?_modify (name other : String) (f : Json → Json) (fields : Fields) :
    get? name (fields.modify other f) =
      if other = name then (get? name fields).map f else get? name fields := by
  induction fields with
  | nil => simp [modify, get?]
  | cons member fields ih =>
    obtain ⟨n, v⟩ := member
    have hstep : modify other f ((n, v) :: fields) =
      (n, if n = other then f v else v) :: modify other f fields := by
        by_cases h : n = other <;> simp [modify, h]
    rw [hstep, get?_cons, get?_cons, ih]
    by_cases hname : n = name
    · rw [if_pos hname, if_pos hname, hname]
      by_cases hother : name = other <;> simp [hother, eq_comm]
    · rw [if_neg hname, if_neg hname]

/-- Of the values that are put under one name the last is found. -/
theorem get?_insertInto (name : String) (members fields : Fields) :
    get? name (members.insertInto fields) = (get? name members.reverse).or (get? name fields) := by
  induction members generalizing fields with
  | nil => rfl
  | cons member members ih =>
    obtain ⟨n, v⟩ := member
    have hstep : insertInto ((n, v) :: members) fields = insertInto members (insert n v fields) :=
      rfl
    rw [hstep, ih, List.reverse_cons, get?_append, get?_insert_eq, Option.or_assoc, get?_cons]
    by_cases h : n = name <;> simp [h, get?]

/-- Of the members with one name the last is found. -/
theorem get?_ofMembers (name : String) (members : Fields) :
    get? name (ofMembers members) = get? name members.reverse := by
  have h := get?_insertInto name members []
  rw [get?, Option.or_none] at h
  exact h

/-! ## Increasing names -/

/-- The first name is less than all others. -/
theorem increasing_cons : Increasing ((name, value) :: fields) ↔
    (∀ member ∈ fields, name < member.1) ∧ Increasing fields := by
  simp [Increasing]

/-- Increasing names stay so when some fields are left out. -/
theorem Increasing.sublist {fewer : Fields} (h : Increasing fields)
    (hfewer : fewer.Sublist fields) : Increasing fewer :=
  List.Pairwise.sublist (hfewer.map Prod.fst) h

/-- A field that is left out leaves increasing names. -/
theorem Increasing.without (h : Increasing fields) (names : List String) :
    Increasing (fields.without names) :=
  h.sublist List.filter_sublist

/-- Other values under the same names leave the names increasing. -/
theorem Increasing.modify (h : Increasing fields) (name : String) (f : Json → Json) :
    Increasing (fields.modify name f) := by
  have hnames : (fields.modify name f).map Prod.fst = fields.map Prod.fst := by
    rw [Fields.modify, List.map_map]
    refine List.map_congr_left fun member _ => ?_
    by_cases hname : member.1 = name <;> simp [hname]
  rw [Increasing, hnames]
  exact h

/-- The members after a value was put under a name. -/
theorem mem_insert {member : String × Json} (h : member ∈ insert name value fields) :
    member = (name, value) ∨ member ∈ fields := by
  induction fields with
  | nil => exact Or.inl (List.mem_singleton.mp h)
  | cons first fields ih =>
    obtain ⟨n, v⟩ := first
    unfold insert at h
    split at h
    · exact List.mem_cons.mp h
    · split at h
      · exact (List.mem_cons.mp h).imp id (List.mem_cons_of_mem _)
      · obtain rfl | hlater := List.mem_cons.mp h
        · exact Or.inr List.mem_cons_self
        · exact (ih hlater).imp id (List.mem_cons_of_mem _)

/-- The members after several were put into fields. -/
theorem mem_insertInto {member : String × Json} {members : Fields}
    (h : member ∈ members.insertInto fields) : member ∈ members ∨ member ∈ fields := by
  induction members generalizing fields with
  | nil => exact Or.inr h
  | cons first members ih =>
    obtain hlater | hinsert := ih h
    · exact Or.inl (List.mem_cons_of_mem _ hlater)
    · obtain rfl | hfields := mem_insert hinsert
      · exact Or.inl List.mem_cons_self
      · exact Or.inr hfields

/-- A value put under a name leaves increasing names. -/
theorem Increasing.insert (h : Increasing fields) (name : String) (value : Json) :
    Increasing (fields.insert name value) := by
  induction fields with
  | nil => exact List.pairwise_singleton _ _
  | cons first fields ih =>
    obtain ⟨n, v⟩ := first
    obtain ⟨hfirst, hfields⟩ := increasing_cons.mp h
    unfold Fields.insert
    split
    · next hlt =>
      refine increasing_cons.mpr ⟨?_, h⟩
      intro member hmember
      obtain rfl | hlater := List.mem_cons.mp hmember
      · exact hlt
      · exact lt_trans hlt (hfirst member hlater)
    · next hnot =>
      split
      · next heq => exact increasing_cons.mpr ⟨heq ▸ hfirst, hfields⟩
      · next hne =>
        refine increasing_cons.mpr ⟨?_, ih hfields⟩
        intro member hmember
        obtain rfl | hlater := mem_insert hmember
        · exact lt_of_le_of_ne (not_lt.mp hnot) (Ne.symm hne)
        · exact hfirst member hlater

/-- Members put into fields with increasing names leave increasing names. -/
theorem Increasing.insertInto (h : Increasing fields) (members : Fields) :
    Increasing (members.insertInto fields) := by
  induction members generalizing fields with
  | nil => exact h
  | cons member members ih => exact ih (h.insert member.1 member.2)

/-- Members in order have increasing names. -/
theorem increasing_ofMembers (members : Fields) : Increasing (ofMembers members) :=
  Increasing.insertInto (show Increasing [] from List.Pairwise.nil) members

/-- Nothing is found under a name before all others. -/
theorem get?_of_lt (h : ∀ member ∈ fields, name < member.1) : get? name fields = none :=
  get?_eq_none_iff.mpr fun member hmember => (h member hmember).ne'

/-- Fields with increasing names are equal when all look-ups are. -/
theorem Increasing.ext {first second : Fields} (hfirst : Increasing first)
    (hsecond : Increasing second) (h : ∀ name, get? name first = get? name second) :
    first = second := by
  induction first generalizing second with
  | nil =>
    cases second with
    | nil => rfl
    | cons member second =>
      obtain ⟨n, v⟩ := member
      have hn := h n
      rw [get?_cons, if_pos rfl] at hn
      cases hn
  | cons member first ih =>
    obtain ⟨n, v⟩ := member
    obtain ⟨hlt, hfirst⟩ := increasing_cons.mp hfirst
    cases second with
    | nil =>
      have hn := h n
      rw [get?_cons, if_pos rfl] at hn
      cases hn
    | cons other second =>
      obtain ⟨m, w⟩ := other
      obtain ⟨hlt', hsecond'⟩ := increasing_cons.mp hsecond
      have hname : n = m := by
        rcases lt_trichotomy n m with hnm | hnm | hnm
        · have hn := h n
          rw [get?_cons, if_pos rfl, get?_cons, if_neg hnm.ne',
            get?_of_lt fun member hmember => lt_trans hnm (hlt' member hmember)] at hn
          cases hn
        · exact hnm
        · have hm := h m
          rw [get?_cons m m, if_pos rfl, get?_cons, if_neg hnm.ne',
            get?_of_lt fun member hmember => lt_trans hnm (hlt member hmember)] at hm
          cases hm
      subst hname
      have hvalue := h n
      rw [get?_cons, if_pos rfl, get?_cons, if_pos rfl, Option.some.injEq] at hvalue
      have hrest : ∀ name, get? name first = get? name second := by
        intro name
        by_cases hname : n = name
        · rw [← hname, get?_of_lt hlt, get?_of_lt hlt']
        · have hother := h name
          rw [get?_cons, if_neg hname, get?_cons, if_neg hname] at hother
          exact hother
      rw [hvalue, ih hfirst hsecond' hrest]

/-- In fields with increasing names the last one of a name is the first. -/
theorem Increasing.get?_reverse (h : Increasing fields) (name : String) :
    get? name fields.reverse = get? name fields := by
  induction fields with
  | nil => rfl
  | cons member fields ih =>
    obtain ⟨n, v⟩ := member
    obtain ⟨hlt, hfields⟩ := increasing_cons.mp h
    rw [List.reverse_cons, get?_append, ih hfields, get?_cons, get?_cons]
    by_cases hname : n = name
    · rw [← hname, get?_of_lt hlt, if_pos rfl, if_pos rfl]
      rfl
    · rw [if_neg hname, if_neg hname, get?, Option.or_none]

/-- Fields with increasing names are in order already. -/
theorem Increasing.ofMembers_eq (h : Increasing fields) : ofMembers fields = fields :=
  (increasing_ofMembers fields).ext h fun name => by rw [get?_ofMembers, h.get?_reverse]

/-- Putting a value where it stands changes nothing. -/
theorem Increasing.insert_of_get? (h : Increasing fields) (hvalue : get? name fields = some value) :
    fields.insert name value = fields :=
  (h.insert name value).ext h fun other => by
    rw [get?_insert_eq]
    by_cases hname : name = other
    · rw [if_pos hname, ← hname, hvalue]
    · rw [if_neg hname]

/-- Changing the value under a name is putting the changed value there. -/
theorem Increasing.modify_eq_insert (h : Increasing fields) (hvalue : fields.get? name = some value)
    (f : Json → Json) : fields.modify name f = fields.insert name (f value) :=
  (h.modify name f).ext (h.insert name (f value)) fun other => by
    rw [get?_modify, get?_insert_eq]
    by_cases hname : name = other
    · rw [if_pos hname, if_pos hname, ← hname, hvalue, Option.map_some]
    · rw [if_neg hname, if_neg hname]

/-- A value is put under a name before or after others are left out. -/
theorem Increasing.without_insert (h : Increasing fields) {names : List String}
    (hname : name ∉ names) (value : Json) :
    (fields.without names).insert name value = (fields.insert name value).without names :=
  ((h.without names).insert name value).ext ((h.insert name value).without names) fun other => by
    rw [get?_insert_eq, get?_without, get?_without, get?_insert_eq]
    by_cases heq : name = other
    · rw [if_pos heq, if_pos heq, if_neg (heq ▸ hname)]
    · rw [if_neg heq, if_neg heq]

/-- Leaving out a name that does not occur changes nothing. -/
theorem without_of_get?_eq_none (h : get? name fields = none) : fields.without [name] = fields := by
  refine List.filter_eq_self.mpr fun member hmember => ?_
  have hne := get?_eq_none_iff.mp h member hmember
  simp [hne]

/-- Where a name does not occur nothing is changed under it. -/
theorem modify_of_get?_eq_none (h : get? name fields = none) (f : Json → Json) :
    fields.modify name f = fields := by
  rw [modify]
  refine (List.map_congr_left fun member hmember => ?_).trans (List.map_id fields)
  rw [if_neg (get?_eq_none_iff.mp h member hmember)]
  rfl

/-- Changing the values of one name before members are brought into order is changing the value
that stays. -/
theorem modify_ofMembers (name : String) (f : Json → Json) (members : Fields) :
    (ofMembers members).modify name f = ofMembers (members.modify name f) := by
  have hreverse : (members.modify name f).reverse = modify name f members.reverse :=
    List.map_reverse.symm
  refine ((increasing_ofMembers members).modify name f).ext (increasing_ofMembers _) fun other => ?_
  rw [get?_ofMembers, hreverse, get?_modify, get?_modify, get?_ofMembers]

/-- Members in front of all other fields of an object, in order, are the members put into the
object. -/
theorem ofMembers_append_without (members : Fields) (h : Increasing fields) :
    ofMembers (members ++ fields.without (members.map Prod.fst)) = members.insertInto fields := by
  refine (increasing_ofMembers _).ext (h.insertInto members) fun name => ?_
  rw [get?_ofMembers, List.reverse_append, get?_append, get?_insertInto,
    (h.without _).get?_reverse, get?_without]
  by_cases hname : name ∈ members.map Prod.fst
  · cases hfound : get? name members.reverse with
    | none =>
      obtain ⟨member, hmember, heq⟩ := List.mem_map.mp hname
      have hne := get?_eq_none_iff.mp hfound member (List.mem_reverse.mpr hmember)
      exact absurd heq hne
    | some value =>
      rw [if_pos hname]
      rfl
  · have hnone : get? name members.reverse = none := by
      refine get?_eq_none_iff.mpr fun member hmember heq => ?_
      exact hname (List.mem_map.mpr ⟨member, List.mem_reverse.mp hmember, heq⟩)
    rw [if_neg hname, hnone, Option.none_or, Option.or_none]

end SelfNamed.Json.Fields
