import Mathlib.Data.Option.Basic
import SelfNamed.Proofs.Json.Reordered
import SelfNamed.Proofs.Tree.Grammar

/-!
# Decoding the fields of an object

In an object that has every name once, the order in which its members are decoded does not matter
and a decoder of fields is a look-up for each of them. Main statement: up to the wording of errors,
the fields of such an object decode to what stands under the modelled names and keep all others in
the order of their names; a canonical object is one of these.
-/

namespace SelfNamed

open Json (Canonical CanonicalMembers Decoded Draft Fields Slot)

/-- The outcome of a decoding step and what follows it, errors left out. -/
theorem toOption_bind {α β : Type} (x : Decoded α) (f : α → Decoded β) :
    (x >>= f).toOption = x.toOption.bind fun a => (f a).toOption := by
  cases x <;> rfl

/-- Leaving out errors, a result is there exactly when decoding succeeded with it. -/
theorem toOption_eq_some_iff {α : Type} {x : Decoded α} {a : α} :
    x.toOption = some a ↔ x = .ok a := by
  cases x with
  | error e => exact ⟨nofun, nofun⟩
  | ok found => rw [Except.ok.injEq]; exact Option.some_inj

namespace Partial

variable {α β : Type}

/-- A modelled field: its name and its decoder, or that there is none. -/
abbrev Plan (α : Type) := Option (String × (Draft → Decoded α))

/-- The slots of up to two modelled fields. -/
def slots (first : Plan α) (second : Plan β) : List (Slot (Partial α β)) :=
  first.toList.map (fun field => firstSlot field.1 field.2) ++
    second.toList.map fun field => secondSlot field.1 field.2

/-- What decoding finds for a modelled field in a value, when something was found before. -/
def taken (plan : Plan α) (before : Option α) (fields : Fields) : Option (Option α) :=
  match plan with
  | none => some before
  | some (name, decode) =>
    match fields.get? name with
    | none => some before
    | some value => (decode (.ofValue value)).toOption.map some

/-- What decoding finds for a modelled field among members, when something was found before. -/
def takenFrom (plan : Plan α) (before : Option α) (members : List (String × Draft)) :
    Option (Option α) :=
  match plan with
  | none => some before
  | some (name, decode) =>
    match members.find? fun member => member.1 == name with
    | none => some before
    | some member => (decode member.2).toOption.map some

/-- Among no members nothing is found. -/
theorem takenFrom_nil (plan : Plan α) (before : Option α) :
    takenFrom plan before [] = some before := by
  cases plan <;> rfl

/-- A member of another name is not what is looked for. -/
theorem takenFrom_cons_of_ne {plan : Plan α} {name : String}
    (h : ∀ decode, plan ≠ some (name, decode)) (before : Option α) (d : Draft)
    (members : List (String × Draft)) :
    takenFrom plan before ((name, d) :: members) = takenFrom plan before members := by
  cases plan with
  | none => rfl
  | some field =>
    obtain ⟨n, decode⟩ := field
    have hne : name ≠ n := fun heq => h decode (heq ▸ rfl)
    rw [takenFrom, takenFrom, List.find?_cons_of_neg (by simpa using hne)]

/-- A member of the name is found, and nothing behind it. -/
theorem takenFrom_cons_of_eq {name : String} {decode : Draft → Decoded α} {before : Option α}
    {d : Draft} {members : List (String × Draft)} (h : name ∉ members.map Prod.fst) :
    takenFrom (some (name, decode)) before ((name, d) :: members) =
      (decode d).toOption.bind fun a => takenFrom (some (name, decode)) (some a) members := by
  have hnone : (members.find? fun member => member.1 == name) = none := by
    refine List.find?_eq_none.mpr fun member hmember => ?_
    rw [beq_iff_eq]
    rintro rfl
    exact h (List.mem_map_of_mem hmember)
  rw [takenFrom, List.find?_cons_of_pos (by simp)]
  cases hvalue : (decode d).toOption with
  | none => simp only [hvalue, Option.map_none, Option.bind_none]
  | some a => simp only [takenFrom, hnone, hvalue, Option.map_some, Option.bind_some]

/-- The members of a value are looked up in the value. -/
theorem takenFrom_ofMembers (plan : Plan α) (before : Option α) (fields : Fields) :
    takenFrom plan before (Draft.ofMembers fields) = taken plan before fields := by
  cases plan with
  | none => rfl
  | some field =>
    obtain ⟨name, decode⟩ := field
    have hfind : ((Draft.ofMembers fields).find? fun member => member.1 == name) =
        (fields.get? name).map fun value => (name, Draft.ofValue value) := by
      induction fields with
      | nil => rfl
      | cons member fields ih =>
        obtain ⟨n, v⟩ := member
        rw [Draft.ofMembers, Fields.get?_cons]
        by_cases hname : n = name
        · rw [if_pos hname, List.find?_cons_of_pos (by simpa using hname), hname]
          rfl
        · rw [if_neg hname, List.find?_cons_of_neg (by simpa using hname), ih]
    rw [takenFrom, taken, hfind]
    cases fields.get? name <;> rfl

variable {first : Plan α} {second : Plan β}

/-- The slot of the first field is found under its name. -/
theorem find?_slots_first {name : String} {decode : Draft → Decoded α}
    (h : first = some (name, decode)) :
    (slots first second).find? (fun slot => slot.name == name) = some (firstSlot name decode) := by
  simp [slots, h, firstSlot]

/-- The slot of the second field is found under its name. -/
theorem find?_slots_second {name : String} {decode : Draft → Decoded β}
    (hfirst : ∀ decode, first ≠ some (name, decode)) (h : second = some (name, decode)) :
    (slots first second).find? (fun slot => slot.name == name) = some (secondSlot name decode) := by
  cases first with
  | none => simp [slots, h, secondSlot]
  | some field =>
    obtain ⟨n, decode'⟩ := field
    have hne : n ≠ name := fun heq => hfirst decode' (heq ▸ rfl)
    simp [slots, h, firstSlot, secondSlot, hne]

/-- No slot is found under any other name. -/
theorem find?_slots_none {name : String} (hfirst : ∀ decode, first ≠ some (name, decode))
    (hsecond : ∀ decode, second ≠ some (name, decode)) :
    (slots first second).find? (fun slot => slot.name == name) = none := by
  rw [List.find?_eq_none]
  intro slot hslot
  obtain hslot | hslot := List.mem_append.mp hslot
  · obtain ⟨⟨n, decode⟩, hfield, rfl⟩ := List.mem_map.mp hslot
    have hplan : first = some (n, decode) := Option.mem_toList.mp hfield
    have hne : n ≠ name := fun heq => hfirst decode (heq ▸ hplan)
    simp [firstSlot, hne]
  · obtain ⟨⟨n, decode⟩, hfield, rfl⟩ := List.mem_map.mp hslot
    have hplan : second = some (n, decode) := Option.mem_toList.mp hfield
    have hne : n ≠ name := fun heq => hsecond decode (heq ▸ hplan)
    simp [secondSlot, hne]

/-- The modelled names. -/
def names (first : Plan α) (second : Plan β) : List String :=
  first.toList.map Prod.fst ++ second.toList.map Prod.fst

/-- A name is modelled when it is that of one of the fields. -/
theorem mem_names {name : String} : name ∈ names first second ↔
    (∃ decode, first = some (name, decode)) ∨ ∃ decode, second = some (name, decode) := by
  simp [names, eq_comm]

/-- What becomes of an unmodelled member. -/
def keep (name : String) (d : Draft) (p : Partial α β) : Decoded (Partial α β) := do
  return { p with rest := ← keepMember name d p.rest }

/-- What is kept of an unmodelled member is its value. -/
theorem keep_of_value {name : String} {d : Draft} {value : Json} (hvalue : d.value = .ok value)
    (p : Partial α β) : keep name d p = .ok { p with rest := Fields.insert name value p.rest } := by
  rw [keep, keepMember, Draft.kept, hvalue]
  rfl

/-- Members of distinct names are decoded by look-ups. The induction goes through the members in
order; what has been seen does not come again. -/
theorem toOption_fillMembers
    (hdistinct : ∀ name decode decode', first = some (name, decode) → second ≠ some (name, decode'))
    {members : List (String × Draft)} {fields : Fields}
    (hvalues : Draft.memberValues members = .ok fields) (hnames : (members.map Prod.fst).Nodup)
    {seen : List String} (hseen : ∀ name ∈ seen, name ∉ members.map Prod.fst) (rest : Fields)
    (a : Option α) (b : Option β) :
    (Json.fillMembers (slots first second) keep seen members ⟨a, b, rest⟩).toOption =
      (takenFrom first a members).bind fun a => (takenFrom second b members).bind fun b =>
        some ⟨a, b, (fields.without (names first second)).insertInto rest⟩ := by
  induction members generalizing fields seen rest a b with
  | nil =>
    cases hvalues
    rw [takenFrom_nil, takenFrom_nil]
    rfl
  | cons member members ih =>
    obtain ⟨name, d⟩ := member
    obtain ⟨value, later, hvalue, hlater, rfl⟩ := Draft.of_memberValues_cons hvalues
    obtain ⟨hnew, hothers⟩ := List.nodup_cons.mp hnames
    have hunseen : seen.contains name = false := by
      rw [List.contains_eq_mem, decide_eq_false_iff_not]
      exact fun hmem => hseen name hmem List.mem_cons_self
    have hseen' : ∀ n ∈ seen, n ∉ members.map Prod.fst := fun n hn hmem =>
      hseen n hn (List.mem_cons_of_mem _ hmem)
    have hseen'' : ∀ n ∈ name :: seen, n ∉ members.map Prod.fst := by
      intro n hn
      obtain rfl | hn := List.mem_cons.mp hn
      · exact hnew
      · exact hseen' n hn
    rw [Json.fillMembers]
    by_cases hfirst : ∃ decode, first = some (name, decode)
    · obtain ⟨decode, hplan⟩ := hfirst
      have hsecond : ∀ decode', second ≠ some (name, decode') := fun decode' =>
        hdistinct name decode decode' hplan
      have hmem : name ∈ names first second := mem_names.mpr (Or.inl ⟨decode, hplan⟩)
      simp only [find?_slots_first hplan, hunseen, Bool.false_eq_true, if_false, toOption_bind]
      rw [takenFrom_cons_of_ne hsecond, Fields.without_cons_of_mem hmem]
      simp only [firstSlot, toOption_bind]
      rw [hplan, takenFrom_cons_of_eq hnew, Option.bind_assoc, Option.bind_assoc, ← hplan]
      refine Option.bind_congr fun x _ => ?_
      exact ih hlater hothers hseen'' rest (some x) b
    · have hfirst' : ∀ decode, first ≠ some (name, decode) := fun decode h => hfirst ⟨decode, h⟩
      by_cases hsecond : ∃ decode, second = some (name, decode)
      · obtain ⟨decode, hplan⟩ := hsecond
        have hmem : name ∈ names first second := mem_names.mpr (Or.inr ⟨decode, hplan⟩)
        simp only [find?_slots_second hfirst' hplan, hunseen, Bool.false_eq_true, if_false,
          toOption_bind]
        rw [takenFrom_cons_of_ne hfirst', Fields.without_cons_of_mem hmem]
        simp only [secondSlot, toOption_bind]
        rw [hplan, takenFrom_cons_of_eq hnew, ← hplan]
        simp only [Option.bind_assoc]
        rw [Option.bind_comm]
        refine Option.bind_congr fun x _ => ?_
        exact ih hlater hothers hseen'' rest a (some x)
      · have hsecond' : ∀ decode, second ≠ some (name, decode) := fun decode h =>
          hsecond ⟨decode, h⟩
        have hmem : name ∉ names first second := fun h => (mem_names.mp h).elim hfirst hsecond
        simp only [find?_slots_none hfirst' hsecond', toOption_bind]
        rw [takenFrom_cons_of_ne hfirst', takenFrom_cons_of_ne hsecond',
          Fields.without_cons_of_not_mem hmem, keep_of_value hvalue]
        exact ih hlater hothers hseen' _ a b

/-- The fields of an object in which no name is repeated are decoded by look-ups. -/
theorem toOption_ofDraft_obj (first : Plan α) (second : Plan β)
    (hdistinct : ∀ name decode decode', first = some (name, decode) → second ≠ some (name, decode'))
    (title : String) (start : List Char) {members : List (String × Draft)} {fields : Fields}
    (hvalues : Draft.memberValues members = .ok fields) (hnames : (members.map Prod.fst).Nodup) :
    (ofDraft title (slots first second) (.obj start members none)).toOption =
      (takenFrom first none members).bind fun a => (takenFrom second none members).bind fun b =>
        some ⟨a, b, Fields.ofMembers (fields.without (names first second))⟩ := by
  have hmembers := toOption_fillMembers hdistinct hvalues hnames
    (fun _ h => absurd h List.not_mem_nil) [] none none
  change (_ >>= fun p => Json.afterFault none (.ok p)).toOption = _
  rw [toOption_bind]
  change (Option.bind _ some) = _
  rw [Option.bind_fun_some]
  exact hmembers

/-- The fields of a canonical value are decoded by look-ups if it is an object, and not at all if it
is none. -/
theorem toOption_ofDraft (first : Plan α) (second : Plan β)
    (hdistinct : ∀ name decode decode', first = some (name, decode) → second ≠ some (name, decode'))
    (title : String) {j : Json} (h : Canonical j) :
    (ofDraft title (slots first second) (.ofValue j)).toOption =
      j.fields?.bind fun fields => (taken first none fields).bind fun a =>
        (taken second none fields).bind fun b =>
          some ⟨a, b, fields.without (names first second)⟩ := by
  cases j with
  | obj fields =>
    rw [Canonical] at h
    have hvalues := Json.memberValues_ofMembers h.2
    have hnames : ((Draft.ofMembers fields).map Prod.fst).Nodup := by
      rw [← Draft.map_fst_of_memberValues hvalues]
      exact h.1.imp ne_of_lt
    have hordered := (h.1.without (names first second)).ofMembers_eq
    have hfields := toOption_ofDraft_obj first second hdistinct title [] hvalues hnames
    rw [takenFrom_ofMembers, takenFrom_ofMembers, hordered] at hfields
    exact hfields
  | null => rfl
  | bool b => rfl
  | num n => rfl
  | str s => rfl
  | arr items => rfl

end Partial

end SelfNamed
