import Mathlib.Data.List.Nodup
import Mathlib.Data.Prod.Basic

/-!
# Changing the parts of a whole place by place

A whole has places in an order, and changing them takes values in that order, one for each place; a
place without a value is left. The places of a list are the places of its items behind their
indices, so they come item by item. Changing a list is then changing its first item with the values
for its places and the other items with those that are left.
-/

namespace SelfNamed

variable {α β γ π : Type}

/-- Changes the places of a whole in their order, each by the next value. -/
def changeAll (change : π → β → α → α) (places : List π) (values : List β) (whole : α) : α :=
  (places.zip values).foldl (fun whole placed => change placed.1 placed.2 whole) whole

/-- The places of a list: the index of an item, then a place in the item. -/
def placesIn (places : α → List π) (items : List α) : List (ℕ × π) :=
  items.zipIdx.flatMap fun item => (places item.1).map (Prod.mk item.2)

/-- Changes one place of a list. -/
def changeIn (change : π → β → α → α) (place : ℕ × π) (value : β) (items : List α) : List α :=
  items.modify place.1 (change place.2 value)

/-- The values that are left behind the first places belong to the other places. -/
theorem zip_append_drop (first second : List π) (values : List β) :
    (first ++ second).zip values =
      first.zip values ++ second.zip (values.drop first.length) := by
  induction first generalizing values with
  | nil => rfl
  | cons place first ih =>
    cases values with
    | nil => simp
    | cons value values => simp [ih]

/-- The places of the first item come first, then those of the other items. -/
theorem placesIn_cons (places : α → List π) (item : α) (items : List α) :
    placesIn places (item :: items) =
      (places item).map (Prod.mk 0) ++ (placesIn places items).map (Prod.map (· + 1) id) := by
  have hshift : items.zipIdx 1 = items.zipIdx.map (Prod.map id (· + 1)) := by
    rw [List.zipIdx_succ]
    rfl
  rw [placesIn, List.zipIdx_cons, List.flatMap_cons, Nat.zero_add, hshift, List.flatMap_map,
    placesIn, List.map_flatMap]
  simp only [List.map_map]
  rfl

variable {change : π → β → α → α}

/-- The places of a list of images are those that the items have already. -/
theorem placesIn_map {f : γ → α} {places : α → List π} {placesBefore : γ → List π} {items : List γ}
    (h : ∀ item ∈ items, places (f item) = placesBefore item) :
    placesIn places (items.map f) = placesIn placesBefore items := by
  induction items with
  | nil => rfl
  | cons item items ih =>
    rw [List.map_cons, placesIn_cons, placesIn_cons, h item List.mem_cons_self,
      ih fun other hother => h other (List.mem_cons_of_mem item hother)]

/-- A place of a list is a place of the item at its index. -/
theorem mem_placesIn {places : α → List π} {items : List α} {place : ℕ × π} :
    place ∈ placesIn places items ↔
      ∃ item, items[place.1]? = some item ∧ place.2 ∈ places item := by
  rw [placesIn, List.mem_flatMap]
  constructor
  · rintro ⟨item, hitem, hplace⟩
    obtain ⟨within, hwithin, rfl⟩ := List.mem_map.mp hplace
    exact ⟨item.1, List.mem_zipIdx_iff_getElem?.mp hitem, hwithin⟩
  · rintro ⟨item, hitem, hplace⟩
    exact ⟨(item, place.1), List.mem_zipIdx_iff_getElem?.mpr hitem, List.mem_map_of_mem hplace⟩

/-- Without values nothing is changed. -/
theorem changeAll_no_values (places : List π) (whole : α) :
    changeAll change places [] whole = whole := by
  rw [changeAll, List.zip_nil_right, List.foldl_nil]

/-- Only the places that get a value are changed. -/
theorem changeAll_take (places : List π) (values : List β) (whole : α) :
    changeAll change (places.take values.length) values whole =
      changeAll change places values whole := by
  induction places generalizing values whole with
  | nil => rw [List.take_nil]
  | cons place places ih =>
    cases values with
    | nil => rw [changeAll_no_values, changeAll_no_values]
    | cons value values => exact ih values (change place value whole)

/-- Values behind the last place change nothing. -/
theorem changeAll_values_append {places : List π} {values : List β} {more : List β} {whole : α}
    (h : places.length = values.length) :
    changeAll change places (values ++ more) whole = changeAll change places values whole := by
  have hzip : (places ++ []).zip (values ++ more) = places.zip values ++ [].zip more :=
    List.zip_append h
  rw [List.append_nil, List.zip_nil_left, List.append_nil] at hzip
  rw [changeAll, hzip]
  rfl

/-- Changing goes on from the first places to the others with the values that are left. -/
theorem changeAll_append (first second : List π) (values : List β) (whole : α) :
    changeAll change (first ++ second) values whole =
      changeAll change second (values.drop first.length) (changeAll change first values whole) := by
  rw [changeAll, zip_append_drop, List.foldl_append]
  rfl

/-- Places that are named anew are changed as the places that they name. -/
theorem changeAll_map {ρ : Type} (name : ρ → π) (places : List ρ) (values : List β) (whole : α) :
    changeAll change (places.map name) values whole =
      changeAll (fun place => change (name place)) places values whole := by
  rw [changeAll, List.zip_map_left, List.foldl_map]
  rfl

/-- An image of the whole is changed as the whole is, when every change shows in the image while
something holds that it keeps. -/
theorem changeAll_image (image : α → γ) {changeImage : π → β → γ → γ} {P : α → Prop}
    {places : List π}
    (h : ∀ place ∈ places, ∀ value whole, P whole → P (change place value whole) ∧
      changeImage place value (image whole) = image (change place value whole))
    (values : List β) {whole : α} (hwhole : P whole) :
    changeAll changeImage places values (image whole) =
      image (changeAll change places values whole) := by
  induction places generalizing values whole with
  | nil => rfl
  | cons place places ih =>
    cases values with
    | nil => rw [changeAll_no_values, changeAll_no_values]
    | cons value values =>
      obtain ⟨hnext, himage⟩ := h place List.mem_cons_self value whole hwhole
      have hothers := fun other hother => h other (List.mem_cons_of_mem place hother)
      have hstep := ih hothers values hnext
      rw [← himage] at hstep
      exact hstep

/-- What every change of a whole keeps is kept by all of them. -/
theorem changeAll_keeps (image : α → γ)
    (h : ∀ place value whole, image (change place value whole) = image whole) (places : List π)
    (values : List β) (whole : α) : image (changeAll change places values whole) = image whole := by
  rw [changeAll]
  refine List.foldlRecOn (motive := fun changed => image changed = image whole) _ _ rfl ?_
  intro changed hkept placed _
  rw [h, hkept]

/-- A part that is changed inside something around it. -/
theorem changeAll_wrap (around : α → γ) {changeAround : π → β → γ → γ}
    (h : ∀ place value part, changeAround place value (around part) =
      around (change place value part)) (places : List π) (values : List β) (part : α) :
    changeAll changeAround places values (around part) =
      around (changeAll change places values part) :=
  changeAll_image around (P := fun _ => True)
    (fun place _ value part _ => ⟨trivial, h place value part⟩) values trivial

/-- The places of the first item are changed in the first item. -/
theorem changeAll_head (places : List π) (values : List β) (item : α) (items : List α) :
    changeAll (changeIn change) (places.map (Prod.mk 0)) values (item :: items) =
      changeAll change places values item :: items := by
  rw [changeAll_map]
  refine changeAll_wrap (· :: items) ?_ places values item
  intro place value part
  rfl

/-- The places of the other items are changed behind the first item. -/
theorem changeAll_tail (places : List (ℕ × π)) (values : List β) (item : α) (items : List α) :
    changeAll (changeIn change) (places.map (Prod.map (· + 1) id)) values (item :: items) =
      item :: changeAll (changeIn change) places values items := by
  rw [changeAll_map]
  refine changeAll_wrap (item :: ·) ?_ places values items
  intro place value part
  rfl

/-- The places of a list come in lexicographic order when those of every item come in order. -/
theorem pairwise_placesIn {places : α → List π} {before : π → π → Prop}
    (h : ∀ item, (places item).Pairwise before) (items : List α) :
    (placesIn places items).Pairwise (Prod.Lex (· < ·) before) := by
  induction items with
  | nil => exact List.Pairwise.nil
  | cons item items ih =>
    have hshift {a b : ℕ × π} (hab : Prod.Lex (· < ·) before a b) :
        Prod.Lex (· < ·) before (Prod.map (· + 1) id a) (Prod.map (· + 1) id b) := by
      cases hab with
      | left _ _ hlt => exact Prod.Lex.left _ _ (Nat.succ_lt_succ hlt)
      | right _ hlt => exact Prod.Lex.right _ hlt
    rw [placesIn_cons, List.pairwise_append]
    refine ⟨List.pairwise_map.mpr ((h item).imp fun hlt => Prod.Lex.right 0 hlt),
      List.pairwise_map.mpr (ih.imp hshift), fun first hfirst later hlater => ?_⟩
    obtain ⟨within, -, rfl⟩ := List.mem_map.mp hfirst
    obtain ⟨other, -, rfl⟩ := List.mem_map.mp hlater
    exact Prod.Lex.left _ _ (Nat.succ_pos other.1)

/-- What stands at the places of a list, when it is known for every item. -/
theorem placesIn_map_look {places : α → List π} {look : α → π → Option γ} {found : α → List γ}
    (h : ∀ item, (places item).map (look item) = (found item).map some) (items : List α) :
    ((placesIn places items).map fun place => items[place.1]?.bind (look · place.2)) =
      (items.flatMap found).map some := by
  induction items with
  | nil => rfl
  | cons item items ih =>
    rw [placesIn_cons, List.map_append, List.flatMap_cons, List.map_append, ← h item, ← ih,
      List.map_map, List.map_map]
    rfl

section Look

variable {look : α → π → Option γ} {apply : β → γ → γ}

/-- A place that is not among those that are changed holds what it held. -/
theorem look_changeAll_of_not_mem
    (hother : ∀ place value whole other, place ≠ other →
      look (change place value whole) other = look whole other)
    {places : List π} {other : π} (h : other ∉ places) (values : List β) (whole : α) :
    look (changeAll change places values whole) other = look whole other := by
  induction places generalizing values whole with
  | nil => rfl
  | cons place places ih =>
    cases values with
    | nil => rw [changeAll_no_values]
    | cons value values =>
      have hne : place ≠ other := fun heq => h (heq ▸ List.mem_cons_self)
      have hrest : other ∉ places := fun hmem => h (List.mem_cons_of_mem place hmem)
      have hlater := ih hrest values (change place value whole)
      rw [hother place value whole other hne] at hlater
      exact hlater

/-- When places are distinct, each that gets a value holds what the value makes of what it held. -/
theorem look_changeAll
    (hsame : ∀ place value whole,
      look (change place value whole) place = (look whole place).map (apply value))
    (hother : ∀ place value whole other, place ≠ other →
      look (change place value whole) other = look whole other)
    {places : List π} (hnodup : places.Nodup) {values : List β} {k : ℕ} {place : π} {value : β}
    (hplace : places[k]? = some place) (hvalue : values[k]? = some value) (whole : α) :
    look (changeAll change places values whole) place = (look whole place).map (apply value) := by
  induction places generalizing values k whole with
  | nil => cases hplace
  | cons first places ih =>
    obtain ⟨hfirst, hplaces⟩ := List.nodup_cons.mp hnodup
    cases values with
    | nil => cases hvalue
    | cons value' values =>
      cases k with
      | zero =>
        obtain rfl : first = place := Option.some.inj hplace
        obtain rfl : value' = value := Option.some.inj hvalue
        have hlater := look_changeAll_of_not_mem hother hfirst values (change first value' whole)
        rw [hsame] at hlater
        exact hlater
      | succ k =>
        have hmem : place ∈ places := List.mem_of_getElem? hplace
        have hne : first ≠ place := fun heq => hfirst (heq ▸ hmem)
        have hlater := ih hplaces hplace hvalue (change first value' whole)
        rw [hother first value' whole place hne] at hlater
        exact hlater

end Look

/-- A list is changed item by item, each item with the values for its own places. -/
theorem changeAll_cons (places : α → List π) (values : List β) (item : α) (items : List α) :
    changeAll (changeIn change) (placesIn places (item :: items)) values (item :: items) =
      changeAll change (places item) values item ::
        changeAll (changeIn change) (placesIn places items)
          (values.drop (places item).length) items := by
  rw [placesIn_cons, changeAll_append, changeAll_head, changeAll_tail, List.length_map]

/-- A list in two parts is changed part by part, the second with the values that the first leaves. -/
theorem changeAll_placesIn_append (change : π → β → α → α) (places : α → List π) (values : List β)
    (first second : List α) :
    changeAll (changeIn change) (placesIn places (first ++ second)) values (first ++ second) =
      changeAll (changeIn change) (placesIn places first) values first ++
        changeAll (changeIn change) (placesIn places second)
          (values.drop (placesIn places first).length) second := by
  induction first generalizing values with
  | nil => rfl
  | cons item first ih =>
    have hlength : (placesIn places (item :: first)).length =
        (places item).length + (placesIn places first).length := by
      rw [placesIn_cons, List.length_append, List.length_map, List.length_map]
    rw [List.cons_append, changeAll_cons, ih, changeAll_cons, hlength, List.drop_drop,
      List.cons_append]

end SelfNamed
