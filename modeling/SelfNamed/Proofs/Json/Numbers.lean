import SelfNamed.Proofs.Json.Canonical
import SelfNamed.Proofs.Json.Tokens

/-!
# The numbers of values and of texts

A value and a draft have numbers in them, and a property of numbers may hold of all. In a draft each
number stands with the text that it was scanned from. So when every number of a text is written as a
plain integer that fits 64 bits, every number of the value that the text means is such an integer.
-/

namespace SelfNamed.Json

open Read
open Token (skipBlank)

mutual

/-- Something holds of every number in the value. -/
def AllNumbers (P : Number → Prop) : Json → Prop
  | .num n => P n
  | .arr items => AllNumbersItems P items
  | .obj members => AllNumbersMembers P members
  | .null => True
  | .bool _ => True
  | .str _ => True

/-- It holds of every number in the items. -/
def AllNumbersItems (P : Number → Prop) : List Json → Prop
  | [] => True
  | item :: rest => AllNumbers P item ∧ AllNumbersItems P rest

/-- It holds of every number in the values of the members. -/
def AllNumbersMembers (P : Number → Prop) : List (String × Json) → Prop
  | [] => True
  | (_, value) :: rest => AllNumbers P value ∧ AllNumbersMembers P rest

end

mutual

/-- Something holds of every number in the draft and of the text from the number on. -/
def Draft.AllNumbers (P : List Char → Number → Prop) : Draft → Prop
  | .num start n => P start n
  | .arr _ items _ => Draft.AllNumbersItems P items
  | .obj _ members _ => Draft.AllNumbersMembers P members
  | .null _ => True
  | .bool _ _ => True
  | .str _ _ => True
  | .bad _ _ => True
  | .cut _ => True

/-- It holds of every number in the drafts of items. -/
def Draft.AllNumbersItems (P : List Char → Number → Prop) : List Draft → Prop
  | [] => True
  | item :: rest => Draft.AllNumbers P item ∧ Draft.AllNumbersItems P rest

/-- It holds of every number in the drafts of members. -/
def Draft.AllNumbersMembers (P : List Char → Number → Prop) : List (String × Draft) → Prop
  | [] => True
  | (_, member) :: rest => Draft.AllNumbers P member ∧ Draft.AllNumbersMembers P rest

end

/-- The text begins with a plain integer that is exact, and the number ends behind it. -/
def PlainInteger (start : List Char) : Prop :=
  ∃ n : Number, n.Integral ∧ ∃ tail, start = n.text ++ tail ∧ NumberEnd tail

/-- Every number of the text is written as a plain integer that is exact. -/
structure WritesIntegers (text : List Char) : Prop where
  /-- The draft of the text has each number where it is written. -/
  draft : (readDraft none text).1.AllNumbers fun start _ => PlainInteger start

/-! ## Properties of all numbers -/

variable {P Q : Number → Prop}

/-- A property holds of all numbers of items when it does of those of each item. -/
theorem allNumbersItems_iff {items : List Json} :
    AllNumbersItems P items ↔ ∀ item ∈ items, item.AllNumbers P := by
  induction items with
  | nil => simp [AllNumbersItems]
  | cons item items ih => simp [AllNumbersItems, ih]

/-- A property holds of all numbers of members when it does of those of each value. -/
theorem allNumbersMembers_iff {members : Fields} :
    AllNumbersMembers P members ↔ ∀ member ∈ members, member.2.AllNumbers P := by
  induction members with
  | nil => simp [AllNumbersMembers]
  | cons member members ih => simp [AllNumbersMembers, ih]

mutual

/-- What follows from it holds of all numbers, too. -/
theorem AllNumbers.imp (h : ∀ n, P n → Q n) : {j : Json} → j.AllNumbers P → j.AllNumbers Q
  | .num n, hj => h n hj
  | .arr _, hj => AllNumbersItems.imp h hj
  | .obj _, hj => AllNumbersMembers.imp h hj
  | .null, _ => trivial
  | .bool _, _ => trivial
  | .str _, _ => trivial

/-- What holds of all numbers of items, anything weaker holds of as well. -/
theorem AllNumbersItems.imp (h : ∀ n, P n → Q n) :
    {items : List Json} → AllNumbersItems P items → AllNumbersItems Q items
  | [], _ => trivial
  | _ :: _, hitems => ⟨AllNumbers.imp h hitems.1, AllNumbersItems.imp h hitems.2⟩

/-- What holds of all numbers of members, anything weaker holds of as well. -/
theorem AllNumbersMembers.imp (h : ∀ n, P n → Q n) :
    {members : List (String × Json)} → AllNumbersMembers P members → AllNumbersMembers Q members
  | [], _ => trivial
  | _ :: _, hmembers => ⟨AllNumbers.imp h hmembers.1, AllNumbersMembers.imp h hmembers.2⟩

end

/-- Members put into fields leave only numbers of both. -/
theorem AllNumbersMembers.insertInto {members fields : Fields} (h : AllNumbersMembers P members)
    (hfields : AllNumbersMembers P fields) : AllNumbersMembers P (members.insertInto fields) := by
  refine allNumbersMembers_iff.mpr ?_
  intro member hmember
  obtain hnew | hold := Fields.mem_insertInto hmember
  · exact allNumbersMembers_iff.mp h member hnew
  · exact allNumbersMembers_iff.mp hfields member hold

/-! ## Numbers of drafts -/

/-- The number was scanned from the text. -/
def ScannedFrom (start : List Char) (n : Number) : Prop := ∃ rest, scanNumber start = .ok (n, rest)

/-- A plain integer is scanned as it is written. -/
theorem PlainInteger.integral {start : List Char} {n : Number} (h : PlainInteger start)
    (hscanned : ScannedFrom start n) : n.Integral := by
  obtain ⟨k, hk, tail, rfl, hend⟩ := h
  obtain ⟨rest, hscan⟩ := hscanned
  rw [hk.readsBack tail hend] at hscan
  obtain rfl : k = n := congrArg Prod.fst (Except.ok.inj hscan)
  exact hk

/-- What stands for a text value has no numbers. -/
theorem allNumbers_textDraft (P : List Char → Number → Prop) (start rest : List Char) :
    (textDraft start rest).1.AllNumbers P := by
  unfold textDraft
  cases scanText rest with
  | ok scanned => trivial
  | error fault => trivial

/-- A word has no numbers when its draft has none. -/
theorem allNumbers_wordDraft {P : List Char → Number → Prop} {draft : Draft}
    (h : draft.AllNumbers P) (word text : List Char) :
    (wordDraft draft word text).1.AllNumbers P := by
  unfold wordDraft
  cases Token.scanWord word text with
  | ok rest => exact h
  | error fault => trivial

/-- The draft of a number has the number that was scanned. -/
theorem allNumbers_numberDraft (start : List Char) :
    (numberDraft start).1.AllNumbers ScannedFrom := by
  unfold numberDraft
  cases hscan : scanNumber start with
  | ok scanned => exact ⟨scanned.2, hscan⟩
  | error fault => trivial

/-- Every number of what the readers find was scanned from the text at which it stands. The
induction is on the fuel; each reader calls others with less. -/
theorem allNumbers_scan (fuel : ℕ) :
    (∀ depth text, (scan depth fuel text).1.AllNumbers ScannedFrom) ∧
      (∀ depth first text,
        Draft.AllNumbersItems ScannedFrom (scanItems depth fuel first text).1) ∧
      (∀ depth text, Draft.AllNumbersItems ScannedFrom (scanItem depth fuel text).1) ∧
      (∀ depth first text,
        Draft.AllNumbersMembers ScannedFrom (scanMembers depth fuel first text).1) ∧
      ∀ depth text, Draft.AllNumbersMembers ScannedFrom (scanMember depth fuel text).1 := by
  induction fuel with
  | zero => exact ⟨fun _ _ => trivial, fun _ _ _ => trivial, fun _ _ => trivial,
      fun _ _ _ => trivial, fun _ _ => trivial⟩
  | succ fuel ih =>
    obtain ⟨hscan, hitems, hitem, hmembers, hmember⟩ := ih
    refine ⟨?_, ?_, ?_, ?_, ?_⟩
    · intro depth text
      rw [scan]
      cases skipBlank text with
      | nil => trivial
      | cons c rest =>
        dsimp only
        split_ifs
        · exact allNumbers_textDraft _ _ _
        · cases enter? depth with
          | none => trivial
          | some inner => exact hitems inner true rest
        · cases enter? depth with
          | none => trivial
          | some inner => exact hmembers inner true rest
        · exact allNumbers_wordDraft (by trivial) _ _
        · exact allNumbers_wordDraft (by trivial) _ _
        · exact allNumbers_wordDraft (by trivial) _ _
        · exact allNumbers_numberDraft _
        · trivial
    · intro depth first text
      rw [scanItems]
      cases skipBlank text with
      | nil => trivial
      | cons c rest =>
        dsimp only
        split_ifs
        · trivial
        · exact hitem depth _
        · cases skipBlank rest with
          | nil => trivial
          | cons d rest' =>
            dsimp only
            split_ifs
            · trivial
            · exact hitem depth _
        · trivial
    · intro depth text
      have hfirst := hscan depth text
      rw [scanItem]
      rcases hfound : scan depth fuel text with ⟨item, _ | rest⟩
      · rw [hfound] at hfirst
        exact ⟨hfirst, trivial⟩
      · rw [hfound] at hfirst
        exact ⟨hfirst, hitems depth false rest⟩
    · intro depth first text
      rw [scanMembers]
      cases skipBlank text with
      | nil => trivial
      | cons c rest =>
        dsimp only
        split_ifs
        · trivial
        · exact hmember depth _
        · trivial
        · cases skipBlank rest with
          | nil => trivial
          | cons d rest' =>
            dsimp only
            split_ifs
            · exact hmember depth _
            · trivial
            · trivial
        · trivial
    · intro depth text
      rw [scanMember]
      rcases scanText text with fault | ⟨chars, rest⟩
      · trivial
      · dsimp only
        cases skipBlank rest with
        | nil => exact ⟨trivial, trivial⟩
        | cons c rest' =>
          dsimp only
          split_ifs
          · have hfirst := hscan depth rest'
            rcases hfound : scan depth fuel rest' with ⟨member, _ | rest''⟩
            · rw [hfound] at hfirst
              exact ⟨hfirst, trivial⟩
            · rw [hfound] at hfirst
              exact ⟨hfirst, hmembers depth false rest''⟩
          · exact ⟨trivial, trivial⟩

mutual

/-- What a draft means has only numbers of the draft. -/
theorem allNumbers_value {R S : List Char → Number → Prop}
    (h : ∀ start n, R start n → S start n → P n) : {d : Draft} → {j : Json} → d.value = .ok j →
    d.AllNumbers R → d.AllNumbers S → j.AllNumbers P
  | .num start n, _, hvalue, hR, hS => by
    cases hvalue
    exact h start n hR hS
  | .arr _ items stop, j, hvalue, hR, hS => by
    rw [Draft.value] at hvalue
    cases hitems : Draft.itemValues items with
    | error fault => rw [hitems] at hvalue; cases hvalue
    | ok values =>
      rw [hitems] at hvalue
      obtain rfl : arr values = j := eq_of_settle hvalue
      exact allNumbersItems_itemValues h hitems hR hS
  | .obj _ members stop, j, hvalue, hR, hS => by
    rw [Draft.value] at hvalue
    cases hmembers : Draft.memberValues members with
    | error fault => rw [hmembers] at hvalue; cases hvalue
    | ok values =>
      rw [hmembers] at hvalue
      obtain rfl : obj (Fields.ofMembers values) = j := eq_of_settle hvalue
      exact (allNumbersMembers_memberValues h hmembers hR hS).insertInto trivial
  | .null _, _, hvalue, _, _ => by cases hvalue; trivial
  | .bool _ _, _, hvalue, _, _ => by cases hvalue; trivial
  | .str _ _, _, hvalue, _, _ => by cases hvalue; trivial
  | .bad _ _, _, hvalue, _, _ => by cases hvalue
  | .cut _, _, hvalue, _, _ => by cases hvalue

/-- What the drafts of items mean has only their numbers. -/
theorem allNumbersItems_itemValues {R S : List Char → Number → Prop}
    (h : ∀ start n, R start n → S start n → P n) : {items : List Draft} → {values : List Json} →
    Draft.itemValues items = .ok values → Draft.AllNumbersItems R items →
    Draft.AllNumbersItems S items → AllNumbersItems P values
  | [], _, hvalues, _, _ => by cases hvalues; trivial
  | item :: items, values, hvalues, hR, hS => by
    rw [Draft.itemValues] at hvalues
    cases hitem : item.value with
    | error fault => rw [hitem] at hvalues; cases hvalues
    | ok value =>
      cases hitems : Draft.itemValues items with
      | error fault => rw [hitem, hitems] at hvalues; cases hvalues
      | ok later =>
        rw [hitem, hitems] at hvalues
        obtain rfl : value :: later = values := Except.ok.inj hvalues
        exact ⟨allNumbers_value h hitem hR.1 hS.1, allNumbersItems_itemValues h hitems hR.2 hS.2⟩

/-- What the drafts of members mean has only their numbers. -/
theorem allNumbersMembers_memberValues {R S : List Char → Number → Prop}
    (h : ∀ start n, R start n → S start n → P n) : {members : List (String × Draft)} →
    {values : List (String × Json)} → Draft.memberValues members = .ok values →
    Draft.AllNumbersMembers R members → Draft.AllNumbersMembers S members →
    AllNumbersMembers P values
  | [], _, hvalues, _, _ => by cases hvalues; trivial
  | (name, member) :: members, values, hvalues, hR, hS => by
    rw [Draft.memberValues] at hvalues
    cases hmember : member.value with
    | error fault => rw [hmember] at hvalues; cases hvalues
    | ok value =>
      cases hmembers : Draft.memberValues members with
      | error fault => rw [hmember, hmembers] at hvalues; cases hvalues
      | ok later =>
        rw [hmember, hmembers] at hvalues
        obtain rfl : (name, value) :: later = values := Except.ok.inj hvalues
        exact ⟨allNumbers_value h hmember hR.1 hS.1,
          allNumbersMembers_memberValues h hmembers hR.2 hS.2⟩

end

/-- When every number of a text is written as a plain integer that is exact, every number of what
the text means is such an integer. -/
theorem WritesIntegers.integral {text : List Char} {j : Json} (h : WritesIntegers text)
    (hread : read none text = .ok j) : j.AllNumbers Number.Integral := by
  have hscanned : (readDraft none text).1.AllNumbers ScannedFrom := by
    have hfront := (allNumbers_scan (Skip.fuelFor text)).1 none text
    rw [readDraft, front]
    rcases hfound : scan none (Skip.fuelFor text) text with ⟨draft, _ | rest⟩
    · rw [hfound] at hfront
      exact hfront
    · rw [hfound] at hfront
      dsimp only
      cases skipBlank rest with
      | nil => exact hfront
      | cons c rest' => exact hfront
  rw [read] at hread
  cases hvalue : (readDraft none text).1.value with
  | error fault => simp only [hvalue] at hread; cases hread
  | ok value =>
    simp only [hvalue] at hread
    obtain rfl : value = j := eq_of_settle hread
    exact allNumbers_value (fun start n hplain hscan => hplain.integral hscan) hvalue h.draft
      hscanned

end SelfNamed.Json
