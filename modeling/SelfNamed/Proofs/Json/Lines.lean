import SelfNamed.Proofs.Json.Written

/-!
# Values written over several lines read back

A value written over several lines is read back as it was written, its members in the order in which
the value holds them. Blanks between the parts do not matter to the reader, nor does what stands
behind the text; the reader may limit the nesting as long as the value stays below the limit. Main
statement: the draft of the text states the value, and nothing but blanks follows it.
-/

namespace SelfNamed.Json

open Read
open Token (isBlank skipBlank)

/-! ## Drafts that state a value -/

mutual

/-- A draft without faults states a value, members in the order of the value. -/
inductive Draft.States : Draft → Json → Prop where
  /-- The null value. -/
  | null (start : List Char) : States (.null start) .null
  /-- A truth value. -/
  | bool (start : List Char) (b : Bool) : States (.bool start b) (.bool b)
  /-- A number. -/
  | num (start : List Char) (n : Number) : States (.num start n) (.num n)
  /-- A text. -/
  | str (start : List Char) (s : String) : States (.str start s) (.str s)
  /-- Items one by one. -/
  | arr (start : List Char) {drafts : List Draft} {items : List Json}
    (h : Draft.StatesItems drafts items) : States (.arr start drafts none) (.arr items)
  /-- Members one by one. -/
  | obj (start : List Char) {drafts : List (String × Draft)} {members : Fields}
    (h : Draft.StatesMembers drafts members) : States (.obj start drafts none) (.obj members)

/-- Drafts state items one by one. -/
inductive Draft.StatesItems : List Draft → List Json → Prop where
  /-- No items. -/
  | nil : StatesItems [] []
  /-- One item before others. -/
  | cons {d : Draft} {j : Json} {drafts : List Draft} {items : List Json} (h : Draft.States d j)
    (hrest : StatesItems drafts items) : StatesItems (d :: drafts) (j :: items)

/-- Drafts state members of the same names one by one. -/
inductive Draft.StatesMembers : List (String × Draft) → Fields → Prop where
  /-- No members. -/
  | nil : StatesMembers [] []
  /-- One member before others. -/
  | cons (name : String) {d : Draft} {j : Json} {drafts : List (String × Draft)} {members : Fields}
    (h : Draft.States d j) (hrest : StatesMembers drafts members) :
    StatesMembers ((name, d) :: drafts) ((name, j) :: members)

end

namespace Draft

/-- What states an object is one, and its members state the members. -/
theorem States.of_obj {d : Draft} {members : Fields} (h : d.States (.obj members)) :
    ∃ start drafts, d = .obj start drafts none ∧ StatesMembers drafts members := by
  cases h with
  | obj start h => exact ⟨start, _, rfl, h⟩

/-- What states members begins with a member that states the first. -/
theorem StatesMembers.of_cons {drafts : List (String × Draft)} {name : String} {j : Json}
    {members : Fields} (h : StatesMembers drafts ((name, j) :: members)) :
    ∃ d later, drafts = (name, d) :: later ∧ d.States j ∧ StatesMembers later members := by
  cases h with
  | cons _ hfirst hrest => exact ⟨_, _, rfl, hfirst, hrest⟩

/-- What states no members has none. -/
theorem StatesMembers.of_nil {drafts : List (String × Draft)} (h : StatesMembers drafts []) :
    drafts = [] := by
  cases h
  rfl

mutual

/-- What states a value means its canonical form. -/
theorem States.value : {d : Draft} → {j : Json} → d.States j → d.value = .ok j.sorted
  | _, _, .null _ => rfl
  | _, _, .bool _ _ => rfl
  | _, _, .num _ _ => rfl
  | _, _, .str _ _ => rfl
  | _, _, .arr _ h => by
    rw [Draft.value, h.itemValues, sorted]
    rfl
  | _, _, .obj _ h => by
    rw [Draft.value, h.memberValues, sorted]
    rfl

/-- What states items means their canonical forms. -/
theorem StatesItems.itemValues : {drafts : List Draft} → {items : List Json} →
    StatesItems drafts items → itemValues drafts = .ok (sortedItems items)
  | _, _, .nil => rfl
  | _, _, .cons h hrest => by
    rw [Draft.itemValues, h.value, hrest.itemValues, sortedItems]
    rfl

/-- What states members means them with their values in canonical form. -/
theorem StatesMembers.memberValues : {drafts : List (String × Draft)} → {members : Fields} →
    StatesMembers drafts members → memberValues drafts = .ok (sortedMembers members)
  | _, _, .nil => rfl
  | _, _, .cons _ h hrest => by
    rw [Draft.memberValues, h.value, hrest.memberValues, sortedMembers]
    rfl

end

end Draft

/-! ## Nesting -/

mutual

/-- The levels of brackets of a value. -/
def nesting : Json → Nat
  | .arr items => nestingItems items + 1
  | .obj members => nestingMembers members + 1
  | .null => 0
  | .bool _ => 0
  | .num _ => 0
  | .str _ => 0

/-- The levels of brackets inside items. -/
def nestingItems : List Json → Nat
  | [] => 0
  | item :: rest => max (nesting item) (nestingItems rest)

/-- The levels of brackets inside members. -/
def nestingMembers : List (String × Json) → Nat
  | [] => 0
  | (_, value) :: rest => max (nesting value) (nestingMembers rest)

end

/-- Items have no more levels of brackets than each of them may have. -/
theorem nestingItems_le {items : List Json} {levels : ℕ}
    (h : ∀ item ∈ items, item.nesting ≤ levels) : nestingItems items ≤ levels := by
  induction items with
  | nil => exact Nat.zero_le _
  | cons item items ih =>
    rw [nestingItems]
    exact max_le (h item List.mem_cons_self) (ih fun other hother =>
      h other (List.mem_cons_of_mem _ hother))

/-- So many levels of brackets stay below the bound, if there is one. -/
def Within (depth : Option ℕ) (levels : ℕ) : Prop := ∀ bound ∈ depth, levels < bound

/-- Fewer levels stay below the bound, too. -/
theorem Within.mono {depth : Option ℕ} {fewer levels : ℕ} (h : Within depth levels)
    (hle : fewer ≤ levels) : Within depth fewer :=
  fun bound hbound => lt_of_le_of_lt hle (h bound hbound)

/-- A level that stays below the bound opens, and so do the levels inside. -/
theorem Within.enter {depth : Option ℕ} {levels : ℕ} (h : Within depth (levels + 1)) :
    ∃ inner, enter? depth = some inner ∧ Within inner levels := by
  cases depth with
  | none => exact ⟨none, rfl, nofun⟩
  | some bound =>
    have hbound : levels + 1 < bound := h bound rfl
    refine ⟨some (bound - 1), ?_, ?_⟩
    · rw [enter?, if_neg (by omega)]
    · rintro _ ⟨⟩
      omega

/-! ## Blanks and lengths -/

/-- A line break is blank. -/
theorem skipBlank_lineBreak (level : ℕ) (text : List Char) :
    skipBlank (lineBreak level text) = skipBlank text := by
  rw [lineBreak, skipBlank, List.dropWhile_cons_of_pos rfl]
  refine List.dropWhile_append_of_pos fun c hc => ?_
  rw [List.eq_of_mem_replicate hc]
  rfl

/-- The reader of a value passes over blanks in front. -/
theorem scan_of_skipBlank {depth : Option ℕ} (fuel : ℕ) {text text' : List Char}
    (h : skipBlank text = skipBlank text') :
    scan depth (fuel + 1) text = scan depth (fuel + 1) text' := by
  rw [scan, scan, h]

/-- A value over several lines begins with a character that is no blank and does not close a list.
-/
theorem writeLines_eq_cons {j : Json} (h : j.AllNumbers Number.ReadsBack) (level : ℕ)
    (tail : List Char) :
    ∃ c rest, j.writeLines level tail = c :: rest ∧ isBlank c = false ∧ c ≠ ']' := by
  cases j with
  | null => exact ⟨'n', _, rfl, rfl, by decide⟩
  | bool b =>
    cases b with
    | false => exact ⟨'f', _, rfl, rfl, by decide⟩
    | true => exact ⟨'t', _, rfl, rfl, by decide⟩
  | num n =>
    rw [AllNumbers] at h
    obtain ⟨c, rest, htext, hc⟩ := h.begins
    obtain ⟨hblank, hbracket, -⟩ := begins_number hc
    exact ⟨c, rest ++ tail, by rw [writeLines, htext, List.cons_append], hblank, hbracket⟩
  | str s => exact ⟨'"', _, by rw [writeLines, writeText], rfl, by decide⟩
  | arr items => cases items <;> exact ⟨'[', _, by rw [writeLines], rfl, by decide⟩
  | obj members => cases members <;> exact ⟨'\x7b', _, by rw [writeLines], rfl, by decide⟩

/-- A line break stands in front of all that follows. -/
theorem lineBreak_append (level : ℕ) (text tail : List Char) :
    lineBreak level (text ++ tail) = lineBreak level text ++ tail := by
  rw [lineBreak, lineBreak, List.cons_append, List.append_assoc]

/-- A text stands in front of all that follows. -/
theorem writeText_append (s : String) (text tail : List Char) :
    writeText s (text ++ tail) = writeText s text ++ tail := by
  have hchars (chars before : List Char) :
      writeChars chars (before ++ tail) = writeChars chars before ++ tail := by
    induction chars with
    | nil => rfl
    | cons c chars ih => rw [writeChars, writeChars, ih, List.append_assoc]
  rw [writeText, writeText, ← List.cons_append, hchars, List.cons_append]

mutual

/-- A value over several lines stands in front of all that follows. -/
theorem writeLines_append : (j : Json) → (level : ℕ) → (text tail : List Char) →
    j.writeLines level (text ++ tail) = j.writeLines level text ++ tail
  | .null, _, _, _ => rfl
  | .bool _, _, _, _ => by rw [writeLines, writeLines, List.append_assoc]
  | .num _, _, _, _ => by rw [writeLines, writeLines, List.append_assoc]
  | .str _, _, _, _ => by rw [writeLines, writeLines, writeText_append]
  | .arr [], _, _, _ => by rw [writeLines, writeLines]; rfl
  | .arr (item :: rest), level, text, tail => by
    rw [writeLines, writeLines, ← List.cons_append, lineBreak_append, writeItemLines_append,
      writeLines_append, lineBreak_append, List.cons_append]
  | .obj [], _, _, _ => by rw [writeLines, writeLines]; rfl
  | .obj ((name, value) :: rest), level, text, tail => by
    rw [writeLines, writeLines, ← List.cons_append, lineBreak_append, writeMemberLines_append,
      writeLines_append, ← List.cons_append, ← List.cons_append, writeText_append, lineBreak_append,
      List.cons_append]

/-- Further items stand in front of all that follows. -/
theorem writeItemLines_append : (items : List Json) → (level : ℕ) → (text tail : List Char) →
    writeItemLines items level (text ++ tail) = writeItemLines items level text ++ tail
  | [], _, _, _ => by rw [writeItemLines, writeItemLines]
  | item :: items, level, text, tail => by
    rw [writeItemLines, writeItemLines, writeItemLines_append, writeLines_append, lineBreak_append,
      List.cons_append]

/-- Further members stand in front of all that follows. -/
theorem writeMemberLines_append : (members : List (String × Json)) → (level : ℕ) →
    (text tail : List Char) →
    writeMemberLines members level (text ++ tail) = writeMemberLines members level text ++ tail
  | [], _, _, _ => by rw [writeMemberLines, writeMemberLines]
  | (name, value) :: members, level, text, tail => by
    rw [writeMemberLines, writeMemberLines, writeMemberLines_append, writeLines_append,
      ← List.cons_append, ← List.cons_append, writeText_append, lineBreak_append, List.cons_append]

end

/-- A value over several lines is longer than what follows it. -/
theorem length_writeLines {j : Json} (h : j.AllNumbers Number.ReadsBack) (level : ℕ)
    (tail : List Char) : tail.length < (j.writeLines level tail).length := by
  obtain ⟨c, rest, htext, -⟩ := writeLines_eq_cons h level []
  have happend : j.writeLines level tail = j.writeLines level [] ++ tail :=
    writeLines_append j level [] tail
  rw [happend, htext, List.length_append, List.length_cons]
  omega

/-- Further items are at least as long as what follows them. -/
theorem length_writeItemLines (items : List Json) (level : ℕ) (tail : List Char) :
    tail.length ≤ (writeItemLines items level tail).length := by
  have happend : writeItemLines items level tail = writeItemLines items level [] ++ tail :=
    writeItemLines_append items level [] tail
  rw [happend, List.length_append]
  omega

/-- Further members are at least as long as what follows them. -/
theorem length_writeMemberLines (members : List (String × Json)) (level : ℕ) (tail : List Char) :
    tail.length ≤ (writeMemberLines members level tail).length := by
  have happend : writeMemberLines members level tail = writeMemberLines members level [] ++ tail :=
    writeMemberLines_append members level [] tail
  rw [happend, List.length_append]
  omega

/-- A line break is at least one character. -/
theorem length_lineBreak (level : ℕ) (tail : List Char) :
    tail.length + 1 ≤ (lineBreak level tail).length := by
  rw [lineBreak, List.length_cons, List.length_append]
  omega

/-- Behind an item a number ends. -/
theorem numberEnd_writeItemLines (items : List Json) (level outer : ℕ) (tail : List Char) :
    NumberEnd (writeItemLines items level (lineBreak outer tail)) := by
  cases items with
  | nil =>
    rw [writeItemLines, lineBreak]
    exact ⟨rfl, by decide, by decide, by decide⟩
  | cons item items =>
    rw [writeItemLines]
    exact ⟨rfl, by decide, by decide, by decide⟩

/-- Behind a member a number ends. -/
theorem numberEnd_writeMemberLines (members : List (String × Json)) (level outer : ℕ)
    (tail : List Char) : NumberEnd (writeMemberLines members level (lineBreak outer tail)) := by
  cases members with
  | nil =>
    rw [writeMemberLines, lineBreak]
    exact ⟨rfl, by decide, by decide, by decide⟩
  | cons member members =>
    rw [writeMemberLines]
    exact ⟨rfl, by decide, by decide, by decide⟩

/-! ## Reading what is written -/

mutual

/-- A value over several lines is scanned up to what follows it, and its draft states the value. -/
theorem scan_writeLines : {j : Json} → j.AllNumbers Number.ReadsBack → {depth : Option ℕ} →
    Within depth j.nesting → (level : ℕ) → {fuel : ℕ} → {tail : List Char} →
    3 * (j.writeLines level tail).length ≤ fuel + 3 * tail.length → NumberEnd tail →
    ∃ d, scan depth fuel (j.writeLines level tail) = (d, some tail) ∧ d.States j
  | j, hnumbers, _, _, level, 0, tail, hfuel, _ => by
    have hlength := length_writeLines hnumbers level tail
    omega
  | .null, _, _, _, _, fuel + 1, _, _, _ => ⟨_, rfl, .null _⟩
  | .bool b, _, _, _, _, fuel + 1, _, _, _ => by cases b <;> exact ⟨_, rfl, .bool _ _⟩
  | .num n, hnumbers, _, _, _, fuel + 1, tail, _, hend => by
    rw [AllNumbers] at hnumbers
    exact ⟨_, scan_number hnumbers fuel hend, .num _ n⟩
  | .str s, _, _, _, _, fuel + 1, tail, _, _ => by
    have htext := scanText_writeChars s.toList tail
    rw [writeLines, writeText, scan, skipBlank_cons _ rfl]
    simp only [if_pos, textDraft, htext, String.ofList_toList]
    exact ⟨_, rfl, .str _ s⟩
  | .arr items, hnumbers, depth, hnesting, level, fuel + 1, tail, hfuel, _ => by
    rw [AllNumbers] at hnumbers
    rw [nesting] at hnesting
    obtain ⟨inner, henter, hinner⟩ := hnesting.enter
    cases items with
    | nil =>
      rw [writeLines, List.length_cons, List.length_cons] at hfuel
      obtain ⟨fuel, rfl⟩ : ∃ less, fuel = less + 1 := ⟨fuel - 1, by omega⟩
      rw [writeLines]
      exact ⟨_, scan_array henter rfl, .arr _ .nil⟩
    | cons item items =>
      rw [writeLines, List.length_cons] at hfuel
      have hitems : 3 * (writeItemLines (item :: items) (level + 1)
          (lineBreak level (']' :: tail))).length ≤ fuel + 1 + 3 * tail.length := by
        rw [writeItemLines, List.length_cons]
        omega
      obtain ⟨drafts, hstates, -, hscan⟩ :=
        scanItems_writeItemLines hnumbers hinner (level + 1) level hitems
      rw [writeLines]
      exact ⟨_, scan_array henter (hscan _ (by rw [writeItemLines])), .arr _ hstates⟩
  | .obj members, hnumbers, depth, hnesting, level, fuel + 1, tail, hfuel, _ => by
    rw [AllNumbers] at hnumbers
    rw [nesting] at hnesting
    obtain ⟨inner, henter, hinner⟩ := hnesting.enter
    cases members with
    | nil =>
      rw [writeLines, List.length_cons, List.length_cons] at hfuel
      obtain ⟨fuel, rfl⟩ : ∃ less, fuel = less + 1 := ⟨fuel - 1, by omega⟩
      rw [writeLines]
      exact ⟨_, scan_object henter rfl, .obj _ .nil⟩
    | cons member members =>
      obtain ⟨name, value⟩ := member
      rw [writeLines, List.length_cons] at hfuel
      have hmembers : 3 * (writeMemberLines ((name, value) :: members) (level + 1)
          (lineBreak level ('\x7d' :: tail))).length ≤ fuel + 1 + 3 * tail.length := by
        rw [writeMemberLines, List.length_cons]
        omega
      obtain ⟨drafts, hstates, -, hscan⟩ :=
        scanMembers_writeMemberLines hnumbers hinner (level + 1) level hmembers
      rw [writeLines]
      exact ⟨_, scan_object henter (hscan _ (by rw [writeMemberLines])), .obj _ hstates⟩

/-- Further items are scanned up to what follows the closing bracket, and so are the first ones,
which have no comma in front. -/
theorem scanItems_writeItemLines : {items : List Json} →
    AllNumbersItems Number.ReadsBack items → {depth : Option ℕ} →
    Within depth (nestingItems items) → (level outer : ℕ) → {fuel : ℕ} → {tail : List Char} →
    3 * (writeItemLines items level (lineBreak outer (']' :: tail))).length ≤
      fuel + 1 + 3 * tail.length →
    ∃ drafts, Draft.StatesItems drafts items ∧
      scanItems depth fuel false (writeItemLines items level (lineBreak outer (']' :: tail))) =
        (drafts, none, some tail) ∧
      ∀ text, writeItemLines items level (lineBreak outer (']' :: tail)) = ',' :: text →
        scanItems depth fuel true text = (drafts, none, some tail)
  | [], _, depth, _, level, outer, fuel, tail, hfuel => by
    have hbreak := length_lineBreak outer (']' :: tail)
    rw [writeItemLines] at hfuel ⊢
    rw [List.length_cons] at hbreak
    obtain ⟨fuel, rfl⟩ : ∃ less, fuel = less + 1 := ⟨fuel - 1, by omega⟩
    refine ⟨[], .nil, ?_, nofun⟩
    rw [scanItems, skipBlank_lineBreak]
    rfl
  | item :: items, hnumbers, depth, hnesting, level, outer, fuel, tail, hfuel => by
    rw [nestingItems] at hnesting
    rw [writeItemLines, List.length_cons] at hfuel
    have hbreak := length_lineBreak level (item.writeLines level
      (writeItemLines items level (lineBreak outer (']' :: tail))))
    have hitem := length_writeLines hnumbers.1 level
      (writeItemLines items level (lineBreak outer (']' :: tail)))
    have hrest := length_writeItemLines items level (lineBreak outer (']' :: tail))
    have hend := length_lineBreak outer (']' :: tail)
    rw [List.length_cons] at hend
    obtain ⟨fuel, rfl⟩ : ∃ less, fuel = less + 2 := ⟨fuel - 2, by omega⟩
    have hitemFuel : 3 * (item.writeLines level
        (writeItemLines items level (lineBreak outer (']' :: tail)))).length ≤
      fuel + 3 * (writeItemLines items level (lineBreak outer (']' :: tail))).length := by omega
    have hrestFuel : 3 * (writeItemLines items level (lineBreak outer (']' :: tail))).length ≤
      fuel + 1 + 3 * tail.length := by omega
    obtain ⟨draft, hdraft, hstates⟩ := scan_writeLines hnumbers.1 (hnesting.mono (le_max_left _ _))
      level hitemFuel (numberEnd_writeItemLines items level outer (']' :: tail))
    obtain ⟨drafts, hstates', hdrafts, -⟩ := scanItems_writeItemLines hnumbers.2
      (hnesting.mono (le_max_right _ _)) level outer hrestFuel
    obtain ⟨c, rest, htext, hblank, hbracket⟩ := writeLines_eq_cons hnumbers.1 level
      (writeItemLines items level (lineBreak outer (']' :: tail)))
    have hskip : skipBlank (lineBreak level (item.writeLines level
        (writeItemLines items level (lineBreak outer (']' :: tail))))) = c :: rest := by
      rw [skipBlank_lineBreak, htext, skipBlank_cons _ hblank]
    obtain ⟨hfirst, hlater⟩ := scanItems_enter depth (fuel + 1) hskip hbracket
    rw [htext] at hdraft
    have hscan := scanItem_cons hdraft hdrafts
    refine ⟨draft :: drafts, .cons hstates hstates', ?_, ?_⟩
    · rw [writeItemLines, hlater, hscan]
    · intro text heq
      rw [writeItemLines] at heq
      rw [← (List.cons.inj heq).2, hfirst, hscan]

/-- Further members are scanned up to what follows the closing brace, and so are the first ones,
which have no comma in front. -/
theorem scanMembers_writeMemberLines : {members : List (String × Json)} →
    AllNumbersMembers Number.ReadsBack members → {depth : Option ℕ} →
    Within depth (nestingMembers members) → (level outer : ℕ) → {fuel : ℕ} → {tail : List Char} →
    3 * (writeMemberLines members level (lineBreak outer ('\x7d' :: tail))).length ≤
      fuel + 1 + 3 * tail.length →
    ∃ drafts, Draft.StatesMembers drafts members ∧
      scanMembers depth fuel false
          (writeMemberLines members level (lineBreak outer ('\x7d' :: tail))) =
        (drafts, none, some tail) ∧
      ∀ text, writeMemberLines members level (lineBreak outer ('\x7d' :: tail)) = ',' :: text →
        scanMembers depth fuel true text = (drafts, none, some tail)
  | [], _, depth, _, level, outer, fuel, tail, hfuel => by
    have hbreak := length_lineBreak outer ('\x7d' :: tail)
    rw [writeMemberLines] at hfuel ⊢
    rw [List.length_cons] at hbreak
    obtain ⟨fuel, rfl⟩ : ∃ less, fuel = less + 1 := ⟨fuel - 1, by omega⟩
    refine ⟨[], .nil, ?_, nofun⟩
    rw [scanMembers, skipBlank_lineBreak]
    rfl
  | (name, value) :: members, hnumbers, depth, hnesting, level, outer, fuel, tail, hfuel => by
    rw [nestingMembers] at hnesting
    rw [writeMemberLines, List.length_cons] at hfuel
    have hbreak := length_lineBreak level (writeText name (':' :: ' ' :: value.writeLines level
      (writeMemberLines members level (lineBreak outer ('\x7d' :: tail)))))
    have hname := length_writeText name (':' :: ' ' :: value.writeLines level
      (writeMemberLines members level (lineBreak outer ('\x7d' :: tail))))
    have hvalue := length_writeLines hnumbers.1 level
      (writeMemberLines members level (lineBreak outer ('\x7d' :: tail)))
    have hrest := length_writeMemberLines members level (lineBreak outer ('\x7d' :: tail))
    have hend := length_lineBreak outer ('\x7d' :: tail)
    rw [List.length_cons] at hend
    rw [List.length_cons, List.length_cons] at hname
    obtain ⟨fuel, rfl⟩ : ∃ less, fuel = less + 3 := ⟨fuel - 3, by omega⟩
    have hvalueFuel : 3 * (value.writeLines level
        (writeMemberLines members level (lineBreak outer ('\x7d' :: tail)))).length ≤ fuel + 1 +
      3 * (writeMemberLines members level (lineBreak outer ('\x7d' :: tail))).length := by omega
    have hrestFuel :
        3 * (writeMemberLines members level (lineBreak outer ('\x7d' :: tail))).length ≤
          fuel + 1 + 1 + 3 * tail.length := by omega
    obtain ⟨draft, hdraft, hstates⟩ := scan_writeLines hnumbers.1 (hnesting.mono (le_max_left _ _))
      level hvalueFuel (numberEnd_writeMemberLines members level outer ('\x7d' :: tail))
    obtain ⟨drafts, hstates', hdrafts, -⟩ := scanMembers_writeMemberLines hnumbers.2
      (hnesting.mono (le_max_right _ _)) level outer hrestFuel
    have hskip : skipBlank (lineBreak level (writeText name (':' :: ' ' :: value.writeLines level
        (writeMemberLines members level (lineBreak outer ('\x7d' :: tail)))))) =
        '"' :: writeChars name.toList ('"' :: ':' :: ' ' :: value.writeLines level
          (writeMemberLines members level (lineBreak outer ('\x7d' :: tail)))) := by
      rw [skipBlank_lineBreak, writeText, skipBlank_cons _ rfl]
    obtain ⟨hfirst, hlater⟩ := scanMembers_enter depth (fuel + 2) hskip
    have hblank (text : List Char) : skipBlank (' ' :: text) = skipBlank text := rfl
    rw [← scan_of_skipBlank fuel (hblank _)] at hdraft
    have hscan := scanMember_cons name hdraft hdrafts
    refine ⟨(name, draft) :: drafts, .cons name hstates hstates', ?_, ?_⟩
    · rw [writeMemberLines, hlater, hscan]
    · intro text heq
      rw [writeMemberLines] at heq
      rw [← (List.cons.inj heq).2, hfirst, hscan]

end

/-- The draft of a value written over several lines states the value, and nothing follows it but the
blanks that stand there. -/
theorem readDraft_writeLines {j : Json} (hnumbers : j.AllNumbers Number.ReadsBack)
    {depth : Option ℕ} (hnesting : Within depth j.nesting) {tail : List Char}
    (hblank : skipBlank tail = []) (hend : NumberEnd tail) :
    ∃ d, readDraft depth (j.writeLines 0 tail) = (d, none) ∧ d.States j := by
  have hfuel : 3 * (j.writeLines 0 tail).length ≤
      Skip.fuelFor (j.writeLines 0 tail) + 3 * tail.length := by
    rw [Skip.fuelFor]
    omega
  obtain ⟨d, hscan, hstates⟩ := scan_writeLines hnumbers hnesting 0 hfuel hend
  refine ⟨d, ?_, hstates⟩
  rw [readDraft, front, hscan]
  simp only [hblank]

/-- A value that is read from the draft that states it is the value in canonical form. -/
theorem read_of_states {depth : Option ℕ} {text : List Char} {d : Draft} {j : Json}
    (hdraft : readDraft depth text = (d, none)) (hstates : d.States j) :
    read depth text = .ok j.sorted := by
  rw [read, hdraft]
  simp only [hstates.value]
  rfl

end SelfNamed.Json
