import SelfNamed.Proofs.Json.Numbers

/-!
# Written values read back

A canonical value whose numbers read back is what its compact text means, whatever stands behind the
text. Nesting is free here; the fuel of the reader is paid for by the characters of the text, three
for each, so the statement about a value says how much of the fuel its own text leaves. It goes by
induction on the value together with its items and members, each in front of what follows it, and
tells of the draft as well that integers stand in it as they are written.
-/

namespace SelfNamed.Json

open Read
open Text (isDigit)
open Token (isBlank skipBlank)

/-! ## How written values begin and end -/

/-- A text of no blanks in front stays as it is. -/
theorem skipBlank_cons {c : Char} (text : List Char) (h : isBlank c = false) :
    skipBlank (c :: text) = c :: text := by
  rw [skipBlank, List.dropWhile_cons_of_neg (by simp [h])]

/-- A character that begins a number is no blank and no bracket. -/
theorem begins_number {c : Char} (h : c = '-' ∨ isDigit c = true) :
    isBlank c = false ∧ c ≠ ']' ∧ c ≠ '"' ∧ c ≠ '[' ∧ c ≠ '\x7b' ∧ c ≠ 'n' ∧ c ≠ 't' ∧ c ≠ 'f' := by
  have hne (d : Char) (hd : isDigit d = false) (hsign : d ≠ '-') : c ≠ d := by
    rintro rfl
    rcases h with h | h
    · exact hsign h
    · rw [hd] at h
      cases h
  have hblank : isBlank c = false := by
    simp only [isBlank, Bool.or_eq_false_iff, beq_eq_false_iff_ne]
    exact ⟨⟨⟨hne _ rfl (by decide), hne _ rfl (by decide)⟩, hne _ rfl (by decide)⟩,
      hne _ rfl (by decide)⟩
  exact ⟨hblank, hne _ rfl (by decide), hne _ rfl (by decide), hne _ rfl (by decide),
    hne _ rfl (by decide), hne _ rfl (by decide), hne _ rfl (by decide), hne _ rfl (by decide)⟩

/-- A written value begins with a character that is no blank and does not close a list. -/
theorem write_eq_cons {j : Json} (h : j.AllNumbers Number.ReadsBack) (tail : List Char) :
    ∃ c rest, j.write tail = c :: rest ∧ isBlank c = false ∧ c ≠ ']' := by
  cases j with
  | null => exact ⟨'n', _, rfl, rfl, by decide⟩
  | bool b =>
    cases b with
    | false => exact ⟨'f', _, rfl, rfl, by decide⟩
    | true => exact ⟨'t', _, rfl, rfl, by decide⟩
  | num n =>
    rw [AllNumbers] at h
    obtain ⟨c, rest, htext, hc⟩ := h.begins
    obtain ⟨hblank, hbracket, -⟩ := begins_number hc
    exact ⟨c, rest ++ tail, by rw [write, htext, List.cons_append], hblank, hbracket⟩
  | str s => exact ⟨'"', _, by rw [write, writeText], rfl, by decide⟩
  | arr items => exact ⟨'[', _, by rw [write], rfl, by decide⟩
  | obj members => exact ⟨'\x7b', _, by rw [write], rfl, by decide⟩

/-- Behind an item a number ends. -/
theorem numberEnd_writeItems (items : List Json) (tail : List Char) :
    NumberEnd (writeItems items false (']' :: tail)) := by
  cases items with
  | nil =>
    rw [writeItems]
    exact ⟨rfl, by decide, by decide, by decide⟩
  | cons item items =>
    rw [writeItems]
    exact ⟨rfl, by decide, by decide, by decide⟩

/-- Behind a member a number ends. -/
theorem numberEnd_writeMembers (members : List (String × Json)) (tail : List Char) :
    NumberEnd (writeMembers members false ('\x7d' :: tail)) := by
  cases members with
  | nil =>
    rw [writeMembers]
    exact ⟨rfl, by decide, by decide, by decide⟩
  | cons member members =>
    rw [writeMembers]
    exact ⟨rfl, by decide, by decide, by decide⟩

/-! ## How long written values are -/

/-- A written text is longer than what follows it. -/
theorem length_writeText (s : String) (tail : List Char) :
    tail.length + 2 ≤ (writeText s tail).length := by
  have hchars (chars rest : List Char) : rest.length ≤ (writeChars chars rest).length := by
    induction chars with
    | nil => rw [writeChars]
    | cons c chars ih =>
      rw [writeChars, List.length_append]
      omega
  have h := hchars s.toList ('"' :: tail)
  rw [writeText, List.length_cons]
  rw [List.length_cons] at h
  omega

mutual

/-- A written value is longer than what follows it. -/
theorem length_write : {j : Json} → j.AllNumbers Number.ReadsBack → (tail : List Char) →
    tail.length < (j.write tail).length
  | .null, _, tail => by simp [write]; omega
  | .bool b, _, tail => by cases b <;> simp [write, boolText] <;> omega
  | .num n, h, tail => by
    rw [AllNumbers] at h
    obtain ⟨c, rest, htext, -⟩ := h.begins
    rw [write, htext, List.length_append, List.length_cons]
    omega
  | .str s, _, tail => by
    have hs := length_writeText s tail
    rw [write]
    omega
  | .arr items, h, tail => by
    rw [AllNumbers] at h
    have hitems := length_writeItems h true (']' :: tail)
    rw [write, List.length_cons]
    rw [List.length_cons] at hitems
    omega
  | .obj members, h, tail => by
    rw [AllNumbers] at h
    have hmembers := length_writeMembers h true ('\x7d' :: tail)
    rw [write, List.length_cons]
    rw [List.length_cons] at hmembers
    omega

/-- Written items are at least as long as what follows them. -/
theorem length_writeItems : {items : List Json} → AllNumbersItems Number.ReadsBack items →
    (first : Bool) → (tail : List Char) → tail.length ≤ (writeItems items first tail).length
  | [], _, _, tail => by rw [writeItems]
  | item :: items, h, first, tail => by
    have hrest := length_writeItems h.2 false tail
    have hitem := length_write h.1 (writeItems items false tail)
    cases first with
    | true =>
      rw [writeItems]
      omega
    | false =>
      rw [writeItems, List.length_cons]
      omega

/-- Written members are at least as long as what follows them. -/
theorem length_writeMembers : {members : List (String × Json)} →
    AllNumbersMembers Number.ReadsBack members → (first : Bool) → (tail : List Char) →
    tail.length ≤ (writeMembers members first tail).length
  | [], _, _, tail => by rw [writeMembers]
  | (name, value) :: members, h, first, tail => by
    have hrest := length_writeMembers h.2 false tail
    have hvalue := length_write h.1 (writeMembers members false tail)
    have hname := length_writeText name (':' :: value.write (writeMembers members false tail))
    rw [List.length_cons] at hname
    cases first with
    | true =>
      rw [writeMembers]
      omega
    | false =>
      rw [writeMembers, List.length_cons]
      omega

end

/-! ## Reading what is written -/

/-- A number that reads back is scanned as one. -/
theorem scan_number {depth : Option ℕ} {n : Number} (h : n.ReadsBack) (fuel : ℕ)
    {tail : List Char} (hend : NumberEnd tail) :
    scan depth (fuel + 1) (n.text ++ tail) = (.num (n.text ++ tail) n, some tail) := by
  obtain ⟨c, rest, htext, hc⟩ := h.begins
  obtain ⟨hblank, -, hquote, hbracket, hbrace, hn, ht, hf⟩ := begins_number hc
  have hscan := h tail hend
  rw [htext, List.cons_append] at hscan ⊢
  rw [scan, skipBlank_cons _ hblank]
  simp only [if_neg hquote, if_neg hbracket, if_neg hbrace, if_neg hn, if_neg ht, if_neg hf,
    if_pos hc, numberDraft, hscan]

/-- The reader of a value comes to an array whose level opens and whose items are scanned. -/
theorem scan_array {depth inner : Option ℕ} {fuel : ℕ} (henter : enter? depth = some inner)
    {text tail : List Char} {drafts : List Draft}
    (hscan : scanItems inner fuel true text = (drafts, none, some tail)) :
    scan depth (fuel + 1) ('[' :: text) = (.arr ('[' :: text) drafts none, some tail) := by
  rw [scan, skipBlank_cons _ rfl]
  simp only [henter, hscan, after]
  rfl

/-- The reader of a value comes to an object whose level opens and whose members are scanned. -/
theorem scan_object {depth inner : Option ℕ} {fuel : ℕ} (henter : enter? depth = some inner)
    {text tail : List Char} {drafts : List (String × Draft)}
    (hscan : scanMembers inner fuel true text = (drafts, none, some tail)) :
    scan depth (fuel + 1) ('\x7b' :: text) = (.obj ('\x7b' :: text) drafts none, some tail) := by
  rw [scan, skipBlank_cons _ rfl]
  simp only [henter, hscan, after]
  rfl

/-- The reader of items comes to an item at once or behind a comma. -/
theorem scanItems_enter (depth : Option ℕ) (fuel : ℕ) {c : Char} {text rest : List Char}
    (htext : skipBlank text = c :: rest) (hbracket : c ≠ ']') :
    scanItems depth (fuel + 1) true text = scanItem depth fuel (c :: rest) ∧
      scanItems depth (fuel + 1) false (',' :: text) = scanItem depth fuel (c :: rest) := by
  have hcomma : skipBlank (',' :: text) = ',' :: text := skipBlank_cons _ rfl
  have hclosed : (',' : Char) ≠ ']' := by decide
  constructor
  · rw [scanItems, htext]
    simp only [if_neg hbracket, if_true]
  · rw [scanItems, hcomma]
    simp only [if_neg hclosed, Bool.false_eq_true, if_false, if_true, htext, if_neg hbracket]

/-- An item and those behind it are scanned in turn. -/
theorem scanItem_cons {depth : Option ℕ} {fuel : ℕ} {text between tail : List Char} {draft : Draft}
    {drafts : List Draft} (hfirst : scan depth fuel text = (draft, some between))
    (hrest : scanItems depth fuel false between = (drafts, none, some tail)) :
    scanItem depth (fuel + 1) text = (draft :: drafts, none, some tail) := by
  rw [scanItem, hfirst]
  simp only [hrest]

/-- The reader of members comes to a name at once or behind a comma. -/
theorem scanMembers_enter (depth : Option ℕ) (fuel : ℕ) {text rest : List Char}
    (htext : skipBlank text = '"' :: rest) :
    scanMembers depth (fuel + 1) true text = scanMember depth fuel rest ∧
      scanMembers depth (fuel + 1) false (',' :: text) = scanMember depth fuel rest := by
  have hcomma : skipBlank (',' :: text) = ',' :: text := skipBlank_cons _ rfl
  have hbrace : ('"' : Char) ≠ '\x7d' := by decide
  have hclosed : (',' : Char) ≠ '\x7d' := by decide
  constructor
  · rw [scanMembers, htext]
    simp only [if_neg hbrace, if_true]
  · rw [scanMembers, hcomma]
    simp only [if_neg hclosed, Bool.false_eq_true, if_false, if_true, htext]

/-- A member and those behind it are scanned in turn, from behind the first quotation mark on. -/
theorem scanMember_cons {depth : Option ℕ} {fuel : ℕ} (name : String)
    {text between tail : List Char} {draft : Draft} {drafts : List (String × Draft)}
    (hfirst : scan depth fuel text = (draft, some between))
    (hrest : scanMembers depth fuel false between = (drafts, none, some tail)) :
    scanMember depth (fuel + 1) (writeChars name.toList ('"' :: ':' :: text)) =
      ((name, draft) :: drafts, none, some tail) := by
  have hcolon : skipBlank (':' :: text) = ':' :: text := skipBlank_cons _ rfl
  rw [scanMember, scanText_writeChars]
  simp only [hcolon, if_true, hfirst, hrest, String.ofList_toList]

mutual

/-- A written value is scanned up to what follows it, and its draft means the value. The integers
of the value stand in the text as they are. -/
theorem scan_write : {j : Json} → Canonical j → j.AllNumbers Number.ReadsBack → {fuel : ℕ} →
    {tail : List Char} → 3 * (j.write tail).length ≤ fuel + 3 * tail.length → NumberEnd tail →
    ∃ d, scan none fuel (j.write tail) = (d, some tail) ∧ d.value = .ok j ∧
      (j.AllNumbers Number.Integral → d.AllNumbers fun start _ => PlainInteger start)
  | j, _, hnumbers, 0, tail, hfuel, _ => by
    have hlength := length_write hnumbers tail
    omega
  | .null, _, _, fuel + 1, tail, _, _ => ⟨_, rfl, rfl, fun _ => trivial⟩
  | .bool b, _, _, fuel + 1, tail, _, _ => by
    cases b <;> exact ⟨_, rfl, rfl, fun _ => trivial⟩
  | .num n, _, hnumbers, fuel + 1, tail, _, hend => by
    rw [AllNumbers] at hnumbers
    exact ⟨_, scan_number hnumbers fuel hend, rfl, fun hintegral => ⟨n, hintegral, tail, rfl, hend⟩⟩
  | .str s, _, _, fuel + 1, tail, _, _ => by
    have htext := scanText_writeChars s.toList tail
    rw [write, writeText, scan, skipBlank_cons _ rfl]
    simp only [if_pos, textDraft, htext, String.ofList_toList]
    exact ⟨_, rfl, rfl, fun _ => trivial⟩
  | .arr items, hcanonical, hnumbers, fuel + 1, tail, hfuel, _ => by
    rw [Canonical] at hcanonical
    rw [AllNumbers] at hnumbers
    rw [write, List.length_cons] at hfuel
    have hitems : 3 * (writeItems items true (']' :: tail)).length ≤ fuel + 3 * tail.length := by
      omega
    obtain ⟨drafts, hscan, hvalues, hplain⟩ := scanItems_write hcanonical hnumbers true hitems
    rw [write]
    refine ⟨_, scan_array rfl hscan, ?_, hplain⟩
    rw [Draft.value, hvalues]
    rfl
  | .obj members, hcanonical, hnumbers, fuel + 1, tail, hfuel, _ => by
    rw [Canonical] at hcanonical
    rw [AllNumbers] at hnumbers
    rw [write, List.length_cons] at hfuel
    have hmembers :
        3 * (writeMembers members true ('\x7d' :: tail)).length ≤ fuel + 3 * tail.length := by
      omega
    obtain ⟨drafts, hscan, hvalues, hplain⟩ :=
      scanMembers_write hcanonical.2 hnumbers true hmembers
    have hordered : Fields.ofMembers members = members := hcanonical.1.ofMembers_eq
    rw [write]
    refine ⟨_, scan_object rfl hscan, ?_, hplain⟩
    rw [Draft.value, hvalues]
    exact congrArg (fun fields => Except.ok (obj fields)) hordered

/-- Written items are scanned up to what follows the closing bracket. -/
theorem scanItems_write : {items : List Json} → CanonicalItems items →
    AllNumbersItems Number.ReadsBack items → (first : Bool) → {fuel : ℕ} → {tail : List Char} →
    3 * (writeItems items first (']' :: tail)).length ≤ fuel + 3 * tail.length →
    ∃ drafts, scanItems none fuel first (writeItems items first (']' :: tail)) =
        (drafts, none, some tail) ∧ Draft.itemValues drafts = .ok items ∧
      (AllNumbersItems Number.Integral items →
        Draft.AllNumbersItems (fun start _ => PlainInteger start) drafts)
  | [], _, _, first, 0, tail, hfuel => by
    rw [writeItems, List.length_cons] at hfuel
    omega
  | [], _, _, first, fuel + 1, tail, _ =>
    ⟨[], by rw [writeItems]; rfl, rfl, fun _ => trivial⟩
  | item :: items, hcanonical, hnumbers, first, fuel, tail, hfuel => by
    have hrest := length_writeItems hnumbers.2 false (']' :: tail)
    have hitem := length_write hnumbers.1 (writeItems items false (']' :: tail))
    rw [List.length_cons] at hrest
    have hwritten : (item.write (writeItems items false (']' :: tail))).length ≤
        (writeItems (item :: items) first (']' :: tail)).length := by
      cases first with
      | true => rw [writeItems]
      | false => rw [writeItems, List.length_cons]; omega
    obtain ⟨fuel, rfl⟩ : ∃ less, fuel = less + 2 := ⟨fuel - 2, by omega⟩
    have hitemFuel : 3 * (item.write (writeItems items false (']' :: tail))).length ≤
      fuel + 3 * (writeItems items false (']' :: tail)).length := by omega
    have hrestFuel : 3 * (writeItems items false (']' :: tail)).length ≤
      fuel + 3 * tail.length := by omega
    obtain ⟨draft, hdraft, hvalue, hplain⟩ :=
      scan_write hcanonical.1 hnumbers.1 hitemFuel (numberEnd_writeItems items tail)
    obtain ⟨drafts, hdrafts, hvalues, hplains⟩ :=
      scanItems_write hcanonical.2 hnumbers.2 false hrestFuel
    have hscan : scanItems none (fuel + 2) first (writeItems (item :: items) first (']' :: tail)) =
        scanItem none (fuel + 1) (item.write (writeItems items false (']' :: tail))) := by
      obtain ⟨c, rest, htext, hblank, hbracket⟩ :=
        write_eq_cons hnumbers.1 (writeItems items false (']' :: tail))
      obtain ⟨hfirst, hlater⟩ :=
        scanItems_enter none (fuel + 1) (skipBlank_cons rest hblank) hbracket
      cases first with
      | true => rw [writeItems, htext, hfirst]
      | false => rw [writeItems, htext, hlater]
    refine ⟨draft :: drafts, ?_, ?_, fun h => ⟨hplain h.1, hplains h.2⟩⟩
    · rw [hscan, scanItem_cons hdraft hdrafts]
    · rw [Draft.itemValues, hvalue, hvalues]
      rfl

/-- Written members are scanned up to what follows the closing brace. -/
theorem scanMembers_write : {members : List (String × Json)} → CanonicalMembers members →
    AllNumbersMembers Number.ReadsBack members → (first : Bool) → {fuel : ℕ} →
    {tail : List Char} →
    3 * (writeMembers members first ('\x7d' :: tail)).length ≤ fuel + 3 * tail.length →
    ∃ drafts, scanMembers none fuel first (writeMembers members first ('\x7d' :: tail)) =
        (drafts, none, some tail) ∧ Draft.memberValues drafts = .ok members ∧
      (AllNumbersMembers Number.Integral members →
        Draft.AllNumbersMembers (fun start _ => PlainInteger start) drafts)
  | [], _, _, first, 0, tail, hfuel => by
    rw [writeMembers, List.length_cons] at hfuel
    omega
  | [], _, _, first, fuel + 1, tail, _ =>
    ⟨[], by rw [writeMembers]; rfl, rfl, fun _ => trivial⟩
  | (name, value) :: members, hcanonical, hnumbers, first, fuel, tail, hfuel => by
    have hrest := length_writeMembers hnumbers.2 false ('\x7d' :: tail)
    have hlength := length_write hnumbers.1 (writeMembers members false ('\x7d' :: tail))
    have hname := length_writeText name
      (':' :: value.write (writeMembers members false ('\x7d' :: tail)))
    rw [List.length_cons] at hrest hname
    have hwritten : (value.write (writeMembers members false ('\x7d' :: tail))).length + 3 ≤
        (writeMembers ((name, value) :: members) first ('\x7d' :: tail)).length := by
      cases first with
      | true => rw [writeMembers]; omega
      | false => rw [writeMembers, List.length_cons]; omega
    obtain ⟨fuel, rfl⟩ : ∃ less, fuel = less + 2 := ⟨fuel - 2, by omega⟩
    have hvalueFuel : 3 * (value.write (writeMembers members false ('\x7d' :: tail))).length ≤
      fuel + 3 * (writeMembers members false ('\x7d' :: tail)).length := by omega
    have hrestFuel : 3 * (writeMembers members false ('\x7d' :: tail)).length ≤
      fuel + 3 * tail.length := by omega
    obtain ⟨draft, hdraft, hvalue, hplain⟩ :=
      scan_write hcanonical.1 hnumbers.1 hvalueFuel (numberEnd_writeMembers members tail)
    obtain ⟨drafts, hdrafts, hvalues, hplains⟩ :=
      scanMembers_write hcanonical.2 hnumbers.2 false hrestFuel
    have hscan : scanMembers none (fuel + 2) first
        (writeMembers ((name, value) :: members) first ('\x7d' :: tail)) =
        scanMember none (fuel + 1) (writeChars name.toList
          ('"' :: ':' :: value.write (writeMembers members false ('\x7d' :: tail)))) := by
      obtain ⟨hfirst, hlater⟩ := scanMembers_enter none (fuel + 1)
        (skipBlank_cons (writeChars name.toList
          ('"' :: ':' :: value.write (writeMembers members false ('\x7d' :: tail)))) rfl)
      cases first with
      | true => rw [writeMembers, writeText, hfirst]
      | false => rw [writeMembers, writeText, hlater]
    refine ⟨(name, draft) :: drafts, ?_, ?_, fun h => ⟨hplain h.1, hplains h.2⟩⟩
    · rw [hscan, scanMember_cons name hdraft hdrafts]
    · rw [Draft.memberValues, hvalue, hvalues]
      rfl

end

/-- The draft of a compact text means the value that was written, and the integers of the value
stand in the text as they are. -/
theorem readDraft_compact {j : Json} (hcanonical : Canonical j)
    (hnumbers : j.AllNumbers Number.ReadsBack) :
    ∃ d, readDraft none j.compact.toList = (d, none) ∧ d.value = .ok j ∧
      (j.AllNumbers Number.Integral → d.AllNumbers fun start _ => PlainInteger start) := by
  have hfuel : 3 * (j.write []).length ≤
      Skip.fuelFor (j.write []) + 3 * ([] : List Char).length := by
    rw [Skip.fuelFor, List.length_nil]
    omega
  obtain ⟨draft, hscan, hvalue, hplain⟩ := scan_write hcanonical hnumbers hfuel trivial
  refine ⟨draft, ?_, hvalue, hplain⟩
  rw [compact, String.toList_ofList, readDraft, front, hscan]
  rfl

/-- A canonical value whose numbers read back is what its compact text means. -/
theorem read_compact {j : Json} (hcanonical : Canonical j)
    (hnumbers : j.AllNumbers Number.ReadsBack) : read none j.compact.toList = .ok j := by
  obtain ⟨draft, hdraft, hvalue, -⟩ := readDraft_compact hcanonical hnumbers
  rw [read, hdraft]
  simp only [hvalue]
  rfl

/-- A canonical value whose numbers are integers is written with plain integers. -/
theorem writesIntegers_compact {j : Json} (hcanonical : Canonical j)
    (hnumbers : j.AllNumbers Number.Integral) : WritesIntegers j.compact.toList := by
  obtain ⟨draft, hdraft, -, hplain⟩ :=
    readDraft_compact hcanonical (hnumbers.imp fun _ => Number.Integral.readsBack)
  constructor
  rw [hdraft]
  exact hplain hnumbers

end SelfNamed.Json
