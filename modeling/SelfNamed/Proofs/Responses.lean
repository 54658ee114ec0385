import SelfNamed.Proofs.Json.Lines
import SelfNamed.Report

/-!
# Responses read back

A response is written over several lines with a line break behind it, and a tool that reads the text
gets the response again: every change with its name, its value and the offsets that are recorded,
and of a failure its code, its wording and its details. Members that are left out when there is
nothing to say come back as nothing. Main statement: what is emitted for any report and for any
failure is one document, from which the response is decoded.
-/

namespace SelfNamed

open Json (Canonical Decoded Draft Fields Number Setting Slot Within)

variable {α β ρ : Type}

/-! ## Values that are decoded again -/

/-- The decoder gives this result for every draft that states the value. -/
def Recovers (decode : Draft → Decoded α) (a : α) (j : Json) : Prop :=
  ∀ ⦃d : Draft⦄, d.States j → decode d = .ok a

/-- A text is decoded from every draft that states it. -/
theorem recovers_text (s : String) : Recovers Draft.text s (.str s) := by
  intro d h
  cases h
  rfl

/-- A natural number up to the bound of a decoder is decoded from every draft that states it. -/
theorem recovers_natural {bound : ℕ} (want : String) {n : UInt64} (h : n.toNat ≤ bound) :
    Recovers (Draft.natural bound want) n (.num (.natural n)) := by
  intro d hd
  cases hd
  exact if_pos h

/-- Every number of 64 bits is decoded from every draft that states it. -/
theorem recovers_word (n : UInt64) : Recovers Draft.word n (.num (.natural n)) :=
  recovers_natural "u64" (Nat.le_sub_one_of_lt n.toNat_lt)

/-- Every number of things is decoded from every draft that states it. -/
theorem recovers_count (n : UInt64) : Recovers Draft.count n (.num (.natural n)) :=
  recovers_natural "usize" (Nat.le_sub_one_of_lt n.toNat_lt)

/-- A number that fits a byte is decoded as one from every draft that states it. -/
theorem recovers_byte {n : UInt64} (h : n.toNat ≤ 255) :
    Recovers Draft.byte n (.num (.natural n)) :=
  recovers_natural "u8" h

/-- A canonical value is kept as it is, from every draft that states it. -/
theorem recovers_kept {j : Json} (h : Canonical j) : Recovers Draft.kept j j := by
  intro d hd
  rw [Draft.kept, hd.value, Json.sorted_of_canonical h]

/-- What may be missing is decoded where it is there, as long as it is not stated as null. -/
theorem Recovers.optional {decode : Draft → Decoded α} {a : α} {j : Json}
    (h : Recovers decode a j) (hnull : j ≠ .null) :
    Recovers (Draft.optional decode) (some a) j := by
  intro d hd
  have hdecode := h hd
  cases hd with
  | null => exact absurd rfl hnull
  | _ =>
    change (decode _).map some = _
    rw [hdecode]
    rfl

/-- Drafts that state the items of a list are decoded one by one when every item is. -/
theorem Recovers.items {decode : Draft → Decoded α} {toJson : α → Json}
    (h : ∀ a, Recovers decode a (toJson a)) {as : List α} {drafts : List Draft}
    (hdrafts : Draft.StatesItems drafts (as.map toJson)) : Draft.items decode drafts = .ok as := by
  induction as generalizing drafts with
  | nil =>
    cases hdrafts
    rfl
  | cons a as ih =>
    cases hdrafts with
    | cons hfirst hrest =>
      rw [Draft.items, h a hfirst, ih hrest]
      rfl

/-- A list is decoded from every draft that states its items when every item is. -/
theorem Recovers.list {decode : Draft → Decoded α} {toJson : α → Json}
    (h : ∀ a, Recovers decode a (toJson a)) (as : List α) :
    Recovers (Draft.list decode) as (.arr (as.map toJson)) := by
  intro d hd
  cases hd with
  | arr start hitems =>
    rw [Draft.list, Recovers.items h hitems]
    rfl

/-- What is made of a decoded value is made of the value that was stated. -/
theorem Recovers.fill {decode : Draft → Decoded α} {a : α} {j : Json} (h : Recovers decode a j)
    {d : Draft} (hd : d.States j) (f : α → β) : (do return f (← decode d)) = Except.ok (f a) := by
  rw [h hd]
  rfl

/-! ## Fields -/

section Fields

variable {slots : List (Slot ρ)} {other : String → Draft → ρ → Decoded ρ} {seen : List String}
  {name : String} {d : Draft} {rest : List (String × Draft)} {r r' : ρ}

/-- A known field that is new and decodes goes into the state. -/
theorem fillMembers_known {slot : Slot ρ} (hfill : slot.fill d r = .ok r')
    (hslot : (slots.find? fun slot => slot.name == name) = some slot)
    (hnew : seen.contains name = false) :
    Json.fillMembers slots other seen ((name, d) :: rest) r =
      Json.fillMembers slots other (name :: seen) rest r' := by
  rw [Json.fillMembers, hslot]
  simp only [hnew, Bool.false_eq_true, if_false, hfill]
  rfl

/-- A field that is not known is left to the other function. -/
theorem fillMembers_other (hother : other name d r = .ok r')
    (hslot : (slots.find? fun slot => slot.name == name) = none) :
    Json.fillMembers slots other seen ((name, d) :: rest) r =
      Json.fillMembers slots other seen rest r' := by
  rw [Json.fillMembers, hslot]
  simp only [hother]
  rfl

/-- A record given as an object is what its members fill. -/
theorem fillRecord_obj (setting : Setting) (title : String) (start : List Char)
    (hfill : Json.fillMembers slots Json.passOver [] rest r = .ok r') :
    Json.fillRecord setting title slots r (.obj start rest none) = .ok r' := by
  rw [Json.fillRecord, Json.fillObject, hfill]
  · rfl
  · exact nofun

end Fields

/-! ## Changes and reports -/

/-- The offsets that are recorded are decoded again, and those that are not stay away. -/
theorem Replacement.fillMembers_offsets {drafts : List (String × Draft)}
    (first last : Option UInt64)
    (h : Draft.StatesMembers drafts (offsetMember "start" first ++ offsetMember "end" last))
    (r : Partial) :
    Json.fillMembers slots Json.passOver ["value", "name"] drafts
        { r with first := none, last := none } =
      .ok { r with first := first.map some, last := last.map some } := by
  have hword (n : UInt64) := (recovers_word n).optional nofun
  cases first with
  | none =>
    cases last with
    | none =>
      rw [h.of_nil]
      rfl
    | some n =>
      obtain ⟨dlast, drafts, rfl, hlast, h⟩ := h.of_cons
      rw [fillMembers_known ((hword n).fill hlast _) rfl rfl, h.of_nil]
      rfl
  | some m =>
    obtain ⟨dfirst, drafts, rfl, hfirst, h⟩ := h.of_cons
    rw [fillMembers_known ((hword m).fill hfirst _) rfl rfl]
    cases last with
    | none =>
      rw [Draft.StatesMembers.of_nil h]
      rfl
    | some n =>
      obtain ⟨dlast, drafts, rfl, hlast, h⟩ := Draft.StatesMembers.of_cons h
      rw [fillMembers_known ((hword n).fill hlast _) rfl rfl, h.of_nil]
      rfl

/-- A change is decoded again, whichever offsets it records. -/
theorem Replacement.recovers (setting : Setting) (r : Replacement) :
    Recovers (decode setting) r r.toJson := by
  intro d hd
  obtain ⟨start, _, rfl, h⟩ := hd.of_obj
  obtain ⟨dname, _, rfl, hname, h⟩ := h.of_cons
  obtain ⟨dvalue, drafts, rfl, hvalue, h⟩ := h.of_cons
  have hfill : Json.fillMembers slots Json.passOver []
      (("name", dname) :: ("value", dvalue) :: drafts) {} =
      .ok ⟨some r.name, some r.value, r.first.map some, r.last.map some⟩ := by
    rw [fillMembers_known ((recovers_text r.name).fill hname _) rfl rfl,
      fillMembers_known ((recovers_text r.value).fill hvalue _) rfl rfl]
    exact fillMembers_offsets r.first r.last h { name := some r.name, value := some r.value }
  rw [decode, fillRecord_obj setting "Replacement" start hfill]
  obtain ⟨name, value, first, last⟩ := r
  cases first <;> cases last <;> rfl

/-- The changes of a report are decoded again. -/
theorem Report.fillMembers_replacements (setting : Setting) (report : Report) {d : Draft}
    (h : d.States (.arr (report.replacements.map Replacement.toJson))) :
    Json.fillMembers (slots setting) Json.passOver [] [("replacements", d)] none =
      .ok (some report.replacements) := by
  have hlist : (Draft.list (Replacement.decode setting) d).map some =
      .ok (some report.replacements) := by
    rw [Recovers.list (Replacement.recovers setting) report.replacements h]
    rfl
  rw [fillMembers_known hlist rfl rfl]
  rfl

/-! ## Responses -/

/-- The response for a report is decoded again. The report itself is decoded last, from the only
member that the response holds back. -/
theorem Success.recovers (r : Success) : Recovers decode r r.toJson := by
  intro d hd
  obtain ⟨start, _, rfl, h⟩ := hd.of_obj
  obtain ⟨dstatus, _, rfl, hstatus, h⟩ := h.of_cons
  obtain ⟨dversion, _, rfl, hversion, h⟩ := h.of_cons
  obtain ⟨dreplaced, _, rfl, hreplaced, h⟩ := h.of_cons
  obtain ⟨dreport, _, rfl, hreport, h⟩ := h.of_cons
  obtain rfl := h.of_nil
  have hheld : holdBack "replacements" dreport
      ⟨some r.status, some r.version, some r.replaced, []⟩ =
      .ok ⟨some r.status, some r.version, some r.replaced, [("replacements", dreport)]⟩ := by
    rw [holdBack, Draft.kept, hreport.value]
    rfl
  have hfill : Json.fillMembers slots holdBack []
      [("status", dstatus), ("schema_version", dversion), ("replaced", dreplaced),
        ("replacements", dreport)] {} =
      .ok ⟨some r.status, some r.version, some r.replaced, [("replacements", dreport)]⟩ := by
    rw [fillMembers_known ((recovers_text r.status).fill hstatus _) rfl rfl,
      fillMembers_known ((recovers_text r.version).fill hversion _) rfl rfl,
      fillMembers_known ((recovers_count r.replaced).fill hreplaced _) rfl rfl,
      fillMembers_other hheld rfl]
    rfl
  rw [decode, Json.fillObject, hfill]
  change (Json.fillMembers (Report.slots .held) Json.passOver [] [("replacements", dreport)] none
    >>= _) = _
  rw [Report.fillMembers_replacements .held r.report hreport]
  rfl

/-- Details that come back as they were: there are none, or they are canonical and not null. -/
def Problem.Kept (p : Problem) : Prop := ∀ details ∈ p.details, Canonical details ∧ details ≠ .null

/-- What is said of a failure is decoded again when its code is a byte. -/
theorem Problem.recovers (setting : Setting) {p : Problem} (hcode : p.code.toNat ≤ 255)
    (hdetails : p.Kept) : Recovers (decode setting) p p.toJson := by
  intro d hd
  obtain ⟨code, message, details⟩ := p
  obtain ⟨start, _, rfl, h⟩ := hd.of_obj
  obtain ⟨dcode, _, rfl, hdcode, h⟩ := h.of_cons
  obtain ⟨dmessage, drafts, rfl, hmessage, h⟩ := h.of_cons
  have hfill : Json.fillMembers slots Json.passOver []
      (("code", dcode) :: ("message", dmessage) :: drafts) {} =
      .ok ⟨some code, some message, details.map some⟩ := by
    rw [fillMembers_known ((recovers_byte hcode).fill hdcode _) rfl rfl,
      fillMembers_known ((recovers_text message).fill hmessage _) rfl rfl]
    cases details with
    | none =>
      rw [Draft.StatesMembers.of_nil h]
      rfl
    | some details =>
      obtain ⟨hcanonical, hnull⟩ := hdetails details rfl
      obtain ⟨ddetails, _, rfl, hdetails, h⟩ := Draft.StatesMembers.of_cons h
      rw [fillMembers_known (((recovers_kept hcanonical).optional hnull).fill hdetails _) rfl rfl,
        h.of_nil]
      rfl
  rw [decode, fillRecord_obj setting "ErrorInfo" start hfill]
  cases details <;> rfl

/-- The response for a failure is decoded again. -/
theorem Refusal.recovers (setting : Setting) {r : Refusal} (hcode : r.problem.code.toNat ≤ 255)
    (hdetails : r.problem.Kept) : Recovers (decode setting) r r.toJson := by
  intro d hd
  obtain ⟨start, _, rfl, h⟩ := hd.of_obj
  obtain ⟨dstatus, _, rfl, hstatus, h⟩ := h.of_cons
  obtain ⟨dversion, _, rfl, hversion, h⟩ := h.of_cons
  obtain ⟨dproblem, _, rfl, hproblem, h⟩ := h.of_cons
  obtain rfl := h.of_nil
  have hfill : Json.fillMembers (slots setting) Json.passOver []
      [("status", dstatus), ("schema_version", dversion), ("error", dproblem)] {} =
      .ok ⟨some r.status, some r.version, some r.problem⟩ := by
    rw [fillMembers_known ((recovers_text r.status).fill hstatus _) rfl rfl,
      fillMembers_known ((recovers_text r.version).fill hversion _) rfl rfl,
      fillMembers_known ((Problem.recovers setting hcode hdetails).fill hproblem _) rfl rfl]
    rfl
  rw [decode, fillRecord_obj setting "ErrorResponse" start hfill]
  rfl

/-! ## What is emitted -/

/-- A text is one document over several lines with a line break behind it; the document means the
value in canonical form, with the line break and without. -/
structure WritesDocument (text : String) (j : Json) : Prop where
  /-- The document and the line break. -/
  lines : text = j.pretty ++ "\n"
  /-- The document alone. -/
  alone : Json.read (some Json.nestingBound) j.pretty.toList = .ok j.sorted
  /-- The whole text. -/
  whole : Json.read (some Json.nestingBound) text.toList = .ok j.sorted

section Emitted

variable {j : Json} (hnumbers : j.AllNumbers Number.ReadsBack) (hnesting : j.nesting ≤ 3)

include hnumbers hnesting

/-- The draft of a value with blanks behind it states the value. -/
theorem readDraft_lines {tail : List Char} (hblank : Json.Token.skipBlank tail = [])
    (hend : Json.NumberEnd tail) :
    ∃ d, Json.readDraft (some Json.nestingBound) (j.writeLines 0 tail) = (d, none) ∧
      d.States j := by
  have hwithin : Within (some Json.nestingBound) j.nesting := by
    rintro _ ⟨⟩
    exact lt_of_le_of_lt hnesting (by decide)
  exact Json.readDraft_writeLines hnumbers hwithin hblank hend

/-- The draft of an emitted value states the value. -/
theorem readDraft_emit :
    ∃ d, Json.readDraft (some Json.nestingBound) (emit j).toList = (d, none) ∧ d.States j := by
  have htext : (emit j).toList = j.writeLines 0 ['\n'] := by
    rw [emit, Json.pretty, String.toList_append, String.toList_ofList]
    exact (Json.writeLines_append j 0 [] ['\n']).symm
  rw [htext]
  exact readDraft_lines hnumbers hnesting rfl ⟨rfl, by decide, by decide, by decide⟩

/-- What is emitted is one document. -/
theorem writesDocument_emit : WritesDocument (emit j) j := by
  obtain ⟨d, hdraft, hstates⟩ := readDraft_emit hnumbers hnesting
  have hblank : Json.Token.skipBlank [] = [] := rfl
  obtain ⟨d', hdraft', hstates'⟩ := readDraft_lines hnumbers hnesting hblank trivial
  refine ⟨rfl, ?_, Json.read_of_states hdraft hstates⟩
  rw [Json.pretty, String.toList_ofList]
  exact Json.read_of_states hdraft' hstates'

/-- What is decoded again from every draft of a value is decoded from its emitted text. -/
theorem decodeText_emit {decode : Setting → Draft → Decoded α} {a : α}
    (h : Recovers (decode .text) a j) :
    Json.decodeText decode (some Json.nestingBound) (emit j).toList = .ok a := by
  obtain ⟨d, hdraft, hstates⟩ := readDraft_emit hnumbers hnesting
  rw [Json.decodeText, hdraft]
  simp only [h hstates]
  rfl

end Emitted

/-- A natural number reads back. -/
theorem readsBack_natural (n : UInt64) : (Number.natural n).ReadsBack :=
  Number.Integral.readsBack (n := .natural n) trivial

/-- The numbers of a change read back, and it has one level of brackets. -/
theorem Replacement.toJson_plain (r : Replacement) :
    r.toJson.AllNumbers Number.ReadsBack ∧ r.toJson.nesting = 1 := by
  obtain ⟨name, value, first, last⟩ := r
  cases first <;> cases last <;>
    simp [toJson, offsetMember, Json.AllNumbers, Json.AllNumbersMembers, Json.nesting,
      Json.nestingMembers, readsBack_natural]

/-- The numbers of the response for a report read back. -/
theorem Success.allNumbers_toJson (r : Success) : r.toJson.AllNumbers Number.ReadsBack := by
  have hchanges : ∀ item ∈ r.report.replacements.map Replacement.toJson,
      item.AllNumbers Number.ReadsBack := by
    intro item hitem
    obtain ⟨change, -, rfl⟩ := List.mem_map.mp hitem
    exact change.toJson_plain.1
  exact ⟨trivial, trivial, readsBack_natural _, Json.allNumbersItems_iff.mpr hchanges, trivial⟩

/-- The response for a report has up to three levels of brackets. -/
theorem Success.nesting_toJson (r : Success) : r.toJson.nesting ≤ 3 := by
  have hchanges : Json.nestingItems (r.report.replacements.map Replacement.toJson) ≤ 1 := by
    refine Json.nestingItems_le fun item hitem => ?_
    obtain ⟨change, -, rfl⟩ := List.mem_map.mp hitem
    exact change.toJson_plain.2.le
  simp only [toJson, Report.members, Json.nesting, Json.nestingMembers]
  omega

/-- The numbers of the response for a failure read back, and it has up to three levels of brackets.
-/
theorem Refusal.toJson_plain (f : Failure) :
    (ofFailure f).toJson.AllNumbers Number.ReadsBack ∧ (ofFailure f).toJson.nesting ≤ 3 := by
  cases f <;>
    simp [ofFailure, toJson, Problem.ofFailure, Problem.toJson, Json.AllNumbers,
      Json.AllNumbersMembers, Json.nesting, Json.nestingMembers, readsBack_natural]

/-- The code of a failure stays its number. -/
theorem Problem.toNat_code (f : Failure) : (ofFailure f).code.toNat = f.code.number := by
  cases f <;> rfl

/-- The details of a failure are such that they come back. -/
theorem Problem.kept_ofFailure (f : Failure) : (ofFailure f).Kept := by
  intro details hdetails
  cases f with
  | exhausted count =>
    obtain rfl : Json.obj [("count", .num (.natural count))] = details := Option.some.inj hdetails
    refine ⟨?_, nofun⟩
    rw [Canonical]
    exact ⟨List.pairwise_singleton _ _, trivial, trivial⟩
  | _ => cases hdetails

/-- What is emitted for a report and for a failure is one document, from which the response is
decoded again: the changes of the report and their number, and the code, the wording and the details
of the failure, which are the count exactly when a counter is exhausted. -/
theorem responses_read_back :
    (∀ report : Report,
      WritesDocument (emit (Success.ofReport report).toJson) (Success.ofReport report).toJson ∧
      ∃ response : Success,
        Json.decodeText (fun _ => Success.decode) (some Json.nestingBound)
            (emit (Success.ofReport report).toJson).toList = .ok response ∧
          response.status = "ok" ∧ response.version = layoutVersion ∧ response.report = report ∧
          (report.size < UInt64.size → response.replaced.toNat = report.size)) ∧
    ∀ f : Failure,
      WritesDocument (emit (Refusal.ofFailure f).toJson) (Refusal.ofFailure f).toJson ∧
      ∃ response : Refusal,
        Json.decodeText Refusal.decode (some Json.nestingBound)
            (emit (Refusal.ofFailure f).toJson).toList = .ok response ∧
          response.status = "error" ∧ response.version = layoutVersion ∧
          response.problem.code.toNat = f.code.number ∧ response.problem.message = f.message ∧
          (∀ count, f = .exhausted count ↔
            response.problem.details = some (.obj [("count", .num (.natural count))])) ∧
          ((∀ count, f ≠ .exhausted count) → response.problem.details = none) := by
  refine ⟨fun report => ?_, fun f => ?_⟩
  · have hnumbers := (Success.ofReport report).allNumbers_toJson
    have hnesting := (Success.ofReport report).nesting_toJson
    refine ⟨writesDocument_emit hnumbers hnesting, Success.ofReport report,
      decodeText_emit hnumbers hnesting (Success.ofReport report).recovers, rfl, rfl, rfl, ?_⟩
    exact fun hsize => UInt64.toNat_ofNat_of_lt hsize
  · obtain ⟨hnumbers, hnesting⟩ := Refusal.toJson_plain f
    have hcode : (Refusal.ofFailure f).problem.code.toNat ≤ 255 := by
      change (Problem.ofFailure f).code.toNat ≤ 255
      rw [Problem.toNat_code]
      cases f.code <;> decide
    have hrecovers := Refusal.recovers .text hcode (Problem.kept_ofFailure f)
    refine ⟨writesDocument_emit hnumbers hnesting, Refusal.ofFailure f,
      decodeText_emit hnumbers hnesting hrecovers, rfl, rfl, Problem.toNat_code f, rfl, ?_, ?_⟩
    · intro count
      cases f with
      | exhausted n =>
        change _ ↔ some (Json.obj [("count", .num (.natural n))]) = _
        simp
      | _ => exact ⟨nofun, nofun⟩
    · intro hcounts
      cases f with
      | exhausted n => exact absurd rfl (hcounts n)
      | _ => rfl

/-- One change with a control character and a quotation mark in its value and the greatest offset.
-/
theorem responses_read_back_one :
    let report : Report := ⟨[⟨"K", "\x01\"", none, some 18446744073709551615⟩]⟩
    ∃ response : Success,
      Json.decodeText (fun _ => Success.decode) (some Json.nestingBound)
          (emit (Success.ofReport report).toJson).toList = .ok response ∧
        response.report = report ∧ response.replaced.toNat = 1 := by
  intro report
  obtain ⟨-, response, hread, -, -, hreport, hreplaced⟩ := responses_read_back.1 report
  exact ⟨response, hread, hreport, hreplaced (by decide)⟩

end SelfNamed
