import SelfNamed.Proofs.Output
import SelfNamed.Proofs.Shrink.Again

/-!
# Shrinking what has been shrunk

The text that comes back from an accepted text is accepted itself, and decoding it gives the module
that the pass has left. So a second pass over the text is a second pass over this module, which asks
the source once for each export that got its own name as value, and for nothing else. When there is
none, the text comes back byte for byte.
-/

namespace SelfNamed.Shrunk

variable {σ : Type}

/-- When a source has the needed strings, the text that comes back from an accepted text whose
numbers are plain integers is accepted, and decoding it gives the module that the pass has left.
Shrinking it again asks any source for exactly one string for each change that gave an export its
own name, and reports these names; the first failure among the answers is the outcome. Without such
changes it asks for nothing, reports nothing and gives the same text. -/
theorem text_is_fixpoint (supply : Supply σ) {text : String} {program : Json} {source : σ}
    {values : List String} (haccepts : Accepts text program)
    (hnumbers : Json.WritesIntegers text.toList)
    (hanswers : supply.answers (Program.placesOf program).length source = values.map .ok) :
    ∃ shrunk source₁ log p program', ofText supply text source = (.ok shrunk, source₁, log) ∧
      program? program = .ok p ∧ (p.shrink supply source).1 = .ok shrunk.report ∧
      Accepts shrunk.text program' ∧ program? program' = .ok (p.shrink supply source).2.1 ∧
      ∀ {τ : Type} (again : Supply τ) (source' : τ),
        let needed := shrunk.report.idle.length
        (∀ values : List String, again.answers needed source' = values.map .ok →
          ∃ shrunk' log, ofText again shrunk.text source' =
              (.ok shrunk', again.after needed source', log) ∧
            shrunk'.report.values = values ∧
            shrunk'.report.replacements.map Replacement.name =
              shrunk.report.idle.map Replacement.name) ∧
        (∀ (values : List String) (failure : Failure) (later : List (Except Failure String)),
          again.answers needed source' = values.map .ok ++ .error failure :: later →
          ∃ log, ofText again shrunk.text source' =
            (.error failure, again.after (values.length + 1) source', log)) ∧
        ((∀ replacement ∈ shrunk.report.replacements, replacement.value ≠ replacement.name) →
          ∃ shrunk' log, ofText again shrunk.text source' = (.ok shrunk', source', log) ∧
            shrunk'.report = .empty ∧ shrunk'.text = shrunk.text) := by
  obtain ⟨tree, hread, hholds⟩ := haccepts
  have hcanonical := Json.canonical_read hread
  obtain ⟨p, hp, -, hlength⟩ := hholds.exists_module hcanonical
  rw [← hlength] at hanswers
  obtain ⟨report, left, log, htext, hpass, hleft, -⟩ :=
    ofText_of_answers supply hread hholds hp hanswers
  have hbacks := (hnumbers.integral hread).imp fun n => Json.Number.Integral.readsBack
  have hread' := read_output hcanonical hholds hp values hbacks
  have hholds' := holds_output hcanonical hholds hp values
  have hp' := program?_output hcanonical hholds hp values
  rw [← hleft] at hread' hholds' hp'
  refine ⟨_, _, log, p, left.toJson.sorted, htext, hp, by rw [hpass], ⟨_, hread', hholds'⟩,
    by rw [hpass]; exact hp', ?_⟩
  intro τ again source' needed
  have hneeded : needed = left.selfNamedExports.length := (Program.length_of_shrink hpass).symm
  rw [hneeded, ← Program.selfNamed_of_shrink hpass]
  refine ⟨?_, ?_, ?_⟩
  · intro values' hanswers'
    obtain ⟨report', left', log', htext', hpass', -, hvalues'⟩ :=
      ofText_of_answers again hread' hholds' hp' hanswers'
    exact ⟨_, log', htext', hvalues', Program.names_of_shrink hpass'⟩
  · intro values' failure later hanswers'
    exact ofText_of_failing_answers again hread' hholds' hp' hanswers'
  · intro hnone
    have hidle : report.idle = [] := by
      refine List.filter_eq_nil_iff.mpr ?_
      intro replacement hmem heq
      exact hnone replacement hmem (beq_iff_eq.mp heq)
    have hzero : left.selfNamedExports.length = 0 := by
      rw [← hneeded]
      exact congrArg List.length hidle
    obtain ⟨log', htext'⟩ := ofText_of_nothing again hread' hholds' hp' hzero
    rw [changeProgram_self (Json.canonical_read hread') hholds'] at htext'
    exact ⟨_, log', htext', rfl, rfl⟩

/-- A program with a position, an export of two self-named variables. -/
def placedProgram : Json :=
  exportingProgram [] [("start", .num (.natural 30))]
    [selfNamedVariable "a" [], selfNamedVariable "b" []]

/-- The text of this program. -/
def placedText : String := placedProgram.compact

/-- The one number of the program is an integer. -/
theorem allNumbers_placedProgram : placedProgram.AllNumbers Json.Number.Integral := by
  simp [placedProgram, exportingProgram, selfNamedVariable, Json.AllNumbers, Json.AllNumbersItems,
    Json.AllNumbersMembers, Json.Number.Integral]

/-- The text means the program. -/
theorem accepts_placedText : Accepts placedText placedProgram :=
  accepts_compact (.bare ⟨rfl, _, rfl⟩) (Json.canonical_sorted placedProgram)
    (allNumbers_placedProgram.imp fun _ => Json.Number.Integral.readsBack)

/-- The text has the number as an integer. -/
theorem writesIntegers_placedText : Json.WritesIntegers placedText.toList :=
  Json.writesIntegers_compact (Json.canonical_sorted placedProgram) allNumbers_placedProgram

set_option maxRecDepth 4000 in
/-- What is reported of the program when its two exports get the strings. -/
theorem report_placedProgram (first second : String) :
    ∃ p, program? placedProgram = .ok p ∧
      (p.shrink Source.supply (.script ⟨[.ok first, .ok second], 0⟩)).1 =
        .ok ⟨[⟨"a", first, none, none⟩, ⟨"b", second, none, none⟩]⟩ := ⟨_, rfl, rfl⟩

set_option maxRecDepth 4000 in
/-- The program has two self-named exports. -/
theorem length_placesOf_placedProgram : (Program.placesOf placedProgram).length = 2 := rfl

/-- When the first of two exports gets its own name, a second pass asks for one string and gives it
to this export; when both get other values, a second pass changes nothing. -/
theorem text_is_fixpoint_own_name :
    let own := Source.script ⟨[.ok "a", .ok "x"], 0⟩
    let other := Source.script ⟨[.ok "x", .ok "y"], 0⟩
    let again := Source.script ⟨[.ok "z", .ok "w"], 0⟩
    Accepts placedText placedProgram ∧ Json.WritesIntegers placedText.toList ∧
      (∃ shrunk source log shrunk' log',
        ofText Source.supply placedText own = (.ok shrunk, source, log) ∧
        ofText Source.supply shrunk.text again = (.ok shrunk', .script ⟨[.ok "w"], 1⟩, log') ∧
        shrunk'.report.values = ["z"] ∧
        shrunk'.report.replacements.map Replacement.name = ["a"]) ∧
      ∃ shrunk source log shrunk' log',
        ofText Source.supply placedText other = (.ok shrunk, source, log) ∧
        ofText Source.supply shrunk.text again = (.ok shrunk', again, log') ∧
        shrunk'.report = .empty ∧ shrunk'.text = shrunk.text := by
  intro own other again
  have haccepts := accepts_placedText
  have hnumbers := writesIntegers_placedText
  have htwo := length_placesOf_placedProgram
  refine ⟨haccepts, hnumbers, ?_, ?_⟩
  · have hanswers : Source.supply.answers (Program.placesOf placedProgram).length own =
        ["a", "x"].map .ok := by
      rw [htwo]
      rfl
    obtain ⟨shrunk, source, log, p, -, htext, hp, hreport, -, -, hagain⟩ :=
      text_is_fixpoint Source.supply haccepts hnumbers hanswers
    obtain ⟨p', hp', hreport'⟩ := report_placedProgram "a" "x"
    obtain rfl : p = p' := Except.ok.inj (hp.symm.trans hp')
    have hshrunk : shrunk.report = ⟨[⟨"a", "a", none, none⟩, ⟨"b", "x", none, none⟩]⟩ :=
      Except.ok.inj (hreport.symm.trans hreport')
    have hidle : shrunk.report.idle = [⟨"a", "a", none, none⟩] := by
      rw [hshrunk]
      rfl
    obtain ⟨hsecond, -, -⟩ := hagain Source.supply again
    rw [hidle] at hsecond
    obtain ⟨shrunk', log', htext', hvalues, hnames⟩ := hsecond ["z"] rfl
    exact ⟨shrunk, source, log, shrunk', log', htext, htext', hvalues, hnames⟩
  · have hanswers : Source.supply.answers (Program.placesOf placedProgram).length other =
        ["x", "y"].map .ok := by
      rw [htwo]
      rfl
    obtain ⟨shrunk, source, log, p, -, htext, hp, hreport, -, -, hagain⟩ :=
      text_is_fixpoint Source.supply haccepts hnumbers hanswers
    obtain ⟨p', hp', hreport'⟩ := report_placedProgram "x" "y"
    obtain rfl : p = p' := Except.ok.inj (hp.symm.trans hp')
    have hshrunk : shrunk.report = ⟨[⟨"a", "x", none, none⟩, ⟨"b", "y", none, none⟩]⟩ :=
      Except.ok.inj (hreport.symm.trans hreport')
    obtain ⟨-, -, hnothing⟩ := hagain Source.supply again
    have hother : ∀ replacement ∈ shrunk.report.replacements,
        replacement.value ≠ replacement.name := by
      rw [hshrunk]
      decide
    obtain ⟨shrunk', log', htext', hempty, hsame⟩ := hnothing hother
    exact ⟨shrunk, source, log, shrunk', log', htext, htext', hempty, hsame⟩

end SelfNamed.Shrunk
