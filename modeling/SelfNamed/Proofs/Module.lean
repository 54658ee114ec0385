import SelfNamed.Module
import SelfNamed.Proofs.Shrink.Run
import SelfNamed.Proofs.Tree.Exports
import SelfNamed.Source

/-!
# Shrinking a module is one change of its tree

From the text to the new tree there are a reader, decoders, a pass and writers. Seen from outside
they come to one change of the tree that was read: its program goes to the normal form and gets new
texts at the places of its self-named exports, which are found in the tree as it came. Main
statement: whenever the source answers as often as there are such places, shrinking succeeds, takes
just those answers and gives the tree with this change; and which places these are, in which order.
-/

namespace SelfNamed

open Json (Canonical CanonicalMembers Fields)

variable {σ : Type}

/-- A program in a tree, in the normal form and with new texts in its self-named exports. -/
def Program.relabelled (values : List String) (program : Json) : Json :=
  changeAll Program.relabelAt (Program.placesOf program) values (Program.norm program)

/-- The new texts that a report tells, in their order. -/
def Report.values (report : Report) : List String := report.replacements.map Replacement.value

/-- The report of a pass tells the strings that it has taken, at most one for each literal. -/
theorem report_values {literals : List StringLiteral} {values : List String}
    (h : values.length ≤ literals.length) :
    Report.values ⟨(literals.zip values).map fun entry => Pass.replacement entry.1 entry.2⟩ =
      values := by
  rw [Report.values, List.map_map]
  exact List.map_snd_zip h

namespace Shrunk

/-- Whether a value is a program: it is called so and is an object with a list of statements. -/
def isProgram (j : Json) : Bool := rootType? j == some "Program" && Program.suits j

/-- The program of a tree: the tree, or what a file node has under the name. -/
def programOf? (tree : Json) : Option Json :=
  (if rootType? tree = some "File" then tree.field? "program" else some tree).filter isProgram

/-- A tree with another program. -/
def changeProgram (f : Json → Json) (tree : Json) : Json :=
  if rootType? tree = some "File" then tree.changeAt "program" f else f tree

/-- A program of a tree is read as a module that is sound, is written as the normal form and has its
self-named exports where the tree has them. -/
theorem program?_of_suits {j : Json} (h : Canonical j) (hsuits : Program.suits j = true) :
    ∃ p, program? j = .ok p ∧ p.Sound ∧ p.toJson.sorted = Program.norm j ∧
      p.places = Program.placesOf j := by
  have hnorm := toJson_program h
  rw [if_pos hsuits] at hnorm
  obtain ⟨p, hp, hwritten⟩ := Option.map_eq_some_iff.mp hnorm
  have hdecoded := (reads_program.decodeValue_eq_ok_iff h).mpr hp
  refine ⟨p, ?_, sound_program h hp, hwritten, places_ofJson? h hp⟩
  rw [program?, hdecoded]

/-- A program that was read and got new texts in its self-named exports is written as the program of
the tree is relabelled. -/
theorem sorted_withValues_of_suits {j : Json} {p : Program} (h : Canonical j)
    (hsuits : Program.suits j = true) (hp : program? j = .ok p) (values : List String) :
    (p.withValues values).toJson.sorted = Program.relabelled values j := by
  obtain ⟨found, hfound, hsound, hnorm, hplaces⟩ := program?_of_suits h hsuits
  obtain rfl : found = p := Except.ok.inj (hfound.symm.trans hp)
  rw [sorted_withValues hsound, hplaces, hnorm]
  rfl

/-- Shrinking a program of a tree changes it as a value by the strings taken for its self-named
exports, if there are enough of them. -/
theorem ofProgram_taken (supply : Supply σ) {j : Json} (h : Canonical j)
    (hsuits : Program.suits j = true) (rebuild : Json → Json) (source : σ) :
    let taken := supply.collect (Program.placesOf j).length source
    ∃ report log, report.values = taken.values ∧
      ofProgram supply j rebuild source =
        (taken.outcome ⟨rebuild (Program.relabelled taken.values j), report⟩,
          taken.source, log) := by
  intro taken
  obtain ⟨p, hp, -, -, hplaces⟩ := program?_of_suits h hsuits
  have hlength : p.selfNamedExports.length = (Program.placesOf j).length := by
    rw [← p.length_places, hplaces]
  have hwritten := sorted_withValues_of_suits h hsuits hp taken.values
  have hvalues : taken.values.length ≤ (p.exported.flatMap Declarator.literals).length := by
    rw [p.length_selfNamedExports, hlength]
    exact supply.length_values_le _ source
  have htaken : supply.collect p.selfNamedExports.length source = taken := by rw [hlength]
  obtain ⟨log, hshrink⟩ := Program.shrink_eq supply p source
  rw [htaken] at hshrink
  refine ⟨_, log, report_values hvalues, ?_⟩
  rw [ofProgram, hp, ← hwritten]
  simp only [hshrink]
  cases hfailure : taken.failure with
  | none => simp only [Supply.Collected.outcome, hfailure]
  | some failure => simp only [Supply.Collected.outcome, hfailure]

/-- A field of a canonical value is canonical. -/
theorem canonical_of_field? {j value : Json} (h : Canonical j) {name : String}
    (hvalue : j.field? name = some value) : Canonical value := by
  cases j with
  | obj fields => exact (Json.canonical_obj.mp h).2.get? hvalue
  | _ => cases hvalue

/-- Putting a changed program back into a file node changes the node under the name. -/
theorem setProgram_eq {tree program : Json} (h : Canonical tree)
    (hprogram : tree.field? "program" = some program) (f : Json → Json) :
    setProgram tree (f program) = tree.changeAt "program" f := by
  cases tree with
  | obj members =>
    have hincreasing := (Json.canonical_obj.mp h).1
    exact congrArg Json.obj (hincreasing.modify_eq_insert hprogram f).symm
  | _ => cases hprogram

/-- Shrinking a tree with a program changes the program by the strings taken for its self-named
exports, if there are enough of them. -/
theorem ofTree_taken (supply : Supply σ) {tree program : Json} (h : Canonical tree)
    (hprogram : programOf? tree = some program) (source : σ) :
    let taken := supply.collect (Program.placesOf program).length source
    ∃ report log, report.values = taken.values ∧
      ofTree supply tree source =
        (taken.outcome ⟨changeProgram (Program.relabelled taken.values) tree, report⟩,
          taken.source, log) := by
  intro taken
  rw [programOf?] at hprogram
  obtain ⟨hfound, hroot⟩ := Option.filter_eq_some_iff.mp hprogram
  rw [isProgram, Bool.and_eq_true, beq_iff_eq] at hroot
  obtain ⟨hcalled, hsuits⟩ := hroot
  by_cases hfile : rootType? tree = some "File"
  · rw [if_pos hfile] at hfound
    obtain ⟨report, log, hvalues, hshrunk⟩ := ofProgram_taken supply (canonical_of_field? h hfound)
      hsuits (setProgram tree) source
    rw [setProgram_eq h hfound] at hshrunk
    rw [ofTree, hfile]
    simp only [hfound, if_pos hcalled, changeProgram, if_pos hfile]
    exact ⟨report, log, hvalues, hshrunk⟩
  · rw [if_neg hfile] at hfound
    obtain rfl := Option.some.inj hfound
    rw [ofTree, hcalled, changeProgram, if_neg hfile]
    exact ofProgram_taken supply h hsuits id source

/-- Shrinking a tree with a program changes the program, when the source answers. -/
theorem ofTree_eq (supply : Supply σ) {tree program : Json} (h : Canonical tree)
    (hprogram : programOf? tree = some program) {source : σ} {values : List String}
    (hanswers : supply.answers (Program.placesOf program).length source = values.map .ok) :
    ∃ report log, ofTree supply tree source =
      (.ok ⟨changeProgram (Program.relabelled values) tree, report⟩,
        supply.after (Program.placesOf program).length source, log) := by
  obtain ⟨report, log, -, hshrunk⟩ := ofTree_taken supply h hprogram source
  rw [supply.collect_of_answers hanswers] at hshrunk
  exact ⟨report, log, hshrunk⟩

/-- The module of a text is shrunk by one change of the program of its tree. The source is asked for
one string for each place of a self-named export in that program and for no other, and what it
answers stands at these places in lexicographic order. A place is that of a statement and of a
declarator which the statement exports and which binds a name to a literal that spells it. -/
theorem ofText_eq_changeProgram (supply : Supply σ) {text : String} {tree program : Json}
    (hread : Json.read none text.toList = .ok tree) (hprogram : programOf? tree = some program)
    {source : σ} {values : List String}
    (hanswers : supply.answers (Program.placesOf program).length source = values.map .ok) :
    (∀ place, place ∈ Program.placesOf program ↔
      ∃ s d, (Program.statements program)[place.1]? = some s ∧
        (Statement.exportedItems s)[place.2]? = some d ∧ Declarator.spellsName d = true) ∧
    (Program.placesOf program).Pairwise (Prod.Lex (· < ·) (· < ·)) ∧
    ∃ report log, ofText supply text source =
      (.ok ⟨changeProgram (Program.relabelled values) tree, report⟩,
        supply.after (Program.placesOf program).length source, log) := by
  have hcanonical := Json.canonical_read hread
  refine ⟨fun _ => Program.mem_placesOf, Program.sorted_placesOf program, ?_⟩
  rw [ofText, hread]
  exact ofTree_eq supply hcanonical hprogram hanswers

/-- A file node around a program of one statement. -/
def fileOf (statement : Json) : Json :=
  .obj [("program", .obj [("body", .arr [statement]), ("type", .str "Program")]),
    ("type", .str "File")]

/-- An export of one self-named variable in which all nodes say their kinds as indices. -/
def indexedExport : Json :=
  .obj [
    ("declaration", .obj [
      ("declarations", .arr [.obj [
        ("id", .obj [("name", .str "a"), ("type", .num (.natural 0))]),
        ("init", .obj [("extra", .obj [("raw", .str "'a'")]), ("type", .num (.natural 0)),
          ("value", .str "a")])]]),
      ("kind", .obj [("const", .null)]),
      ("type", .num (.natural 0))]),
    ("type", .num (.natural 0))]

/-- The export after shrinking: kinds in words, and a new text that the record of the source says
as well. -/
def shrunkExport : Json :=
  .obj [
    ("declaration", .obj [
      ("declarations", .arr [.obj [
        ("id", .obj [("name", .str "a"), ("type", .str "Identifier")]),
        ("init", .obj [("extra", .obj [("raw", .str "'x'"), ("rawValue", .str "x")]),
          ("type", .str "StringLiteral"), ("value", .str "x")])]]),
      ("kind", .str "const"),
      ("type", .str "VariableDeclaration")]),
    ("type", .str "ExportNamedDeclaration")]

set_option maxRecDepth 2000 in
/-- A file node comes back as a file node. -/
theorem ofText_eq_changeProgram_file :
    let text := "\x7b\"type\":\"File\",\"program\":\x7b\"type\":\"Program\",\"body\":[
      \x7b\"type\":0,\"declaration\":\x7b\"type\":0,\"kind\":\x7b\"const\":null\x7d,
        \"declarations\":[\x7b\"id\":\x7b\"type\":0,\"name\":\"a\"\x7d,
          \"init\":\x7b\"type\":0,\"value\":\"a\",
            \"extra\":\x7b\"raw\":\"'a'\"\x7d\x7d\x7d]\x7d\x7d]\x7d\x7d"
    Json.read none text.toList = .ok (fileOf indexedExport) ∧
      ∃ program, programOf? (fileOf indexedExport) = some program ∧
        Program.placesOf program = [(0, 0)] ∧
        Source.supply.answers 1 (.script ⟨[.ok "x"], 0⟩) = ["x"].map .ok ∧
        ∃ report log, ofText Source.supply text (.script ⟨[.ok "x"], 0⟩) =
          (.ok ⟨fileOf shrunkExport, report⟩, .script ⟨[], 1⟩, log) := by
  intro text
  have hread : Json.read none text.toList = .ok (fileOf indexedExport) := by
    rw [String.toList_ofList]
    rfl
  have hanswers : Source.supply.answers 1 (.script ⟨[.ok "x"], 0⟩) = ["x"].map .ok := rfl
  obtain ⟨-, -, hshrunk⟩ := ofText_eq_changeProgram Source.supply hread rfl hanswers
  exact ⟨hread, _, rfl, rfl, hanswers, hshrunk⟩

/-- A program of one declaration without variables. -/
def programOf (keyword : Json) : Json :=
  .obj [
    ("body", .arr [.obj [("declarations", .arr []), ("kind", keyword),
      ("type", .str "VariableDeclaration")]]),
    ("type", .str "Program")]

/-- A keyword over an empty object is written as its name, too, so a tree may change that says all
kinds in words, has no self-named export and misses nothing. -/
theorem ofText_keyword_over_empty :
    let text := "\x7b\"type\":\"Program\",\"body\":[\x7b\"type\":\"VariableDeclaration\",
      \"kind\":\x7b\"const\":\x7b\x7d\x7d,\"declarations\":[]\x7d]\x7d"
    Json.read none text.toList = .ok (programOf (.obj [("const", .obj [])])) ∧
      Program.placesOf (programOf (.obj [("const", .obj [])])) = [] ∧
      (ofText Source.supply text (.script ⟨[], 0⟩)).1 =
        .ok ⟨programOf (.str "const"), ⟨[]⟩⟩ ∧
      programOf (.str "const") ≠ programOf (.obj [("const", .obj [])]) := by
  intro text
  have hread : Json.read none text.toList = .ok (programOf (.obj [("const", .obj [])])) := by
    rw [String.toList_ofList]
    rfl
  refine ⟨hread, rfl, ?_, ?_⟩
  · rw [ofText, hread]
    rfl
  · intro heq
    cases heq

end Shrunk

end SelfNamed
