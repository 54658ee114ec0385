import SelfNamed.Proofs.Output
import SelfNamed.Proofs.Tree.Full

/-!
# What comes back when nothing is to be changed

Without self-named exports nothing is drawn and nothing is reported, but the tree is read and
written all the same, so its program comes back in the normal form. It comes back unchanged exactly
when it is full: a node that does not say all that a written node says gains fields, and one that
says null for the record of a source text loses it.
-/

namespace SelfNamed.Shrunk

open Json (Canonical)

variable {tree program : Json}

/-- A change of the program changes nothing in the tree exactly when it changes nothing in the
program. -/
theorem changeProgram_eq_self_iff (hcanonical : Canonical tree) (h : Holds tree program)
    (f : Json → Json) : changeProgram f tree = tree ↔ f program = program := by
  constructor
  · intro hsame
    cases h with
    | bare hprogram => exact (hprogram.changeProgram_eq f).symm.trans hsame
    | file htype hfound _ =>
      rw [changeProgram_of_file htype] at hsame
      cases tree with
      | obj fields =>
        have hincreasing := (Json.canonical_obj.mp hcanonical).1
        exact (hincreasing.modify_eq_self_iff hfound).mp (Json.obj.inj hsame)
      | _ => cases hfound
  · intro hsame
    rw [changeProgram_congr hcanonical h (g := fun _ => program) hsame]
    exact changeProgram_self hcanonical h

/-- Without self-named exports a tree comes back with its program in the normal form, and nothing is
reported. -/
theorem withSettings_of_nothing {settings : Settings} {alphabet : Alphabet} {text : String}
    (halphabet : settings.alphabet = .ok alphabet) (hread : Json.read none text.toList = .ok tree)
    (h : Holds tree program) (hnone : Program.placesOf program = []) :
    withSettings settings text = .ok ⟨changeProgram Program.norm tree, .empty⟩ := by
  have hcanonical := Json.canonical_read hread
  obtain ⟨p, hp, hnorm, hlength⟩ := h.exists_module hcanonical
  have hzero : p.selfNamedExports.length = 0 := by
    rw [hlength, hnone]
    rfl
  let generator : Generator := ⟨alphabet, settings.start⟩
  have hpass : ∃ log, ofText Generator.supply text generator =
      (.ok ⟨changeProgram (fun _ => p.toJson.sorted) tree, .empty⟩, generator, log) :=
    ofText_of_nothing Generator.supply hread h hp hzero
  obtain ⟨log, htext⟩ := hpass
  rw [changeProgram_congr hcanonical h (g := Program.norm) hnorm] at htext
  rw [withSettings_of_alphabet halphabet, htext]

/-- A tree with its program in the normal form is what its text means, if the numbers of the tree
read back. -/
theorem read_changeProgram_norm (hcanonical : Canonical tree) (h : Holds tree program)
    (hnumbers : tree.AllNumbers Json.Number.ReadsBack) :
    let output := changeProgram Program.norm tree
    Json.read none output.compact.toList = .ok output := by
  obtain ⟨p, hp, hnorm, -⟩ := h.exists_module hcanonical
  have hread := read_output hcanonical h hp [] hnumbers
  rw [p.withValues_nil, changeProgram_congr hcanonical h (g := Program.norm) hnorm] at hread
  exact hread

/-- A module without self-named exports is shrunk with any settings that give an alphabet, and
nothing is reported. Its tree comes back unchanged exactly when its program is full, and if the
numbers of the tree read back then so it is for the tree that the new text means. -/
theorem comes_back_iff_full {settings : Settings} {alphabet : Alphabet} {text : String}
    (halphabet : settings.alphabet = .ok alphabet) (hread : Json.read none text.toList = .ok tree)
    (h : Holds tree program) (hnone : Program.placesOf program = []) :
    ∃ shrunk, withSettings settings text = .ok shrunk ∧ shrunk.report = .empty ∧
      (shrunk.tree = tree ↔ Program.full program = true) ∧
      (tree.AllNumbers Json.Number.ReadsBack →
        (Json.read none shrunk.text.toList = .ok tree ↔ Program.full program = true)) := by
  have hcanonical := Json.canonical_read hread
  have hsame : changeProgram Program.norm tree = tree ↔ Program.full program = true := by
    rw [changeProgram_eq_self_iff hcanonical h]
    exact program_norm_eq_self_iff (h.canonical hcanonical) h.isProgram.suits
  refine ⟨_, withSettings_of_nothing halphabet hread h hnone, rfl, hsame, ?_⟩
  intro hnumbers
  rw [Shrunk.text, read_changeProgram_norm hcanonical h hnumbers, Except.ok.injEq]
  exact hsame

/-- A program of one variable, which has a string literal with the given record of its source. -/
def literalProgram (extra : Json) : Json :=
  .obj [
    ("body", .arr [.obj [
      ("declarations", .arr [.obj [
        ("id", .obj [("name", .str "x"), ("type", .str "Identifier")]),
        ("init", .obj [("extra", extra), ("type", .str "StringLiteral"), ("value", .str "y")])]]),
      ("kind", .str "let"),
      ("type", .str "VariableDeclaration")]]),
    ("type", .str "Program")]

/-- Settings with an alphabet of two characters. -/
def pairSettings : Settings := { symbols := "ab" }

/-- The settings give the alphabet of two symbols. -/
theorem alphabet_pairSettings : pairSettings.alphabet = .ok Alphabet.pair := by
  have hsymbols : pairSettings.symbols.toList = ['a', 'b'] := String.toList_ofList
  rw [Settings.alphabet, Alphabet.ofText, hsymbols]
  rfl

set_option maxRecDepth 4000 in
/-- A literal with a record of its source comes back as it was. -/
theorem comes_back_iff_full_record :
    let text := "\x7b\"type\":\"Program\",\"body\":[\x7b\"type\":\"VariableDeclaration\",
      \"kind\":\"let\",\"declarations\":[\x7b\"id\":\x7b\"type\":\"Identifier\",\"name\":\"x\"\x7d,
        \"init\":\x7b\"type\":\"StringLiteral\",\"value\":\"y\",
          \"extra\":\x7b\"raw\":\"'y'\",\"rawValue\":\"y\"\x7d\x7d\x7d]\x7d]\x7d"
    let tree := literalProgram (.obj [("raw", .str "'y'"), ("rawValue", .str "y")])
    pairSettings.alphabet = .ok Alphabet.pair ∧ Json.read none text.toList = .ok tree ∧
      Holds tree tree ∧ Program.placesOf tree = [] ∧
      ∃ shrunk, withSettings pairSettings text = .ok shrunk ∧ shrunk.report = .empty ∧
        shrunk.tree = tree ∧ Json.read none shrunk.text.toList = .ok tree := by
  intro text tree
  have hread : Json.read none text.toList = .ok tree := by
    rw [String.toList_ofList]
    rfl
  have hholds : Holds tree tree := .bare ⟨rfl, _, rfl⟩
  have hnumbers : tree.AllNumbers Json.Number.ReadsBack := by
    simp [tree, literalProgram, Json.AllNumbers, Json.AllNumbersItems, Json.AllNumbersMembers]
  have hfull : Program.full tree = true := rfl
  obtain ⟨shrunk, hshrunk, hempty, htree, htext⟩ :=
    comes_back_iff_full alphabet_pairSettings hread hholds rfl
  exact ⟨alphabet_pairSettings, hread, hholds, rfl, shrunk, hshrunk, hempty, htree.mpr hfull,
    (htext hnumbers).mpr hfull⟩

set_option maxRecDepth 4000 in
/-- A literal that says null for the record of its source loses this field. -/
theorem null_record_is_lost :
    let text := "\x7b\"type\":\"Program\",\"body\":[\x7b\"type\":\"VariableDeclaration\",
      \"kind\":\"let\",\"declarations\":[\x7b\"id\":\x7b\"type\":\"Identifier\",\"name\":\"x\"\x7d,
        \"init\":\x7b\"type\":\"StringLiteral\",\"value\":\"y\",\"extra\":null\x7d\x7d]\x7d]\x7d"
    let tree := literalProgram .null
    Accepts text tree ∧ Json.read none text.toList = .ok tree ∧ Program.placesOf tree = [] ∧
      ∃ shrunk, withSettings pairSettings text = .ok shrunk ∧ shrunk.report = .empty ∧
        Json.read none shrunk.text.toList ≠ .ok tree := by
  intro text tree
  have hread : Json.read none text.toList = .ok tree := by
    rw [String.toList_ofList]
    rfl
  have hcanonical := Json.canonical_read hread
  have hholds : Holds tree tree := .bare ⟨rfl, _, rfl⟩
  have hnumbers : tree.AllNumbers Json.Number.ReadsBack := by
    simp [tree, literalProgram, Json.AllNumbers, Json.AllNumbersItems, Json.AllNumbersMembers]
  have hfull : Program.full tree = false := rfl
  refine ⟨⟨tree, hread, hholds⟩, hread, rfl, _,
    withSettings_of_nothing alphabet_pairSettings hread hholds rfl, rfl, ?_⟩
  intro hback
  rw [Shrunk.text, read_changeProgram_norm hcanonical hholds hnumbers, Except.ok.injEq,
    changeProgram_eq_self_iff hcanonical hholds, program_norm_eq_self_iff hcanonical rfl,
    hfull] at hback
  cases hback

end SelfNamed.Shrunk
