import SelfNamed.Proofs.Generator
import SelfNamed.Proofs.Json.Written
import SelfNamed.Proofs.Module

/-!
# Which modules are accepted and how they fail

A text is accepted when it means a tree that is a program or a file node with one, whatever the
statements of the program are. Any other text is rejected before the source is asked. An accepted
module fails only with its source: the first failure among the answers that it needs is its outcome,
and the source is not asked behind it. Main statement: this decides, for every text, source and
settings, whether shrinking fails, with what, and how often the source has been asked then.
-/

namespace SelfNamed

open Json (Canonical Fields)

variable {σ : Type}

namespace Shrunk

/-- A value is a program: an object of this type with a list of statements. -/
structure IsProgram (j : Json) : Prop where
  /-- The type says so. -/
  type : j.field? "type" = some (.str "Program")
  /-- The body is a list. -/
  body : ∃ statements, j.field? "body" = some (.arr statements)

/-- A tree holds a program. -/
inductive Holds : Json → Json → Prop where
  /-- It is the program. -/
  | bare {program : Json} (h : IsProgram program) : Holds program program
  /-- It is a file node with the program. -/
  | file {tree program : Json} (htype : tree.field? "type" = some (.str "File"))
    (hprogram : tree.field? "program" = some program) (h : IsProgram program) : Holds tree program

/-- A text means a tree that holds a program. -/
def Accepts (text : String) (program : Json) : Prop :=
  ∃ tree, Json.read none text.toList = .ok tree ∧ Holds tree program

/-- The program of the tree that a text means. -/
def moduleOf? (text : String) : Option Json := (Json.read none text.toList).toOption.bind programOf?

/-! ## Acceptance is decided on the tree -/

/-- The type of a node is the text under the name. -/
theorem rootType?_eq_some_iff {j : Json} {name : String} :
    rootType? j = some name ↔ j.field? "type" = some (.str name) := by
  rw [rootType?, Option.bind_eq_some_iff]
  constructor
  · rintro ⟨tag, htag, hname⟩
    cases tag <;> cases hname
    exact htag
  · intro htag
    exact ⟨_, htag, rfl⟩

/-- Whether a value is a program can be tested. -/
theorem isProgram_iff {j : Json} : isProgram j = true ↔ IsProgram j := by
  have hbody : Program.suits j = true ↔ ∃ statements, j.field? "body" = some (.arr statements) := by
    rw [Program.suits, Option.isSome_iff_exists]
    cases j with
    | obj fields => exact exists_congr fun statements => bind_items?_eq_some_iff
    | _ => exact ⟨nofun, nofun⟩
  rw [isProgram, Bool.and_eq_true, beq_iff_eq, rootType?_eq_some_iff, hbody]
  constructor
  · rintro ⟨htype, hbody⟩
    exact ⟨htype, hbody⟩
  · rintro ⟨htype, hbody⟩
    exact ⟨htype, hbody⟩

/-- A tree holds at most one program, which can be found. -/
theorem holds_iff {tree program : Json} :
    Holds tree program ↔ programOf? tree = some program := by
  rw [programOf?, Option.filter_eq_some_iff, isProgram_iff]
  by_cases hfile : rootType? tree = some "File"
  · rw [if_pos hfile]
    constructor
    · rintro (hprogram | ⟨-, hfound, hprogram⟩)
      · have hcalled := rootType?_eq_some_iff.mpr hprogram.type
        rw [hfile] at hcalled
        exact absurd hcalled (by decide)
      · exact ⟨hfound, hprogram⟩
    · rintro ⟨hfound, hprogram⟩
      exact .file (rootType?_eq_some_iff.mp hfile) hfound hprogram
  · rw [if_neg hfile]
    constructor
    · rintro (hprogram | ⟨htype, -, -⟩)
      · exact ⟨rfl, hprogram⟩
      · exact absurd (rootType?_eq_some_iff.mpr htype) hfile
    · rintro ⟨hfound, hprogram⟩
      obtain rfl := Option.some.inj hfound
      exact .bare hprogram

/-- A text is accepted with one program at most, which can be found. -/
theorem accepts_iff {text : String} {program : Json} :
    Accepts text program ↔ moduleOf? text = some program := by
  rw [Accepts, moduleOf?, Option.bind_eq_some_iff]
  refine exists_congr fun tree => ?_
  rw [holds_iff]
  cases Json.read none text.toList with
  | error fault => simp [Except.toOption]
  | ok found => simp [Except.toOption]

/-- A text is not accepted when no program can be found. -/
theorem not_accepts_iff {text : String} :
    (¬ ∃ program, Accepts text program) ↔ moduleOf? text = none := by
  simp only [accepts_iff, Option.eq_none_iff_forall_ne_some, not_exists, ne_eq]

/-- Other statements leave a value a program. -/
theorem IsProgram.changeBody {program : Json} (h : IsProgram program) (statements : List Json) :
    IsProgram (program.changeAt "body" fun _ => .arr statements) := by
  obtain ⟨htype, before, hbody⟩ := h
  cases program with
  | obj fields =>
    refine ⟨?_, statements, ?_⟩
    · change Fields.get? "type" (Fields.modify "body" _ fields) = _
      rw [Fields.get?_modify, if_neg (by decide)]
      exact htype
    · change Fields.get? "body" (Fields.modify "body" _ fields) = _
      have hfound : Fields.get? "body" fields = some (.arr before) := hbody
      rw [Fields.get?_modify, if_pos rfl, hfound, Option.map_some]
  | _ => cases hbody

/-- Other statements in its program leave a tree one that holds a program. -/
theorem Holds.changeBody {tree program : Json} (h : Holds tree program) (statements : List Json) :
    Holds (changeProgram (Json.changeAt "body" fun _ => .arr statements) tree)
      (program.changeAt "body" fun _ => .arr statements) := by
  cases h with
  | bare hprogram =>
    have hfile : rootType? tree ≠ some "File" := by
      rw [rootType?_eq_some_iff.mpr hprogram.type]
      decide
    rw [changeProgram, if_neg hfile]
    exact .bare (hprogram.changeBody statements)
  | file htype hfound hprogram =>
    rw [changeProgram, if_pos (rootType?_eq_some_iff.mpr htype)]
    cases tree with
    | obj fields =>
      refine .file ?_ ?_ (hprogram.changeBody statements)
      · change Fields.get? "type" (Fields.modify "program" _ fields) = _
        rw [Fields.get?_modify, if_neg (by decide)]
        exact htype
      · change Fields.get? "program" (Fields.modify "program" _ fields) = _
        have hvalue : Fields.get? "program" fields = some program := hfound
        rw [Fields.get?_modify, if_pos rfl, hvalue, Option.map_some]
    | _ => cases hfound

/-! ## Rejection -/

/-- A value without a list of statements is no program, which is noticed before the source is
asked. -/
theorem ofProgram_of_not_suits (supply : Supply σ) {j : Json} (h : Canonical j)
    (hsuits : Program.suits j = false) (rebuild : Json → Json) (source : σ) :
    ∃ message, ofProgram supply j rebuild source = (.error (.tree message), source, []) := by
  have hnone : Program.ofJson? j = none := by
    have hnorm := toJson_program h
    rw [hsuits] at hnorm
    exact Option.map_eq_none_iff.mp hnorm
  have hread : (Json.decodeValue (fun _ => Program.decode) j).toOption = none :=
    (reads_program h).trans hnone
  rw [ofProgram, program?]
  cases hdecoded : Json.decodeValue (fun _ => Program.decode) j with
  | error e => exact ⟨_, rfl⟩
  | ok p =>
    rw [hdecoded] at hread
    cases hread

/-- A tree that holds no program is rejected before the source is asked. -/
theorem ofTree_of_rejected (supply : Supply σ) {tree : Json} (h : Canonical tree)
    (hnone : programOf? tree = none) (source : σ) :
    ∃ message, ofTree supply tree source = (.error (.tree message), source, []) := by
  have hnot {j : Json} (hcalled : rootType? j = some "Program")
      (hprogram : isProgram j = false) : Program.suits j = false := by
    rw [isProgram, hcalled] at hprogram
    simpa using hprogram
  rw [programOf?] at hnone
  rw [ofTree]
  split
  · exact ⟨_, rfl⟩
  · next hcalled =>
    rw [hcalled, if_neg (by decide)] at hnone
    have hprogram : isProgram tree = false := by simpa using hnone
    exact ofProgram_of_not_suits supply h (hnot hcalled hprogram) id source
  · next hcalled =>
    rw [hcalled, if_pos rfl] at hnone
    cases hfound : tree.field? "program" with
    | none => exact ⟨_, rfl⟩
    | some program =>
      dsimp only
      split
      · next hinner =>
        rw [hfound] at hnone
        have hprogram : isProgram program = false := by simpa using hnone
        exact ofProgram_of_not_suits supply (canonical_of_field? h hfound) (hnot hinner hprogram)
          (setProgram tree) source
      · exact ⟨_, rfl⟩
  · exact ⟨_, rfl⟩

/-- A text that is not accepted is rejected before the source is asked. -/
theorem ofText_of_rejected (supply : Supply σ) {text : String} (h : moduleOf? text = none)
    (source : σ) :
    ∃ message, ofText supply text source = (.error (.tree message), source, []) := by
  rw [moduleOf?] at h
  rw [ofText]
  cases hread : Json.read none text.toList with
  | error fault => exact ⟨_, rfl⟩
  | ok tree =>
    rw [hread] at h
    exact ofTree_of_rejected supply (Json.canonical_read hread) h source

/-! ## Acceptance -/

/-- An accepted module ends as the strings that are taken for its self-named exports tell. -/
theorem ofText_taken (supply : Supply σ) {text : String} {program : Json}
    (h : moduleOf? text = some program) (source : σ) :
    let taken := supply.collect (Program.placesOf program).length source
    ∃ shrunk log, shrunk.report.values = taken.values ∧
      ofText supply text source = (taken.outcome shrunk, taken.source, log) := by
  intro taken
  obtain ⟨tree, hread, hprogram⟩ := Option.bind_eq_some_iff.mp h
  have hok : Json.read none text.toList = .ok tree := by
    cases hfound : Json.read none text.toList with
    | error fault => rw [hfound] at hread; cases hread
    | ok found => rw [hfound] at hread; cases hread; rfl
  obtain ⟨report, log, hvalues, hshrunk⟩ :=
    ofTree_taken supply (Json.canonical_read hok) hprogram source
  rw [ofText, hok]
  exact ⟨_, log, hvalues, hshrunk⟩

/-- An accepted module fails exactly when one of the answers that it needs does. -/
theorem ofText_fails_iff (supply : Supply σ) {text : String} {program : Json}
    (h : moduleOf? text = some program) (source : σ) :
    (∃ failure, (ofText supply text source).1 = .error failure) ↔
      ∃ failure, .error failure ∈ supply.answers (Program.placesOf program).length source := by
  obtain ⟨shrunk, log, -, htaken⟩ := ofText_taken supply h source
  rw [htaken, ← supply.exists_failure_iff]
  exact exists_congr fun failure => Supply.Collected.outcome_eq_error_iff

/-- The first failure among the answers is the outcome, and nothing is asked for behind it. -/
theorem ofText_of_failure (supply : Supply σ) {text : String} {program : Json}
    (h : moduleOf? text = some program) {source : σ} {values : List String} {failure : Failure}
    {later : List (Except Failure String)}
    (hanswers : supply.answers (Program.placesOf program).length source =
      values.map .ok ++ .error failure :: later) :
    (ofText supply text source).1 = .error failure ∧
      (ofText supply text source).2.1 = supply.after (values.length + 1) source := by
  obtain ⟨shrunk, log, -, htaken⟩ := ofText_taken supply h source
  rw [supply.collect_of_answers_failure hanswers] at htaken
  rw [htaken]
  exact ⟨rfl, rfl⟩

/-- A module that is shrunk has asked for one string for each of its self-named exports. -/
theorem ofText_of_ok (supply : Supply σ) {text : String} {program : Json}
    (h : moduleOf? text = some program) {source : σ} {shrunk : Shrunk}
    (hshrunk : (ofText supply text source).1 = .ok shrunk) :
    (ofText supply text source).2.1 =
      supply.after (Program.placesOf program).length source := by
  obtain ⟨made, log, -, htaken⟩ := ofText_taken supply h source
  rw [htaken] at hshrunk ⊢
  exact supply.source_of_none (Supply.Collected.outcome_eq_ok_iff.mp hshrunk).1

/-- An accepted module on a generator: the counter moves by the self-named exports, but not past its
last value. The module fails exactly when this is too little, and else reports the spellings of the
values that the counter has passed. -/
theorem ofText_generator {text : String} {program : Json} (h : moduleOf? text = some program)
    (g : Generator) :
    let bound := g.count.toNat + (Program.placesOf program).length
    ∃ (shrunk : Shrunk) (count : UInt64) (log : List Event),
      count.toNat = min bound lastCount.toNat ∧
      shrunk.report.values = g.alphabet.spellings g.count.toNat (count.toNat - g.count.toNat) ∧
      ofText Generator.supply text g =
        (if bound ≤ lastCount.toNat then .ok shrunk else .error (.exhausted lastCount),
          ⟨g.alphabet, count⟩, log) := by
  intro bound
  obtain ⟨count, hcount, hcollect⟩ := g.collect_eq (Program.placesOf program).length
  obtain ⟨shrunk, log, hvalues, htaken⟩ := ofText_taken Generator.supply h g
  rw [hcollect] at hvalues htaken
  refine ⟨shrunk, count, log, hcount, hvalues, htaken.trans ?_⟩
  by_cases hbound : bound ≤ lastCount.toNat
  · have hnone : g.count.toNat + (Program.placesOf program).length ≤ lastCount.toNat := hbound
    simp only [Supply.Collected.outcome, if_pos hbound, if_pos hnone]
  · have hsome : ¬ g.count.toNat + (Program.placesOf program).length ≤ lastCount.toNat := hbound
    simp only [Supply.Collected.outcome, if_neg hbound, if_neg hsome]

/-- An accepted module fails on a generator exactly when its self-named exports lead past the last
counter value, and always in the same way. -/
theorem ofText_generator_error_iff {text : String} {program : Json}
    (h : moduleOf? text = some program) (g : Generator) (failure : Failure) :
    (ofText Generator.supply text g).1 = .error failure ↔
      failure = .exhausted lastCount ∧
        lastCount.toNat < g.count.toNat + (Program.placesOf program).length := by
  obtain ⟨shrunk, count, log, -, -, htext⟩ := ofText_generator h g
  rw [htext]
  dsimp only
  split
  · next hbound =>
    constructor
    · intro hfailed
      cases hfailed
    · rintro ⟨-, hmore⟩
      omega
  · next hbound =>
    constructor
    · intro hfailed
      cases hfailed
      exact ⟨rfl, by omega⟩
    · rintro ⟨rfl, -⟩
      rfl

/-- Settings with an alphabet shrink a text as a new generator over this alphabet does. -/
theorem withSettings_of_alphabet {settings : Settings} {alphabet : Alphabet}
    (h : settings.alphabet = .ok alphabet) (text : String) :
    withSettings settings text = (ofText Generator.supply text ⟨alphabet, settings.start⟩).1 := by
  rw [withSettings, Settings.generator, h]

/-- What is rejected is rejected before the source is asked, and what is accepted fails only with
the first failure that the source answers, behind which it is not asked. Settings without an
alphabet are reported for every text; others fail an accepted module exactly when its self-named
exports lead past the last counter value. Statements never make a tree be rejected, whatever they
are. A text that is no JSON text is one that reading refuses. -/
theorem acceptance_and_failure_exact (supply : Supply σ) (source : σ) (settings : Settings)
    (text : String) :
    ((¬ ∃ program, Accepts text program) →
      ∃ message, ofText supply text source = (.error (.tree message), source, [])) ∧
    (∀ program, Accepts text program →
      let needed := (Program.placesOf program).length
      ((∃ failure, (ofText supply text source).1 = .error failure) ↔
        ∃ failure, .error failure ∈ supply.answers needed source) ∧
      (∀ (values : List String) (failure : Failure) (later : List (Except Failure String)),
        supply.answers needed source = values.map .ok ++ .error failure :: later →
          (ofText supply text source).1 = .error failure ∧
          (ofText supply text source).2.1 = supply.after (values.length + 1) source) ∧
      ∀ shrunk, (ofText supply text source).1 = .ok shrunk →
        (ofText supply text source).2.1 = supply.after needed source) ∧
    (∀ cause, settings.alphabet = .error cause →
      withSettings settings text = .error (.alphabet cause)) ∧
    (∀ alphabet, settings.alphabet = .ok alphabet →
      ((¬ ∃ program, Accepts text program) →
        ∃ message, withSettings settings text = .error (.tree message)) ∧
      ∀ program, Accepts text program → ∀ failure,
        withSettings settings text = .error failure ↔
          failure = .exhausted lastCount ∧
            lastCount.toNat < settings.start.toNat + (Program.placesOf program).length) ∧
    ∀ tree program, Holds tree program → ∀ statements : List Json,
      Holds (changeProgram (Json.changeAt "body" fun _ => .arr statements) tree)
        (program.changeAt "body" fun _ => .arr statements) := by
  refine ⟨fun hnone => ?_, fun program haccepts => ?_, fun cause hcause => ?_,
    fun alphabet halphabet => ?_, fun tree program hholds => hholds.changeBody⟩
  · exact ofText_of_rejected supply (not_accepts_iff.mp hnone) source
  · have hmodule := accepts_iff.mp haccepts
    refine ⟨ofText_fails_iff supply hmodule source, ?_, ?_⟩
    · intro values failure later hanswers
      exact ofText_of_failure supply hmodule hanswers
    · intro shrunk hshrunk
      exact ofText_of_ok supply hmodule hshrunk
  · rw [withSettings, Settings.generator, hcause]
  · rw [withSettings_of_alphabet halphabet]
    refine ⟨fun hnone => ?_, fun program haccepts failure => ?_⟩
    · obtain ⟨message, hrejected⟩ := ofText_of_rejected Generator.supply
        (not_accepts_iff.mp hnone) ⟨alphabet, settings.start⟩
      exact ⟨message, by rw [hrejected]⟩
    · exact ofText_generator_error_iff (accepts_iff.mp haccepts) ⟨alphabet, settings.start⟩ failure

/-- A canonical tree that holds a program is accepted as the text that it is written as. -/
theorem accepts_compact {tree program : Json} (hholds : Holds tree program)
    (hcanonical : Canonical tree) (hnumbers : tree.AllNumbers Json.Number.ReadsBack) :
    Accepts tree.compact program :=
  ⟨tree, Json.read_compact hcanonical hnumbers, hholds⟩

/-- A self-named variable, whose literal has the given fields in front of the others. -/
def selfNamedVariable (name : String) (record : Fields) : Json :=
  .obj [
    ("id", .obj [("name", .str name), ("type", .str "Identifier")]),
    ("init", .obj (record ++ [("type", .str "StringLiteral"), ("value", .str name)]))]

/-- A program that ends with an export of constants, with the given fields behind its body. -/
def exportingProgram (before : List Json) (others : Fields) (constants : List Json) : Json :=
  let exported : Json := .obj [
    ("declaration", .obj [
      ("declarations", .arr constants),
      ("kind", .str "const"),
      ("type", .str "VariableDeclaration")]),
    ("type", .str "ExportNamedDeclaration")]
  .obj (("body", .arr (before ++ [exported])) :: (others ++ [("type", .str "Program")]))

/-- A program of a statement that is no object and an export of two self-named variables. -/
def oddProgram : Json :=
  exportingProgram [.arr [.null]] [] [selfNamedVariable "a" [], selfNamedVariable "b" []]

/-- The text of this program. -/
def oddText : String := oddProgram.compact

/-- The text means the program. -/
theorem accepts_oddText : Accepts oddText oddProgram := by
  have hnumbers : oddProgram.AllNumbers Json.Number.ReadsBack := by
    simp [oddProgram, exportingProgram, selfNamedVariable, Json.AllNumbers, Json.AllNumbersItems,
      Json.AllNumbersMembers]
  exact accepts_compact (.bare ⟨rfl, _, rfl⟩) (Json.canonical_sorted oddProgram) hnumbers

/-- Three texts and settings: one module that needs two strings, a value that is no module, and a
text that is no value; an alphabet with one value left, and no alphabet. -/
theorem acceptance_and_failure_exact_odd :
    let source := Source.script ⟨[.ok "x", .error (.broken "gone"), .ok "y"], 0⟩
    let settings : Settings := { symbols := "ab", start := lastCount - 1 }
    Accepts oddText oddProgram ∧ (Program.placesOf oddProgram).length = 2 ∧
      (ofText Source.supply oddText source).1 = .error (.broken "gone") ∧
      (ofText Source.supply oddText source).2.1 = .script ⟨[.ok "y"], 2⟩ ∧
      withSettings settings oddText = .error (.exhausted lastCount) ∧
      withSettings { symbols := "a" } oddText = .error (.alphabet (.tooFew 1)) ∧
      (∃ message, ofText Source.supply "[]" source = (.error (.tree message), source, [])) ∧
      ∃ message, ofText Source.supply "[" source = (.error (.tree message), source, []) := by
  intro source settings
  have haccepts := accepts_oddText
  have hanswers : Source.supply.answers 2 source =
      ["x"].map .ok ++ .error (.broken "gone") :: [] := rfl
  have hsymbols : settings.symbols.toList = ['a', 'b'] := String.toList_ofList
  have halphabet : settings.alphabet = .ok Alphabet.pair := by
    rw [Settings.alphabet, Alphabet.ofText, hsymbols]
    rfl
  obtain ⟨-, hmodule, -, hsettings, -⟩ :=
    acceptance_and_failure_exact Source.supply source settings oddText
  obtain ⟨hfailed, hstate⟩ := (hmodule _ haccepts).2.1 ["x"] (.broken "gone") [] hanswers
  have hexhausted := ((hsettings _ halphabet).2 _ haccepts (.exhausted lastCount)).mpr
    ⟨rfl, by decide⟩
  obtain ⟨-, -, hcause, -, -⟩ :=
    acceptance_and_failure_exact Source.supply source { symbols := "a" } oddText
  have hlist : ¬ ∃ program, Accepts "[]" program := not_accepts_iff.mpr rfl
  have hcut : ¬ ∃ program, Accepts "[" program := not_accepts_iff.mpr rfl
  exact ⟨haccepts, rfl, hfailed, hstate, hexhausted, hcause _ rfl,
    (acceptance_and_failure_exact Source.supply source settings "[]").1 hlist,
    (acceptance_and_failure_exact Source.supply source settings "[").1 hcut⟩

end Shrunk

end SelfNamed
