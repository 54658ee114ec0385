import SelfNamed.Proofs.Acceptance
import SelfNamed.Proofs.Json.Written
import SelfNamed.Proofs.Shrink.Listing
import SelfNamed.Proofs.Tree.Held
import SelfNamed.Proofs.Tree.Numbers

/-!
# What comes back from an accepted text

A text is accepted when its tree holds a program. What comes back is this tree with the written
module in place of the program, so it holds a program again, is canonical, and has no numbers that
were not there. If its numbers read back, then its text means just this tree. Whether it comes back
at all is up to the source, which is asked once for each self-named export.
-/

namespace SelfNamed.Shrunk

open Json (AllNumbers Canonical CanonicalMembers Fields)

variable {σ : Type} {tree program : Json}

/-! ## Putting a program into a tree -/

/-- Changing the program of a bare program changes the tree itself. -/
theorem IsProgram.changeProgram_eq (h : IsProgram tree) (f : Json → Json) :
    changeProgram f tree = f tree := by
  have hfile : rootType? tree ≠ some "File" := by
    rw [rootType?_eq_some_iff.mpr h.type]
    decide
  rw [changeProgram, if_neg hfile]

/-- A file node is changed under the name of its program. -/
theorem changeProgram_of_file (htype : tree.field? "type" = some (.str "File"))
    (f : Json → Json) : changeProgram f tree = tree.changeAt "program" f := by
  rw [changeProgram, if_pos (rootType?_eq_some_iff.mpr htype)]

/-- A canonical tree with a program is changed by what the change does to the program alone. -/
theorem changeProgram_congr (hcanonical : Canonical tree) (h : Holds tree program)
    {f g : Json → Json} (heq : f program = g program) :
    changeProgram f tree = changeProgram g tree := by
  cases h with
  | bare hprogram => rw [hprogram.changeProgram_eq, hprogram.changeProgram_eq, heq]
  | file htype hfound _ =>
    have hleft := setProgram_eq hcanonical hfound f
    have hright := setProgram_eq hcanonical hfound g
    rw [changeProgram_of_file htype, changeProgram_of_file htype, ← hleft, ← hright, heq]

/-- With its own program a tree is as it was. -/
theorem changeProgram_self (hcanonical : Canonical tree) (h : Holds tree program) :
    changeProgram (fun _ => program) tree = tree := by
  cases h with
  | bare hprogram => exact hprogram.changeProgram_eq _
  | file htype hfound _ =>
    have hset := setProgram_eq hcanonical hfound fun _ => program
    rw [changeProgram_of_file htype, ← hset]
    cases tree with
    | obj fields =>
      have hincreasing := (Json.canonical_obj.mp hcanonical).1
      exact congrArg Json.obj (hincreasing.insert_of_get? hfound)
    | _ => cases hfound

/-- A canonical value in place of the program leaves a tree canonical. -/
theorem canonical_changeProgram (hcanonical : Canonical tree) {new : Json} (hnew : Canonical new) :
    Canonical (changeProgram (fun _ => new) tree) := by
  rw [changeProgram]
  by_cases hfile : rootType? tree = some "File"
  · rw [if_pos hfile]
    cases tree with
    | obj fields =>
      obtain ⟨hincreasing, hmembers⟩ := Json.canonical_obj.mp hcanonical
      refine Json.canonical_obj.mpr ⟨hincreasing.modify _ _, ?_⟩
      refine Json.canonicalMembers_iff.mpr ?_
      intro member hmember
      obtain ⟨old, hold, rfl⟩ := List.mem_map.mp hmember
      by_cases hname : old.1 = "program"
      · rw [if_pos hname]
        exact hnew
      · rw [if_neg hname]
        exact Json.canonicalMembers_iff.mp hmembers old hold
    | _ => exact hcanonical
  · rw [if_neg hfile]
    exact hnew

/-- Numbers of the new program and of the old tree are all that there are. -/
theorem keepsNumbers_changeProgram {P : Json.Number → Prop} {f : Json → Json}
    (hf : KeepsNumbers P f) : KeepsNumbers P (changeProgram f) := by
  intro j h
  rw [changeProgram]
  by_cases hfile : rootType? j = some "File"
  · rw [if_pos hfile]
    exact keepsNumbers_changeAt "program" hf h
  · rw [if_neg hfile]
    exact hf h

/-! ## The program of an accepted text -/

/-- The program that a canonical tree holds is canonical. -/
theorem Holds.canonical (h : Holds tree program) (hcanonical : Canonical tree) :
    Canonical program := by
  cases h with
  | bare _ => exact hcanonical
  | file _ hfound _ => exact canonical_of_field? hcanonical hfound

/-- The program that a tree holds is a program. -/
theorem Holds.isProgram (h : Holds tree program) : IsProgram program := by
  cases h with
  | bare hprogram => exact hprogram
  | file _ _ hprogram => exact hprogram

/-- What a tree has only in numbers its program has, too. -/
theorem Holds.allNumbers (h : Holds tree program) {P : Json.Number → Prop}
    (hnumbers : tree.AllNumbers P) : program.AllNumbers P := by
  cases h with
  | bare _ => exact hnumbers
  | file _ hfound _ =>
    cases tree with
    | obj fields => exact allNumbers_get? hnumbers hfound
    | _ => cases hfound

/-- A program has a list of statements. -/
theorem IsProgram.suits (h : IsProgram program) : Program.suits program = true := by
  have hprogram := isProgram_iff.mpr h
  rw [isProgram, Bool.and_eq_true] at hprogram
  exact hprogram.2

/-- The program of a canonical tree is decoded as a module that is written as the normal form, with
as many self-named exports as the program has places for them. -/
theorem Holds.exists_module (h : Holds tree program) (hcanonical : Canonical tree) :
    ∃ p, program? program = .ok p ∧ p.toJson.sorted = Program.norm program ∧
      p.selfNamedExports.length = (Program.placesOf program).length := by
  obtain ⟨p, hp, -, hnorm, hplaces⟩ :=
    program?_of_suits (h.canonical hcanonical) h.isProgram.suits
  exact ⟨p, hp, hnorm, by rw [← hplaces, p.length_places]⟩

/-- A relabelled program has other statements and nothing else. -/
theorem relabelled_eq_changeBody (hcanonical : Canonical program) (h : IsProgram program)
    (values : List String) :
    ∃ statements, Program.relabelled values program =
      program.changeAt "body" fun _ => .arr statements := by
  obtain ⟨-, before, hbody⟩ := h
  let changed (j : Json) : Prop :=
    ∃ statements, j = program.changeAt "body" fun _ => .arr statements
  rw [Program.relabelled, changeAll]
  refine List.foldlRecOn (motive := changed) _ _ ?_ ?_
  · refine ⟨before.map Statement.norm, ?_⟩
    cases program with
    | obj fields =>
      have hincreasing := (Json.canonical_obj.mp hcanonical).1
      have hmodify (f : Json → Json) := hincreasing.modify_eq_insert hbody f
      refine congrArg Json.obj ((hmodify _).trans ?_)
      rw [hmodify fun _ => .arr (before.map Statement.norm)]
      rfl
    | _ => cases hbody
  · rintro relabelled ⟨statements, rfl⟩ placed _
    let relabel := Json.changeAt "declaration" (VariableDeclaration.relabelAt placed.1.2 placed.2)
    refine ⟨statements.modify placed.1.1 relabel, ?_⟩
    rw [Program.relabelAt, Json.changeAt_changeAt]
    rfl

/-- A relabelled program has only numbers of the program. -/
theorem keepsNumbers_relabelled {P : Json.Number → Prop} (values : List String) :
    KeepsNumbers P (Program.relabelled values) := by
  intro j h
  rw [Program.relabelled, changeAll]
  refine List.foldlRecOn _ _ (keepsNumbers_program h) ?_
  intro relabelled hrelabelled placed _
  exact keepsNumbers_relabelAt placed.1 placed.2 hrelabelled

/-! ## The tree that comes back -/

section

variable {p : Program} (hcanonical : Canonical tree) (h : Holds tree program)
  (hp : program? program = .ok p) (values : List String)

include hcanonical h hp

/-- The tree with the written module holds the written module. -/
theorem holds_output :
    Holds (changeProgram (fun _ => (p.withValues values).toJson.sorted) tree)
      (p.withValues values).toJson.sorted := by
  have hprogram := h.canonical hcanonical
  have hwritten := sorted_withValues_of_suits hprogram h.isProgram.suits hp values
  obtain ⟨statements, hstatements⟩ := relabelled_eq_changeBody hprogram h.isProgram values
  rw [hwritten, hstatements]
  have hholds := h.changeBody statements
  rw [changeProgram_congr hcanonical h (f := Json.changeAt "body" fun _ => .arr statements)
    (g := fun _ => program.changeAt "body" fun _ => .arr statements) rfl] at hholds
  exact hholds

/-- The written module is decoded as the module. -/
theorem program?_output :
    program? (p.withValues values).toJson.sorted = .ok (p.withValues values) := by
  obtain ⟨found, hfound, hsound, -, -⟩ :=
    program?_of_suits (h.canonical hcanonical) h.isProgram.suits
  obtain rfl : found = p := Except.ok.inj (hfound.symm.trans hp)
  have hdecoded := (reads_program.decodeValue_eq_ok_iff (Json.canonical_sorted _)).mpr
    (ofJson?_program (hsound.withValues values))
  rw [program?, hdecoded]

/-- When the numbers of the tree read back, the text of the new tree means the new tree. -/
theorem read_output (hnumbers : tree.AllNumbers Json.Number.ReadsBack) :
    let output := changeProgram (fun _ => (p.withValues values).toJson.sorted) tree
    Json.read none output.compact.toList = .ok output := by
  have hprogram := h.canonical hcanonical
  have hwritten := sorted_withValues_of_suits hprogram h.isProgram.suits hp values
  have hnew : (p.withValues values).toJson.sorted.AllNumbers Json.Number.ReadsBack := by
    rw [hwritten]
    exact keepsNumbers_relabelled values (h.allNumbers hnumbers)
  exact Json.read_compact (canonical_changeProgram hcanonical (Json.canonical_sorted _))
    (keepsNumbers_changeProgram (fun _ => hnew) hnumbers)

end

/-! ## The outcome of a text -/

/-- An accepted text is shrunk as its program is, and what the pass leaves is put into the tree. -/
theorem ofText_of_program (supply : Supply σ) {text : String} {p : Program}
    (hread : Json.read none text.toList = .ok tree) (h : Holds tree program)
    (hp : program? program = .ok p) (source : σ) :
    ofText supply text source =
      match p.shrink supply source with
      | (.ok report, left, source', log) =>
        (.ok ⟨changeProgram (fun _ => left.toJson.sorted) tree, report⟩, source', log)
      | (.error failure, _, source', log) => (.error failure, source', log) := by
  have hcanonical := Json.canonical_read hread
  rw [ofText, hread]
  cases h with
  | bare hprogram =>
    have htype : rootType? tree = some "Program" := rootType?_eq_some_iff.mpr hprogram.type
    rcases hpass : p.shrink supply source with ⟨failure | report, left, source', log⟩
    · simp only [ofTree, htype, ofProgram, hp, hpass]
    · simp only [ofTree, htype, ofProgram, hp, hpass, hprogram.changeProgram_eq, id]
  | file htype hfound hprogram =>
    have hfile : rootType? tree = some "File" := rootType?_eq_some_iff.mpr htype
    have hcalled : rootType? program = some "Program" := rootType?_eq_some_iff.mpr hprogram.type
    have hset (new : Json) := setProgram_eq hcanonical hfound fun _ => new
    rcases hpass : p.shrink supply source with ⟨failure | report, left, source', log⟩
    · simp only [ofTree, hfile, hfound, if_pos hcalled, ofProgram, hp, hpass]
    · simp only [ofTree, hfile, hfound, if_pos hcalled, ofProgram, hp, hpass, hset,
        changeProgram_of_file htype]

section

variable (supply : Supply σ) {text : String} {p : Program}
  (hread : Json.read none text.toList = .ok tree) (h : Holds tree program)
  (hp : program? program = .ok p) {source : σ} {values : List String}

include hread h hp

/-- When the source has a string for each self-named export of its program, an accepted text is
shrunk with these strings. -/
theorem ofText_of_answers
    (hanswers : supply.answers p.selfNamedExports.length source = values.map .ok) :
    ∃ report left log, ofText supply text source =
        (.ok ⟨changeProgram (fun _ => left.toJson.sorted) tree, report⟩,
          supply.after p.selfNamedExports.length source, log) ∧
      p.shrink supply source =
        (.ok report, left, supply.after p.selfNamedExports.length source, log) ∧
      left = p.withValues values ∧ report.values = values := by
  obtain ⟨log, hpass⟩ := Program.shrink_eq supply p source
  rw [supply.collect_of_answers hanswers] at hpass
  have hvalues : values.length ≤ (p.exported.flatMap Declarator.literals).length :=
    Nat.le_of_eq (Program.length_of_answers hanswers)
  refine ⟨_, _, log, ?_, hpass, rfl, report_values hvalues⟩
  rw [ofText_of_program supply hread h hp, hpass]
  rfl

/-- When it fails before, the first failure is the outcome. -/
theorem ofText_of_failing_answers {failure : Failure} {later : List (Except Failure String)}
    (hanswers : supply.answers p.selfNamedExports.length source =
      values.map .ok ++ .error failure :: later) :
    ∃ log, ofText supply text source =
      (.error failure, supply.after (values.length + 1) source, log) := by
  obtain ⟨log, hpass⟩ := Program.shrink_eq supply p source
  rw [supply.collect_of_answers_failure hanswers] at hpass
  refine ⟨log, ?_⟩
  rw [ofText_of_program supply hread h hp, hpass]
  rfl

/-- When its program has no self-named export, an accepted text comes back with its program as it is
written, and the source is not asked. -/
theorem ofText_of_nothing (hnone : p.selfNamedExports.length = 0) :
    ∃ log, ofText supply text source =
      (.ok ⟨changeProgram (fun _ => p.toJson.sorted) tree, .empty⟩, source, log) := by
  have hanswers : supply.answers p.selfNamedExports.length source =
      ([] : List String).map .ok := by
    rw [hnone]
    rfl
  obtain ⟨report, left, log, htext, -, rfl, hvalues⟩ :=
    ofText_of_answers supply hread h hp hanswers
  have hempty : report = .empty := by
    cases report
    exact congrArg Report.mk (List.map_eq_nil_iff.mp hvalues)
  rw [p.withValues_nil, hempty, hnone] at htext
  exact ⟨log, htext⟩

end

end SelfNamed.Shrunk
