import SelfNamed.Proofs.Shrink.Run

/-!
# A pass over a body in two parts

A pass goes from one statement to the next with nothing but the state of its source and the changes
so far. So a pass over a body in two parts is a pass over the first and then, unless the source has
failed there, a pass over the second with the source as the first has left it. The module is told
apart by parts first: its exports, its places and the values that they get.
-/

namespace SelfNamed

variable {σ : Type}

/-- The changes of one report and then those of another. -/
def Report.append (first second : Report) : Report :=
  ⟨first.replacements ++ second.replacements⟩

namespace Program

variable (first second : List Statement) (rest rest₁ rest₂ : Json.Fields)

/-- The self-named exports of a body in two parts are those of the first and those of the second. -/
theorem selfNamedExports_append :
    (⟨first ++ second, rest⟩ : Program).selfNamedExports =
      (⟨first, rest₁⟩ : Program).selfNamedExports ++
        (⟨second, rest₂⟩ : Program).selfNamedExports := by
  simp only [selfNamedExports, exported, List.flatMap_append, List.filter_append]

/-- The literals of the self-named exports of joined modules are those of the first module and then
those of the second. -/
theorem literals_append :
    (⟨first ++ second, rest⟩ : Program).exported.flatMap Declarator.literals =
      (⟨first, rest₁⟩ : Program).exported.flatMap Declarator.literals ++
        (⟨second, rest₂⟩ : Program).exported.flatMap Declarator.literals := by
  simp only [exported, List.flatMap_append]

/-- Values behind those for all self-named exports change nothing. -/
theorem withValues_values_append {p : Program} {values : List String} (more : List String)
    (h : values.length = p.selfNamedExports.length) :
    p.withValues (values ++ more) = p.withValues values :=
  changeAll_values_append (p.length_places.trans h.symm)

/-- Values go to the first part and what is left of them to the second. -/
theorem withValues_append (values : List String) :
    (⟨first ++ second, rest⟩ : Program).withValues values =
      ⟨((⟨first, rest₁⟩ : Program).withValues values).body ++
        ((⟨second, rest₂⟩ : Program).withValues
          (values.drop (⟨first, rest₁⟩ : Program).selfNamedExports.length)).body, rest⟩ := by
  have hlength := length_places ⟨first, rest₁⟩
  have hparts := changeAll_placesIn_append Statement.withValueAt
    (fun s => s.exported.findIdxs Declarator.isSelfNamed) values first second
  simp only [withValues_eq, ← hlength]
  exact congrArg (fun body => (⟨body, rest⟩ : Program)) hparts

variable {first second} {rest rest₁ rest₂} {supply : Supply σ} {source source₁ : σ} {left₁ : Program}
  {log₁ : List Event}

/-- Behind a part in which the source has not failed the pass goes on over the other part. -/
theorem shrink_append_of_ok {report₁ : Report} {result₂ : Except Failure Report} {left₂ : Program}
    {source₂ : σ} {log₂ : List Event}
    (h : (⟨first, rest₁⟩ : Program).shrink supply source = (.ok report₁, left₁, source₁, log₁))
    (h' : (⟨second, rest₂⟩ : Program).shrink supply source₁ = (result₂, left₂, source₂, log₂)) :
    ∃ log, (⟨first ++ second, rest⟩ : Program).shrink supply source =
      (result₂.map report₁.append, ⟨left₁.body ++ left₂.body, rest⟩, source₂, log) := by
  obtain ⟨logFirst, hfirst⟩ := shrink_eq supply ⟨first, rest₁⟩ source
  obtain ⟨logSecond, hsecond⟩ := shrink_eq supply ⟨second, rest₂⟩ source₁
  obtain ⟨log, hwhole⟩ := shrink_eq supply ⟨first ++ second, rest⟩ source
  rw [h] at hfirst
  rw [h'] at hsecond
  simp only [Prod.mk.injEq] at hfirst hsecond
  obtain ⟨hreport, rfl, rfl, -⟩ := hfirst
  obtain ⟨rfl, rfl, rfl, -⟩ := hsecond
  obtain ⟨hnone, rfl⟩ := Supply.Collected.outcome_eq_ok_iff.mp hreport.symm
  have hvalues := supply.length_values_of_none hnone
  have hliterals := (length_selfNamedExports ⟨first, rest₁⟩).trans hvalues.symm
  refine ⟨log, hwhole.trans ?_⟩
  rw [selfNamedExports_append first second rest rest₁ rest₂, List.length_append,
    supply.collect_add_of_none _ hnone, literals_append first second rest rest₁ rest₂,
    withValues_append first second rest rest₁ rest₂]
  dsimp only
  rw [List.zip_append hliterals, List.map_append, withValues_values_append _ hvalues,
    List.drop_left' hvalues, Supply.Collected.outcome, Supply.Collected.outcome]
  cases (supply.collect (⟨second, rest₂⟩ : Program).selfNamedExports.length
    (supply.collect (⟨first, rest₁⟩ : Program).selfNamedExports.length source).source).failure with
  | none => rfl
  | some failure => rfl

/-- A part in which the source fails ends the pass, and the other part stays as it is. -/
theorem shrink_append_of_error {failure : Failure}
    (h : (⟨first, rest₁⟩ : Program).shrink supply source =
      (.error failure, left₁, source₁, log₁)) :
    ∃ log, (⟨first ++ second, rest⟩ : Program).shrink supply source =
      (.error failure, ⟨left₁.body ++ second, rest⟩, source₁, log) := by
  obtain ⟨logFirst, hfirst⟩ := shrink_eq supply ⟨first, rest₁⟩ source
  obtain ⟨log, hwhole⟩ := shrink_eq supply ⟨first ++ second, rest⟩ source
  rw [h] at hfirst
  simp only [Prod.mk.injEq] at hfirst
  obtain ⟨hresult, rfl, rfl, -⟩ := hfirst
  have hfailure := Supply.Collected.outcome_eq_error_iff.mp hresult.symm
  have hfew := supply.length_values_le (⟨first, rest₁⟩ : Program).selfNamedExports.length source
  refine ⟨log, hwhole.trans ?_⟩
  rw [selfNamedExports_append first second rest rest₁ rest₁, List.length_append,
    supply.collect_add_of_some _ hfailure, withValues_append first second rest rest₁ rest₁,
    List.drop_eq_nil_of_le hfew, withValues_nil, Supply.Collected.outcome_eq_error_iff.mpr hfailure]

variable (supply) (first second) (rest rest₁ rest₂) (source)

/-- A pass over a body in two parts does what a pass over the first part does, and then, if this one
succeeds, what a pass over the second does with the source as it is left: the bodies that both leave
stand one behind the other, a failure of the second is the outcome, and the reports are put
together. If the pass over the first part fails, its failure is the outcome, the second part stays
as it is, and the source is asked for nothing more. -/
theorem shrink_append :
    ∃ log, (⟨first ++ second, rest⟩ : Program).shrink supply source =
      match (⟨first, rest₁⟩ : Program).shrink supply source with
      | (.ok report₁, left₁, source₁, _) =>
        let (result₂, left₂, source₂, _) := (⟨second, rest₂⟩ : Program).shrink supply source₁
        (result₂.map report₁.append, ⟨left₁.body ++ left₂.body, rest⟩, source₂, log)
      | (.error failure, left₁, source₁, _) =>
        (.error failure, ⟨left₁.body ++ second, rest⟩, source₁, log) := by
  rcases hfirst : (⟨first, rest₁⟩ : Program).shrink supply source with
    ⟨failure | report₁, left₁, source₁, log₁⟩
  · exact shrink_append_of_error hfirst
  · exact shrink_append_of_ok hfirst rfl

end Program

end SelfNamed
