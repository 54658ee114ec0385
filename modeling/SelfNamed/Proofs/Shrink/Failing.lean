import SelfNamed.Proofs.Shrink.Listing

/-!
# A pass over a source that fails

A source that fails stops a pass at the self-named export that it has no string for. The exports
before it have their strings, the same as after a pass that succeeds, and it and all others are as
they were. What is not an exported declarator never changes. Main statement: all of this, and that
the source was asked for each string and once more.
-/

namespace SelfNamed

namespace Program

variable {σ : Type} {supply : Supply σ} {program : Program} {source : σ} {values : List String}
  {failure : Failure}

/-- The first exports that get values are the same for values that go on in the same way. -/
theorem declaratorAt?_withValues_append (values more : List String) {place : ℕ × ℕ}
    (h : place ∈ program.places.take values.length) :
    (program.withValues (values ++ more)).declaratorAt? place =
      (program.withValues values).declaratorAt? place := by
  obtain ⟨k, hk, rfl⟩ := List.mem_take_iff_getElem.mp h
  have hk' : k < values.length := by omega
  have hplace : program.places[k]? = some program.places[k] := List.getElem?_eq_getElem _
  have hvalue : values[k]? = some values[k] := List.getElem?_eq_getElem hk'
  have hvalue' : (values ++ more)[k]? = some values[k] := by
    rw [List.getElem?_append_left hk', hvalue]
  rw [declaratorAt?_withValues hplace hvalue, declaratorAt?_withValues hplace hvalue']

/-- When a source has strings for the first self-named exports only and then fails, a pass fails in
the same way and has asked once for each string and once more. The first exports have received the
strings, in the way of any pass that succeeds with these strings and others behind them; the next
export and all others are as they were, and so is the rest of the module. -/
theorem shrink_of_failure
    (h : supply.answers (values.length + 1) source = values.map .ok ++ [.error failure])
    (hfew : values.length < program.selfNamedExports.length) :
    ∃ left log,
      program.shrink supply source =
        (.error failure, left, supply.after (values.length + 1) source, log) ∧
      program.requests supply source = values.length + 1 ∧
      program.Received values left ∧
      (∃ place d, program.places[values.length]? = some place ∧
        program.selfNamedExports[values.length]? = some d ∧
        program.declaratorAt? place = some d ∧ left.declaratorAt? place = some d) ∧
      ∀ {τ : Type} (supply' : Supply τ) (source' : τ) (more : List String),
        supply'.answers program.selfNamedExports.length source' = (values ++ more).map .ok →
          ∃ report whole last log', program.shrink supply' source' =
            (.ok report, whole, last, log') ∧ program.Received (values ++ more) whole ∧
            ∀ place ∈ program.places.take values.length,
              left.declaratorAt? place = whole.declaratorAt? place := by
  obtain ⟨log, hshrink⟩ := shrink_eq supply program source
  rw [supply.collect_of_failure h hfew] at hshrink
  have hanswers : supply.counted.answers (values.length + 1) (source, 0) =
      values.map .ok ++ [.error failure] := (supply.answers_counted _ _).trans h
  have hrequests : program.requests supply source = values.length + 1 := by
    rw [requests_eq, supply.counted.collect_of_failure hanswers hfew, supply.after_counted,
      Nat.zero_add]
  have hreceived := program.received_withValues values
  refine ⟨_, log, hshrink, hrequests, hreceived, ?_, ?_⟩
  · have hlt : values.length < program.places.length := by rwa [length_places]
    have hplace : program.places[values.length]? = some program.places[values.length] :=
      List.getElem?_eq_getElem hlt
    obtain ⟨d, hd, hbefore⟩ := declaratorAt?_of_places hplace
    have hnot : program.places[values.length] ∉ program.places.take values.length := by
      intro hmem
      obtain ⟨k, hk, heq⟩ := List.mem_take_iff_getElem.mp hmem
      have hsame := (program.nodup_places.getElem_inj_iff).mp heq
      omega
    exact ⟨_, d, hplace, hd, hbefore, (hreceived.others hnot).trans hbefore⟩
  · intro τ supply' source' more hmore
    obtain ⟨log'', hwhole⟩ := shrink_eq supply' program source'
    rw [supply'.collect_of_answers hmore] at hwhole
    refine ⟨_, _, _, log'', hwhole, program.received_withValues (values ++ more), ?_⟩
    intro place hplace
    exact (declaratorAt?_withValues_append values more hplace).symm

/-- One string before a failure is not enough for the two self-named exports of a mixed module: the
first gets it, as from a source that has another for the second, and the second keeps its own. -/
theorem shrink_of_failure_mixed :
    let source := Source.script ⟨[.ok "x", .error (.exhausted 1), .ok "y"], 0⟩
    let full := Source.script ⟨[.ok "x", .ok "y"], 0⟩
    Source.supply.answers 2 source = [.ok "x", .error (.exhausted 1)] ∧
      1 < mixed.selfNamedExports.length ∧
      ∃ left log literal report whole last log',
        mixed.shrink Source.supply source =
          (.error (.exhausted 1), left, .script ⟨[.ok "y"], 2⟩, log) ∧
        mixed.shrink Source.supply full = (.ok report, whole, last, log') ∧
        left.declaratorAt? (1, 0) = some (.build "b" (some (.string literal))) ∧
        literal.value = "x" ∧
        whole.declaratorAt? (1, 0) = some (.build "b" (some (.string literal))) ∧
        left.declaratorAt? (1, 2) = mixed.declaratorAt? (1, 2) ∧
        left.body.map Statement.hollow = mixed.body.map Statement.hollow := by
  intro source full
  have hplaces : mixed.places = [(1, 0), (1, 2)] := rfl
  have hanswers : Source.supply.answers (["x"].length + 1) source =
      ["x"].map .ok ++ [.error (.exhausted 1)] := rfl
  have hfew : 1 < mixed.selfNamedExports.length := by decide
  obtain ⟨left, log, hshrink, -, hreceived, hnext, hsuccess⟩ := shrink_of_failure hanswers hfew
  obtain ⟨report, whole, last, log', hwhole, -, hsame⟩ := hsuccess Source.supply full ["y"] rfl
  obtain ⟨place, d, hplace, -, hbefore, hafter⟩ := hnext
  obtain ⟨place', _, literal, hplace', -, -, hcoherent, hfirst⟩ :=
    hreceived.first (k := 0) rfl rfl
  rw [hplaces] at hplace hplace' hsame
  cases hplace
  cases hplace'
  exact ⟨hanswers, hfew, left, log, literal, report, whole, last, log', hshrink, hwhole, hfirst,
    hcoherent.value, (hsame (1, 0) (by decide)).symm.trans hfirst, hafter.trans hbefore.symm,
    hreceived.hollow⟩

end Program

end SelfNamed
