import SelfNamed.Proofs.Shrink.Run
import SelfNamed.Proofs.Walk.Listing

/-!
# The listing foretells the pass

The listing and the pass are two walks with flags of their own. Both meet the self-named exports of
a module in source order, so what the listing finds beforehand is what the pass changes: all of it
when the source answers, and as much from the front as the source had answers for when it fails.
-/

namespace SelfNamed

namespace Program

variable {σ : Type}

section

variable {supply : Supply σ} {p left : Program} {source source' : σ} {report : Report}
  {log : List Event}

/-- A successful pass has taken one string for each self-named export, leaves the module with these
strings and reports them. -/
theorem taken_of_shrink (h : p.shrink supply source = (.ok report, left, source', log)) :
    ∃ values : List String,
      supply.answers p.selfNamedExports.length source = values.map .ok ∧
      source' = supply.after p.selfNamedExports.length source ∧ left = p.withValues values ∧
      report = ⟨((p.exported.flatMap Declarator.literals).zip values).map
        fun entry => Pass.replacement entry.1 entry.2⟩ := by
  obtain ⟨log', hshrink⟩ := shrink_eq supply p source
  rw [h] at hshrink
  rcases Supply.answers_cases (supply.answers p.selfNamedExports.length source) with
    ⟨values, hanswers⟩ | ⟨values, failure, later, hanswers⟩
  · rw [supply.collect_of_answers hanswers] at hshrink
    cases hshrink
    exact ⟨values, hanswers, rfl, rfl, rfl⟩
  · rw [supply.collect_of_answers_failure hanswers] at hshrink
    cases hshrink

/-- There are as many answers as literals. -/
theorem length_of_answers {values : List String}
    (h : supply.answers p.selfNamedExports.length source = values.map .ok) :
    values.length = (p.exported.flatMap Declarator.literals).length := by
  have hlength := congrArg List.length h
  rw [supply.length_answers, List.length_map, ← length_selfNamedExports] at hlength
  exact hlength.symm

/-- The names of its report are those of the listing. -/
theorem names_of_shrink (h : p.shrink supply source = (.ok report, left, source', log)) :
    report.replacements.map Replacement.name = p.selfNamed := by
  obtain ⟨values, hanswers, -, -, rfl⟩ := taken_of_shrink h
  have hfirst : ((p.exported.flatMap Declarator.literals).zip values).map Prod.fst =
    p.exported.flatMap Declarator.literals :=
      List.map_fst_zip (Nat.le_of_eq (length_of_answers hanswers).symm)
  rw [selfNamed_eq, List.map_map, ← hfirst, List.map_map, hfirst]
  rfl

end

variable (supply : Supply σ)

/-- The listing has an entry for each self-named export, in the same order. A pass that succeeds
reports the names of the entries and asks its source once for each. A pass that fails has given the
strings before the failure to the exports of the first entries and to nothing else. -/
theorem shrink_follows_listing (program : Program) (source : σ) :
    List.Forall₂ Listing.Describes program.selfNamedExports program.listing ∧
    (∀ report left source' log,
      program.shrink supply source = (.ok report, left, source', log) →
      report.replacements.map Replacement.name = program.selfNamed ∧
      program.requests supply source = program.listing.length ∧
      (∃ values : List String,
        supply.answers program.listing.length source = values.map .ok ∧
        program.Received values left) ∧
      source' = supply.after program.listing.length source) ∧
    (∀ failure left source' log,
      program.shrink supply source = (.error failure, left, source', log) →
      ∃ (values : List String) (later : List (Except Failure String)),
        supply.answers program.listing.length source =
          values.map .ok ++ .error failure :: later ∧
        program.requests supply source = values.length + 1 ∧
        source' = supply.after (values.length + 1) source ∧ program.Received values left) := by
  refine ⟨program.describes_listing, ?_⟩
  rw [length_listing]
  constructor
  · intro report left source' log hshrunk
    obtain ⟨values, hanswers, hsource, rfl, -⟩ := taken_of_shrink hshrunk
    exact ⟨names_of_shrink hshrunk, requests_of_answers hanswers,
      ⟨values, hanswers, program.received_withValues values⟩, hsource⟩
  · intro failure left source' log hshrunk
    obtain ⟨log', hshrink⟩ := shrink_eq supply program source
    rw [hshrunk] at hshrink
    rcases Supply.answers_cases (supply.answers program.selfNamedExports.length source) with
      ⟨values, hanswers⟩ | ⟨values, failure', later, hanswers⟩
    · rw [supply.collect_of_answers hanswers] at hshrink
      cases hshrink
    · rw [supply.collect_of_answers_failure hanswers] at hshrink
      cases hshrink
      exact ⟨values, later, hanswers, requests_of_failing_answers hanswers, rfl,
        program.received_withValues values⟩

/-- Two strings are reported for the two entries of a mixed module; one string before a failure goes
to the first entry and leaves the second as it was. -/
theorem shrink_follows_listing_mixed :
    mixed.selfNamed = ["b", "e"] ∧
      (∃ report left source' log,
        mixed.shrink Source.supply (.script ⟨[.ok "x", .ok "y"], 0⟩) =
          (.ok report, left, source', log) ∧
        report.replacements.map Replacement.name = ["b", "e"]) ∧
      ∃ left source' log literal,
        mixed.shrink Source.supply (.script ⟨[.ok "x", .error (.exhausted 1)], 0⟩) =
          (.error (.exhausted 1), left, source', log) ∧
        mixed.Received ["x"] left ∧
        left.declaratorAt? (1, 0) = some (.build "b" (some (.string literal))) ∧
        literal.value = "x" ∧
        left.declaratorAt? (1, 2) = mixed.declaratorAt? (1, 2) := by
  have hnames : mixed.selfNamed = ["b", "e"] := by decide +kernel
  have hplaces : mixed.places = [(1, 0), (1, 2)] := rfl
  refine ⟨hnames, ?_, ?_⟩
  · obtain ⟨-, hsuccess, -⟩ :=
      shrink_follows_listing Source.supply mixed (.script ⟨[.ok "x", .ok "y"], 0⟩)
    obtain ⟨hreported, -, -⟩ := hsuccess _ _ _ _ rfl
    exact ⟨_, _, _, _, rfl, hreported.trans hnames⟩
  · obtain ⟨-, -, hfailure⟩ :=
      shrink_follows_listing Source.supply mixed (.script ⟨[.ok "x", .error (.exhausted 1)], 0⟩)
    obtain ⟨values, later, hanswers, -, -, hreceived⟩ := hfailure _ _ _ _ rfl
    have hvalues : values = ["x"] := by
      match values, hanswers with
      | [], hanswers => cases hanswers
      | [value], hanswers =>
        obtain ⟨hfirst, -⟩ := List.cons.inj hanswers
        rw [← Except.ok.inj hfirst]
      | _ :: _ :: _, hanswers => cases hanswers
    rw [hvalues] at hreceived
    have hsecond : (1, 2) ∉ mixed.places.take 1 := by
      rw [hplaces]
      decide
    obtain ⟨place, _, literal, hplace, -, -, hcoherent, hafter⟩ :=
      hreceived.first (k := 0) rfl rfl
    rw [hplaces] at hplace
    cases hplace
    exact ⟨_, _, _, literal, rfl, hreceived, hafter, hcoherent.value, hreceived.others hsecond⟩

end Program

end SelfNamed
