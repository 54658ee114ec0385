import SelfNamed.Proofs.Shrink.Failing

/-!
# What a second pass finds

A pass gives every self-named export a value. The export is self-named afterwards exactly when this
value is its name again, and no other export has become self-named. So the listing of what a pass
leaves is told by the names and the values alone. The statement goes from a declarator to lists by
one induction, which hands each item the values for its places and the others those that are left.
-/

namespace SelfNamed

/-- The names that got themselves as values. -/
def keptNames (names values : List String) : List String :=
  ((names.zip values).filter fun entry => entry.2 == entry.1).map Prod.fst

/-- The changes of a report that gave an export its own name. -/
def Report.idle (report : Report) : List Replacement :=
  report.replacements.filter fun replacement => replacement.value == replacement.name

/-- What is kept of two lists is kept of each, when values and names go together. -/
theorem keptNames_append {names values : List String} (h : names.length = values.length)
    (otherNames otherValues : List String) :
    keptNames (names ++ otherNames) (values ++ otherValues) =
      keptNames names values ++ keptNames otherNames otherValues := by
  rw [keptNames, List.zip_append h, List.filter_append, List.map_append]
  rfl

/-- The values of literals. -/
def literalValues (literals : List StringLiteral) : List String :=
  literals.map StringLiteral.value

/-- Changing all places leaves the literals whose values are their names again. -/
def Leaves {α π : Type} (literals : α → List StringLiteral) (places : α → List π)
    (change : π → String → α → α) : Prop :=
  ∀ node values, values.length = (literals node).length →
    literalValues (literals (changeAll change (places node) values node)) =
      keptNames (literalValues (literals node)) values

/-- What holds of the items holds of the list. -/
theorem Leaves.list {α π : Type} {literals : α → List StringLiteral} {places : α → List π}
    {change : π → String → α → α} (h : Leaves literals places change)
    (hlength : ∀ node, (places node).length = (literals node).length) :
    Leaves (List.flatMap literals) (placesIn places) (changeIn change) := by
  intro items
  induction items with
  | nil =>
    intro values hvalues
    rfl
  | cons item items ih =>
    intro values hvalues
    rw [List.flatMap_cons, List.length_append] at hvalues
    have htaken : (values.take (literals item).length).length = (literals item).length := by
      rw [List.length_take]
      omega
    have hdropped : (values.drop (literals item).length).length =
        (items.flatMap literals).length := by
      rw [List.length_drop]
      omega
    have hsplit : values.take (literals item).length ++ values.drop (literals item).length =
        values :=
      List.take_append_drop _ values
    have hitem : changeAll change (places item) values item =
        changeAll change (places item) (values.take (literals item).length) item := by
      rw [← hsplit, changeAll_values_append (by rw [hlength, htaken]), hsplit]
    have hnames : (literalValues (literals item)).length =
        (values.take (literals item).length).length := by
      rw [literalValues, List.length_map, htaken]
    have hfirst := h item _ htaken
    have hothers := ih _ hdropped
    simp only [literalValues] at hfirst hothers hnames ⊢
    rw [changeAll_cons, List.flatMap_cons, List.flatMap_cons, List.map_append, List.map_append,
      hlength, hitem, hfirst, hothers, ← keptNames_append hnames, hsplit]

/-- A declarator with a value for its literal is self-named when the value is the name. -/
theorem Declarator.literals_withValue {d : Declarator} {literal : StringLiteral}
    (hinit : d.init = some (.string literal)) (hname : d.name? = some literal.value)
    (value : String) :
    (d.withValue value).literals =
      if value = literal.value then [literal.setValue value] else [] := by
  have hinit' : (d.withValue value).init = some (.string (literal.setValue value)) := by
    rw [withValue, hinit]
    rfl
  have hname' : (d.withValue value).name? = some literal.value := hname
  by_cases h : value = literal.value
  · have hself : (d.withValue value).isSelfNamed = true :=
      isSelfNamed_iff.mpr ⟨_, hinit', hname'.trans (congrArg some h.symm)⟩
    rw [if_pos h, literals_of_isSelfNamed hself hinit']
  · have hnot : (d.withValue value).isSelfNamed = false := by
      rw [Bool.eq_false_iff]
      intro hself
      obtain ⟨literal', hliteral, hvalue⟩ := isSelfNamed_iff.mp hself
      rw [hinit'] at hliteral
      cases hliteral
      rw [hname'] at hvalue
      exact h (Option.some.inj hvalue).symm
    rw [if_neg h, literals_of_not_isSelfNamed hnot]

/-- A declarator keeps its literal when the value is the name. -/
theorem declarator_leaves :
    Leaves Declarator.literals Declarator.ownPlaces fun _ => Declarator.withValue := by
  intro d values hvalues
  cases hself : d.isSelfNamed with
  | false =>
    have hplaces : d.ownPlaces = [] := by rw [Declarator.ownPlaces, hself]; rfl
    rw [hplaces, d.literals_of_not_isSelfNamed hself, changeAll, List.zip_nil_left, List.foldl_nil,
      d.literals_of_not_isSelfNamed hself]
    rfl
  | true =>
    obtain ⟨literal, hinit, hname⟩ := Declarator.isSelfNamed_iff.mp hself
    have hplaces : d.ownPlaces = [()] := by rw [Declarator.ownPlaces, hself]; rfl
    rw [d.literals_of_isSelfNamed hself hinit] at hvalues ⊢
    obtain ⟨value, rfl⟩ := List.length_eq_one_iff.mp hvalues
    have hchanged : changeAll (fun _ => Declarator.withValue) d.ownPlaces [value] d =
      d.withValue value := by rw [hplaces]; rfl
    rw [hchanged, Declarator.literals_withValue hinit hname]
    by_cases h : value = literal.value
    · rw [if_pos h]
      simp [literalValues, keptNames, h]
    · rw [if_neg h]
      simp [literalValues, keptNames, h]

/-- A list of declarators keeps the literals whose values are the names. -/
theorem declarators_leave :
    Leaves (List.flatMap Declarator.literals) (List.findIdxs Declarator.isSelfNamed ·)
      fun i value ds => ds.modify i (Declarator.withValue value) := by
  intro ds values hvalues
  have h := declarator_leaves.list Declarator.length_ownPlaces ds values hvalues
  rw [placesIn_ownPlaces, changeAll_map] at h
  exact h

/-- A statement keeps the exported literals whose values are the names. -/
theorem statement_leaves :
    Leaves (fun s : Statement => s.exported.flatMap Declarator.literals)
      (fun s => s.exported.findIdxs Declarator.isSelfNamed) Statement.withValueAt := by
  intro s values hvalues
  have hexported := changeAll_wrap Statement.exported
    (fun i value s => (Statement.exported_withValueAt i value s).symm)
    (s.exported.findIdxs Declarator.isSelfNamed) values s
  dsimp only
  rw [← hexported]
  exact declarators_leave s.exported values hvalues

namespace Program

/-- A module with values in its self-named exports has those self-named exports left whose values
are their names. -/
theorem selfNamed_withValues {p : Program} {values : List String}
    (h : values.length = (p.exported.flatMap Declarator.literals).length) :
    (p.withValues values).selfNamed = keptNames p.selfNamed values := by
  have hlength (s : Statement) : (s.exported.findIdxs Declarator.isSelfNamed).length =
    (s.exported.flatMap Declarator.literals).length := length_findIdxs_isSelfNamed s.exported
  have hflat (body : List Statement) :
      body.flatMap (fun s => s.exported.flatMap Declarator.literals) =
        (body.flatMap Statement.exported).flatMap Declarator.literals := List.flatMap_assoc.symm
  have hbody : (p.withValues values).body =
      changeAll (changeIn Statement.withValueAt)
        (placesIn (fun s => s.exported.findIdxs Declarator.isSelfNamed) p.body) values p.body := by
    rw [withValues_eq]
    rfl
  have hleaves := statement_leaves.list hlength p.body values
    (by rw [hflat, h]; rfl)
  rw [hflat, hflat, ← hbody] at hleaves
  rw [selfNamed_eq, selfNamed_eq]
  exact hleaves

variable {σ : Type} {supply : Supply σ} {p left : Program} {source source' : σ} {report : Report}
  {log : List Event}

/-- The self-named exports that a successful pass leaves are those of the idle changes. -/
theorem selfNamed_of_shrink (h : p.shrink supply source = (.ok report, left, source', log)) :
    left.selfNamed = report.idle.map Replacement.name := by
  obtain ⟨values, hanswers, -, rfl, rfl⟩ := taken_of_shrink h
  rw [selfNamed_withValues (length_of_answers hanswers), selfNamed_eq, keptNames,
    List.zip_map_left, Report.idle, List.filter_map, List.filter_map, List.map_map, List.map_map]
  rfl

/-- There are as many of them as idle changes. -/
theorem length_of_shrink (h : p.shrink supply source = (.ok report, left, source', log)) :
    left.selfNamedExports.length = report.idle.length := by
  have hnames := congrArg List.length (selfNamed_of_shrink h)
  rw [selfNamed, List.length_map, List.length_map, length_listing] at hnames
  exact hnames

/-- The self-named exports that a successful pass leaves are, in order, those that got their own
names back. So a second pass over what is left asks any source for just so many strings: once for
each when the source has them, else up to its first failure, which is the outcome. When there are
none, it asks for nothing and changes nothing, whatever the source. -/
theorem second_pass_of_shrink
    (h : p.shrink supply source = (.ok report, left, source', log)) :
    left.selfNamed = report.idle.map Replacement.name ∧
      ∀ {τ : Type} (again : Supply τ) (next : τ),
        let needed := report.idle.length
        (∀ values : List String, again.answers needed next = values.map .ok →
          left.requests again next = needed ∧
          ∃ report' log', left.shrink again next =
              (.ok report', left.withValues values, again.after needed next, log') ∧
            report'.replacements.map Replacement.name = report.idle.map Replacement.name) ∧
        (∀ (values : List String) (failure : Failure) (later : List (Except Failure String)),
          again.answers needed next = values.map .ok ++ .error failure :: later →
          left.requests again next = values.length + 1 ∧
          ∃ log', left.shrink again next =
            (.error failure, left.withValues values, again.after (values.length + 1) next,
              log')) ∧
        (report.idle = [] → left.requests again next = 0 ∧
          ∃ log', left.shrink again next = (.ok .empty, left, next, log')) := by
  refine ⟨selfNamed_of_shrink h, ?_⟩
  intro τ again next needed
  have hneeded : needed = left.selfNamedExports.length := (length_of_shrink h).symm
  have hanswered (values : List String) (hanswers : again.answers needed next = values.map .ok) :
      left.requests again next = needed ∧
        ∃ report' log', left.shrink again next =
            (.ok report', left.withValues values, again.after needed next, log') ∧
          report'.replacements.map Replacement.name = report.idle.map Replacement.name := by
    rw [hneeded] at hanswers ⊢
    obtain ⟨log', hshrink⟩ := shrink_eq again left next
    rw [again.collect_of_answers hanswers] at hshrink
    have hnames := (names_of_shrink hshrink).trans (selfNamed_of_shrink h)
    exact ⟨requests_of_answers hanswers, _, log', hshrink, hnames⟩
  refine ⟨hanswered, ?_, ?_⟩
  · intro values failure later hanswers
    rw [hneeded] at hanswers
    obtain ⟨log', hshrink⟩ := shrink_eq again left next
    rw [again.collect_of_answers_failure hanswers] at hshrink
    exact ⟨requests_of_failing_answers hanswers, log', hshrink⟩
  · intro hnone
    have hzero : needed = 0 := congrArg List.length hnone
    have hanswers : again.answers needed next = [].map .ok := by rw [hzero]; rfl
    obtain ⟨hrequests, report', log', hshrink, hnames⟩ := hanswered [] hanswers
    have hempty : report' = .empty := by
      rw [hnone] at hnames
      have hreplacements := List.map_eq_nil_iff.mp hnames
      obtain ⟨replacements⟩ := report'
      exact congrArg Report.mk hreplacements
    rw [hzero] at hrequests hshrink
    rw [hempty, withValues_nil] at hshrink
    exact ⟨hrequests, log', hshrink⟩

/-- When the first of two exports gets its own name, it alone is left, and a second pass asks for one
string; a source that fails at once leaves it as it is. -/
theorem second_pass_of_shrink_own_name :
    ∃ report left source' log,
      mixed.shrink Source.supply (.script ⟨[.ok "b", .ok "y"], 0⟩) =
        (.ok report, left, source', log) ∧
      left.selfNamed = ["b"] ∧
      left.requests Source.supply (.script ⟨[.ok "x", .ok "z"], 0⟩) = 1 ∧
      ∃ log', left.shrink Source.supply (.script ⟨[.error (.exhausted 3), .ok "x"], 0⟩) =
        (.error (.exhausted 3), left, .script ⟨[.ok "x"], 1⟩, log') := by
  let report : Report := ⟨[⟨"b", "b", none, none⟩, ⟨"e", "y", none, none⟩]⟩
  have hshrink : ∃ left source' log,
    mixed.shrink Source.supply (.script ⟨[.ok "b", .ok "y"], 0⟩) =
      (.ok report, left, source', log) := ⟨_, _, _, rfl⟩
  obtain ⟨left, source', log, hshrink⟩ := hshrink
  obtain ⟨hnames, hagain⟩ := second_pass_of_shrink hshrink
  have hone := (hagain Source.supply (.script ⟨[.ok "x", .ok "z"], 0⟩)).1 ["x"] rfl
  obtain ⟨-, log', hfails⟩ :=
    (hagain Source.supply (.script ⟨[.error (.exhausted 3), .ok "x"], 0⟩)).2.1 [] (.exhausted 3) []
      rfl
  rw [withValues_nil] at hfails
  exact ⟨report, left, source', log, hshrink, hnames, hone.1, log', hfails⟩

/-- When both exports of a module get their own names, both are left, but a second pass over a
source that fails at its first answer asks for one string only and changes nothing, though the
source has strings behind the failure. -/
theorem second_pass_ends_at_failure :
    ∃ report left source' log,
      mixed.shrink Source.supply (.script ⟨[.ok "b", .ok "e"], 0⟩) =
        (.ok report, left, source', log) ∧
      report.idle.length = 2 ∧
      left.requests Source.supply (.script ⟨[.error (.exhausted 3), .ok "x", .ok "z"], 0⟩) = 1 ∧
      ∃ log', left.shrink Source.supply (.script ⟨[.error (.exhausted 3), .ok "x", .ok "z"], 0⟩) =
        (.error (.exhausted 3), left, .script ⟨[.ok "x", .ok "z"], 1⟩, log') :=
  ⟨_, _, _, _, rfl, rfl, rfl, _, rfl⟩

end Program

end SelfNamed
