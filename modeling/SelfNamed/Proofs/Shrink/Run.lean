import SelfNamed.Proofs.Collect
import SelfNamed.Proofs.Shrink.Received
import SelfNamed.Shrink
import SelfNamed.Source
import SelfNamed.Tree.Build

/-!
# What a whole pass does

A pass meets the literals of the self-named exports one after another and takes a string for each,
until its source fails. One statement carries this through all levels of the tree: editing a node
changes its places by the strings taken for its literals and advances the pass by just these. It is
proved for a single declarator, goes from items to lists by one induction, and through every level
around them. Main statement: a source that answers as often as there are self-named exports gives
its strings to them in source order, and nothing else of the module changes.
-/

namespace SelfNamed

variable {σ : Type}

/-- An entry of a report records a change of a literal to a value: it has the old value as the name,
the new one, and of the two ends of the literal those that the literal itself gives as 64-bit
integers. -/
structure Replacement.Records (entry : Replacement) (literal : StringLiteral) (value : String) :
    Prop where
  /-- The name is the value that the literal had. -/
  name : entry.name = literal.value
  /-- The value is the one that it got. -/
  value : entry.value = value
  /-- Its first byte. -/
  first (n : UInt64) : entry.first = some n ↔ literal.rest.get? "start" = some (.num (.natural n))
  /-- The byte after it. -/
  last (n : UInt64) : entry.last = some n ↔ literal.rest.get? "end" = some (.num (.natural n))

namespace Pass

/-- What a pass reports of a change records it. -/
theorem records_replacement (literal : StringLiteral) (value : String) :
    (replacement literal value).Records literal value :=
  ⟨rfl, rfl, fun _ => offset?_eq_some_iff, fun _ => offset?_eq_some_iff⟩

/-- How a walk goes on once a source has failed or not. -/
def verdict : Option Failure → Verdict
  | none => .proceed
  | some _ => .stop

variable (supply : Supply σ)

/-- The pass after it has come to some literals. The scope says, from whether the source failed,
whether the walk is still below an export then. -/
def advance (scope : Bool → Bool) (literals : List StringLiteral) (log : List Event) (p : Pass σ) :
    Pass σ :=
  let taken := supply.collect literals.length p.source
  { source := taken.source
    report := ⟨p.report.replacements ++
      (literals.zip taken.values).map fun entry => replacement entry.1 entry.2⟩
    failure := taken.failure.or p.failure
    inExport := scope taken.failure.isSome
    log }

/-- Editing nodes changes their places by the strings taken for their literals, advances the pass by
these literals and stops exactly when the source fails. -/
def Advances (scope : Bool → Bool) {α π : Type} (edit : α → Pass σ → Verdict × α × Pass σ)
    (literals : α → List StringLiteral) (places : α → List π) (change : π → String → α → α) :
    Prop :=
  ∀ node p, p.inExport = scope false → ∃ log, edit node p =
    (verdict (supply.collect (literals node).length p.source).failure,
      changeAll change (places node) (supply.collect (literals node).length p.source).values node,
      p.advance supply scope (literals node) log)

variable {supply} {scope : Bool → Bool}

/-- Without literals a pass in its scope only logs. -/
theorem advance_nil {p : Pass σ} (h : p.inExport = scope false) (log : List Event) :
    p.advance supply scope [] log = { p with log } := by
  obtain ⟨source, ⟨replacements⟩, failure, inExport, told⟩ := p
  simp only [advance, List.length_nil, Supply.collect, List.zip_nil_left, List.map_nil,
    List.append_nil, Option.none_or, Option.isSome_none]
  rw [← h]

/-- Two advances are one when the source does not fail in the first. -/
theorem advance_advance {first second : List StringLiteral} {log log' : List Event} {p : Pass σ}
    (h : (supply.collect first.length p.source).failure = none) :
    (p.advance supply scope first log).advance supply scope second log' =
      p.advance supply scope (first ++ second) log' := by
  have hlength := supply.length_values_of_none h
  simp only [advance, List.length_append, supply.collect_add_of_none second.length h]
  rw [List.zip_append hlength.symm, List.map_append, List.append_assoc, h, Option.none_or]

/-- A source that fails at the first literals is not asked for any others. -/
theorem advance_append_of_some {first : List StringLiteral} {failure : Failure} {p : Pass σ}
    (second : List StringLiteral) (log : List Event)
    (h : (supply.collect first.length p.source).failure = some failure) :
    p.advance supply scope (first ++ second) log = p.advance supply scope first log := by
  have hdrop : (supply.collect first.length p.source).values.drop first.length = [] :=
    List.drop_eq_nil_of_le (supply.length_values_le first.length p.source)
  simp only [advance, List.length_append, supply.collect_add_of_some second.length h]
  rw [zip_append_drop, hdrop, List.zip_nil_right, List.append_nil]

/-- What holds of the items holds of the list. The induction threads the pass through the items; a
failure in the first leaves the others without strings, and so as they are. -/
theorem Advances.editEach {α π : Type} {edit : α → Pass σ → Verdict × α × Pass σ}
    {literals : α → List StringLiteral} {places : α → List π} {change : π → String → α → α}
    (h : Advances supply scope edit literals places change)
    (hlength : ∀ node, (places node).length = (literals node).length) :
    Advances supply scope (editEach edit) (List.flatMap literals) (placesIn places)
      (changeIn change) := by
  intro items
  induction items with
  | nil =>
    intro p hp
    exact ⟨p.log, by rw [List.flatMap_nil, advance_nil hp]; rfl⟩
  | cons item items ih =>
    intro p hp
    obtain ⟨log, hitem⟩ := h item p hp
    rw [List.flatMap_cons, SelfNamed.editEach, hitem]
    cases hfailure : (supply.collect (literals item).length p.source).failure with
    | some failure =>
      have hvalues := supply.length_values_le (literals item).length p.source
      refine ⟨log, ?_⟩
      rw [List.length_append, supply.collect_add_of_some _ hfailure, changeAll_cons, hlength,
        List.drop_eq_nil_of_le hvalues, changeAll_no_values, hfailure,
        advance_append_of_some _ _ hfailure]
      rfl
    | none =>
      have hvalues := supply.length_values_of_none hfailure
      have hscope : (p.advance supply scope (literals item) log).inExport = scope false := by
        simp [advance, hfailure]
      obtain ⟨log', hitems⟩ := ih (p.advance supply scope (literals item) log) hscope
      have hsource : (p.advance supply scope (literals item) log).source =
        (supply.collect (literals item).length p.source).source := rfl
      rw [hsource] at hitems
      refine ⟨log', ?_⟩
      rw [List.length_append, supply.collect_add_of_none _ hfailure, changeAll_cons, hlength]
      dsimp only
      rw [List.drop_left' hvalues, changeAll_values_append (by rw [hlength, hvalues])]
      simp only [verdict, hitems, advance_advance hfailure]

/-- What holds of a part holds of the part inside something around it. -/
theorem Advances.within {α γ π : Type} {edit : α → Pass σ → Verdict × α × Pass σ}
    {literals : α → List StringLiteral} {places : α → List π} {change : π → String → α → α}
    (h : Advances supply scope edit literals places change) (around : α → γ)
    (changeAround : π → String → γ → γ)
    (hchange : ∀ place value part, changeAround place value (around part) =
      around (change place value part))
    (part : α) {p : Pass σ} (hp : p.inExport = scope false) :
    ∃ log, Editor.within around (edit part p) =
      (verdict (supply.collect (literals part).length p.source).failure,
        changeAll changeAround (places part)
          (supply.collect (literals part).length p.source).values (around part),
        p.advance supply scope (literals part) log) := by
  obtain ⟨log, hpart⟩ := h part p hp
  refine ⟨log, ?_⟩
  rw [Editor.within, hpart, changeAll_wrap around hchange]

/-- A look at a node that changes nothing adds nothing to what happens below the node. -/
theorem around_of_plain {k : NodeKind} {children : k.Node → Pass σ → Verdict × k.Node × Pass σ}
    {node node' : k.Node} {p p' : Pass σ} {failure : Option Failure}
    (hvisit : visit supply k node p = (.proceed, node, p)) (hleave : leave k node' p' = (node', p'))
    (h : children node p = (verdict failure, node', p')) :
    (editor supply).around k children node p = (verdict failure, node', p') := by
  have hlook : (editor supply).visit k node p = (.proceed, node, p) := hvisit
  have hlast : (editor supply).leave k node' p' = (node', p') := hleave
  rw [Editor.around, hlook]
  dsimp only
  rw [h]
  cases failure with
  | none => simp only [verdict, hlast]
  | some failure => rfl

/-- Below an export a declarator takes one string if it is self-named, and none otherwise. -/
theorem editDeclarator_advances :
    Advances supply (fun _ => true) (editor supply).editDeclarator Declarator.literals
      Declarator.ownPlaces (fun _ => Declarator.withValue) := by
  intro d p hp
  have hvisit : (editor supply).visit .declarator d p = shrinkDeclarator supply d p := by
    change (if p.inExport then _ else _) = _
    rw [if_pos hp]
  rw [Editor.editDeclarator, Editor.around, hvisit, shrinkDeclarator]
  cases hself : d.isSelfNamed with
  | false =>
    rw [d.literals_of_not_isSelfNamed hself]
    refine ⟨p.log ++ [.declaratorKept (d.name?.getD "<pattern>") (initKind d)], ?_⟩
    rw [advance_nil (by exact hp)]
    simp [Declarator.ownPlaces, hself, changeAll, Supply.collect, verdict, tell, editor, leave]
  | true =>
    obtain ⟨literal, hinit, -⟩ := Declarator.isSelfNamed_iff.mp hself
    have hchange (values : List String) (value : String) :
        changeAll (fun _ : Unit => Declarator.withValue) d.ownPlaces (value :: values) d =
          { d with init := some (.string (literal.setValue value)) } := by
      simp [changeAll, Declarator.ownPlaces, hself, Declarator.withValue, hinit,
        Expression.withValue]
    rw [d.literals_of_isSelfNamed hself hinit, hinit]
    cases hnext : supply.next p.source with
    | mk answer source =>
      cases answer with
      | ok value =>
        have htaken := supply.collect_succ_of_ok 0 hnext
        refine ⟨p.log ++ supply.trace p.source ++ [.literalReplaced literal.value value], ?_⟩
        simp [hnext, htaken, hchange, Supply.collect, verdict, advance, record, tell, editor, leave,
          hp]
      | error failure =>
        have htaken := supply.collect_succ_of_error 0 hnext
        refine ⟨p.log ++ supply.trace p.source, ?_⟩
        simp [hnext, htaken, changeAll_no_values, verdict, advance, hp]

/-- Below an export a list of declarators takes the strings for the self-named ones. -/
theorem editDeclarators_advances :
    Advances supply (fun _ => true) (editEach (editor supply).editDeclarator)
      (List.flatMap Declarator.literals) (List.findIdxs Declarator.isSelfNamed ·)
      (fun i value ds => ds.modify i (Declarator.withValue value)) := by
  intro ds p hp
  obtain ⟨log, hitems⟩ := editDeclarator_advances.editEach Declarator.length_ownPlaces ds p hp
  rw [placesIn_ownPlaces, changeAll_map] at hitems
  exact ⟨log, hitems⟩

/-- Below an export a declaration of variables takes the strings for its self-named declarators. -/
theorem editVariables_advances :
    Advances supply (fun _ => true) (editor supply).editVariables
      (fun node => node.declarators.flatMap Declarator.literals)
      (fun node => node.declarators.findIdxs Declarator.isSelfNamed)
      VariableDeclaration.withValueAt := by
  intro node p hp
  obtain ⟨log, hnode⟩ := editDeclarators_advances.within
    (fun declarators => ({ node with declarators } : VariableDeclaration))
    VariableDeclaration.withValueAt (fun _ _ _ => rfl) node.declarators hp
  exact ⟨log, around_of_plain rfl rfl hnode⟩

/-- What an export of variables declares is edited as these variables. -/
theorem editDeclaration_bindings (node : VariableDeclaration) {p : Pass σ}
    (hp : p.inExport = true) :
    (editor supply).editDeclaration (.bindings node) p =
      Editor.within Declaration.bindings ((editor supply).editVariables node p) := by
  obtain ⟨log, hnode⟩ := @editVariables_advances σ supply node p hp
  rw [hnode]
  refine around_of_plain rfl rfl ?_
  change Editor.within Declaration.bindings ((editor supply).editVariables node p) = _
  rw [hnode]
  rfl

/-- An export that declares no variables has no literals, and a pass leaves it as it is. -/
theorem editExport_of_skip {node : NamedExport} {p : Pass σ} (hp : p.inExport = false)
    (hnone : node.declarators = []) {e : Event}
    (hvisit : visit supply .namedExport node p = (.skip, node, p.tell e)) :
    ∃ log, (editor supply).editExport node p =
      (verdict (supply.collect (node.declarators.flatMap Declarator.literals).length
          p.source).failure,
        changeAll NamedExport.withValueAt (node.declarators.findIdxs Declarator.isSelfNamed)
          (supply.collect (node.declarators.flatMap Declarator.literals).length p.source).values
          node,
        p.advance supply id (node.declarators.flatMap Declarator.literals) log) := by
  refine ⟨(p.tell e).log, ?_⟩
  have hlook : (editor supply).visit .namedExport node p = (.skip, node, p.tell e) := hvisit
  rw [hnone, Editor.editExport, Editor.around, hlook, List.flatMap_nil, advance_nil hp]
  simp [Supply.collect, verdict, changeAll, tell, editor, leave, hp]

/-- An export takes the strings for the self-named declarators that it declares. A failure leaves
the walk below the export, where it stops. -/
theorem editExport_advances :
    Advances supply id (editor supply).editExport
      (fun node => node.declarators.flatMap Declarator.literals)
      (fun node => node.declarators.findIdxs Declarator.isSelfNamed)
      NamedExport.withValueAt := by
  intro node p hp
  obtain ⟨declaration, rest⟩ := node
  match declaration with
  | some (.bindings bindings) =>
    obtain ⟨log, hbindings⟩ := editVariables_advances.within
      (fun bindings => (⟨some (.bindings bindings), rest⟩ : NamedExport)) NamedExport.withValueAt
      (fun _ _ _ => rfl) bindings (p := { p with inExport := true }) rfl
    refine ⟨log, ?_⟩
    have hvisit : (editor supply).visit .namedExport ⟨some (.bindings bindings), rest⟩ p =
      (.proceed, ⟨some (.bindings bindings), rest⟩, { p with inExport := true }) := rfl
    rw [Editor.editExport, Editor.around, hvisit]
    dsimp only
    rw [editDeclaration_bindings bindings rfl]
    have hchildren : Editor.within (fun declaration => (⟨some declaration, rest⟩ : NamedExport))
        (Editor.within Declaration.bindings
          ((editor supply).editVariables bindings { p with inExport := true })) = _ := hbindings
    have hdeclarators : NamedExport.declarators ⟨some (.bindings bindings), rest⟩ =
      bindings.declarators := rfl
    rw [hchildren, hdeclarators]
    dsimp only
    cases hfailure : (supply.collect (bindings.declarators.flatMap Declarator.literals).length
      p.source).failure with
    | none => simp only [verdict, advance, hfailure, editor, leave, Option.isSome_none, id]
    | some failure => simp only [verdict, advance, hfailure, Option.isSome_some, id]
  | some (.function node) => exact editExport_of_skip hp rfl rfl
  | some (.classes node) => exact editExport_of_skip hp rfl rfl
  | some (.verbatim node) => exact editExport_of_skip hp rfl rfl
  | none => exact editExport_of_skip hp rfl rfl

/-- A statement takes the strings for the self-named declarators that it exports. -/
theorem editStatement_advances :
    Advances supply id (editor supply).editStatement
      (fun s => s.exported.flatMap Declarator.literals)
      (fun s => s.exported.findIdxs Declarator.isSelfNamed) Statement.withValueAt := by
  intro s p hp
  have hskip (hvisit : visit supply .statement s p = (.skip, s, p)) (hnone : s.exported = []) :
      ∃ log, (editor supply).editStatement s p =
        (verdict (supply.collect (s.exported.flatMap Declarator.literals).length
            p.source).failure,
          changeAll Statement.withValueAt (s.exported.findIdxs Declarator.isSelfNamed)
            (supply.collect (s.exported.flatMap Declarator.literals).length p.source).values s,
          p.advance supply id (s.exported.flatMap Declarator.literals) log) := by
    refine ⟨p.log, ?_⟩
    have hlook : (editor supply).visit .statement s p = (.skip, s, p) := hvisit
    rw [hnone, Editor.editStatement, Editor.around, hlook, List.flatMap_nil, advance_nil hp]
    rfl
  cases s with
  | exporting node =>
    obtain ⟨log, hnode⟩ := editExport_advances.within Statement.exporting Statement.withValueAt
      (fun _ _ _ => rfl) node hp
    exact ⟨log, around_of_plain rfl rfl hnode⟩
  | bindings node => exact hskip rfl rfl
  | function node => exact hskip rfl rfl
  | classes node => exact hskip rfl rfl
  | verbatim value => exact hskip rfl rfl

/-- A module takes the strings for its self-named exports. -/
theorem editProgram_advances :
    Advances supply id (editor supply).editProgram
      (fun program => program.exported.flatMap Declarator.literals) Program.places
      Program.withValueAt := by
  intro program p hp
  have hlength (s : Statement) : (s.exported.findIdxs Declarator.isSelfNamed).length =
    (s.exported.flatMap Declarator.literals).length := length_findIdxs_isSelfNamed s.exported
  obtain ⟨log, hbody⟩ := (editStatement_advances.editEach hlength).within
    (fun body => ({ program with body } : Program)) Program.withValueAt (fun _ _ _ => rfl)
    program.body hp
  have hexported : program.body.flatMap (fun s => s.exported.flatMap Declarator.literals) =
    program.exported.flatMap Declarator.literals := List.flatMap_assoc.symm
  rw [hexported] at hbody
  exact ⟨log, around_of_plain rfl rfl hbody⟩

end Pass

namespace Program

variable (supply : Supply σ)

/-- A module has as many literals to change as self-named exports. -/
theorem length_selfNamedExports (program : Program) :
    (program.exported.flatMap Declarator.literals).length = program.selfNamedExports.length := by
  have h := congrArg List.length (filter_isSelfNamed_map_init program.exported)
  rw [List.length_map, List.length_map] at h
  exact h.symm

/-- What a pass makes of a module is told by what is taken from the source for its self-named
exports: the values stand in the first places, and the outcome is the failure of the source or the
report of all changes. -/
theorem shrink_eq (program : Program) (source : σ) :
    let taken := supply.collect program.selfNamedExports.length source
    ∃ log, program.shrink supply source =
      (taken.outcome ⟨((program.exported.flatMap Declarator.literals).zip taken.values).map
          fun entry => Pass.replacement entry.1 entry.2⟩,
        program.withValues taken.values, taken.source, log) := by
  intro taken
  obtain ⟨log, hedit⟩ := @Pass.editProgram_advances σ supply program (.start source) rfl
  have htaken : supply.collect (program.exported.flatMap Declarator.literals).length source =
    taken := by rw [length_selfNamedExports]
  rw [shrink, Pass.run, hedit]
  have hsource : (Pass.start source).source = source := rfl
  simp only [Pass.finish, Pass.advance, hsource, htaken, Supply.Collected.outcome]
  cases hfailure : taken.failure with
  | none => exact ⟨_, rfl⟩
  | some failure => exact ⟨_, rfl⟩

/-- How often a pass over a module asks its source. -/
def requests (supply : Supply σ) (program : Program) (source : σ) : ℕ :=
  (program.shrink supply.counted (source, 0)).2.2.1.2

/-- A pass asks its source as often as it is asked when strings are taken for the self-named exports
until it fails. -/
theorem requests_eq (program : Program) (source : σ) :
    program.requests supply source =
      (supply.counted.collect program.selfNamedExports.length (source, 0)).source.2 := by
  obtain ⟨log, hshrink⟩ := shrink_eq supply.counted program (source, 0)
  rw [requests, hshrink]

section

variable {supply} {program : Program} {source : σ} {values : List String}

/-- A source with a string for every self-named export is asked once for each. -/
theorem requests_of_answers
    (h : supply.answers program.selfNamedExports.length source = values.map .ok) :
    program.requests supply source = program.selfNamedExports.length := by
  have hanswers := (supply.answers_counted program.selfNamedExports.length (source, 0)).trans h
  rw [requests_eq, supply.counted.collect_of_answers hanswers, supply.after_counted, Nat.zero_add]

/-- A source that fails before is asked once for each string and once more. -/
theorem requests_of_failing_answers {failure : Failure}
    {later : List (Except Failure String)}
    (h : supply.answers program.selfNamedExports.length source =
      values.map .ok ++ .error failure :: later) :
    program.requests supply source = values.length + 1 := by
  have hanswers := (supply.answers_counted program.selfNamedExports.length (source, 0)).trans h
  rw [requests_eq, supply.counted.collect_of_answers_failure hanswers, supply.after_counted,
    Nat.zero_add]

end

/-- A pass over a source that answers as often as a module has self-named exports asks it just so
often and succeeds. The exports have received the strings in source order, all else of the module is
as it was, and the report has an entry for each of them, in the same order, that records the change
of its literal from the name that is bound to the string. -/
theorem shrink_of_answers (program : Program) (source : σ) (values : List String)
    (h : supply.answers program.selfNamedExports.length source = values.map .ok) :
    ∃ report left log,
      program.shrink supply source =
        (.ok report, left, supply.after program.selfNamedExports.length source, log) ∧
      program.requests supply source = program.selfNamedExports.length ∧
      program.Received values left ∧
      values.length = program.selfNamedExports.length ∧
      report.replacements.length = program.selfNamedExports.length ∧
      ∀ (k : ℕ) (d : Declarator) (value : String),
        program.selfNamedExports[k]? = some d → values[k]? = some value →
        ∃ literal entry, d.init = some (.string literal) ∧ d.name? = some literal.value ∧
          report.replacements[k]? = some entry ∧ entry.Records literal value := by
  obtain ⟨log, hshrink⟩ := shrink_eq supply program source
  rw [supply.collect_of_answers h] at hshrink
  have hvalues : values.length = program.selfNamedExports.length := by
    have hlength := congrArg List.length h
    rw [supply.length_answers, List.length_map] at hlength
    exact hlength.symm
  refine ⟨_, _, log, hshrink, requests_of_answers h, program.received_withValues values, hvalues,
    ?_, ?_⟩
  · rw [List.length_map, List.length_zip, length_selfNamedExports, hvalues, Nat.min_self]
  · intro k d value hd hvalue
    obtain ⟨literal, hliteral, hinit, hname⟩ := literal_of_selfNamedExports hd
    have hzip : ((program.exported.flatMap Declarator.literals).zip values)[k]? =
        some (literal, value) := List.getElem?_zip_eq_some.mpr ⟨hliteral, hvalue⟩
    refine ⟨literal, Pass.replacement literal value, hinit, hname, ?_,
      Pass.records_replacement literal value⟩
    rw [List.getElem?_map, hzip]
    rfl

/-- A module with self-named constants in an export, outside of one, and between others, where the
last of them is initialised by the given literal. -/
def mixedWith (last : StringLiteral) : Program :=
  .build
    [.bindings (.build .constant [.build "a" (some (.text "a"))]),
      .exporting (.build (.bindings (.build .constant
        [.build "b" (some (.text "b")), .build "c" (some (.text "d")),
          .build "e" (some (.string last))]))),
      .exporting (.build (.function (.build "f")))]

/-- Such a module with a literal in single quotes. -/
def mixed : Program := mixedWith (.quoted "e" .single)

/-- A literal in double quotes that says where it stands. -/
def spanned : StringLiteral :=
  ⟨"e", some ⟨"\"e\"", "e", []⟩, [("end", .num (.natural 27)), ("start", .num (.natural 24))]⟩

/-- Two strings before a failure are enough for the two self-named exports of a mixed module. The
second is in double quotes afterwards as before, and where it stood is reported. -/
theorem shrink_of_answers_mixed :
    let program := mixedWith spanned
    let source := Source.script ⟨[.ok "x", .ok "y", .error (.exhausted 2)], 0⟩
    Source.supply.answers program.selfNamedExports.length source = ["x", "y"].map .ok ∧
      ∃ report left log literal extra,
        program.shrink Source.supply source =
          (.ok report, left, .script ⟨[.error (.exhausted 2)], 2⟩, log) ∧
        left.declaratorAt? (1, 2) = some (.build "e" (some (.string literal))) ∧
        literal.value = "y" ∧ literal.rest = spanned.rest ∧ literal.extra = some extra ∧
        extra.raw = "\"y\"" ∧ extra.rawValue = "y" ∧
        report.replacements[1]? = some ⟨"e", "y", some 24, some 27⟩ := by
  intro program source
  have h : Source.supply.answers program.selfNamedExports.length source = ["x", "y"].map .ok := rfl
  have hplaces : program.places = [(1, 0), (1, 2)] := rfl
  have hsecond : program.selfNamedExports[1]? = some (.build "e" (some (.string spanned))) := rfl
  obtain ⟨report, left, log, hrun, -, hreceived, -, -, hreport⟩ :=
    shrink_of_answers Source.supply program source _ h
  obtain ⟨place, _, literal, hplace, -, hinit, hcoherent, hafter⟩ := hreceived.first hsecond rfl
  rw [hplaces] at hplace
  cases hplace
  cases hinit
  obtain ⟨extra, hextra, hvalue, hraw, -⟩ := hcoherent.recorded _ rfl
  rw [hcoherent.value] at hvalue hraw
  obtain ⟨_, ⟨name, value, first, last⟩, hinit, -, hentry, hrecords⟩ := hreport 1 _ "y" hsecond rfl
  cases hinit
  obtain rfl : first = some 24 := (hrecords.first 24).mpr rfl
  obtain rfl : last = some 27 := (hrecords.last 27).mpr rfl
  obtain rfl : name = "e" := hrecords.name
  obtain rfl : value = "y" := hrecords.value
  exact ⟨h, report, left, log, literal, extra, hrun, hafter, hcoherent.value, hcoherent.rest, hextra,
    hraw, hvalue, hentry⟩

end Program

end SelfNamed
