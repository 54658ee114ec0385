import SelfNamed.Proofs.Shrink.Run
import SelfNamed.Proofs.Walk.Looks

/-!
# What a pass takes for exported

A pass takes a declarator for exported while its flag is up. An export of variables puts the flag up
and takes it down when it is left, but an export in which the source fails is not left: behind a
walk that was stopped the flag stays up until a later walk leaves an export. A walk that begins
below an export begins under the flag of the walks before it. Main statement: with the flag down it
changes nothing at all, and with the flag left up it does what it would do below an export.
-/

namespace SelfNamed

variable {σ : Type}

/-- Whether a statement is an export. -/
def Statement.isExport : Statement → Bool
  | .exporting _ => true
  | _ => false

namespace NodeKind

/-- Whether a walk over a node comes to an export. -/
def hasExport : (k : NodeKind) → k.Node → Bool
  | .program, node => node.body.any Statement.isExport
  | .statement, node => node.isExport
  | .namedExport, _ => true
  | .declaration, _ => false
  | .bindings, _ => false
  | .declarator, _ => false

/-- Whether nodes of a kind are exported by what is around them, and so are not on their own. -/
def isLoose : NodeKind → Bool
  | .declaration => true
  | .bindings => true
  | .declarator => true
  | _ => false

/-- The declarators of a node that is no export and has none around it. -/
def looseDeclarators : (k : NodeKind) → k.Node → List Declarator
  | .declaration, .bindings node => node.declarators
  | .bindings, node => node.declarators
  | .declarator, d => [d]
  | _, _ => []

/-- Such a node with a value for the string literal of one declarator. -/
def withValueAt : (k : NodeKind) → ℕ → String → k.Node → k.Node
  | .declaration, i, value, .bindings node => .bindings (node.withValueAt i value)
  | .bindings, i, value, node => node.withValueAt i value
  | .declarator, _, value, d => d.withValue value
  | _, _, _, node => node

end NodeKind

namespace Pass

/-- The flag after a walk: one that is stopped leaves it up, an export that is left takes it down,
and nothing else moves it. -/
def flagAfter (verdict : Verdict) (hasExport flag : Bool) : Bool :=
  match verdict with
  | .stop => true
  | _ => flag && !hasExport

/-- A walk moves the flag by how it ends and by whether it comes to an export. -/
def MovesFlag {α : Type} (hasExport flag : Bool) (walked : Verdict × α × Pass σ) : Prop :=
  walked.2.2.inExport = flagAfter walked.1 hasExport flag

section Flag

variable {supply : Supply σ} {α : Type} {k : NodeKind} {node : k.Node} {p : Pass σ}
  {children : k.Node → Pass σ → Verdict × k.Node × Pass σ} {hasExport : Bool}

/-- A walk without an export that ends under the flag under which it began. -/
theorem movesFlag_of_proceed (left : α) {q : Pass σ} (h : q.inExport = p.inExport) :
    MovesFlag false p.inExport (.proceed, left, q) := by
  simp [MovesFlag, flagAfter, h]

/-- Walks over the items of a list move it one after another. -/
theorem movesFlag_each {hasExport : α → Bool} {edit : α → Pass σ → Verdict × α × Pass σ}
    (h : ∀ item p, MovesFlag (hasExport item) p.inExport (edit item p)) (items : List α)
    (p : Pass σ) : MovesFlag (items.any hasExport) p.inExport (editEach edit items p) := by
  induction items generalizing p with
  | nil => exact movesFlag_of_proceed [] rfl
  | cons item items ih =>
    have hitem := h item p
    rw [editEach]
    generalize edit item p = walked at hitem
    obtain ⟨verdict, left, q⟩ := walked
    cases verdict with
    | stop => exact hitem
    | _ =>
      have hothers := ih q
      rw [MovesFlag] at hitem hothers ⊢
      dsimp only at hitem ⊢
      rw [hothers, hitem, List.any_cons]
      cases (editEach edit items q).1 <;> simp [flagAfter, Bool.and_assoc]

/-- A walk around children moves it as they do when the looks at the node do not. -/
theorem movesFlag_of_plain (hvisit : visit supply k node p = (.proceed, node, p))
    (hleave : ∀ left (q : Pass σ), leave k left q = (left, q))
    (h : MovesFlag hasExport p.inExport (children node p)) :
    MovesFlag hasExport p.inExport ((editor supply).around k children node p) := by
  have hlook : (editor supply).visit k node p = (.proceed, node, p) := hvisit
  have hlast (left : k.Node) (q : Pass σ) : (editor supply).leave k left q = (left, q) :=
    hleave left q
  rw [Editor.around, hlook]
  dsimp only
  generalize children node p = walked at h
  obtain ⟨verdict, left, q⟩ := walked
  cases verdict with
  | stop => exact h
  | _ =>
    simp only [hlast]
    exact h

/-- A walk past the children of a node moves it as the last look at the node does. -/
theorem movesFlag_of_skip {q : Pass σ} (hvisit : visit supply k node p = (.skip, node, q))
    (hleave : (leave k node q).2.inExport = (p.inExport && !hasExport)) :
    MovesFlag hasExport p.inExport ((editor supply).around k children node p) := by
  have hlook : (editor supply).visit k node p = (.skip, node, q) := hvisit
  rw [Editor.around, hlook]
  exact hleave

/-- A pass that takes up a declarator leaves the flag. -/
theorem inExport_shrinkDeclarator (d : Declarator) (p : Pass σ) :
    (shrinkDeclarator supply d p).2.2.inExport = p.inExport := by
  unfold shrinkDeclarator
  split
  · dsimp only
    split <;> rfl
  · rfl

/-- A walk over a declarator only stops below an export, and there the flag is up. -/
theorem editDeclarator_movesFlag (d : Declarator) (p : Pass σ) :
    MovesFlag false p.inExport ((editor supply).editDeclarator d p) := by
  have hvisit : visit supply .declarator d p =
    if p.inExport then shrinkDeclarator supply d p else (.skip, d, p) := rfl
  cases hflag : p.inExport with
  | false =>
    rw [hflag] at hvisit
    rw [← hflag]
    exact movesFlag_of_skip hvisit (by simp [leave, hflag])
  | true =>
    have hlook : (editor supply).visit .declarator d p = shrinkDeclarator supply d p := by
      rw [hflag] at hvisit
      exact hvisit
    have hlast (left : Declarator) (q : Pass σ) :
      (editor supply).leave .declarator left q = (left, q) := rfl
    have hkept := @inExport_shrinkDeclarator σ supply d p
    rw [hflag] at hkept
    rw [Editor.editDeclarator, Editor.around, hlook]
    generalize shrinkDeclarator supply d p = walked at hkept
    obtain ⟨verdict, left, q⟩ := walked
    cases verdict with
    | stop => exact hkept
    | _ =>
      simp only [hlast]
      exact hkept

/-- A declaration of variables is no export. -/
theorem editVariables_movesFlag (node : VariableDeclaration) (p : Pass σ) :
    MovesFlag false p.inExport ((editor supply).editVariables node p) := by
  have hdeclarators := movesFlag_each (@editDeclarator_movesFlag σ supply) node.declarators p
  have hnone : node.declarators.any (fun _ => false) = false := by simp
  rw [hnone] at hdeclarators
  exact movesFlag_of_plain rfl (fun _ _ => rfl) hdeclarators

/-- What an export declares is no export either. -/
theorem editDeclaration_movesFlag (node : Declaration) (p : Pass σ) :
    MovesFlag false p.inExport ((editor supply).editDeclaration node p) := by
  refine movesFlag_of_plain rfl (fun _ _ => rfl) ?_
  cases node with
  | bindings node => exact editVariables_movesFlag node p
  | function node => exact movesFlag_of_proceed _ rfl
  | classes node => exact movesFlag_of_proceed _ rfl
  | verbatim value => exact movesFlag_of_proceed _ rfl

/-- An export that is left takes the flag down, and one that is not left has put it up. -/
theorem editExport_movesFlag (node : NamedExport) (p : Pass σ) :
    MovesFlag true p.inExport ((editor supply).editExport node p) := by
  have hdown (flag : Bool) : false = (flag && !true) := by simp
  obtain ⟨declaration, rest⟩ := node
  match declaration with
  | some (.bindings bindings) =>
    have hlook : (editor supply).visit .namedExport ⟨some (.bindings bindings), rest⟩ p =
      (.proceed, ⟨some (.bindings bindings), rest⟩, { p with inExport := true }) := rfl
    have hdeclared := @editDeclaration_movesFlag σ supply (.bindings bindings)
      { p with inExport := true }
    rw [Editor.editExport, Editor.around, hlook]
    dsimp only [Editor.within]
    generalize (editor supply).editDeclaration (.bindings bindings) { p with inExport := true } =
      walked at hdeclared
    obtain ⟨verdict, left, q⟩ := walked
    cases verdict with
    | stop => exact hdeclared
    | _ => exact hdown p.inExport
  | some (.function node) => exact movesFlag_of_skip rfl (hdown p.inExport)
  | some (.classes node) => exact movesFlag_of_skip rfl (hdown p.inExport)
  | some (.verbatim value) => exact movesFlag_of_skip rfl (hdown p.inExport)
  | none => exact movesFlag_of_skip rfl (hdown p.inExport)

/-- Of the statements, exports move the flag. -/
theorem editStatement_movesFlag (s : Statement) (p : Pass σ) :
    MovesFlag s.isExport p.inExport ((editor supply).editStatement s p) := by
  have hkept : p.inExport = (p.inExport && !false) := by simp
  cases s with
  | exporting node =>
    exact movesFlag_of_plain rfl (fun _ _ => rfl) (@editExport_movesFlag σ supply node p)
  | bindings node => exact movesFlag_of_skip rfl hkept
  | function node => exact movesFlag_of_skip rfl hkept
  | classes node => exact movesFlag_of_skip rfl hkept
  | verbatim value => exact movesFlag_of_skip rfl hkept

/-- A walk over any node moves the flag by how it ends and by the exports that it comes to. -/
theorem edit_movesFlag (k : NodeKind) (node : k.Node) (p : Pass σ) :
    MovesFlag (k.hasExport node) p.inExport ((editor supply).edit k node p) := by
  cases k with
  | program =>
    exact movesFlag_of_plain rfl (fun _ _ => rfl)
      (movesFlag_each (@editStatement_movesFlag σ supply) node.body p)
  | statement => exact editStatement_movesFlag node p
  | namedExport => exact editExport_movesFlag node p
  | declaration => exact editDeclaration_movesFlag node p
  | bindings => exact editVariables_movesFlag node p
  | declarator => exact editDeclarator_movesFlag node p

end Flag

section Loose

variable {supply : Supply σ} {p : Pass σ}

/-- With the flag down a declarator is passed over. -/
theorem editDeclarator_of_down (hp : p.inExport = false) (d : Declarator) :
    (editor supply).editDeclarator d p = (.proceed, d, p) := by
  have hlook : (editor supply).visit .declarator d p = (.skip, d, p) := by
    change (if p.inExport then _ else _) = _
    rw [hp]
    rfl
  rw [Editor.editDeclarator, Editor.around, hlook]
  rfl

/-- With the flag down a list of declarators is passed over without a change. -/
theorem editDeclarators_of_down (hp : p.inExport = false) (ds : List Declarator) :
    editEach (editor supply).editDeclarator ds p = (.proceed, ds, p) := by
  induction ds with
  | nil => rfl
  | cons d ds ih =>
    rw [editEach, editDeclarator_of_down hp d]
    dsimp only
    rw [ih]

/-- With the flag down a declaration of variables is passed over without a change. -/
theorem editVariables_of_down (hp : p.inExport = false) (node : VariableDeclaration) :
    (editor supply).editVariables node p = (.proceed, node, p) := by
  have hlook : (editor supply).visit .bindings node p = (.proceed, node, p) := rfl
  rw [Editor.editVariables, Editor.around, hlook]
  dsimp only
  rw [editDeclarators_of_down hp]
  rfl

/-- With the flag down a declaration as an export has it is passed over without a change. -/
theorem editDeclaration_of_down (hp : p.inExport = false) (node : Declaration) :
    (editor supply).editDeclaration node p = (.proceed, node, p) := by
  have hlook : (editor supply).visit .declaration node p = (.proceed, node, p) := rfl
  rw [Editor.editDeclaration, Editor.around, hlook]
  cases node with
  | bindings node =>
    dsimp only
    rw [editVariables_of_down hp]
    rfl
  | function node => rfl
  | classes node => rfl
  | verbatim value => rfl

/-- With the flag down a walk over a loose node changes neither the node nor the pass. -/
theorem edit_of_down {k : NodeKind} (hk : k.isLoose = true) (hp : p.inExport = false)
    (node : k.Node) : (editor supply).edit k node p = (.proceed, node, p) := by
  cases k with
  | declaration => exact editDeclaration_of_down hp node
  | bindings => exact editVariables_of_down hp node
  | declarator => exact editDeclarator_of_down hp node
  | _ => cases hk

/-- A walk without literals that changes nothing takes no strings. -/
theorem exists_advance_of_nothing {α π : Type} {scope : Bool → Bool} {places : List π}
    {change : π → String → α → α} {node : α} {literals : List StringLiteral}
    {edited : Verdict × α × Pass σ} (hp : p.inExport = scope false) (hnone : literals = [])
    (hedited : edited = (.proceed, node, p)) :
    ∃ log, edited = (verdict (supply.collect literals.length p.source).failure,
      changeAll change places (supply.collect literals.length p.source).values node,
      p.advance supply scope literals log) := by
  refine ⟨p.log, ?_⟩
  rw [hnone, advance_nil hp, hedited]
  simp [Supply.collect, verdict, changeAll_no_values]

/-- With the flag up what an export would declare takes the strings for its self-named declarators. -/
theorem editDeclaration_advances :
    Advances supply (fun _ => true) (editor supply).editDeclaration
      (fun node => (NodeKind.looseDeclarators .declaration node).flatMap Declarator.literals)
      (fun node => (NodeKind.looseDeclarators .declaration node).findIdxs Declarator.isSelfNamed)
      (NodeKind.withValueAt .declaration) := by
  intro node p hp
  cases node with
  | bindings node =>
    obtain ⟨log, hnode⟩ := editVariables_advances.within Declaration.bindings
      (NodeKind.withValueAt .declaration) (fun _ _ _ => rfl) node hp
    rw [editDeclaration_bindings node hp]
    exact ⟨log, hnode⟩
  | function node => exact exists_advance_of_nothing hp rfl rfl
  | classes node => exact exists_advance_of_nothing hp rfl rfl
  | verbatim value => exact exists_advance_of_nothing hp rfl rfl

/-- A single declarator is changed at its own place. -/
theorem changeAll_declarator (d : Declarator) (values : List String) :
    changeAll (NodeKind.withValueAt .declarator) ([d].findIdxs Declarator.isSelfNamed) values d =
      changeAll (fun _ => Declarator.withValue) d.ownPlaces values d := by
  rw [List.findIdxs_cons, List.findIdxs_nil, Declarator.ownPlaces]
  cases d.isSelfNamed with
  | false => rfl
  | true => cases values <;> rfl

/-- With the flag up a walk over a loose node takes the strings for its self-named declarators, as
below an export. -/
theorem edit_advances {k : NodeKind} (hk : k.isLoose = true) :
    Advances supply (fun _ => true) ((editor supply).edit k)
      (fun node => (k.looseDeclarators node).flatMap Declarator.literals)
      (fun node => (k.looseDeclarators node).findIdxs Declarator.isSelfNamed) k.withValueAt := by
  cases k with
  | declaration => exact editDeclaration_advances
  | bindings => exact editVariables_advances
  | declarator =>
    intro d p hp
    obtain ⟨log, hd⟩ := @editDeclarator_advances σ supply d p hp
    have hliterals : [d].flatMap Declarator.literals = d.literals := by simp
    refine ⟨log, ?_⟩
    dsimp only [NodeKind.looseDeclarators]
    rw [hliterals, changeAll_declarator]
    exact hd
  | _ => cases hk

end Loose

/-- A walk that was made: the node that it was made over and how it ended. -/
structure Walked where
  /-- The node. -/
  node : AnyNode
  /-- The answer. -/
  verdict : Verdict

/-- The walks that one pass makes over nodes, one after another, and the pass after them. -/
def walkAll (supply : Supply σ) : List AnyNode → Pass σ → List Walked × Pass σ
  | [], p => ([], p)
  | node :: nodes, p =>
    let (verdict, _, q) := (editor supply).edit node.1 node.2 p
    let (walked, r) := walkAll supply nodes q
    (⟨node, verdict⟩ :: walked, r)

/-- Whether a walk leaves the flag as it was: it was not stopped and came to no export. -/
def Walked.Quiet (walked : Walked) : Prop :=
  walked.verdict ≠ .stop ∧ walked.node.1.hasExport walked.node.2 = false

/-- Whether an export stays open behind some walks: one of them was stopped, and none behind it was
stopped or left an export. -/
def LeftOpen (walked : List Walked) : Prop :=
  ∃ before stopped after, walked = before ++ stopped :: after ∧ stopped.verdict = .stop ∧
    ∀ later ∈ after, later.Quiet

/-- Behind one walk and others an export stays open if it does behind the others, or if the walk was
stopped and the others are quiet. -/
theorem leftOpen_cons {first : Walked} {others : List Walked} :
    LeftOpen (first :: others) ↔
      LeftOpen others ∨ first.verdict = .stop ∧ ∀ later ∈ others, later.Quiet := by
  constructor
  · rintro ⟨before, stopped, after, heq, hstop, hquiet⟩
    cases before with
    | nil =>
      cases heq
      exact Or.inr ⟨hstop, hquiet⟩
    | cons other before =>
      cases heq
      exact Or.inl ⟨before, stopped, after, rfl, hstop, hquiet⟩
  · rintro (⟨before, stopped, after, rfl, hstop, hquiet⟩ | ⟨hstop, hquiet⟩)
    · exact ⟨first :: before, stopped, after, rfl, hstop, hquiet⟩
    · exact ⟨[], first, others, rfl, hstop, hquiet⟩

/-- The flag is up after a walk that was stopped, or that found it up and is quiet. -/
theorem flagAfter_eq_true_iff {verdict : Verdict} {hasExport flag : Bool} :
    flagAfter verdict hasExport flag = true ↔
      verdict = .stop ∨ flag = true ∧ verdict ≠ .stop ∧ hasExport = false := by
  cases verdict <;> simp [flagAfter]

/-- The flag is up after some walks when an export stays open behind them, or when it was up before
and they are quiet. The induction takes the first walk away, which hands its flag to the others. -/
theorem inExport_walkAll_iff (supply : Supply σ) (nodes : List AnyNode) (p : Pass σ) :
    (walkAll supply nodes p).2.inExport = true ↔
      LeftOpen (walkAll supply nodes p).1 ∨
        p.inExport = true ∧ ∀ walked ∈ (walkAll supply nodes p).1, walked.Quiet := by
  induction nodes generalizing p with
  | nil =>
    have hnone : ¬ LeftOpen [] := by
      rintro ⟨before, stopped, after, heq, -⟩
      simp at heq
    simp [walkAll, hnone]
  | cons node nodes ih =>
    have hflag := @edit_movesFlag σ supply node.1 node.2 p
    rw [walkAll]
    generalize (editor supply).edit node.1 node.2 p = result at hflag
    obtain ⟨verdict, left, q⟩ := result
    dsimp only at hflag ⊢
    rw [ih q, leftOpen_cons, hflag, flagAfter_eq_true_iff]
    simp only [List.forall_mem_cons, Walked.Quiet]
    tauto

/-- A walk over a node that would be exported by what is around it, made on its own by a pass that
has made other walks. When no export stays open behind these, it changes neither the node nor the
pass: nothing is taken from the source and nothing is reported. When one does, it takes the strings
for the self-named declarators of the node, gives them these and reports them, as below an export. -/
theorem edit_loose_after_walks (supply : Supply σ) (source : σ) (nodes : List AnyNode)
    {k : NodeKind} (hk : k.isLoose = true) (node : k.Node) :
    let walked := (walkAll supply nodes (.start source)).1
    let p := (walkAll supply nodes (.start source)).2
    (¬ LeftOpen walked → (editor supply).edit k node p = (.proceed, node, p)) ∧
    (LeftOpen walked →
      let literals := (k.looseDeclarators node).flatMap Declarator.literals
      let taken := supply.collect literals.length p.source
      ∃ log, (editor supply).edit k node p =
        (verdict taken.failure,
          changeAll k.withValueAt ((k.looseDeclarators node).findIdxs Declarator.isSelfNamed)
            taken.values node,
          p.advance supply (fun _ => true) literals log)) := by
  intro walked p
  have hflag : p.inExport = true ↔ LeftOpen walked := by
    rw [inExport_walkAll_iff]
    simp [start, walked]
  constructor
  · intro hclosed
    have hdown : p.inExport = false := by
      rw [Bool.eq_false_iff]
      intro hup
      exact hclosed (hflag.mp hup)
    exact edit_of_down hk hdown node
  · intro hopen
    exact edit_advances hk node p (hflag.mpr hopen)

/-- An export of one self-named constant. -/
def exportOf (name : String) : AnyNode :=
  ⟨.namedExport, .build (.bindings (.build .constant [.build name (some (.text name))]))⟩

/-- A self-named declarator on its own. -/
def loneDeclarator (name : String) : Declarator := .build name (some (.text name))

/-- A source that fails once and answers from then on. -/
def recovering : Source := .script ⟨[.error (.exhausted 7), .ok "x", .ok "y"], 0⟩

/-- An export in which a source fails stays open, and a declarator on its own gets the next string;
when the export has been walked again to its end, the declarator gets none. -/
theorem edit_loose_after_walks_recovering :
    let first := walkAll Source.supply [exportOf "a"] (.start recovering)
    let second := walkAll Source.supply [exportOf "a", exportOf "a"] (.start recovering)
    NodeKind.isLoose .declarator = true ∧ LeftOpen first.1 ∧ ¬ LeftOpen second.1 ∧
      (∃ p, (editor Source.supply).edit .declarator (loneDeclarator "b") first.2 =
        (.proceed, (loneDeclarator "b").withValue "x", p) ∧
        p.report.replacements = [⟨"b", "x", none, none⟩]) ∧
      (editor Source.supply).edit .declarator (loneDeclarator "b") second.2 =
        (.proceed, loneDeclarator "b", second.2) ∧
      second.2.source = .script ⟨[.ok "y"], 2⟩ := by
  intro first second
  have hopen : LeftOpen first.1 := ⟨[], _, [], rfl, rfl, by simp⟩
  have hclosed : ¬ LeftOpen second.1 := by
    intro h
    have hup := (inExport_walkAll_iff Source.supply _ _).mpr (Or.inl h)
    cases hup
  obtain ⟨log, hchanged⟩ :=
    (edit_loose_after_walks Source.supply recovering [exportOf "a"] (k := .declarator) rfl
      (loneDeclarator "b")).2 hopen
  have hkept := (edit_loose_after_walks Source.supply recovering [exportOf "a", exportOf "a"]
    (k := .declarator) rfl (loneDeclarator "b")).1 hclosed
  exact ⟨rfl, hopen, hclosed, ⟨_, hchanged, rfl⟩, hkept, rfl⟩

/-- Behind a walk that was stopped a declarator on its own is changed, a string is taken for it, and
the change is reported. -/
theorem stopped_export_stays_open :
    let p := (walkAll Source.supply [exportOf "a"] (.start recovering)).2
    let result := (editor Source.supply).edit .declarator (loneDeclarator "b") p
    result.2.1 ≠ loneDeclarator "b" ∧ p.source = .script ⟨[.ok "x", .ok "y"], 1⟩ ∧
      result.2.2.source = .script ⟨[.ok "y"], 2⟩ ∧ p.report.replacements = [] ∧
      result.2.2.report.replacements = [⟨"b", "x", none, none⟩] := by
  intro p result
  refine ⟨?_, rfl, rfl, rfl, rfl⟩
  intro hsame
  have hself : result.2.1.isSelfNamed = (loneDeclarator "b").isSelfNamed := by rw [hsame]
  cases hself

end Pass

end SelfNamed
