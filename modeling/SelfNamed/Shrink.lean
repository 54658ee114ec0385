import SelfNamed.Report
import SelfNamed.Supply
import SelfNamed.Walk.Listing

/-!
# Shrinking self-named exports

The constants of a module that only spell their own names need not be long, only distinct. A pass
walks the module and gives every self-named export the next string of a source, one string for each
in source order. When the source fails the pass stops; what it has changed until then stays changed.
-/

namespace SelfNamed

/-- A pass under way over a source with states of type `σ`. -/
structure Pass (σ : Type) where
  /-- The state of the source. -/
  source : σ
  /-- What has been changed. -/
  report : Report := .empty
  /-- The last failure of the source. -/
  failure : Option Failure := none
  /-- Whether the walk is below an export of variables. -/
  inExport : Bool := false
  /-- What has been told. -/
  log : List Event := []

namespace Pass

variable {σ : Type}

/-- A pass that begins. -/
def start (source : σ) : Pass σ := { source }

/-- Tells something. -/
def tell (p : Pass σ) (e : Event) : Pass σ := { p with log := p.log ++ [e] }

/-- What a message calls the initial value of a declarator. -/
def initKind (d : Declarator) : String := (d.init.map Expression.nodeType).getD "<none>"

/-- The change of a literal. -/
def replacement (literal : StringLiteral) (value : String) : Replacement :=
  ⟨literal.value, value, offset? "start" literal.rest, offset? "end" literal.rest⟩

/-- The state after the source answered with a string for a literal. -/
def record (p : Pass σ) (source : σ) (literal : StringLiteral) (value : String) : Pass σ :=
  { p with
    source
    report := ⟨p.report.replacements ++ [replacement literal value]⟩ }.tell
      (.literalReplaced literal.value value)

/-- Gives an exported declarator a new value if it is self-named. -/
def shrinkDeclarator (supply : Supply σ) (d : Declarator) (p : Pass σ) :
    Verdict × Declarator × Pass σ :=
  match d.isSelfNamed, d.init with
  | true, some (.string literal) =>
    let p := { p with log := p.log ++ supply.trace p.source }
    match supply.next p.source with
    | (.ok value, source) =>
      (.proceed, { d with init := some (.string (literal.setValue value)) },
        p.record source literal value)
    | (.error failure, source) => (.stop, d, { p with source, failure := some failure })
  | _, _ => (.proceed, d, p.tell (.declaratorKept (d.name?.getD "<pattern>") (initKind d)))

/-- The first look of a pass at a node. -/
def visit (supply : Supply σ) : (k : NodeKind) → k.Node → Pass σ → Verdict × k.Node × Pass σ
  | .statement, .exporting node, p => (.proceed, .exporting node, p)
  | .statement, node, p => (.skip, node, p)
  | .namedExport, node, p =>
    match node.declaration with
    | some (.bindings _) => (.proceed, node, { p with inExport := true })
    | some declaration => (.skip, node, p.tell (.exportKept declaration.nodeType))
    | none => (.skip, node, p.tell .exportEmpty)
  | .declarator, node, p => if p.inExport then shrinkDeclarator supply node p else (.skip, node, p)
  | .program, node, p => (.proceed, node, p)
  | .declaration, node, p => (.proceed, node, p)
  | .bindings, node, p => (.proceed, node, p)

/-- The last look of a pass at a node. -/
def leave : (k : NodeKind) → k.Node → Pass σ → k.Node × Pass σ
  | .namedExport, node, p => (node, { p with inExport := false })
  | _, node, p => (node, p)

/-- The editor that gives self-named exports new values. -/
def editor (supply : Supply σ) : Editor (Pass σ) := ⟨visit supply, leave⟩

/-- Ends a pass after a module of so many statements: its failure, or its report. -/
def finish (p : Pass σ) (statements : Nat) : Except Failure Report × Pass σ :=
  match p.failure with
  | some failure => (.error failure, p)
  | none => (.ok p.report, p.tell (.finished p.report.size statements))

/-- Runs a pass over a module to its end. -/
def run (supply : Supply σ) (program : Program) (p : Pass σ) :
    Except Failure Report × Program × Pass σ :=
  let (_, program, p) := (editor supply).editProgram program p
  let (result, p) := p.finish program.body.length
  (result, program, p)

end Pass

/-- Gives the self-named exports of a module the next strings of a source: the report or the
failure, the module as it is left, the state of the source, and what was told. -/
def Program.shrink {σ : Type} (supply : Supply σ) (program : Program) (source : σ) :
    Except Failure Report × Program × σ × List Event :=
  let (result, program, p) := Pass.run supply program (.start source)
  (result, program, p.source, p.log)

end SelfNamed
