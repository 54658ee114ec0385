import SelfNamed.Proofs.Shrink.Exports

/-!
# What the listing finds

The listing is a visitor with a flag: it looks at declarators only below an export of variables. A
walk over any node appends the entries of the node to what has been found and leaves the flag as it
was, so the walks of the items of a list append one after another. For a module this gives the
entries of its self-named exports in source order, told without a walk, and each entry describes the
declarator that it stands for.
-/

namespace SelfNamed

/-- The entry of a declarator, in a list: it has one exactly when it is self-named. -/
def Declarator.entries (d : Declarator) : List Found :=
  d.literals.map fun literal => Listing.entry d literal.value

/-- A self-named declarator has one entry, under the name that it binds. -/
theorem Declarator.entries_of_isSelfNamed {d : Declarator} {name : String}
    (h : d.isSelfNamed = true) (hname : d.name? = some name) :
    d.entries = [Listing.entry d name] := by
  obtain ⟨literal, hinit, hvalue⟩ := isSelfNamed_iff.mp h
  obtain rfl : name = literal.value := Option.some.inj (hname.symm.trans hvalue)
  rw [entries, d.literals_of_isSelfNamed h hinit, List.map_singleton]

/-- A declarator that is not self-named has no entry. -/
theorem Declarator.entries_of_not_isSelfNamed {d : Declarator} (h : d.isSelfNamed = false) :
    d.entries = [] := by
  rw [entries, d.literals_of_not_isSelfNamed h, List.map_nil]

namespace Listing

/-- An entry describes a self-named declarator: it has the name that is bound and spelled, and of
the two ends of the declarator those that the declarator itself gives as 64-bit integers. -/
structure Describes (d : Declarator) (f : Found) : Prop where
  /-- The declarator binds the name. -/
  binds : d.name? = some f.name
  /-- A string literal that spells the name initialises it. -/
  spells : ∃ literal, d.init = some (.string literal) ∧ literal.value = f.name
  /-- Its first byte. -/
  first (n : UInt64) : f.first = some n ↔ d.rest.get? "start" = some (.num (.natural n))
  /-- The byte after it. -/
  last (n : UInt64) : f.last = some n ↔ d.rest.get? "end" = some (.num (.natural n))

/-- The entry that is made for a self-named declarator describes it. -/
theorem describes_entry {d : Declarator} {name : String} (hself : d.isSelfNamed = true)
    (hname : d.name? = some name) : Describes d (entry d name) := by
  obtain ⟨literal, hinit, hvalue⟩ := Declarator.isSelfNamed_iff.mp hself
  have hspells : literal.value = name := Option.some.inj (hvalue.symm.trans hname)
  exact ⟨hname, ⟨literal, hinit, hspells⟩, fun _ => offset?_eq_some_iff,
    fun _ => offset?_eq_some_iff⟩

/-- Declarators have an entry for each of the self-named among them, which describes it, in the same
order. -/
theorem describes_entries (ds : List Declarator) :
    List.Forall₂ Describes (ds.filter Declarator.isSelfNamed) (ds.flatMap Declarator.entries) := by
  induction ds with
  | nil => exact .nil
  | cons d ds ih =>
    rw [List.flatMap_cons]
    cases hself : d.isSelfNamed with
    | false =>
      rw [List.filter_cons_of_neg (by simp [hself]), d.entries_of_not_isSelfNamed hself]
      exact ih
    | true =>
      obtain ⟨literal, -, hname⟩ := Declarator.isSelfNamed_iff.mp hself
      rw [List.filter_cons_of_pos hself, d.entries_of_isSelfNamed hself hname]
      exact .cons (describes_entry hself hname) ih

end Listing

namespace Visitor

variable {σ : Type} {v : Visitor σ} {k : NodeKind} {node : k.Node} {children : σ → Verdict × σ}
  {s t u : σ}

/-- A node whose children are walked to the end is left in the state that they leave. -/
theorem around_of_proceed (hvisit : v.visit k node s = (.proceed, t))
    (hchildren : children t = (.proceed, u)) :
    v.around k node children s = (.proceed, v.leave k node u) := by
  rw [around, hvisit]
  dsimp only
  rw [hchildren]

/-- A node whose children are passed over is left in the state of its first look. -/
theorem around_of_skip (hvisit : v.visit k node s = (.skip, t)) :
    v.around k node children s = (.proceed, v.leave k node t) := by
  rw [around, hvisit]

end Visitor

namespace Listing

variable {α : Type}

/-- A walk in its scope appends the entries of the node and goes on in the same scope. -/
def Adds (inExport : Bool) (walk : α → Listing → Verdict × Listing) (entries : α → List Found) :
    Prop :=
  ∀ node found, walk node ⟨found, inExport⟩ = (.proceed, ⟨found ++ entries node, inExport⟩)

/-- Walks that append for the items append for the list. -/
theorem Adds.each {inExport : Bool} {walk : α → Listing → Verdict × Listing}
    {entries : α → List Found} (h : Adds inExport walk entries) :
    Adds inExport (walkEach walk) (List.flatMap entries) := by
  intro items
  induction items with
  | nil =>
    intro found
    rw [walkEach, List.flatMap_nil, List.append_nil]
  | cons item items ih =>
    intro found
    rw [walkEach, h item found]
    dsimp only
    rw [ih, List.flatMap_cons, List.append_assoc]

/-- Below an export a declarator is listed exactly when it is self-named. -/
theorem walkDeclarator_adds : Adds true visitor.walkDeclarator Declarator.entries := by
  intro d found
  cases hself : d.isSelfNamed with
  | false =>
    have hvisit : visitor.visit .declarator d ⟨found, true⟩ = (.skip, ⟨found, true⟩) := by
      simp only [visitor, visit, hself, Bool.and_false, Bool.false_eq_true, if_false]
    rw [d.entries_of_not_isSelfNamed hself, List.append_nil]
    exact Visitor.around_of_skip hvisit
  | true =>
    obtain ⟨literal, -, hname⟩ := Declarator.isSelfNamed_iff.mp hself
    have hvisit : visitor.visit .declarator d ⟨found, true⟩ =
        (.proceed, ⟨found ++ [entry d literal.value], true⟩) := by
      simp only [visitor, visit, hself, hname, Bool.and_self, if_true]
    rw [d.entries_of_isSelfNamed hself hname]
    exact Visitor.around_of_proceed hvisit rfl

/-- Below an export a declaration of variables has the entries of its declarators. -/
theorem walkVariables_adds :
    Adds true visitor.walkVariables fun node => node.declarators.flatMap Declarator.entries := by
  intro node found
  exact Visitor.around_of_proceed rfl (walkDeclarator_adds.each node.declarators found)

/-- An export has the entries of what it declares, and its scope ends with it. -/
theorem walkExport_adds :
    Adds false visitor.walkExport fun node => node.declarators.flatMap Declarator.entries := by
  intro node found
  obtain ⟨declaration, rest⟩ := node
  have hskip (hnone : NamedExport.declarators ⟨declaration, rest⟩ = [])
      (hvisit : visitor.visit .namedExport ⟨declaration, rest⟩ ⟨found, false⟩ =
        (.skip, ⟨found, false⟩)) :
      visitor.walkExport ⟨declaration, rest⟩ ⟨found, false⟩ =
        (.proceed, ⟨found ++ (NamedExport.declarators ⟨declaration, rest⟩).flatMap
          Declarator.entries, false⟩) := by
    rw [hnone, List.flatMap_nil, List.append_nil]
    exact Visitor.around_of_skip hvisit
  match declaration with
  | some (.bindings bindings) =>
    have hdeclaration : visitor.walkDeclaration (.bindings bindings) ⟨found, true⟩ =
        (.proceed, ⟨found ++ bindings.declarators.flatMap Declarator.entries, true⟩) :=
      Visitor.around_of_proceed rfl (walkVariables_adds bindings found)
    exact Visitor.around_of_proceed rfl hdeclaration
  | some (.function node) => exact hskip rfl rfl
  | some (.classes node) => exact hskip rfl rfl
  | some (.verbatim node) => exact hskip rfl rfl
  | none => exact hskip rfl rfl

/-- A statement has the entries of what it exports. -/
theorem walkStatement_adds :
    Adds false visitor.walkStatement fun s => s.exported.flatMap Declarator.entries := by
  intro s found
  have hskip (hnone : s.exported = [])
      (hvisit : visitor.visit .statement s ⟨found, false⟩ = (.skip, ⟨found, false⟩)) :
      visitor.walkStatement s ⟨found, false⟩ =
        (.proceed, ⟨found ++ s.exported.flatMap Declarator.entries, false⟩) := by
    rw [hnone, List.flatMap_nil, List.append_nil]
    exact Visitor.around_of_skip hvisit
  cases s with
  | exporting node => exact Visitor.around_of_proceed rfl (walkExport_adds node found)
  | bindings node => exact hskip rfl rfl
  | function node => exact hskip rfl rfl
  | classes node => exact hskip rfl rfl
  | verbatim value => exact hskip rfl rfl

/-- A module has the entries of what it exports. -/
theorem walkProgram_adds :
    Adds false visitor.walkProgram fun p => p.exported.flatMap Declarator.entries := by
  intro program found
  dsimp only
  rw [Program.exported, List.flatMap_assoc]
  exact Visitor.around_of_proceed rfl (walkStatement_adds.each program.body found)

end Listing

namespace Program

/-- The listing of a module has the entries of the declarators that it exports. -/
theorem listing_eq (p : Program) : p.listing = p.exported.flatMap Declarator.entries := by
  rw [listing, Listing.walkProgram_adds p [], List.nil_append]

/-- The names of the listing are the values of the literals that a pass would change. -/
theorem selfNamed_eq (p : Program) :
    p.selfNamed = (p.exported.flatMap Declarator.literals).map StringLiteral.value := by
  have hentries (d : Declarator) :
      d.entries.map Found.name = d.literals.map StringLiteral.value := by
    rw [Declarator.entries, List.map_map]
    rfl
  rw [selfNamed, listing_eq, List.map_flatMap, List.map_flatMap]
  simp only [hentries]

/-- The listing of a module has an entry for each self-named export, which describes it, in the same
order. -/
theorem describes_listing (p : Program) :
    List.Forall₂ Listing.Describes p.selfNamedExports p.listing := by
  rw [listing_eq]
  exact Listing.describes_entries p.exported

/-- There are as many entries as self-named exports. -/
theorem length_listing (p : Program) : p.listing.length = p.selfNamedExports.length :=
  p.describes_listing.length_eq.symm

end Program

end SelfNamed
