import SelfNamed.Proofs.Settings
import SelfNamed.Proofs.Tree.Literal

/-!
# Literals through many passes

A pass sets values in some literals of a module and leaves all others, so what many passes do to a
literal is told by the values that they set in it, and these leave what the last of them alone
leaves. Main statement: a literal that any number of passes has rewritten has the last value as its
value, as its recorded value and as the meaning of its text, which is in the first style.
-/

namespace SelfNamed

/-- A source of any kind, as a pass finds it. -/
structure AnySource where
  /-- The states of the source. -/
  State : Type
  /-- How a state answers. -/
  supply : Supply State
  /-- The state before the pass. -/
  state : State

namespace Program

/-- The module as a pass leaves it, whether the source fails or not. -/
def leftBy (p : Program) (s : AnySource) : Program := (p.shrink s.supply s.state).2.1

/-- The value that a pass sets in the literal at a place, if it does: passes report what they set in
the order of the places, up to the failure of the source. -/
def valueAt? (p : Program) (s : AnySource) (place : ℕ × ℕ) : Option String :=
  (p.places.idxOf? place).bind fun k =>
    (Pass.run s.supply p (.start s.state)).2.2.report.values[k]?

/-- The module as passes leave it, one after the other. -/
def leftByAll : Program → List AnySource → Program
  | p, [] => p
  | p, s :: sources => leftByAll (p.leftBy s) sources

/-- The values that passes set in the literal at a place, one after the other. -/
def valuesAt (place : ℕ × ℕ) : Program → List AnySource → List String
  | _, [] => []
  | p, s :: sources => (p.valueAt? s place).toList ++ valuesAt place (p.leftBy s) sources

variable {p : Program} {s : AnySource} {place : ℕ × ℕ}

/-- The values that a pass takes from its source. -/
def taken (p : Program) (s : AnySource) : List String :=
  (s.supply.collect p.selfNamedExports.length s.state).values

/-- A pass leaves the values that it takes in the first places. -/
theorem leftBy_eq (p : Program) (s : AnySource) : p.leftBy s = p.withValues (p.taken s) := by
  obtain ⟨log, hshrink⟩ := shrink_eq s.supply p s.state
  rw [leftBy, hshrink, taken]

/-- A pass reports the values that it takes, even when its source fails behind them. -/
theorem values_report (p : Program) (s : AnySource) :
    (Pass.run s.supply p (.start s.state)).2.2.report.values = p.taken s := by
  obtain ⟨log, hedit⟩ := @Pass.editProgram_advances s.State s.supply p (.start s.state) rfl
  have hlength := length_selfNamedExports p
  have hle : (p.taken s).length ≤ (p.exported.flatMap Declarator.literals).length := by
    rw [hlength]
    exact s.supply.length_values_le _ _
  have hreport : (Pass.run s.supply p (.start s.state)).2.2.report =
      ⟨((p.exported.flatMap Declarator.literals).zip (p.taken s)).map
        fun entry => Pass.replacement entry.1 entry.2⟩ := by
    rw [Pass.run, hedit, taken, ← hlength]
    simp only [Pass.finish]
    split <;> rfl
  rw [hreport, report_values hle]

/-- The value at a place is the one of the same number. -/
theorem valueAt?_eq_some_iff {value : String} :
    p.valueAt? s place = some value ↔
      ∃ k : ℕ, p.places[k]? = some place ∧ (p.taken s)[k]? = some value := by
  rw [valueAt?, values_report, Option.bind_eq_some_iff]
  refine exists_congr fun k => and_congr_left fun _ => ?_
  constructor
  · intro h
    obtain ⟨hlt, hget, -⟩ := List.idxOf?_eq_some_iff.mp h
    exact List.getElem?_eq_some_iff.mpr ⟨hlt, hget⟩
  · intro h
    obtain ⟨hlt, hget⟩ := List.getElem?_eq_some_iff.mp h
    refine List.idxOf?_eq_some_iff.mpr ⟨hlt, hget, ?_⟩
    intro j hj heq
    have hsame : j = k := p.nodup_places.getElem_inj_iff.mp (heq.trans hget.symm)
    exact Nat.ne_of_lt hj hsame

/-- A place at which a pass sets no value holds what it held. -/
theorem literalAt?_leftBy_of_none (h : p.valueAt? s place = none) :
    (p.leftBy s).literalAt? place = p.literalAt? place := by
  have hnot : place ∉ p.places.take (p.taken s).length := by
    intro hmem
    obtain ⟨k, hk, heq⟩ := List.mem_take_iff_getElem.mp hmem
    have hk' : k < (p.taken s).length := by omega
    have hplace : p.places[k]? = some place :=
      List.getElem?_eq_some_iff.mpr ⟨by omega, heq⟩
    have hvalue : p.valueAt? s place = some (p.taken s)[k] :=
      valueAt?_eq_some_iff.mpr ⟨k, hplace, List.getElem?_eq_getElem hk'⟩
    rw [h] at hvalue
    cases hvalue
  have hsame := (p.received_withValues (p.taken s)).others hnot
  rw [leftBy_eq, literalAt?, hsame, literalAt?]

/-- A pass sets in a literal what it sets at its place, if anything. -/
theorem literalAt?_leftBy (p : Program) (s : AnySource) (place : ℕ × ℕ) :
    (p.leftBy s).literalAt? place = (p.literalAt? place).map fun literal =>
      (p.valueAt? s place).toList.foldl StringLiteral.setValue literal := by
  cases hvalue : p.valueAt? s place with
  | none =>
    rw [literalAt?_leftBy_of_none hvalue]
    exact Option.map_id'.symm
  | some value =>
    obtain ⟨k, hplace, htaken⟩ := valueAt?_eq_some_iff.mp hvalue
    obtain ⟨literal, hbefore, hafter⟩ := literalAt?_withValues hplace htaken
    rw [leftBy_eq, hafter, hbefore]
    rfl

/-- A value is only set where a literal is. -/
theorem exists_literal_of_value {value : String} (h : p.valueAt? s place = some value) :
    ∃ literal, p.literalAt? place = some literal := by
  obtain ⟨k, hplace, htaken⟩ := valueAt?_eq_some_iff.mp h
  obtain ⟨literal, hbefore, -⟩ := literalAt?_withValues hplace htaken
  exact ⟨literal, hbefore⟩

/-- Passes set in a literal the values that they set at its place, one after the other. -/
theorem literalAt?_leftByAll (p : Program) (sources : List AnySource) (place : ℕ × ℕ) :
    (p.leftByAll sources).literalAt? place = (p.literalAt? place).map fun literal =>
      (p.valuesAt place sources).foldl StringLiteral.setValue literal := by
  induction sources generalizing p with
  | nil => exact Option.map_id'.symm
  | cons s sources ih =>
    rw [leftByAll, ih, literalAt?_leftBy, Option.map_map, valuesAt]
    simp only [List.foldl_append]
    rfl

/-- Values are only set where a literal is from the beginning. -/
theorem exists_literal_of_values {sources : List AnySource} (h : p.valuesAt place sources ≠ []) :
    ∃ literal, p.literalAt? place = some literal := by
  induction sources generalizing p with
  | nil => exact absurd rfl h
  | cons s sources ih =>
    cases hvalue : p.valueAt? s place with
    | some value => exact exists_literal_of_value hvalue
    | none =>
      rw [valuesAt, hvalue] at h
      obtain ⟨literal, hliteral⟩ := ih h
      exact ⟨literal, (literalAt?_leftBy_of_none hvalue).symm.trans hliteral⟩

/-- Any values set in any literal one after the other leave what the last of them alone leaves: it
is the value, a record of the source has it twice and in the style of the first text, and nothing
else has changed. The same holds of each literal in an exported declarator of a module that any
number of passes has rewritten, with sources of any kinds that may fail: it is coherent with the
literal that stood there first and with the value that was set there last. -/
theorem rewritten_stay_coherent :
    (∀ (literal : StringLiteral) (values : List String) (h : values ≠ []),
      values.foldl StringLiteral.setValue literal = literal.setValue (values.getLast h) ∧
      literal.Coherent (values.getLast h) (values.foldl StringLiteral.setValue literal)) ∧
    ∀ (p : Program) (sources : List AnySource) (place : ℕ × ℕ)
      (h : p.valuesAt place sources ≠ []), ∃ original literal,
        p.literalAt? place = some original ∧
        (p.leftByAll sources).literalAt? place = some literal ∧
        original.Coherent ((p.valuesAt place sources).getLast h) literal := by
  have hcoherent (literal : StringLiteral) (values : List String) (h : values ≠ []) :
      literal.Coherent (values.getLast h) (values.foldl StringLiteral.setValue literal) := by
    rw [literal.foldl_setValue h]
    exact literal.coherent_setValue _
  refine ⟨fun literal values h => ⟨literal.foldl_setValue h, hcoherent literal values h⟩, ?_⟩
  intro p sources place h
  obtain ⟨original, horiginal⟩ := exists_literal_of_values h
  have hleft := p.literalAt?_leftByAll sources place
  rw [horiginal, Option.map_some] at hleft
  exact ⟨original, _, horiginal, hleft, hcoherent original _ h⟩

/-- A module that exports two self-named constants, both in double quotes. -/
def twoQuoted : Program :=
  .build
    [.exporting (.build (.bindings (.build .constant
      [.build "b" (some (.string (.quoted "b" .double))),
        .build "c" (some (.string (.quoted "c" .double)))])))]

/-- A source of fixed answers. -/
def scripted (answers : List (Except Failure String)) : AnySource :=
  ⟨Source, Source.supply, .script ⟨answers, 0⟩⟩

/-- Sources for three passes: the first gives the second of two constants its own name, so that the
second rewrites it again, with a value that begins with a single quote; the third fails at once. -/
def ownNameFirst : List AnySource :=
  [scripted [.ok "x", .ok "c"], scripted [.ok "'\""], scripted [.error (.exhausted 0)]]

/-- A constant that two passes have rewritten has the value of the second in double quotes. -/
theorem rewritten_stay_coherent_own_name :
    twoQuoted.valuesAt (0, 1) ownNameFirst = ["c", "'\""] ∧
      ∃ original literal extra, twoQuoted.literalAt? (0, 1) = some original ∧
        (twoQuoted.leftByAll ownNameFirst).literalAt? (0, 1) = some literal ∧
        literal.value = "'\"" ∧ literal.extra = some extra ∧ extra.rawValue = literal.value ∧
        extra.raw = QuoteStyle.double.literal literal.value ∧
        literal.quote? = some .double := by
  have hvalues : twoQuoted.valuesAt (0, 1) ownNameFirst = ["c", "'\""] := rfl
  have hne : twoQuoted.valuesAt (0, 1) ownNameFirst ≠ [] := by
    rw [hvalues]
    exact List.cons_ne_nil _ _
  have hlast : (twoQuoted.valuesAt (0, 1) ownNameFirst).getLast hne = "'\"" := by
    simp only [hvalues]
    rfl
  obtain ⟨original, literal, horiginal, hliteral, hcoherent⟩ :=
    rewritten_stay_coherent.2 twoQuoted ownNameFirst (0, 1) hne
  have hfirst : twoQuoted.literalAt? (0, 1) = some (.quoted "c" .double) := rfl
  rw [hfirst, Option.some.injEq] at horiginal
  rw [hlast, ← horiginal] at hcoherent
  obtain ⟨extra, hextra, hvalue, hraw, -, hquote, -⟩ := hcoherent.recorded _ rfl
  have hdouble : QuoteStyle.double ≠ .backtick := nofun
  have hstyle := StringLiteral.style_of_literal hdouble "c" "c" []
  rw [hstyle] at hraw hquote
  exact ⟨hvalues, _, literal, extra, hfirst, hliteral, hcoherent.value, hextra, hvalue, hraw,
    hquote⟩

end Program

end SelfNamed
