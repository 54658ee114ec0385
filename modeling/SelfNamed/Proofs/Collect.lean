import Mathlib.Data.List.Basic
import SelfNamed.Supply

/-!
# Taking strings up to the first failure

A consumer of a source asks for so many strings and stops where the source fails. What it got, the
failure that stopped it and the state it left behind are kept together, so a consumer in two parts
is one consumer: the second part starts where the first stopped, or not at all. A source may count
its requests, which changes none of its answers.
-/

namespace SelfNamed.Supply

variable {σ : Type} (supply : Supply σ)

/-- What has been taken from a source. -/
structure Collected (σ : Type) where
  /-- The strings, in their order. -/
  values : List String
  /-- The failure after them, if there was one. -/
  failure : Option Failure
  /-- The state of the source after the last request. -/
  source : σ

/-- What a consumer ends with: the failure, or what it made of the strings. -/
def Collected.outcome {α : Type} (taken : Collected σ) (result : α) : Except Failure α :=
  match taken.failure with
  | some failure => .error failure
  | none => .ok result

/-- A consumer fails as its source does. -/
theorem Collected.outcome_eq_error_iff {α : Type} {taken : Collected σ} {result : α}
    {failure : Failure} :
    taken.outcome result = .error failure ↔ taken.failure = some failure := by
  rw [Collected.outcome]
  cases taken.failure <;> simp

/-- A consumer succeeds exactly when its source has not failed. -/
theorem Collected.outcome_eq_ok_iff {α : Type} {taken : Collected σ} {result other : α} :
    taken.outcome result = .ok other ↔ taken.failure = none ∧ result = other := by
  rw [Collected.outcome]
  cases taken.failure <;> simp

/-- Takes so many strings, or those before the first failure. -/
def collect : ℕ → σ → Collected σ
  | 0, s => ⟨[], none, s⟩
  | n + 1, s =>
    match supply.next s with
    | (.ok value, s) =>
      let later := collect n s
      { later with values := value :: later.values }
    | (.error failure, s) => ⟨[], some failure, s⟩

/-- Taking one string and more after a request that was answered. -/
theorem collect_succ_of_ok {s s' : σ} {value : String} (n : ℕ)
    (h : supply.next s = (.ok value, s')) :
    supply.collect (n + 1) s =
      ⟨value :: (supply.collect n s').values, (supply.collect n s').failure,
        (supply.collect n s').source⟩ := by
  rw [collect, h]

/-- A request that fails is the last. -/
theorem collect_succ_of_error {s s' : σ} {failure : Failure} (n : ℕ)
    (h : supply.next s = (.error failure, s')) :
    supply.collect (n + 1) s = ⟨[], some failure, s'⟩ := by
  rw [collect, h]

/-- After a first part without a failure the second goes on from its state. -/
theorem collect_add_of_none {m : ℕ} {s : σ} (n : ℕ) (h : (supply.collect m s).failure = none) :
    supply.collect (m + n) s =
      ⟨(supply.collect m s).values ++ (supply.collect n (supply.collect m s).source).values,
        (supply.collect n (supply.collect m s).source).failure,
        (supply.collect n (supply.collect m s).source).source⟩ := by
  induction m generalizing s with
  | zero => rw [Nat.zero_add]; rfl
  | succ m ih =>
    rw [Nat.succ_add]
    cases hnext : supply.next s with
    | mk answer s' =>
      cases answer with
      | ok value =>
        rw [supply.collect_succ_of_ok m hnext] at h ⊢
        rw [supply.collect_succ_of_ok (m + n) hnext, ih h, List.cons_append]
      | error failure =>
        rw [supply.collect_succ_of_error m hnext] at h
        cases h

/-- A failure in the first part is the outcome of both. -/
theorem collect_add_of_some {m : ℕ} {s : σ} {failure : Failure} (n : ℕ)
    (h : (supply.collect m s).failure = some failure) :
    supply.collect (m + n) s = supply.collect m s := by
  induction m generalizing s with
  | zero => cases h
  | succ m ih =>
    rw [Nat.succ_add]
    cases hnext : supply.next s with
    | mk answer s' =>
      cases answer with
      | ok value =>
        rw [supply.collect_succ_of_ok m hnext] at h ⊢
        rw [supply.collect_succ_of_ok (m + n) hnext, ih h]
      | error failure =>
        rw [supply.collect_succ_of_error m hnext, supply.collect_succ_of_error (m + n) hnext]

/-- Without a failure there are as many strings as were asked for. -/
theorem length_values_of_none {n : ℕ} {s : σ} (h : (supply.collect n s).failure = none) :
    (supply.collect n s).values.length = n := by
  induction n generalizing s with
  | zero => rfl
  | succ n ih =>
    cases hnext : supply.next s with
    | mk answer s' =>
      cases answer with
      | ok value =>
        rw [supply.collect_succ_of_ok n hnext] at h ⊢
        rw [List.length_cons, ih h]
      | error failure =>
        rw [supply.collect_succ_of_error n hnext] at h
        cases h

/-- There are never more strings than were asked for. -/
theorem length_values_le (n : ℕ) (s : σ) : (supply.collect n s).values.length ≤ n := by
  induction n generalizing s with
  | zero => exact Nat.le_refl _
  | succ n ih =>
    cases hnext : supply.next s with
    | mk answer s' =>
      cases answer with
      | ok value =>
        rw [supply.collect_succ_of_ok n hnext]
        exact Nat.succ_le_succ (ih s')
      | error failure =>
        rw [supply.collect_succ_of_error n hnext]
        exact Nat.zero_le _

/-- There are as many first answers as requests. -/
theorem length_answers (n : ℕ) (s : σ) : (supply.answers n s).length = n := by
  induction n generalizing s with
  | zero => rfl
  | succ n ih => rw [answers, List.length_cons, ih]

/-- When all answers are strings, they are what is taken and the source is asked once for each. -/
theorem collect_of_answers {values : List String} {n : ℕ} {s : σ}
    (h : supply.answers n s = values.map .ok) :
    supply.collect n s = ⟨values, none, supply.after n s⟩ := by
  induction n generalizing s values with
  | zero =>
    have hvalues : values = [] := List.map_eq_nil_iff.mp h.symm
    rw [hvalues]
    rfl
  | succ n ih =>
    cases values with
    | nil => cases h
    | cons value values =>
      rw [answers, List.map_cons, List.cons.injEq] at h
      have hnext : supply.next s = (.ok value, (supply.next s).2) := Prod.ext h.1 rfl
      rw [supply.collect_succ_of_ok n hnext, ih h.2, after]

/-- When strings are followed by a failure, these are what is taken, and the source is asked for
nothing behind the failure. -/
theorem collect_of_answers_failure {values : List String} {failure : Failure}
    {later : List (Except Failure String)} {n : ℕ} {s : σ}
    (h : supply.answers n s = values.map .ok ++ .error failure :: later) :
    supply.collect n s = ⟨values, some failure, supply.after (values.length + 1) s⟩ := by
  induction values generalizing n s with
  | nil =>
    cases n with
    | zero => cases h
    | succ n =>
      have hfirst : (supply.next s).1 = .error failure := (List.cons.inj h).1
      have hnext : supply.next s = (.error failure, (supply.next s).2) := Prod.ext hfirst rfl
      rw [supply.collect_succ_of_error n hnext]
      rfl
  | cons value values ih =>
    cases n with
    | zero => cases h
    | succ n =>
      obtain ⟨hfirst, hlater⟩ := List.cons.inj h
      have hnext : supply.next s = (.ok value, (supply.next s).2) := Prod.ext hfirst rfl
      rw [supply.collect_succ_of_ok n hnext, ih hlater]
      rfl

/-- A consumer of more strings than there are before a failure gets these and is failed by the next
request. -/
theorem collect_of_failure {values : List String} {failure : Failure} {n : ℕ} {s : σ}
    (h : supply.answers (values.length + 1) s = values.map .ok ++ [.error failure])
    (hn : values.length < n) :
    supply.collect n s = ⟨values, some failure, supply.after (values.length + 1) s⟩ := by
  have hfirst := supply.collect_of_answers_failure h
  obtain ⟨more, rfl⟩ := Nat.exists_eq_add_of_le (Nat.succ_le_of_lt hn)
  have hfailure : (supply.collect (values.length + 1) s).failure = some failure := by rw [hfirst]
  have hall := supply.collect_add_of_some more hfailure
  exact hall.trans hfirst

/-- Answers are all strings, or strings up to a first failure. -/
theorem answers_cases (answers : List (Except Failure String)) :
    (∃ values : List String, answers = values.map .ok) ∨
      ∃ (values : List String) (failure : Failure) (later : List (Except Failure String)),
        answers = values.map .ok ++ .error failure :: later := by
  induction answers with
  | nil => exact Or.inl ⟨[], rfl⟩
  | cons answer answers ih =>
    cases answer with
    | error failure => exact Or.inr ⟨[], failure, answers, rfl⟩
    | ok value =>
      rcases ih with ⟨values, hvalues⟩ | ⟨values, failure, later, hvalues⟩
      · exact Or.inl ⟨value :: values, by rw [hvalues, List.map_cons]⟩
      · exact Or.inr ⟨value :: values, failure, later, by rw [hvalues]; rfl⟩

/-- Taking fails exactly when one of the answers does. -/
theorem exists_failure_iff {n : ℕ} {s : σ} :
    (∃ failure, (supply.collect n s).failure = some failure) ↔
      ∃ failure, .error failure ∈ supply.answers n s := by
  rcases answers_cases (supply.answers n s) with ⟨values, h⟩ | ⟨values, failure, later, h⟩
  · rw [supply.collect_of_answers h, h]
    simp
  · rw [supply.collect_of_answers_failure h, h]
    have hmem : .error failure ∈ values.map .ok ++ .error failure :: later := by simp
    constructor
    · intro _
      exact ⟨failure, hmem⟩
    · intro _
      exact ⟨failure, rfl⟩

/-- Without a failure the answers are the strings that are taken. -/
theorem answers_of_none {n : ℕ} {s : σ} (h : (supply.collect n s).failure = none) :
    supply.answers n s = (supply.collect n s).values.map .ok := by
  rcases answers_cases (supply.answers n s) with ⟨values, ha⟩ | ⟨values, failure, later, ha⟩
  · rw [supply.collect_of_answers ha, ha]
  · rw [supply.collect_of_answers_failure ha] at h
    cases h

/-- Without a failure the source has been asked for every string. -/
theorem source_of_none {n : ℕ} {s : σ} (h : (supply.collect n s).failure = none) :
    (supply.collect n s).source = supply.after n s := by
  rcases answers_cases (supply.answers n s) with ⟨values, ha⟩ | ⟨values, failure, later, ha⟩
  · rw [supply.collect_of_answers ha]
  · rw [supply.collect_of_answers_failure ha] at h
    cases h

/-- Taking strings as an iterator gives them is collecting them without the failure. -/
theorem draw_eq_collect (n : ℕ) (s : σ) :
    supply.draw n s = ((supply.collect n s).values, (supply.collect n s).source) := by
  induction n generalizing s with
  | zero => rfl
  | succ n ih =>
    cases hnext : supply.next s with
    | mk answer s' =>
      cases answer with
      | ok value => simp only [draw, supply.collect_succ_of_ok n hnext, hnext, ih]
      | error failure => simp only [draw, supply.collect_succ_of_error n hnext, hnext]

/-- A source that counts how often it is asked. -/
def counted : Supply (σ × ℕ) where
  next := fun s => ((supply.next s.1).1, (supply.next s.1).2, s.2 + 1)
  trace := fun s => supply.trace s.1

/-- A source that counts its requests answers as it does without the count. -/
theorem answers_counted (n : ℕ) (s : σ × ℕ) :
    supply.counted.answers n s = supply.answers n s.1 := by
  induction n generalizing s with
  | zero => rfl
  | succ n ih => rw [answers, answers, ih]; rfl

/-- After a number of requests a source that counts them has counted so many. -/
theorem after_counted (n : ℕ) (s : σ × ℕ) :
    supply.counted.after n s = (supply.after n s.1, s.2 + n) := by
  induction n generalizing s with
  | zero => rfl
  | succ n ih => rw [after, ih, after, counted, Nat.add_succ, ← Nat.succ_add]

end SelfNamed.Supply
