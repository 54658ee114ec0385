import Mathlib.Logic.Function.Basic
import SelfNamed.Proofs.Shared

/-!
# Copies of a generator

A generator can be asked for its next string, iterated, looked ahead of and copied, and calls on a
generator and on its copies may come in any order. A call moves the counter of its generator by the
strings that it consumes and touches no other generator, so each of them answers as if it were
alone. What a generator has consumed goes over to its copies. Main statement: whatever is called,
each generator has consumed the strings that spell the numbers from the start on, without a gap, up
to its counter, and at the last counter value it fails and stays.
-/

namespace SelfNamed.Pool

/-- A generator without company. -/
def alone (g : Generator) : Pool := ⟨[.owned g], []⟩

/-- How many strings a call asks a generator for. -/
def Call.requests : Call → ℕ
  | .next => 1
  | .take count => count
  | .nth count => count + 1
  | _ => 0

/-- The strings that a call on a generator consumes, those included that are passed over. -/
def consumed (p : Pool) (index : ℕ) (c : Call) : List String :=
  match p.entries[index]? with
  | some (.owned g) => (Generator.supply.draw c.requests g).1
  | _ => []

/-- What the entries have consumed after a call, told from what they had consumed before it. A copy
takes over what its original has consumed. -/
def follow (p : Pool) (index : ℕ) (c : Call) (trails : ℕ → List String) : ℕ → List String :=
  match c with
  | .clone => Function.update trails p.entries.length (trails index)
  | c => Function.update trails index (trails index ++ p.consumed index c)

/-- What the entries have consumed after a list of calls. -/
def trails : Pool → (ℕ → List String) → List (ℕ × Call) → ℕ → List String
  | _, known, [] => known
  | p, known, (index, c) :: rest => trails (p.call index c).2.1 (p.follow index c known) rest

/-- The calls on one entry. -/
def ownCalls (index : ℕ) (calls : List (ℕ × Call)) : List Call :=
  (calls.filter fun call => call.1 = index).map Prod.snd

/-- The answers to the calls on one entry. -/
def ownAnswers (index : ℕ) (calls : List (ℕ × Call)) (answers : List Answer) : List Answer :=
  ((calls.zip answers).filter fun entry => entry.1.1 = index).map Prod.snd

/-- An answer that does not tell where a copy is kept. -/
def Answer.unnumbered : Answer → Answer
  | .entry _ => .entry 0
  | answer => answer

/-! ## One call -/

variable {p q : Pool} {index other : ℕ} {g g' : Generator}

/-- The entries that a call on a generator makes. -/
def made (p : Pool) (g : Generator) : Call → List PoolEntry
  | .clone => [.owned g]
  | .share => [.handle p.shared.length]
  | _ => []

/-- A call on a generator is answered by it. -/
theorem call_owned (h : p.entries[index]? = some (.owned g)) (c : Call) :
    p.call index c = p.callOwned index g c := by
  rw [call, h]

/-- To put a generator back where it is changes nothing. -/
theorem set_owned_self (h : p.entries[index]? = some (.owned g)) :
    p.entries.set index (.owned g) = p.entries := by
  obtain ⟨hlt, hget⟩ := List.getElem?_eq_some_iff.mp h
  rw [← hget, List.set_getElem_self]

/-- A call on a generator puts it back as far as the strings have moved it that were asked for, and
puts new entries behind all others. -/
theorem entries_callOwned (h : p.entries[index]? = some (.owned g)) (c : Call) :
    (p.callOwned index g c).2.1.entries =
      p.entries.set index (.owned (Generator.supply.draw c.requests g).2) ++ p.made g c := by
  have hself := set_owned_self h
  have hone : (Generator.supply.draw 1 g).2 = g.next.2 := by
    rw [Supply.draw_one]
    rfl
  cases c with
  | next => simp only [callOwned, made, Call.requests, hone, List.append_nil]
  | take count => simp only [callOwned, made, Call.requests, List.append_nil]
  | nth count => simp only [callOwned, made, Call.requests, Supply.source_nth, List.append_nil]
  | clone => simp only [callOwned, made, Call.requests, Supply.draw, push, hself]
  | share => simp only [callOwned, made, Call.requests, Supply.draw, pushShared, hself]
  | _ => simp only [callOwned, made, Call.requests, Supply.draw, hself, List.append_nil]

/-- A call on anything else makes no generator and leaves the entries that there are. -/
theorem entries_call_of_not_owned (h : ∀ g, p.entries[index]? ≠ some (.owned g)) (c : Call) :
    ∃ cells : List ℕ, (p.call index c).2.1.entries = p.entries ++ cells.map .handle := by
  have hnone : p.entries = p.entries ++ ([] : List ℕ).map .handle := (List.append_nil _).symm
  rw [call]
  cases hentry : p.entries[index]? with
  | none => exact ⟨[], hnone⟩
  | some entry =>
    cases entry with
    | owned g => exact absurd hentry (h g)
    | handle cell =>
      cases hcell : p.shared[cell]? with
      | none => simp only [hcell]; exact ⟨[], hnone⟩
      | some s =>
        simp only [hcell]
        cases c with
        | clone => exact ⟨[cell], rfl⟩
        | die => rw [callHandle]; split <;> exact ⟨[], hnone⟩
        | _ => exact ⟨[], hnone⟩

/-- A generator stays where it is, moved by the strings that are asked for when it is called, and
as it is when anything else is called. -/
theorem entries_call (h : p.entries[index]? = some (.owned g)) (called : ℕ) (c : Call) :
    (p.call called c).2.1.entries[index]? =
      some (.owned (if called = index then (Generator.supply.draw c.requests g).2 else g)) := by
  have hlt : index < p.entries.length := (List.getElem?_eq_some_iff.mp h).1
  by_cases howned : ∃ g', p.entries[called]? = some (.owned g')
  · obtain ⟨g', hcalled⟩ := howned
    have hset : index < (p.entries.set called
        (.owned (Generator.supply.draw c.requests g').2)).length := by rwa [List.length_set]
    rw [call_owned hcalled, entries_callOwned hcalled, List.getElem?_append_left hset]
    by_cases heq : called = index
    · subst heq
      obtain rfl : g' = g := by
        rw [hcalled] at h
        exact PoolEntry.owned.inj (Option.some.inj h)
      rw [if_pos rfl, List.getElem?_set_self hlt]
    · rw [if_neg heq, List.getElem?_set_ne heq, h]
  · have hne : called ≠ index := fun heq => howned ⟨g, heq ▸ h⟩
    obtain ⟨cells, hentries⟩ := entries_call_of_not_owned (fun g' h' => howned ⟨g', h'⟩) c
    rw [hentries, List.getElem?_append_left hlt, if_neg hne, h]

/-- A generator that a call has made is a copy of the one that was called. -/
theorem owned_of_made {c : Call} {i : ℕ} (h : (p.made g c)[i]? = some (.owned g')) :
    i = 0 ∧ c = .clone ∧ g' = g := by
  cases c with
  | clone =>
    cases i with
    | zero => exact ⟨rfl, rfl, (PoolEntry.owned.inj (Option.some.inj h)).symm⟩
    | succ i => cases h
  | share =>
    cases i with
    | zero => cases h
    | succ i => cases h
  | _ => cases h

/-- A generator that is there after a call was there before it, or it is the copy that the call has
made. -/
theorem owned_of_call {called : ℕ} {c : Call}
    (h : (p.call called c).2.1.entries[index]? = some (.owned g)) :
    (∃ g', p.entries[index]? = some (.owned g')) ∨
      (index = p.entries.length ∧ c = .clone ∧ p.entries[called]? = some (.owned g)) := by
  by_cases howned : ∃ g', p.entries[called]? = some (.owned g')
  · obtain ⟨g', hcalled⟩ := howned
    rw [call_owned hcalled, entries_callOwned hcalled] at h
    rcases Nat.lt_or_ge index p.entries.length with hlt | hge
    · left
      by_cases heq : called = index
      · exact ⟨g', heq ▸ hcalled⟩
      · rw [List.getElem?_append_left (by rwa [List.length_set]), List.getElem?_set_ne heq] at h
        exact ⟨g, h⟩
    · right
      rw [List.getElem?_append_right (by rwa [List.length_set]), List.length_set] at h
      obtain ⟨hzero, hclone, hsame⟩ := owned_of_made h
      exact ⟨by omega, hclone, hsame ▸ hcalled⟩
  · left
    obtain ⟨cells, hentries⟩ := entries_call_of_not_owned (fun g' h' => howned ⟨g', h'⟩) c
    rw [hentries] at h
    rcases Nat.lt_or_ge index p.entries.length with hlt | hge
    · rw [List.getElem?_append_left hlt] at h
      exact ⟨g, h⟩
    · rw [List.getElem?_append_right hge, List.getElem?_map] at h
      obtain ⟨cell, -, hcell⟩ := Option.map_eq_some_iff.mp h
      cases hcell

/-- The strings that a call on a generator consumes are those that are taken for it. -/
theorem consumed_eq (h : p.entries[index]? = some (.owned g)) (c : Call) :
    p.consumed index c = (Generator.supply.draw c.requests g).1 := by
  rw [consumed, h]

/-! ## What is consumed -/

variable {a : Alphabet} {start : UInt64} {known : ℕ → List String}

/-- The generators of a pool that come from one start: what each of them or its originals have
consumed spells the numbers from the start up to its counter. -/
def Counted (a : Alphabet) (start : UInt64) (p : Pool) (trails : ℕ → List String) : Prop :=
  ∀ (index : ℕ) (g : Generator), p.entries[index]? = some (.owned g) →
    g.alphabet = a ∧ start.toNat ≤ g.count.toNat ∧
      trails index = a.spellings start.toNat (g.count.toNat - start.toNat)

/-- The generator that is called has consumed the strings of the call besides those before. -/
theorem follow_self (h : p.entries[index]? = some (.owned g)) (c : Call)
    (known : ℕ → List String) :
    p.follow index c known index = known index ++ (Generator.supply.draw c.requests g).1 := by
  have hlt : index < p.entries.length := (List.getElem?_eq_some_iff.mp h).1
  have hconsumed := consumed_eq h c
  cases c with
  | clone =>
    have hne : index ≠ p.entries.length := by omega
    have hnone : (Generator.supply.draw (Call.requests .clone) g).1 = [] := rfl
    rw [hnone, List.append_nil]
    exact Function.update_of_ne hne _ _
  | _ => rw [← hconsumed]; exact Function.update_self _ _ _

/-- The other entries have consumed nothing more. -/
theorem follow_of_ne {called : ℕ} (hne : called ≠ index) (hlt : index < p.entries.length)
    (c : Call) (known : ℕ → List String) : p.follow called c known index = known index := by
  cases c with
  | clone => exact Function.update_of_ne (Nat.ne_of_lt hlt) _ _
  | _ => exact Function.update_of_ne hne.symm _ _

/-- A call on any entry keeps count: what the entries have consumed still tells their counters. -/
theorem Counted.call (h : Counted a start p known) (called : ℕ) (c : Call) :
    Counted a start (p.call called c).2.1 (p.follow called c known) := by
  intro index g hg
  rcases owned_of_call hg with ⟨g', hbefore⟩ | ⟨hindex, rfl, hcopied⟩
  · have hafter := entries_call hbefore called c
    rw [hg] at hafter
    have hmoved := PoolEntry.owned.inj (Option.some.inj hafter)
    obtain ⟨halphabet, hstart, hspelled⟩ := h index g' hbefore
    by_cases heq : called = index
    · subst heq
      obtain ⟨count, hcount, hdraw⟩ := g'.draw_eq c.requests
      have hle := toNat_le_lastCount g'.count
      rw [if_pos rfl, hdraw] at hmoved
      rw [follow_self hbefore, hdraw, hmoved, hspelled, halphabet]
      refine ⟨rfl, by dsimp only; omega, ?_⟩
      have hfirst : g'.count.toNat = start.toNat + (g'.count.toNat - start.toNat) := by omega
      have hall : count.toNat - start.toNat = (g'.count.toNat - start.toNat) +
          min c.requests (lastCount.toNat - g'.count.toNat) := by omega
      rw [hall, ← a.spellings_append, ← hfirst]
    · have hlt : index < p.entries.length := (List.getElem?_eq_some_iff.mp hbefore).1
      rw [if_neg heq] at hmoved
      rw [follow_of_ne heq hlt, hmoved]
      exact ⟨halphabet, hstart, hspelled⟩
  · have hfollowed : p.follow called .clone known index = known called := by
      rw [hindex]
      exact Function.update_self _ _ _
    rw [hfollowed]
    exact h called g hcopied

/-- A list of calls keeps count: what the entries have consumed in the end tells their counters. -/
theorem Counted.run (h : Counted a start p known) (calls : List (ℕ × Call)) :
    Counted a start (p.after calls) (p.trails known calls) := by
  induction calls generalizing p known with
  | nil => exact h
  | cons first calls ih => exact ih (h.call first.1 first.2)

/-! ## What is answered -/

/-- A call consumes the spellings of the counter and the values above it, as many as it asks for and
as there are below the last one. -/
theorem consumed_spellings (h : p.entries[index]? = some (.owned g)) (c : Call) :
    p.consumed index c =
      g.alphabet.spellings g.count.toNat (min c.requests (lastCount.toNat - g.count.toNat)) := by
  obtain ⟨count, -, hdraw⟩ := g.draw_eq c.requests
  rw [consumed_eq h, hdraw]

/-- A call moves the counter by the strings that it asks for, up to the last value. -/
theorem entries_call_self (h : p.entries[index]? = some (.owned g)) (c : Call) :
    ∃ count : UInt64, count.toNat = min (g.count.toNat + c.requests) lastCount.toNat ∧
      (p.call index c).2.1.entries[index]? = some (.owned ⟨g.alphabet, count⟩) := by
  obtain ⟨count, hcount, hdraw⟩ := g.draw_eq c.requests
  refine ⟨count, hcount, ?_⟩
  rw [entries_call h, if_pos rfl, hdraw]

/-- What a generator answers to a call. Its next string spells the counter, except at the last
counter value, where it fails and nothing changes; to take one string is to ask for the next item. A
string behind others is there while the counter can pass them. Looking ahead and reading the counter
change nothing, and a copy is a generator in the same state. -/
def Replied (before : Pool) (index : ℕ) (g : Generator) (answer : Answer) (after : Pool) :
    Call → Prop
  | .next =>
    (g.count ≠ lastCount → answer = .string (.ok (g.alphabet.spelling g.count.toNat))) ∧
    (g.count = lastCount → answer = .string (.error (.exhausted lastCount)) ∧ after = before) ∧
    before.consumed index .next = answer.value?.toList
  | .take count =>
    answer = .strings (before.consumed index (.take count)) ∧
    (count = 1 → answer = .strings (Generator.supply.item g).1.toList)
  | .nth count =>
    (g.count.toNat + count < lastCount.toNat →
      answer = .optional (some (g.alphabet.spelling (g.count.toNat + count)))) ∧
    (lastCount.toNat ≤ g.count.toNat + count → answer = .optional none)
  | .peek =>
    after = before ∧ ∃ ahead, answer = .optional ahead ∧
      ∀ value, ahead = some value ↔ (before.call index .next).1 = .string (.ok value)
  | .counter => answer = .count (.ok g.count) ∧ after = before
  | .clone =>
    answer = .entry before.entries.length ∧
    after.entries[before.entries.length]? = some (.owned g)
  | _ => True

/-- A generator that is asked for its next string replies as told. -/
theorem replied_next (h : p.entries[index]? = some (.owned g)) :
    Replied p index g (p.call index .next).1 (p.call index .next).2.1 .next := by
  have hconsumed := consumed_spellings h .next
  have hanswer : p.call index .next = (.string g.next.1,
      { p with entries := p.entries.set index (.owned g.next.2) }, g.trace) := by
    rw [call_owned h, callOwned]
  rw [hanswer]
  by_cases hlast : g.count = lastCount
  · have hnone : min (Call.requests .next) (lastCount.toNat - g.count.toNat) = 0 := by
      rw [hlast]
      omega
    rw [Generator.next_of_eq hlast, set_owned_self h]
    refine ⟨fun hne => absurd hlast hne, fun _ => ⟨rfl, rfl⟩, ?_⟩
    rw [hconsumed, hnone]
    rfl
  · have hone : min (Call.requests .next) (lastCount.toNat - g.count.toNat) = 1 := by
      have hlt := toNat_lt_lastCount hlast
      change min 1 _ = 1
      omega
    rw [Generator.next_of_ne hlast]
    refine ⟨fun _ => rfl, fun heq => absurd heq hlast, ?_⟩
    rw [hconsumed, hone]
    rfl

/-- A generator that is asked for strings as an iterator replies as told. -/
theorem replied_take (h : p.entries[index]? = some (.owned g)) (count : ℕ) :
    Replied p index g (p.call index (.take count)).1 (p.call index (.take count)).2.1
      (.take count) := by
  have hanswer : (p.call index (.take count)).1 = .strings (Generator.supply.draw count g).1 := by
    rw [call_owned h, callOwned]
  rw [hanswer]
  refine ⟨?_, ?_⟩
  · rw [consumed_eq h]
    rfl
  · rintro rfl
    rw [Supply.draw_one]

/-- A generator that is asked for the string behind others replies as told. -/
theorem replied_nth (h : p.entries[index]? = some (.owned g)) (count : ℕ) :
    Replied p index g (p.call index (.nth count)).1 (p.call index (.nth count)).2.1
      (.nth count) := by
  have hanswer : (p.call index (.nth count)).1 = .optional (Generator.supply.nth count g).1 := by
    rw [call_owned h, callOwned]
  rw [hanswer, g.nth_eq]
  refine ⟨fun hlt => ?_, fun hge => ?_⟩
  · rw [if_pos hlt]
  · rw [if_neg (Nat.not_lt.mpr hge)]

/-- A generator that is asked to look ahead replies as told. -/
theorem replied_peek (h : p.entries[index]? = some (.owned g)) :
    Replied p index g (p.call index .peek).1 (p.call index .peek).2.1 .peek := by
  have hnext : (p.call index .next).1 = .string g.next.1 := by rw [call_owned h, callOwned]
  have hpeek : p.call index .peek = (.optional g.peek, p, []) := by rw [call_owned h, callOwned]
  rw [hpeek]
  refine ⟨rfl, g.peek, rfl, ?_⟩
  intro value
  rw [hnext, g.peek_eq_next]
  cases g.next.1 with
  | ok value' => simp [Except.toOption]
  | error failure => simp [Except.toOption]

/-- A generator answers every call as told. -/
theorem replied (h : p.entries[index]? = some (.owned g)) (c : Call) :
    Replied p index g (p.call index c).1 (p.call index c).2.1 c := by
  cases c with
  | next => exact replied_next h
  | take count => exact replied_take h count
  | nth count => exact replied_nth h count
  | peek => exact replied_peek h
  | counter =>
    rw [call_owned h, callOwned]
    exact ⟨rfl, rfl⟩
  | clone =>
    rw [call_owned h, callOwned]
    exact ⟨rfl, List.getElem?_concat_length⟩
  | _ => trivial

/-! ## Every generator for itself -/

/-- What a generator answers depends on nothing but itself, apart from where a copy is kept. -/
theorem unnumbered_call (h : p.entries[index]? = some (.owned g))
    (h' : q.entries[other]? = some (.owned g)) (c : Call) :
    (p.call index c).1.unnumbered = (q.call other c).1.unnumbered := by
  rw [call_owned h, call_owned h']
  cases c <;> rfl

/-- A generator answers as one in the same state that gets its calls and no others, and both end in
one state. -/
theorem run_own (h : p.entries[index]? = some (.owned g))
    (h' : q.entries[other]? = some (.owned g)) (calls : List (ℕ × Call)) :
    (ownAnswers index calls (p.run calls).1).map Answer.unnumbered =
        (q.run ((ownCalls index calls).map (other, ·))).1.map Answer.unnumbered ∧
      (p.after calls).entries[index]? =
        (q.after ((ownCalls index calls).map (other, ·))).entries[other]? := by
  induction calls generalizing p q g with
  | nil => exact ⟨rfl, h.trans h'.symm⟩
  | cons first calls ih =>
    obtain ⟨called, c⟩ := first
    have hstep := entries_call h called c
    by_cases heq : called = index
    · subst heq
      have hstep' := entries_call h' other c
      rw [if_pos rfl] at hstep hstep'
      obtain ⟨hanswers, hafter⟩ := ih hstep hstep'
      have hcalls : ownCalls called ((called, c) :: calls) = c :: ownCalls called calls := by
        simp [ownCalls]
      have hfirst : ownAnswers called ((called, c) :: calls) (p.run ((called, c) :: calls)).1 =
          (p.call called c).1 ::
            ownAnswers called calls ((p.call called c).2.1.run calls).1 := by
        simp [ownAnswers, run]
      rw [hcalls, hfirst, List.map_cons, List.map_cons, run, List.map_cons, hanswers,
        unnumbered_call h h']
      exact ⟨rfl, hafter⟩
    · rw [if_neg heq] at hstep
      have hcalls : ownCalls index ((called, c) :: calls) = ownCalls index calls := by
        simp [ownCalls, heq]
      have hfirst : ownAnswers index ((called, c) :: calls) (p.run ((called, c) :: calls)).1 =
          ownAnswers index calls ((p.call called c).2.1.run calls).1 := by
        simp [ownAnswers, run, heq]
      rw [hcalls, hfirst]
      exact ih hstep h'

/-- A generator is never lost, its counter never goes back, and at the last value it stays. -/
theorem entries_after (h : p.entries[index]? = some (.owned g)) (calls : List (ℕ × Call)) :
    ∃ g', (p.after calls).entries[index]? = some (.owned g') ∧ g.count.toNat ≤ g'.count.toNat ∧
      (g.count = lastCount → g' = g) := by
  induction calls generalizing p g with
  | nil => exact ⟨g, h, Nat.le_refl _, fun _ => rfl⟩
  | cons first calls ih =>
    have hstep := entries_call h first.1 first.2
    by_cases heq : first.1 = index
    · obtain ⟨count, hcount, hdraw⟩ := g.draw_eq first.2.requests
      rw [if_pos heq, hdraw] at hstep
      obtain ⟨g', hafter, hle, hstays⟩ := ih hstep
      dsimp only at hle hstays
      have hle' := toNat_le_lastCount g.count
      refine ⟨g', hafter, by omega, fun hlast => ?_⟩
      have hsame : count = g.count := by
        rw [hlast] at hcount ⊢
        exact UInt64.toNat_inj.mp (by omega)
      rw [hstays (hsame.trans hlast), hsame]
    · rw [if_neg heq] at hstep
      exact ih hstep

/-- Equal generators answer equal calls alike, whatever is called besides. -/
theorem ownAnswers_eq (h : p.entries[index]? = some (.owned g))
    (h' : q.entries[other]? = some (.owned g)) {calls calls' : List (ℕ × Call)}
    (hcalls : ownCalls index calls = ownCalls other calls') :
    (ownAnswers index calls (p.run calls).1).map Answer.unnumbered =
      (ownAnswers other calls' (q.run calls').1).map Answer.unnumbered := by
  have halone : (alone g).entries[0]? = some (.owned g) := rfl
  rw [(run_own h halone calls).1, (run_own h' halone calls').1, hcalls]

/-- A generator and its copies after any calls: each of them has consumed, without a gap, what
spells the numbers from the start up to its counter; it answers every call from its counter alone,
moves it by what it consumes and never wraps; at the last value it stays; and whatever is called
besides, it answers as if it were alone, so equal copies answer equal calls alike. -/
theorem generators_count_on (a : Alphabet) (start : UInt64) (calls : List (ℕ × Call)) (index : ℕ)
    (g : Generator) :
    let p := (alone ⟨a, start⟩).after calls
    let values := (alone ⟨a, start⟩).trails (fun _ => []) calls index
    p.entries[index]? = some (.owned g) →
      g.alphabet = a ∧ g.count.toNat = start.toNat + values.length ∧
      (∀ (j : ℕ) (hj : j < values.length), values[j] = a.spelling (start.toNat + j)) ∧
      (∀ c, Replied p index g (p.call index c).1 (p.call index c).2.1 c ∧
        p.consumed index c =
          a.spellings g.count.toNat (min c.requests (lastCount.toNat - g.count.toNat)) ∧
        ∃ count : UInt64, count.toNat = min (g.count.toNat + c.requests) lastCount.toNat ∧
          (p.call index c).2.1.entries[index]? = some (.owned ⟨a, count⟩)) ∧
      ∀ more : List (ℕ × Call),
        (∃ g', (p.after more).entries[index]? = some (.owned g') ∧
          g.count.toNat ≤ g'.count.toNat ∧ (g.count = lastCount → g' = g)) ∧
        (ownAnswers index more (p.run more).1).map Answer.unnumbered =
          ((alone g).run ((ownCalls index more).map (0, ·))).1.map Answer.unnumbered ∧
        ∀ other, p.entries[other]? = some (.owned g) → ownCalls index more = ownCalls other more →
          (ownAnswers index more (p.run more).1).map Answer.unnumbered =
            (ownAnswers other more (p.run more).1).map Answer.unnumbered := by
  intro p values hg
  have hstart : Counted a start (alone ⟨a, start⟩) fun _ => [] := by
    intro i g' hg'
    cases i with
    | zero =>
      cases hg'
      exact ⟨rfl, Nat.le_refl _, by rw [Nat.sub_self, Alphabet.spellings_zero]⟩
    | succ i => cases hg'
  obtain ⟨halphabet, hle, hspelled⟩ := hstart.run calls index g hg
  have hvalues : values = a.spellings start.toNat (g.count.toNat - start.toNat) := hspelled
  have hlength : values.length = g.count.toNat - start.toNat := by
    rw [hvalues, Alphabet.spellings, List.length_map, List.length_range']
  refine ⟨halphabet, by omega, ?_, ?_, ?_⟩
  · intro j hj
    have hget : values[j]? = some (a.spelling (start.toNat + j)) := by
      rw [hvalues, Alphabet.getElem?_spellings, if_pos (by omega)]
    exact (List.getElem?_eq_some_iff.mp hget).2
  · intro c
    refine ⟨replied hg c, ?_, ?_⟩
    · rw [consumed_spellings hg, halphabet]
    · have hmoved := entries_call_self hg c
      rw [halphabet] at hmoved
      exact hmoved
  · intro more
    exact ⟨entries_after hg more, (run_own hg rfl more).1,
      fun other hother hcalls => ownAnswers_eq hg hother hcalls⟩

/-- With two values left a generator is copied. The copy passes over both, and the original takes
them one after the other: both are at the end with the same two strings behind them, neither is
served any more, and they answer the same from then on. -/
theorem generators_count_on_exhausted :
    let calls : List (ℕ × Call) :=
      [(0, .clone), (1, .nth 1), (0, .next), (1, .nth 0), (0, .take 5), (0, .next)]
    let start := alone ⟨.pair, lastCount - 2⟩
    let p := start.after calls
    let more : List (ℕ × Call) := [(0, .peek), (1, .peek), (1, .next), (0, .next)]
    p.entries[0]? = some (.owned ⟨.pair, lastCount⟩) ∧
      p.entries[1]? = some (.owned ⟨.pair, lastCount⟩) ∧
      (start.trails (fun _ => []) calls 0).length = 2 ∧
      (start.trails (fun _ => []) calls 1).length = 2 ∧
      (p.call 1 .next).1 = .string (.error (.exhausted lastCount)) ∧
      (p.call 1 .next).2.1 = p ∧
      (ownAnswers 0 more (p.run more).1).map Answer.unnumbered =
        (ownAnswers 1 more (p.run more).1).map Answer.unnumbered := by
  intro calls start p more
  have horiginal : p.entries[0]? = some (.owned ⟨.pair, lastCount⟩) := rfl
  have hcopy : p.entries[1]? = some (.owned ⟨.pair, lastCount⟩) := rfl
  have hend : lastCount.toNat = (lastCount - 2).toNat + 2 := by decide
  obtain ⟨-, hlength, -, -, hmore⟩ := generators_count_on .pair (lastCount - 2) calls 0 _ horiginal
  obtain ⟨-, hlength', -, hcalls, -⟩ := generators_count_on .pair (lastCount - 2) calls 1 _ hcopy
  obtain ⟨hanswer, hafter⟩ := (hcalls .next).1.2.1 rfl
  change lastCount.toNat = (lastCount - 2).toNat + (start.trails (fun _ => []) calls 0).length
    at hlength
  change lastCount.toNat = (lastCount - 2).toNat + (start.trails (fun _ => []) calls 1).length
    at hlength'
  have hsame := (hmore more).2.2 1 hcopy rfl
  exact ⟨horiginal, hcopy, by omega, by omega, hanswer, hafter, hsame⟩

end SelfNamed.Pool
