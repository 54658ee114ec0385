import SelfNamed.Proofs.Generator
import SelfNamed.Shared

/-!
# Many handles, one counter

Handles on one shared generator are called in any order, so a run is a list of calls and the answers
so far are all that can be known of the state behind the lock: the counter has moved by the strings
that were handed out, and the lock is broken when a caller has died. One call keeps this, and a run
keeps it by induction. Main statement: the strings that all handles get are the spellings of
consecutive numbers until a caller dies, and after that there are none.
-/

namespace SelfNamed.Pool

/-- So many handles on one shared generator. -/
def sharing (handles : ℕ) (s : Shared) : Pool := ⟨List.replicate handles (.handle 0), [s]⟩

/-- The pool after a list of calls. -/
def after (p : Pool) : List (ℕ × Call) → Pool
  | [] => p
  | (index, c) :: rest => after (p.call index c).2.1 rest

/-- The string that an answer hands out. -/
def Answer.value? : Answer → Option String
  | .string answer => answer.toOption
  | _ => none

/-- Whether an answer tells of a new handle. -/
def Answer.opens : Answer → Bool
  | .entry _ => true
  | _ => false

/-- The strings that are handed out, in the order of the calls. -/
def handedOut (answers : List Answer) : List String := answers.filterMap Answer.value?

/-- The strings that one handle gets, in the order of its calls. -/
def received (index : ℕ) (calls : List (ℕ × Call)) (answers : List Answer) : List String :=
  handedOut (((calls.zip answers).filter fun entry => entry.1.1 = index).map Prod.snd)

/-! ## One call -/

variable {n index : ℕ} {s : Shared}

/-- An index behind all handles is not known. -/
theorem sharing_call_of_le (h : n ≤ index) (c : Call) :
    (sharing n s).call index c = (.unknown, sharing n s, []) := by
  have hnone : (sharing n s).entries[index]? = none := by
    rw [sharing, List.getElem?_eq_none_iff, List.length_replicate]
    exact h
  rw [call, hnone]

/-- A call on a handle goes to the shared generator. -/
theorem sharing_call (h : index < n) (c : Call) :
    (sharing n s).call index c = (sharing n s).callHandle 0 s c := by
  have hhandle : (sharing n s).entries[index]? = some (.handle 0) := by
    rw [sharing, List.getElem?_replicate, if_pos h]
  rw [call, hhandle]
  rfl

/-- A handle asks the generator behind the lock. -/
theorem sharing_next (h : index < n) :
    (sharing n s).call index .next = (.string s.next.1, sharing n s.next.2, s.trace) := by
  rw [sharing_call h]
  rfl

/-- A copy of a handle is a handle on the same generator. -/
theorem sharing_clone (h : index < n) :
    (sharing n s).call index .clone = (.entry n, sharing (n + 1) s, []) := by
  rw [sharing_call h]
  simp only [callHandle, push, sharing, List.length_replicate, List.replicate_succ']

/-! ## What the answers tell -/

/-- A pool after some answers: there are the handles that were made, the counter has passed the
numbers whose spellings were handed out, and the lock is broken when a caller has died. -/
def Agrees (a : Alphabet) (start : UInt64) (handles : ℕ) (earlier : List Answer) (p : Pool) :
    Prop :=
  ∃ (count : UInt64) (broken : Bool),
    p = sharing (handles + earlier.countP Answer.opens) ⟨⟨a, count⟩, broken⟩ ∧
      count.toNat = start.toNat + (handedOut earlier).length ∧
      handedOut earlier = a.spellings start.toNat (handedOut earlier).length ∧
      (broken = true ↔ Answer.died ∈ earlier)

/-- What a handle answers to a call after some answers of all handles. Until a caller has died the
next string spells the start and the number of strings handed out, except at the last counter value,
where nothing changes, and the counter is this number; after a death there is neither. -/
def Answered (a : Alphabet) (start : UInt64) (handles : ℕ) (earlier : List Answer) (before : Pool) :
    Call → Answer → Pool → Prop
  | .next, answer, after =>
    (.died ∉ earlier → start.toNat + (handedOut earlier).length ≠ lastCount.toNat →
      answer = .string (.ok (a.spelling (start.toNat + (handedOut earlier).length)))) ∧
    (.died ∉ earlier → start.toNat + (handedOut earlier).length = lastCount.toNat →
      answer = .string (.error (.exhausted lastCount)) ∧ after = before) ∧
    (.died ∈ earlier → answer = .string (.error Shared.refusal))
  | .counter, answer, _ =>
    (.died ∉ earlier → ∃ count : UInt64,
      count.toNat = start.toNat + (handedOut earlier).length ∧ answer = .count (.ok count)) ∧
    (.died ∈ earlier → answer = .count (.error Shared.refusal))
  | .clone, answer, _ => answer = .entry (handles + earlier.countP Answer.opens)
  | .die, answer, _ => .died ∉ earlier → answer = .died
  | _, answer, _ => answer = .unknown

variable {a : Alphabet} {start : UInt64} {handles : ℕ} {earlier : List Answer} {p : Pool}

/-- An answer without a string hands out nothing. -/
theorem handedOut_append_of_none {answer : Answer} (h : answer.value? = none)
    (earlier : List Answer) : handedOut (earlier ++ [answer]) = handedOut earlier := by
  rw [handedOut, List.filterMap_append, List.filterMap_cons_none h, List.filterMap_nil,
    List.append_nil, handedOut]

/-- An answer with a string hands it out behind all others. -/
theorem handedOut_append_of_some (answer : Answer) {value : String}
    (h : answer.value? = some value) (earlier : List Answer) :
    handedOut (earlier ++ [answer]) = handedOut earlier ++ [value] := by
  rw [handedOut, List.filterMap_append, List.filterMap_cons_some h, List.filterMap_nil, handedOut]

/-- An answer that hands out nothing, makes no handle and tells of no death leaves what agrees. -/
theorem Agrees.silent (h : Agrees a start handles earlier p) {answer : Answer}
    (hvalue : answer.value? = none) (hopens : answer.opens = false) (hdied : answer ≠ .died) :
    Agrees a start handles (earlier ++ [answer]) p := by
  obtain ⟨count, broken, hp, hcount, hvalues, hbroken⟩ := h
  have hhanded := handedOut_append_of_none hvalue earlier
  have hhandles : (earlier ++ [answer]).countP Answer.opens = earlier.countP Answer.opens := by
    simp [hopens]
  refine ⟨count, broken, by rw [hhandles, hp], by rw [hhanded, hcount], ?_, ?_⟩
  · rw [hhanded]
    exact hvalues
  · rw [hbroken, List.mem_append, List.mem_singleton, or_iff_left hdied.symm]

/-- A string that is handed out spells the counter, which counts on. -/
theorem Agrees.handOut {count : UInt64}
    (h : Agrees a start handles earlier
      (sharing (handles + earlier.countP Answer.opens) ⟨⟨a, count⟩, false⟩))
    (hlast : count ≠ lastCount) (hcount : count.toNat = start.toNat + (handedOut earlier).length)
    (hdied : .died ∉ earlier) :
    Agrees a start handles
      (earlier ++ [.string (.ok (a.spelling (start.toNat + (handedOut earlier).length)))])
      (sharing (handles + earlier.countP Answer.opens) ⟨⟨a, count + 1⟩, false⟩) := by
  obtain ⟨-, -, -, -, hvalues, -⟩ := h
  have hhanded := handedOut_append_of_some
    (.string (.ok (a.spelling (start.toNat + (handedOut earlier).length)))) rfl earlier
  refine ⟨count + 1, false, by simp [Answer.opens], ?_, ?_, by simp [hdied]⟩
  · rw [Generator.toNat_succ hlast, hcount, hhanded, List.length_append, List.length_singleton,
      Nat.add_assoc]
  · rw [hhanded, List.length_append, List.length_singleton, Alphabet.spellings_succ_right,
      ← hvalues]

/-- The next string of a handle: the spelling of the counter, unless a caller has died or the
counter is at its last value. -/
theorem Agrees.next (h : Agrees a start handles earlier p)
    (hindex : index < handles + earlier.countP Answer.opens) :
    Agrees a start handles (earlier ++ [(p.call index .next).1]) (p.call index .next).2.1 ∧
      Answered a start handles earlier p .next (p.call index .next).1 (p.call index .next).2.1 := by
  have hagrees := h
  obtain ⟨count, broken, rfl, hcount, hvalues, hbroken⟩ := h
  rw [sharing_next hindex]
  cases broken with
  | true =>
    have hdied : .died ∈ earlier := hbroken.mp rfl
    exact ⟨hagrees.silent rfl rfl nofun, fun hnot => absurd hdied hnot,
      fun hnot => absurd hdied hnot, fun _ => rfl⟩
  | false =>
    have hdied : .died ∉ earlier := fun hmem => Bool.false_ne_true (hbroken.mpr hmem)
    by_cases hlast : count = lastCount
    · have hnext : Shared.next ⟨⟨a, count⟩, false⟩ =
          (.error (.exhausted lastCount), ⟨⟨a, count⟩, false⟩) := by
        rw [Shared.next, if_neg Bool.false_ne_true, Generator.next_of_eq hlast]
      have hend : start.toNat + (handedOut earlier).length = lastCount.toNat := by
        rw [← hcount, hlast]
      rw [hnext]
      exact ⟨hagrees.silent rfl rfl nofun, fun _ hnot => absurd hend hnot,
        fun _ _ => ⟨rfl, rfl⟩, fun hmem => absurd hmem hdied⟩
    · have hnext : Shared.next ⟨⟨a, count⟩, false⟩ =
          (.ok (a.spelling count.toNat), ⟨⟨a, count + 1⟩, false⟩) := by
        rw [Shared.next, if_neg Bool.false_ne_true, Generator.next_of_ne hlast]
      have hend : start.toNat + (handedOut earlier).length ≠ lastCount.toNat := by
        rw [← hcount]
        exact (toNat_lt_lastCount hlast).ne
      rw [hnext, hcount]
      exact ⟨hagrees.handOut hlast hcount hdied, fun _ _ => rfl, fun _ heq => absurd heq hend,
        fun hmem => absurd hmem hdied⟩

/-- A copy of a handle is one handle more. -/
theorem Agrees.clone (h : Agrees a start handles earlier p)
    (hindex : index < handles + earlier.countP Answer.opens) :
    Agrees a start handles (earlier ++ [(p.call index .clone).1]) (p.call index .clone).2.1 ∧
      (p.call index .clone).1 = .entry (handles + earlier.countP Answer.opens) := by
  obtain ⟨count, broken, rfl, hcount, hvalues, hbroken⟩ := h
  rw [sharing_clone hindex]
  refine ⟨⟨count, broken, ?_, ?_, ?_, ?_⟩, rfl⟩
  · simp [Answer.opens, Nat.add_assoc]
  · rw [handedOut_append_of_none rfl, hcount]
  · rw [handedOut_append_of_none rfl]
    exact hvalues
  · simpa using hbroken

/-- A caller who dies is the first to break the lock or finds it broken. -/
theorem Agrees.die (h : Agrees a start handles earlier p)
    (hindex : index < handles + earlier.countP Answer.opens) :
    Agrees a start handles (earlier ++ [(p.call index .die).1]) (p.call index .die).2.1 ∧
      (.died ∉ earlier → (p.call index .die).1 = .died) := by
  have hagrees := h
  obtain ⟨count, broken, rfl, hcount, hvalues, hbroken⟩ := h
  rw [sharing_call hindex]
  cases broken with
  | true =>
    have hdied : .died ∈ earlier := hbroken.mp rfl
    exact ⟨hagrees.silent rfl rfl nofun, fun hnot => absurd hdied hnot⟩
  | false =>
    refine ⟨⟨count, true, ?_, ?_, ?_, ?_⟩, fun _ => rfl⟩
    · simp [callHandle, Answer.opens, sharing, Shared.die]
    · rw [handedOut_append_of_none rfl, hcount]
    · rw [handedOut_append_of_none rfl]
      exact hvalues
    · simp [callHandle]

/-- Reading the counter through a handle agrees with what was handed out and changes nothing. -/
theorem Agrees.counter (h : Agrees a start handles earlier p)
    (hindex : index < handles + earlier.countP Answer.opens) :
    Agrees a start handles (earlier ++ [(p.call index .counter).1]) (p.call index .counter).2.1 ∧
      Answered a start handles earlier p .counter (p.call index .counter).1
        (p.call index .counter).2.1 := by
  have hagrees := h
  obtain ⟨count, broken, rfl, hcount, hvalues, hbroken⟩ := h
  rw [sharing_call hindex]
  refine ⟨hagrees.silent rfl rfl nofun, fun hnot => ⟨count, hcount, ?_⟩, fun hdied => ?_⟩
  · have hsound : broken = false := Bool.eq_false_iff.mpr (mt hbroken.mp hnot)
    rw [hsound]
    rfl
  · rw [hbroken.mpr hdied]
    rfl

/-- A handle knows no other calls. -/
theorem Agrees.unknown (h : Agrees a start handles earlier p)
    (hindex : index < handles + earlier.countP Answer.opens) {c : Call}
    (hc : ∀ (cell : ℕ) (s : Shared), p.callHandle cell s c = (.unknown, p, [])) :
    Agrees a start handles (earlier ++ [(p.call index c).1]) (p.call index c).2.1 ∧
      (p.call index c).1 = .unknown := by
  have hagrees := h
  obtain ⟨count, broken, rfl, -⟩ := h
  rw [sharing_call hindex, hc]
  exact ⟨hagrees.silent rfl rfl nofun, rfl⟩

/-- A call keeps the agreement, and a handle answers as the answers before tell. -/
theorem Agrees.call (h : Agrees a start handles earlier p) (index : ℕ) (c : Call) :
    Agrees a start handles (earlier ++ [(p.call index c).1]) (p.call index c).2.1 ∧
      (index < handles + earlier.countP Answer.opens →
        Answered a start handles earlier p c (p.call index c).1 (p.call index c).2.1) := by
  by_cases hindex : index < handles + earlier.countP Answer.opens
  · cases c with
    | next => exact (h.next hindex).imp_right fun hanswered _ => hanswered
    | counter => exact (h.counter hindex).imp_right fun hanswered _ => hanswered
    | clone => exact (h.clone hindex).imp_right fun hanswered _ => hanswered
    | die => exact (h.die hindex).imp_right fun hanswered _ => hanswered
    | _ => exact (h.unknown hindex fun _ _ => rfl).imp_right fun hanswered _ => hanswered
  · have hagrees := h
    obtain ⟨count, broken, rfl, -⟩ := h
    rw [sharing_call_of_le (Nat.le_of_not_lt hindex)]
    exact ⟨hagrees.silent rfl rfl nofun, fun hlt => absurd hlt hindex⟩

/-! ## A run -/

/-- There is one answer to each call. -/
theorem length_run (p : Pool) (calls : List (ℕ × Call)) :
    (p.run calls).1.length = calls.length := by
  induction calls generalizing p with
  | nil => rfl
  | cons first calls ih =>
    have hlength := ih (p.call first.1 first.2).2.1
    rw [run, List.length_cons, List.length_cons, hlength]

/-- A run keeps the agreement, and every call of it is answered as the answers before tell. -/
theorem Agrees.run (h : Agrees a start handles earlier p) (calls : List (ℕ × Call)) :
    Agrees a start handles (earlier ++ (p.run calls).1) (p.after calls) ∧
      ∀ (i index : ℕ) (c : Call) (answer : Answer), calls[i]? = some (index, c) →
        (p.run calls).1[i]? = some answer →
          index < handles + (earlier ++ (p.run calls).1.take i).countP Answer.opens →
            Answered a start handles (earlier ++ (p.run calls).1.take i) (p.after (calls.take i)) c
              answer (p.after (calls.take (i + 1))) := by
  induction calls generalizing earlier p with
  | nil =>
    refine ⟨?_, nofun⟩
    rw [Pool.run, List.append_nil]
    exact h
  | cons first calls ih =>
    obtain ⟨hstep, hanswered⟩ := h.call first.1 first.2
    obtain ⟨hrun, hlater⟩ := ih hstep
    rw [Pool.run]
    dsimp only
    refine ⟨?_, ?_⟩
    · rw [List.append_cons]
      exact hrun
    · intro i index c answer hcall hanswer hindex
      cases i with
      | zero =>
        cases hcall
        cases hanswer
        rw [List.take_zero, List.append_nil] at hindex ⊢
        exact hanswered hindex
      | succ i =>
        rw [List.take_succ_cons, List.append_cons] at hindex ⊢
        exact hlater i index c answer hcall hanswer hindex

/-- A pool in which a caller has died hands out nothing. -/
theorem Agrees.value?_of_died (h : Agrees a start handles earlier p) (hdied : .died ∈ earlier)
    (index : ℕ) (c : Call) : (p.call index c).1.value? = none := by
  obtain ⟨count, broken, rfl, -, -, hbroken⟩ := h
  obtain rfl : broken = true := hbroken.mpr hdied
  by_cases hindex : index < handles + earlier.countP Answer.opens
  · rw [sharing_call hindex]
    cases c <;> rfl
  · rw [sharing_call_of_le (Nat.le_of_not_lt hindex)]
    rfl

/-- From the first death on nothing is handed out. -/
theorem Agrees.handedOut_drop (h : Agrees a start handles earlier p) (calls : List (ℕ × Call))
    {i : ℕ} (hdied : .died ∈ earlier ++ (p.run calls).1.take i) :
    handedOut ((p.run calls).1.drop i) = [] := by
  induction calls generalizing earlier p i with
  | nil =>
    rw [Pool.run, List.drop_nil]
    rfl
  | cons first calls ih =>
    obtain ⟨hstep, -⟩ := h.call first.1 first.2
    rw [Pool.run] at hdied ⊢
    dsimp only at hdied ⊢
    cases i with
    | zero =>
      rw [List.take_zero, List.append_nil] at hdied
      have hnone := h.value?_of_died hdied first.1 first.2
      have hlater := ih (i := 0) hstep (by simp [hdied])
      rw [List.drop_zero] at hlater ⊢
      rw [handedOut, List.filterMap_cons_none hnone]
      exact hlater
    | succ i =>
      rw [List.take_succ_cons, List.append_cons] at hdied
      rw [List.drop_succ_cons]
      exact ih hstep hdied

/-- What one handle gets is part of what is handed out, in the same order. -/
theorem received_sublist (index : ℕ) {calls : List (ℕ × Call)} {answers : List Answer}
    (h : answers.length ≤ calls.length) :
    (received index calls answers).Sublist (handedOut answers) := by
  have hentries : ((calls.zip answers).filter fun entry => entry.1.1 = index).Sublist
      (calls.zip answers) := List.filter_sublist
  have hanswers := hentries.map Prod.snd
  rw [List.map_snd_zip h] at hanswers
  exact hanswers.filterMap Answer.value?

/-- Handles on a shared generator, called in any order: every call is answered as `Answered` says,
so the strings handed out spell the numbers from the start on without a gap, those of one handle
come in shortlex order, and after a death there are no more. -/
theorem sharing_hands_out_once (a : Alphabet) (start : UInt64) (handles : ℕ)
    (calls : List (ℕ × Call)) :
    let p := sharing handles ⟨⟨a, start⟩, false⟩
    let answers := (p.run calls).1
    let values := handedOut answers
    (∀ (i index : ℕ) (c : Call) (answer : Answer), calls[i]? = some (index, c) →
      answers[i]? = some answer → index < handles + (answers.take i).countP Answer.opens →
        Answered a start handles (answers.take i) (p.after (calls.take i)) c answer
          (p.after (calls.take (i + 1)))) ∧
    answers.length = calls.length ∧
    values = a.spellings start.toNat values.length ∧
    start.toNat + values.length ≤ lastCount.toNat ∧ values.Nodup ∧
    (∀ index, (received index calls answers).Pairwise a.Before) ∧
    (∀ i, .died ∈ answers.take i → values = handedOut (answers.take i)) ∧
    Shared.refusal.code = .broken := by
  intro p answers values
  have hstart : Agrees a start handles [] p := ⟨start, false, rfl, rfl, rfl, by simp⟩
  obtain ⟨⟨count, broken, -, hcount, hvalues, -⟩, hanswered⟩ := hstart.run calls
  have hlength : answers.length = calls.length := p.length_run calls
  have hall : values = a.spellings start.toNat values.length := hvalues
  have hspelled : a.SpelledFrom start.toNat values := by
    rw [hall]
    exact Alphabet.spelledFrom_spellings start.toNat values.length
  have hbound := toNat_le_lastCount count
  refine ⟨hanswered, hlength, hall, ?_, hspelled.nodup, fun index => ?_, fun i hdied => ?_, rfl⟩
  · rw [hcount] at hbound
    exact hbound
  · exact hspelled.pairwise_before.sublist (received_sublist index hlength.le)
  · have hrest := hstart.handedOut_drop calls hdied
    have hsplit : values = handedOut (answers.take i) ++ handedOut (answers.drop i) := by
      rw [handedOut, handedOut, ← List.filterMap_append, List.take_append_drop]
      rfl
    rw [hsplit, hrest, List.append_nil]

/-- Two handles with one value left: one gets it, the other meets the end of the counter and makes a
third, the first dies, and neither the second nor a copy of the third is served any more. -/
theorem sharing_hands_out_once_broken :
    let p := sharing 2 ⟨⟨.pair, lastCount - 1⟩, false⟩
    let calls : List (ℕ × Call) := [(0, .next), (1, .next), (1, .clone), (2, .counter), (0, .die),
      (1, .counter), (2, .clone), (3, .next)]
    let answers := (p.run calls).1
    ∃ second fifth sixth eighth, answers[1]? = some second ∧ answers[4]? = some fifth ∧
      answers[5]? = some sixth ∧ answers[7]? = some eighth ∧
      second = .string (.error (.exhausted lastCount)) ∧
      p.after (calls.take 2) = p.after (calls.take 1) ∧ fifth = .died ∧
      sixth = .count (.error Shared.refusal) ∧ eighth = .string (.error Shared.refusal) ∧
      handedOut answers = handedOut (answers.take 5) := by
  intro p calls answers
  obtain ⟨hanswered, -, -, -, -, -, hafter, -⟩ :=
    sharing_hands_out_once .pair (lastCount - 1) 2 calls
  have hlast : (lastCount - 1).toNat + 1 = lastCount.toNat := by decide
  have htake : answers.take 5 = [.string (.ok (Alphabet.pair.spelling (lastCount - 1).toNat)),
    .string (.error (.exhausted lastCount)), .entry 2, .count (.ok lastCount), .died] := rfl
  have hsound : .died ∉ answers.take 1 ∧ .died ∉ answers.take 4 := by
    constructor
    · change .died ∉ (answers.take 5).take 1
      rw [htake]
      simp
    · change .died ∉ (answers.take 5).take 4
      rw [htake]
      simp
  have hdied : .died ∈ answers.take 5 := by rw [htake]; simp
  have hdied' : .died ∈ answers.take 7 := List.mem_of_mem_take (i := 5) hdied
  have hsecond := (hanswered 1 1 .next _ rfl rfl (by decide)).2.1 hsound.1 hlast
  have hfifth := hanswered 4 0 .die _ rfl rfl (by decide) hsound.2
  have hsixth := (hanswered 5 1 .counter _ rfl rfl (by decide)).2 hdied
  have heighth := (hanswered 7 3 .next _ rfl rfl (by decide)).2.2 hdied'
  exact ⟨_, _, _, _, rfl, rfl, rfl, rfl, hsecond.1, hsecond.2, hfifth, hsixth, heighth,
    hafter 5 hdied⟩

end SelfNamed.Pool
