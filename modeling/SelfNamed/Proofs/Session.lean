import SelfNamed.Proofs.Acceptance

/-!
# Sessions

Several modules take their strings from one generator. A module that is rejected leaves the counter
where it is, one that fails leaves it at its last value, and one that succeeds moves it by the
strings that it got. So each module starts above all values that were spelled before it. Main
statement: no two texts that the reports of a session tell are equal, and they come in shortlex
order.
-/

namespace SelfNamed

namespace Shrunk

variable {σ : Type}

/-- How many strings the module of a text needs; none when the text is rejected. -/
def needed (text : String) : ℕ :=
  ((moduleOf? text).map fun program => (Program.placesOf program).length).getD 0

/-- The texts that the reports of a session tell, in their order. -/
def reported (calls : List (Except Failure Shrunk × σ)) : List String :=
  calls.flatMap fun call =>
    match call.1 with
    | .ok shrunk => shrunk.report.values
    | .error _ => []

/-- A module on a generator over an alphabet: its text, the counter before it, what comes of it and
the generator after it. -/
structure Called (a : Alphabet) (text : String) (before : UInt64) (result : Except Failure Shrunk)
    (after : Generator) : Prop where
  /-- The symbols stay. -/
  alphabet : after.alphabet = a
  /-- The counter moves by the strings that are needed, but not past its last value. -/
  count : after.count.toNat = min (before.toNat + needed text) lastCount.toNat
  /-- What is not accepted is rejected. -/
  rejected : (¬ ∃ program, Accepts text program) → ∃ message, result = .error (.tree message)
  /-- What is accepted succeeds exactly when the counter can be moved so far. -/
  succeeds_iff : (∃ shrunk, result = .ok shrunk) ↔
    (∃ program, Accepts text program) ∧ before.toNat + needed text ≤ lastCount.toNat
  /-- A success reports the spellings of the values that the counter has passed. -/
  values : ∀ shrunk, result = .ok shrunk →
    shrunk.report.values = a.spellings before.toNat (needed text)

/-- Whatever a text is, shrinking it with a generator is one call as described. -/
theorem called_ofText (text : String) (g : Generator) :
    Called g.alphabet text g.count (ofText Generator.supply text g).1
      (ofText Generator.supply text g).2.1 := by
  cases hmodule : moduleOf? text with
  | none =>
    have hneeded : needed text = 0 := by rw [needed, hmodule]; rfl
    have hle := toNat_le_lastCount g.count
    have hnot := not_accepts_iff.mpr hmodule
    obtain ⟨message, htext⟩ := ofText_of_rejected Generator.supply hmodule g
    rw [htext]
    refine ⟨rfl, ?_, fun _ => ⟨message, rfl⟩, ⟨nofun, fun h => absurd h.1 hnot⟩, nofun⟩
    rw [hneeded]
    dsimp only
    omega
  | some program =>
    have hneeded : needed text = (Program.placesOf program).length := by rw [needed, hmodule]; rfl
    have haccepts : ∃ program, Accepts text program := ⟨program, accepts_iff.mpr hmodule⟩
    obtain ⟨shrunk, count, log, hcount, hvalues, htext⟩ := ofText_generator hmodule g
    rw [← hneeded] at hcount htext
    rw [htext]
    refine ⟨rfl, hcount, fun hnot => absurd haccepts hnot, ?_, ?_⟩
    · dsimp only
      split
      · next hbound => exact ⟨fun _ => ⟨haccepts, hbound⟩, fun _ => ⟨shrunk, rfl⟩⟩
      · next hbound => exact ⟨nofun, fun h => absurd h.2 hbound⟩
    · intro made hmade
      dsimp only at hmade
      split at hmade
      · next hbound =>
        obtain rfl := Except.ok.inj hmade
        have hpassed : count.toNat - g.count.toNat = needed text := by omega
        rw [hvalues, hpassed]
      · cases hmade

/-- What is not accepted leaves the counter where it is. -/
theorem Called.count_of_rejected {a : Alphabet} {text : String} {before : UInt64}
    {result : Except Failure Shrunk} {after : Generator} (h : Called a text before result after)
    (hnot : ¬ ∃ program, Accepts text program) : after.count = before := by
  have hneeded : needed text = 0 := by rw [needed, not_accepts_iff.mp hnot]; rfl
  have hle := toNat_le_lastCount before
  have hcount := h.count
  rw [hneeded, Nat.add_zero, Nat.min_eq_left hle] at hcount
  exact UInt64.toNat_inj.mp hcount

/-- There is one entry for each text. -/
theorem length_session (supply : Supply σ) (texts : List String) (source : σ) :
    (session supply texts source).length = texts.length := by
  induction texts generalizing source with
  | nil => rfl
  | cons text texts ih => rw [session, List.length_cons, List.length_cons, ih]

/-- An entry of a session is what comes of its text on the state of the source before it. -/
theorem session_getElem? (supply : Supply σ) {texts : List String} {source : σ} {i : ℕ}
    {text : String} {before : σ} {call : Except Failure Shrunk × σ} (htext : texts[i]? = some text)
    (hbefore : (source :: (session supply texts source).map Prod.snd)[i]? = some before)
    (hcall : (session supply texts source)[i]? = some call) :
    call = ((ofText supply text before).1, (ofText supply text before).2.1) := by
  induction texts generalizing source i with
  | nil => cases htext
  | cons first texts ih =>
    rw [session] at hbefore hcall
    cases i with
    | zero =>
      cases htext
      cases hbefore
      cases hcall
      rfl
    | succ i => exact ih htext hbefore hcall

/-- A session on a generator keeps its alphabet. -/
theorem alphabet_of_mem_session {texts : List String} {g : Generator}
    {call : Except Failure Shrunk × Generator} (h : call ∈ session Generator.supply texts g) :
    call.2.alphabet = g.alphabet := by
  induction texts generalizing g with
  | nil => cases h
  | cons text texts ih =>
    have halphabet := (called_ofText text g).alphabet
    rw [session] at h
    rcases List.mem_cons.mp h with rfl | hlater
    · exact halphabet
    · exact (ih hlater).trans halphabet

/-- What a session reports are spellings of increasing values, from the first counter on. -/
theorem spelledFrom_session (texts : List String) (g : Generator) :
    g.alphabet.SpelledFrom g.count.toNat (reported (session Generator.supply texts g)) := by
  induction texts generalizing g with
  | nil => exact Alphabet.spelledFrom_nil _
  | cons text texts ih =>
    have hcalled := called_ofText text g
    have hlater := ih (ofText Generator.supply text g).2.1
    have hle := toNat_le_lastCount g.count
    rw [hcalled.alphabet, hcalled.count] at hlater
    rw [session, reported, List.flatMap_cons]
    cases hresult : (ofText Generator.supply text g).1 with
    | error failure => exact hlater.mono (by omega)
    | ok shrunk =>
      have hvalues := hcalled.values shrunk hresult
      have hbound := (hcalled.succeeds_iff.mp ⟨shrunk, hresult⟩).2
      rw [Nat.min_eq_left hbound] at hlater
      dsimp only
      rw [hvalues]
      exact hlater.spellings_append

/-- In a session on a generator every module starts at the counter that the one before it left, with
the same alphabet, and moves it as `Called` says. The texts that all reports tell come in shortlex
order, and no two of them are equal, whatever fails in between. -/
theorem session_never_reuses (texts : List String) (a : Alphabet) (start : UInt64) :
    let calls := session Generator.supply texts ⟨a, start⟩
    let counters := start :: calls.map fun call => call.2.count
    calls.length = texts.length ∧
      (∀ (i : ℕ) (text : String) (before : UInt64) (call : Except Failure Shrunk × Generator),
        texts[i]? = some text → counters[i]? = some before → calls[i]? = some call →
          Called a text before call.1 call.2) ∧
      (reported calls).Pairwise a.Before ∧ (reported calls).Nodup := by
  intro calls counters
  have hspelled := spelledFrom_session texts ⟨a, start⟩
  refine ⟨length_session _ _ _, ?_, hspelled.pairwise_before, hspelled.nodup⟩
  intro i text before call htext hbefore hcall
  have hcounters : counters = ((⟨a, start⟩ :: calls.map Prod.snd : List Generator)).map
      Generator.count := by
    rw [List.map_cons, List.map_map]
    rfl
  rw [hcounters, List.getElem?_map] at hbefore
  obtain ⟨g, hg, rfl⟩ := Option.map_eq_some_iff.mp hbefore
  have halphabet : g.alphabet = a := by
    rcases List.mem_cons.mp (List.mem_of_getElem? hg) with rfl | hmem
    · rfl
    · obtain ⟨earlier, hearlier, rfl⟩ := List.mem_map.mp hmem
      exact alphabet_of_mem_session hearlier
  have hcalled := called_ofText text g
  rw [session_getElem? Generator.supply htext hg hcall, ← halphabet]
  exact hcalled

/-- The text of a program without statements. -/
def emptyText : String := "\x7b\"type\":\"Program\",\"body\":[]\x7d"

/-- The text means a program that needs no strings. -/
theorem accepts_emptyText : (∃ program, Accepts emptyText program) ∧ needed emptyText = 0 := by
  have hmodule : moduleOf? emptyText =
      some (.obj [("body", .arr []), ("type", .str "Program")]) := by
    rw [moduleOf?, emptyText, String.toList_ofList]
    rfl
  refine ⟨⟨_, accepts_iff.mpr hmodule⟩, ?_⟩
  rw [needed, hmodule]
  rfl

/-- With three values left: a text that is cut, a module of two exports, a value that is no module,
a module that gets one string and fails, and a module without exports. -/
theorem session_never_reuses_exhausted :
    let calls := session Generator.supply ["[", oddText, "[]", oddText, emptyText]
      ⟨.pair, lastCount - 3⟩
    (reported calls).Nodup ∧ ∃ first second third fourth fifth,
      calls = [first, second, third, fourth, fifth] ∧
      (∃ message, first.1 = .error (.tree message)) ∧
      (∃ shrunk, second.1 = .ok shrunk ∧
        shrunk.report.values = Alphabet.pair.spellings (2 ^ 64 - 4) 2) ∧
      (∃ message, third.1 = .error (.tree message)) ∧
      (¬ ∃ shrunk, fourth.1 = .ok shrunk) ∧ fourth.2.count.toNat = 2 ^ 64 - 1 ∧
      ∃ shrunk, fifth.1 = .ok shrunk ∧ shrunk.report.values = [] := by
  intro calls
  have hcut : ¬ ∃ program, Accepts "[" program := not_accepts_iff.mpr rfl
  have hlist : ¬ ∃ program, Accepts "[]" program := not_accepts_iff.mpr rfl
  have hodd : ∃ program, Accepts oddText program := ⟨_, accepts_oddText⟩
  have htwo : needed oddText = 2 := by rw [needed, accepts_iff.mp accepts_oddText]; rfl
  obtain ⟨hempty, hzero⟩ := accepts_emptyText
  have hstart : (lastCount - 3).toNat = 2 ^ 64 - 4 := by decide
  have hlast := toNat_lastCount
  obtain ⟨hlength, hcalled, -, hnodup⟩ : calls.length = 5 ∧ _ := session_never_reuses
    ["[", oddText, "[]", oddText, emptyText] Alphabet.pair (lastCount - 3)
  change ∀ i text before call, _ →
    ((lastCount - 3) :: calls.map fun call => call.2.count)[i]? = _ → calls[i]? = _ → _ at hcalled
  refine ⟨hnodup, ?_⟩
  clear_value calls
  match calls, hlength with
  | [first, second, third, fourth, fifth], _ =>
    have hfirst := hcalled 0 _ _ _ rfl rfl rfl
    have hsecond := hcalled 1 _ first.2.count _ rfl rfl rfl
    have hthird := hcalled 2 _ second.2.count _ rfl rfl rfl
    have hfourth := hcalled 3 _ third.2.count _ rfl rfl rfl
    have hfifth := hcalled 4 _ fourth.2.count _ rfl rfl rfl
    rw [hfirst.count_of_rejected hcut] at hsecond
    rw [hthird.count_of_rejected hlist] at hfourth
    have hmoved := hsecond.count
    have hended := hfourth.count
    have hbound := hsecond.succeeds_iff.mpr
    rw [htwo, hstart, hlast] at hmoved hbound
    rw [htwo, hlast] at hended
    obtain ⟨made, hmade⟩ := hbound ⟨hodd, by omega⟩
    have hvalues := hsecond.values made hmade
    rw [htwo, hstart] at hvalues
    obtain ⟨last, hlater⟩ := hfifth.succeeds_iff.mpr
      ⟨hempty, by rw [hzero]; exact toNat_le_lastCount _⟩
    have hnone := hfifth.values last hlater
    rw [hzero] at hnone
    refine ⟨_, _, _, _, _, rfl, hfirst.rejected hcut, ⟨made, hmade, hvalues⟩,
      hthird.rejected hlist, ?_, by omega, ⟨last, hlater, hnone⟩⟩
    intro hmore
    have hmore := (hfourth.succeeds_iff.mp hmore).2
    rw [htwo, hlast] at hmore
    omega

end Shrunk

end SelfNamed
