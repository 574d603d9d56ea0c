import Waveplay.Lib.Runs
import Waveplay.RaopPlay.MainLoop

/-! # The blocks that `main` sends

When `auds_get_next_sample` fails, `main` closes the source, but goes on to `raopcl_send_sample` with what
`buf` and `size` are left at.

* `stepCalls`: a step with the calls that `main` makes; `stepCalls_fst` says that it is a step.
* `sent_eq_returned_iff`: the blocks sent are the blocks returned exactly if no call of
  `auds_get_next_sample` fails. -/

namespace Waveplay.RaopPlay.SentBlocks

open Waveplay.Lib.Runs Waveplay.RaopPlay.RaopClient Waveplay.RaopPlay.MainLoop

/-! ### Calls -/

/-- A call of `auds_get_next_sample`, with the block it returns or without, or of `raopcl_send_sample`. -/
inductive Call
  | returned (block : List UInt8)
  | failed
  | sent (block : List UInt8)
  deriving DecidableEq, Repr

/-- The call that gives the sample. -/
def callOf : Sample → Call
  | .ok bytes => .returned bytes
  | .failed _ => .failed

section

variable (aes : Block → Block)

/-- The case `NO_PAUSE`, with the calls. -/
def playNextCalls (p : Player) (i : Input) : Player × List Call :=
  let out := p.pollNextSample i.pollAgain
  if !out.1 then ({ out.2.setPause .nodataPause i.time with pc := .top }, [])
  else
    let out := (out.2.sampled i.sample).send aes i.alloc i.sample.bytes
    ({ out.2 with pc := if out.1 then .wait else .top }, [callOf i.sample, .sent i.sample.bytes])

/-- **One step of the main loop** with the calls that `main` makes. -/
def stepCalls (p : Player) (i : Input) : Option (Player × List Call) :=
  match p.pc with
  | .done => none
  | .wait => (step aes p i).map fun p' => (p', [])
  | .top =>
    if !i.activated then some ({ p with pc := .done }, [])
    else if p.auds = none then some (p.checkEvents aes i, [])
    else
      match p.raopcl.pause with
      | .opPause => some (p.checkEvents aes i, [])
      | .nodataPause =>
        let out := p.pollNextSample i.poll
        if out.1 then some (playNextCalls aes (out.2.setPause .noPause i.time) i)
        else some (out.2.checkEvents aes i, [])
      | .noPause => some (playNextCalls aes p i)

/-- The step on a log. -/
def stepLog (s : Player × List Call) (i : Input) : Option (Player × List Call) :=
  (stepCalls aes s.1 i).map fun (p, calls) => (p, s.2 ++ calls)

end

/-- The blocks passed to `raopcl_send_sample`, in order. -/
def sent (log : List Call) : List (List UInt8) :=
  log.filterMap fun
    | .sent block => some block
    | _ => none

/-- The blocks that `auds_get_next_sample` returned, in order. -/
def returned (log : List Call) : List (List UInt8) :=
  log.filterMap fun
    | .returned block => some block
    | _ => none

/-- The condition on a step: `auds_get_next_sample` succeeds if it is called. -/
def Succeeds (p : Player) (i : Input) : Prop := p.GetsSample i → ∃ bytes, i.sample = .ok bytes

/-! ### The calls of a step -/

section

variable {aes : Block → Block} {p : Player} {i : Input}

theorem playNextCalls_fst : (playNextCalls aes p i).1 = p.playNext aes i := by
  unfold playNextCalls Player.playNext
  dsimp only
  split_ifs <;> rfl

/-- The calls are a refinement of the step. -/
theorem stepCalls_fst : (stepCalls aes p i).map Prod.fst = step aes p i := by
  unfold stepCalls step
  cases hpc : p.pc with
  | done => rfl
  | wait => simp only [Option.map_some]
  | top =>
    cases hpause : p.raopcl.pause with
    | opPause =>
      simp only
      split_ifs <;> rfl
    | nodataPause =>
      simp only
      split_ifs
      · rfl
      · rfl
      · rw [Option.map_some, playNextCalls_fst]
      · rfl
    | noPause =>
      simp only
      split_ifs
      · rfl
      · rfl
      · rw [Option.map_some, playNextCalls_fst]

theorem stepCalls_step {p' : Player} {calls : List Call} (h : stepCalls aes p i = some (p', calls)) :
    step aes p i = some p' := by
  rw [← stepCalls_fst, h]
  rfl

/-- What `main` calls in a step: both functions with the sample, or none. -/
inductive Calls (p : Player) (i : Input) (calls : List Call) : Prop
  | both (hp : p.GetsSample i) (h : calls = [callOf i.sample, .sent i.sample.bytes])
  | none (hp : ¬ p.GetsSample i) (h : calls = [])

theorem playNextCalls_snd (q : Player) : (playNextCalls aes q i).2 =
    if i.pollAgain = .pollin then [callOf i.sample, .sent i.sample.bytes] else [] := by
  have hready := pollNextSample_ready q i.pollAgain
  unfold playNextCalls
  dsimp only
  by_cases hpoll : i.pollAgain = .pollin
  · rw [if_neg (by simp [hready.mpr hpoll]), if_pos hpoll]
  · rw [if_pos (by simpa using mt hready.mp hpoll), if_neg hpoll]

theorem calls_of_plays (hp : p.Plays i) (q : Player) : Calls p i (playNextCalls aes q i).2 := by
  rw [playNextCalls_snd]
  split_ifs with hpoll
  · exact .both ⟨hp, hpoll⟩ rfl
  · exact .none (fun hc => hpoll hc.ready) rfl

theorem calls_of_not_plays (hp : ¬ p.Plays i) : Calls p i [] := .none (fun hc => hp hc.toPlays) rfl

theorem stepCalls_calls {p' : Player} {calls : List Call} (h : stepCalls aes p i = some (p', calls)) :
    Calls p i calls := by
  unfold stepCalls at h
  cases hpc : p.pc with
  | done =>
    rw [hpc] at h
    cases h
  | wait =>
    rw [hpc] at h
    obtain ⟨q, -, heq⟩ := Option.map_eq_some_iff.mp h
    obtain ⟨-, rfl⟩ := Prod.mk.inj heq
    refine calls_of_not_plays fun hc => ?_
    rw [hc.pc] at hpc
    cases hpc
  | top =>
    rw [hpc] at h
    by_cases hact : (!i.activated) = true
    · simp only [if_pos hact] at h
      obtain ⟨-, rfl⟩ := Prod.mk.inj (Option.some.inj h)
      exact calls_of_not_plays fun hc => by simp [hc.activated] at hact
    by_cases hnone : p.auds = none
    · simp only [if_neg hact, if_pos hnone] at h
      obtain ⟨-, rfl⟩ := Prod.mk.inj (Option.some.inj h)
      refine calls_of_not_plays fun hc => ?_
      have hsome := hc.auds
      rw [hnone] at hsome
      cases hsome
    have hactive : i.activated = true := by simpa using hact
    have hsome : p.auds.isSome := Option.isSome_iff_ne_none.mpr hnone
    simp only [if_neg hact, if_neg hnone] at h
    cases hpause : p.raopcl.pause with
    | opPause =>
      simp only [hpause] at h
      obtain ⟨-, rfl⟩ := Prod.mk.inj (Option.some.inj h)
      refine calls_of_not_plays fun hc => ?_
      rcases hc.pause with hc | ⟨hc, -⟩
      · rw [hpause] at hc
        cases hc
      · rw [hpause] at hc
        cases hc
    | nodataPause =>
      simp only [hpause] at h
      split_ifs at h with hpoll
      · obtain rfl := (Prod.mk.inj (Option.some.inj h)).2
        exact calls_of_plays ⟨hpc, hactive, hsome, .inr ⟨hpause, (pollNextSample_ready ..).mp hpoll⟩⟩ _
      · obtain ⟨-, rfl⟩ := Prod.mk.inj (Option.some.inj h)
        refine calls_of_not_plays fun hc => ?_
        rcases hc.pause with hc | ⟨-, hc⟩
        · rw [hpause] at hc
          cases hc
        · exact hpoll ((pollNextSample_ready ..).mpr hc)
    | noPause =>
      simp only [hpause] at h
      obtain rfl := (Prod.mk.inj (Option.some.inj h)).2
      exact calls_of_plays ⟨hpc, hactive, hsome, .inl hpause⟩ p

/-! ### The log of a run -/

theorem sent_append (l l' : List Call) : sent (l ++ l') = sent l ++ sent l' := List.filterMap_append

theorem returned_append (l l' : List Call) : returned (l ++ l') = returned l ++ returned l' :=
  List.filterMap_append

/-- **One step**: what is sent is what was returned, or there is more of it. -/
theorem Calls.sent_returned {calls : List Call} (h : Calls p i calls) :
    (Succeeds p i → sent calls = returned calls) ∧
      (¬ Succeeds p i → (sent calls).length = (returned calls).length + 1) ∧
      (returned calls).length ≤ (sent calls).length := by
  cases h with
  | both hp hcalls =>
    subst hcalls
    cases hsample : i.sample with
    | ok bytes => exact ⟨fun _ => rfl, fun hc => absurd (fun _ => ⟨bytes, hsample⟩) hc, Nat.le_refl 1⟩
    | failed bytes =>
      refine ⟨fun hc => ?_, fun _ => rfl, Nat.zero_le _⟩
      obtain ⟨bytes', hok⟩ := hc hp
      rw [hsample] at hok
      cases hok
  | none hp hcalls =>
    subst hcalls
    exact ⟨fun _ => rfl, fun hc => absurd (fun hgets => absurd hgets hp) hc, Nat.le_refl 0⟩

theorem run_stepLog : ∀ {is : List Input} {p p' : Player} {l l' : List Call},
    run (stepLog aes) (p, l) is = some (p', l') → ∃ calls, l' = l ++ calls ∧
      (returned calls).length ≤ (sent calls).length ∧
      (sent calls = returned calls ↔ AllSteps (step aes) Succeeds p is)
  | [], p, p', l, l', h => by
    obtain ⟨-, rfl⟩ := Prod.mk.inj (Option.some.inj h)
    exact ⟨[], (List.append_nil _).symm, Nat.le_refl 0, fun _ => trivial, fun _ => rfl⟩
  | i :: is, p, p', l, l', h => by
    obtain ⟨⟨q, m⟩, hstep, hrun⟩ := run_cons_eq_some.mp h
    obtain ⟨⟨q', calls⟩, hcalls, heq⟩ := Option.map_eq_some_iff.mp hstep
    obtain ⟨rfl, rfl⟩ := Prod.mk.inj heq
    obtain ⟨rest, rfl, hle, hiff⟩ := run_stepLog hrun
    obtain ⟨hsame, hmore, hle'⟩ := (stepCalls_calls hcalls).sent_returned
    have hplain := stepCalls_step hcalls
    refine ⟨calls ++ rest, List.append_assoc .., ?_, ?_⟩
    · rw [sent_append, returned_append, List.length_append, List.length_append]
      omega
    · rw [sent_append, returned_append]
      constructor
      · intro heq'
        have hC : Succeeds p i := by
          by_contra hC
          have hlength := congrArg List.length heq'
          have hone := hmore hC
          rw [List.length_append, List.length_append] at hlength
          omega
        rw [hsame hC] at heq'
        exact allSteps_cons hC hplain (hiff.mp (List.append_cancel_left heq'))
      · rintro ⟨hC, hrest⟩
        rw [hsame hC, hiff.mpr (hrest q' hplain)]

end

/-- **Blocks sent and blocks returned** by a run are the same exactly if no call of `auds_get_next_sample`
fails. -/
theorem sent_eq_returned_iff (aes : Block → Block) {p p' : Player} {is : List Input} {log : List Call}
    (h : run (stepLog aes) (p, []) is = some (p', log)) :
    sent log = returned log ↔ AllSteps (step aes) Succeeds p is := by
  obtain ⟨calls, rfl, -, hiff⟩ := run_stepLog h
  exact hiff

/-- A player with a song open. -/
def playing : Player where
  session := { raopcl := { iv := fun _ => 0, nv := fun _ => 0, sfd := 5 } }
  auds := some 7

/-- A sample is ready. -/
def ready (sample : Sample) : Input := { pollAgain := .pollin, sample }

/-- A block of seventeen bytes is written. -/
def written : Input := { sample := .ok [], events := { written := some 17 } }

/-- Two samples, the first of which is written before the second is read. -/
theorem sent_two : ∃ p log, run (stepLog id) (playing, []) [ready (.ok [1]), written, ready (.ok [2])] =
    some (p, log) ∧ sent log = returned log := by
  have hok : AllSteps (step id) Succeeds playing [ready (.ok [1]), written, ready (.ok [2])] :=
    ⟨fun _ => ⟨[1], rfl⟩, fun _ _ => ⟨fun _ => ⟨[], rfl⟩,
      fun _ _ => ⟨fun _ => ⟨[2], rfl⟩, fun _ _ => trivial⟩⟩⟩
  exact ⟨_, _, rfl, (@sent_eq_returned_iff id playing _ _ _ rfl).mpr hok⟩

/-- The second call fails: the block in `buf` is sent once more. -/
theorem sent_twice : ∃ p log,
    run (stepLog id) (playing, []) [ready (.ok [1]), written, ready (.failed [1])] = some (p, log) ∧
      returned log = [[1]] ∧ sent log = [[1], [1]] :=
  ⟨_, _, rfl, by decide, by decide⟩

end Waveplay.RaopPlay.SentBlocks
