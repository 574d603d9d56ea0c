import Waveplay.RaopHelper.Streaming

/-! # The audio is diverted only while a stream is active

`threadLoop_write` takes the socket path when the switch is not `0` after it has read the file. The
file is switched on by `notifyReady`, at whatever time the native player gets there, and
`onPostExecute` does not switch it off: the letter it writes leaves the switch as it was. `SwitchCond`
says when these two calls do no harm, and `diverts_only_active` that nothing else does. -/

namespace Waveplay.RaopHelper.Diversion

open Waveplay.Lib.Runs Waveplay.AudioFlinger.ThreadLoopWrite Waveplay.RaopHelper.Streaming

/-- Some address is marked true. -/
def Active (s : State) : Prop := ∃ a, s.raopSwitches a = some true

/-- The value the switch has once the audio server has read the file. -/
def nextSwitch (s : State) : ℤ := (fscanfD s.switchFile).getD s.flinger.dumpSwitch

/-- The call takes the socket path: the switch is not `0` after the file is read. -/
def Diverts (s : State) (c : Call) : Prop := (readSwitch s.flinger c).1.dumpSwitch ≠ 0

instance (s : State) (c : Call) : Decidable (Diverts s c) := by unfold Diverts; infer_instance

/-- The calls after which a diversion stays justified: the player reports ready while a stream is
active, and a task ends while another stream is active or the switch is off already. -/
def SwitchCond (s : State) : Event → Prop
  | .notifyReady true => Active s
  | .onPostExecute t =>
    (∃ a, a ≠ t.address ∧ s.raopSwitches a = some true) ∨ s.flinger.dumpSwitch = 0
  | _ => True

/-- With no stream active the audio server reads a `0`. -/
structure SwitchInv (s : State) : Prop where
  off : ¬ Active s → nextSwitch s = 0
  /-- the texts written are single characters, so the watchdog replaces the whole text -/
  short : s.switchFile.length ≤ 1

/-- Once the audio server has read the file, it reads the same value again. -/
theorem readSwitch_nextSwitch {s : State} (hs : s.switchFile.length ≤ 1) (socket connect send sink : ℤ) :
    let r := readSwitch s.flinger (s.call socket connect send sink)
    (r.1.dumpSwitch = 0 ∨ r.1.dumpSwitch = nextSwitch s) ∧ r.2.1.length ≤ 1 ∧
      (fscanfD r.2.1).getD r.1.dumpSwitch = r.1.dumpSwitch := by
  unfold readSwitch
  split_ifs with hw
  · -- the watchdog leaves the text `0`, since the text before had at most one character
    have ht : s.switchFile.tail = [] := by
      rw [← List.length_eq_zero_iff, List.length_tail]; omega
    have hf : fprintfZero s.switchFile = ['0'] := by rw [fprintfZero, ht]
    refine ⟨Or.inl rfl, ?_, ?_⟩
    · show (fprintfZero s.switchFile).length ≤ 1
      simp [hf]
    · show (fscanfD (fprintfZero s.switchFile)).getD 0 = 0
      rw [hf]; rfl
  · refine ⟨Or.inr rfl, hs, ?_⟩
    simp only [State.call]
    cases fscanfD s.switchFile <;> rfl

/-- **Every call meeting the condition keeps the invariant.** -/
theorem switchInv_step {s s' : State} {e : Event} (hs : SwitchInv s) (hC : SwitchCond s e)
    (h : step s e = some s') : SwitchInv s' := by
  obtain ⟨hoff, hshort⟩ := hs
  cases moves_of_step h with
  | startStreaming a => exact ⟨hoff, hshort⟩
  | stopStreaming a => exact ⟨fun _ => rfl, Nat.le_refl 1⟩
  | onPostExecute ht =>
    refine ⟨fun hna => ?_, Nat.le_refl 1⟩
    rcases hC with ⟨a, hne, ha⟩ | h0
    · refine absurd ⟨a, ?_⟩ hna
      simpa [State.onPostExecute, State.putSwitch, State.setRaopSwitch, hne] using ha
    · exact h0
  | @doInBackground t queue hr hq =>
    exact ⟨fun hna => absurd ⟨t.address, Function.update_self ..⟩ hna, hshort⟩
  | notifyReady hr ready =>
    cases ready with
    | false => exact ⟨fun _ => rfl, Nat.le_refl 1⟩
    | true => exact ⟨fun hna => absurd hC hna, Nat.le_refl 1⟩
  | nativeReturn hr => exact ⟨hoff, hshort⟩
  | threadLoopWrite socket connect send sink =>
    obtain ⟨hv, hl, hread⟩ := readSwitch_nextSwitch hshort socket connect send sink
    refine ⟨fun hna => ?_, by rw [threadLoopWrite_file]; exact hl⟩
    have h0 : nextSwitch s = 0 := hoff hna
    rw [nextSwitch, threadLoopWrite_file, threadLoopWrite_dumpSwitch, hread]
    rcases hv with hv | hv
    · exact hv
    · rw [hv, h0]

/-- **The audio is diverted only while a stream is active**, in every run in which the native player
reports ready only while some address is marked true, and each task ends while another address is
marked or the switch has been read as `0`. The file may hold at first any text of at most one
character that does not switch the diversion on. -/
theorem diverts_only_active {file : List Char} (hlen : file.length ≤ 1)
    (hfile : (fscanfD file).getD 0 = 0) {es : List Event} {s : State}
    (hC : AllSteps step SwitchCond { switchFile := file } es)
    (h : run step { switchFile := file } es = some s) {socket connect send sink : ℤ}
    (hd : Diverts s (s.call socket connect send sink)) : Active s := by
  have hinit : SwitchInv { switchFile := file } := ⟨fun _ => hfile, hlen⟩
  have hs := run_inv (fun _ _ _ => switchInv_step) hinit hC h
  by_contra hna
  rcases (readSwitch_nextSwitch hs.short socket connect send sink).1 with hv | hv
  · exact hd hv
  · exact hd (hv.trans (hs.off hna))

/-- A stream is started, the player reports ready, and the audio server connects. -/
def oneStream (a : String) : List Event :=
  [.startStreaming a, .doInBackground, .notifyReady true, .threadLoopWrite 7 0 4096 0]

/-- The state during the stream. -/
def streaming (a : String) : State where
  raopSwitches := Function.update (fun _ => none) a (some true)
  raopTasks := [⟨0, a⟩]
  running := some ⟨0, a⟩
  switchFile := ['1']
  flinger := ⟨1, 7, 0, 0⟩

theorem run_oneStream (f : List Char) (a : String) :
    run step { switchFile := f } (oneStream a) = some (streaming a) := rfl

/-- During the stream the audio is diverted, and the stream is active. -/
theorem diverts_only_active_oneStream :
    Diverts (streaming "10.0.0.2") ((streaming "10.0.0.2").call 7 0 4096 0) ∧
      Active (streaming "10.0.0.2") := by
  have hd : Diverts (streaming "10.0.0.2") ((streaming "10.0.0.2").call 7 0 4096 0) := by decide
  have hC : AllSteps step SwitchCond { switchFile := ['O'] } (oneStream "10.0.0.2") :=
    allSteps_cons trivial rfl (allSteps_cons trivial rfl
      (allSteps_cons ⟨"10.0.0.2", rfl⟩ rfl (allSteps_cons trivial rfl trivial)))
  exact ⟨hd, diverts_only_active (by decide) (by decide) hC (run_oneStream _ _) hd⟩

/-- The player returns by itself: its `onPostExecute` writes the letter, the switch stays on, and the
audio is diverted with no stream active. -/
theorem diverts_inactive :
    ¬ ∀ (es : List Event) (s : State), run step {} es = some s →
      ∀ socket connect send sink, Diverts s (s.call socket connect send sink) → Active s := by
  intro h
  obtain ⟨a, ha⟩ := h (oneStream "10.0.0.2" ++ [.nativeReturn, .onPostExecute ⟨0, "10.0.0.2"⟩])
    { raopSwitches :=
        Function.update (streaming "10.0.0.2").raopSwitches "10.0.0.2" (some false)
      raopTasks := [⟨0, "10.0.0.2"⟩], switchFile := ['O'], flinger := ⟨1, 7, 0, 0⟩ }
    rfl 7 0 4096 0 (by decide)
  by_cases haa : a = "10.0.0.2"
  · simp [haa] at ha
  · simp [streaming, haa] at ha

end Waveplay.RaopHelper.Diversion
