import Waveplay.Airtunes.Manager
import Waveplay.Lib.Runs

/-! # The sender is never cancelled

A run of the sender ends with an unchecked exception when it comes to a speaker whose connection is not
complete: a sync packet needs the control address, `isConnected` closes the RTSP socket of a speaker
that has expired, an audio packet needs the server address and the audio socket. So one failed
connection, or one speaker that has expired, is enough to cancel the task at the next packet.

* `Steady`: the requests to the listed speakers are answered, if need be over a new connection, and no
  listed speaker has expired when a packet is sent.
* `sender_alive`: in every run of such steps the sender is not cancelled. -/

namespace Waveplay.Airtunes.SenderAlive

open Waveplay.Lib.Runs
open Waveplay.Airtunes.AudioPacket Waveplay.Airtunes.Speaker Waveplay.Airtunes.Manager

/-- The condition on a step: new connections succeed, requests to listed speakers are answered, a listed
speaker is disconnected only by `removeSpeaker`, and none has expired when a packet is sent. -/
def Steady (m : AirtunesManager) : Op → Prop
  | .addSpeaker j => j.connection.Succeeds ∧ (SpeakerCall.start j.first j.retry j.second).Answered
  | .call id c => (∃ l ∈ m.speakers, l.id = id) → c.Answered
  | .clear stops => ∀ l ∈ m.speakers,
      (SpeakerCall.stop (stops l.id).1 (stops l.id).2.1 (stops l.id).2.2).Answered
  | .transmit t => ∀ l ∈ m.speakers, ¬ l.speaker.Expired (t.now l.id)
  | _ => True

/-- Every listed speaker has a complete connection, and the sender runs. -/
structure Alive (m : AirtunesManager) : Prop where
  live : ∀ l ∈ m.speakers, Live l.speaker
  cancelled : m.cancelled = false

/-! ### Runs of the sender -/

theorem sendSyncPacket_alive (t : Tick) : ∀ {ls : List Listed}, (∀ l ∈ ls, Live l.speaker) →
    sendSyncPacket t ls ≠ some .unchecked
  | [], _ => by simp [sendSyncPacket]
  | l :: ls, h => by
    have hl : l.speaker.acontrol.isNone = false := by
      rw [← Option.not_isSome, (h l List.mem_cons_self).acontrol]
      rfl
    have ih : sendSyncPacket t ls ≠ some .unchecked :=
      sendSyncPacket_alive t fun k hk => h k (List.mem_cons_of_mem l hk)
    rw [sendSyncPacket, if_neg (by rw [hl]; exact Bool.false_ne_true)]
    by_cases hf : t.syncFails l.id = true
    · rw [if_pos hf]
      simp
    · rw [if_neg hf]
      exact ih

theorem sendAudio_alive {t : Tick} : ∀ {ls : List Listed}, (∀ l ∈ ls, Live l.speaker) →
    (∀ l ∈ ls, ¬ l.speaker.Expired (t.now l.id)) →
    (sendAudio t ls).1 = ls ∧ (sendAudio t ls).2.2 ≠ some .unchecked
  | [], _, _ => by simp [sendAudio]
  | l :: ls, h, ht => by
    have hl := h l List.mem_cons_self
    have ih : (sendAudio t ls).1 = ls ∧ (sendAudio t ls).2.2 ≠ some .unchecked :=
      sendAudio_alive (fun k hk => h k (List.mem_cons_of_mem l hk))
        fun k hk => ht k (List.mem_cons_of_mem l hk)
    have hfree : (l.speaker.aserver.isNone || !l.speaker.audio) = false := by
      rw [hl.audio, ← Option.not_isSome, hl.aserver]
      rfl
    unfold sendAudio
    simp only [isConnected_run (ht l List.mem_cons_self), hfree]
    by_cases hf : t.audioFails l.id
    · simp [hf]
    · simp only [hf, Bool.false_eq_true, if_false]
      exact ⟨by rw [ih.1], ih.2⟩

variable {m m' : AirtunesManager}

theorem transmit_alive (hm : Alive m) {t : Tick}
    (ht : ∀ l ∈ m.speakers, ¬ l.speaker.Expired (t.now l.id)) (h : m.transmit t = some m') :
    Alive m' := by
  obtain ⟨b, -, ⟨e, he, rfl⟩ | rfl⟩ := transmit_cases h
  · have hsync : some e ≠ some .unchecked := by
      rw [← sendSync_eq_some he]
      exact sendSyncPacket_alive t hm.live
    refine ⟨by simpa using hm.live, ?_⟩
    rw [endRun_cancelled, hm.cancelled, decide_eq_false hsync]
    rfl
  · obtain ⟨hsame, haudio⟩ := sendAudio_alive hm.live ht
    constructor
    · simpa [AirtunesManager.sendPacket, hsame] using hm.live
    · rw [AirtunesManager.sendPacket, endRun_cancelled, hm.cancelled, decide_eq_false haudio]
      rfl

/-! ### The other steps -/

theorem stopAll_live {stops : ℕ → Bool × Connection × Bool} : ∀ {ls : List Listed},
    (∀ l ∈ ls, Live l.speaker) →
    (∀ l ∈ ls, (SpeakerCall.stop (stops l.id).1 (stops l.id).2.1 (stops l.id).2.2).Answered) →
    ∀ l ∈ stopAll stops ls, Live l.speaker
  | [], _, _ => by simp [stopAll]
  | l :: ls, h, hc => by
    have hl := answered_keeps (hc l List.mem_cons_self) l.speaker (h l List.mem_cons_self)
    have hls : ∀ k ∈ ls, Live k.speaker := fun k hk => h k (List.mem_cons_of_mem l hk)
    have ih := stopAll_live hls fun k hk => hc k (List.mem_cons_of_mem l hk)
    unfold after SpeakerCall.method at hl
    unfold stopAll
    rcases hr : (Speaker.stop (stops l.id).1 (stops l.id).2.1 (stops l.id).2.2).run l.speaker with
      ⟨a, s⟩ | ⟨e, s⟩
    · simp only [hr] at hl ⊢
      exact List.forall_mem_cons.mpr ⟨hl, ih⟩
    · simp only [hr] at hl ⊢
      exact List.forall_mem_cons.mpr ⟨hl, hls⟩

theorem joining_live {j : Joining} (hc : j.connection.Succeeds)
    (hs : (SpeakerCall.start j.first j.retry j.second).Answered) : Live j.speaker := by
  have hconn := connect_live hc {}
  have hstart := answered_keeps hs _ hconn
  have hrun : (Speaker.connect j.connection).run {} = .ok () (after (Speaker.connect j.connection) {}) := by
    obtain ⟨t, ht, -⟩ := reconnect_live hc
      (show ({ cipherkey := true } : AirtunesSpeaker).error = false from rfl) rfl
    have hrun : (Speaker.connect j.connection).run {} = .ok () t := ht
    simp only [after, hrun]
  have hseq : j.speaker = after (SpeakerCall.start j.first j.retry j.second).method
      (after (Speaker.connect j.connection) {}) := by
    unfold Joining.speaker
    conv_lhs => unfold after
    rw [EStateM.run_bind, hrun]
    rfl
  rw [hseq]
  exact hstart

theorem addSpeaker_alive (hm : Alive m) {j : Joining} (hlive : Live j.speaker)
    (h : m.addSpeaker j = some m') : Alive m' := by
  obtain ⟨m₀, hm₀, rfl⟩ := addSpeaker_cases h
  have h₀ : Alive m₀ := by
    rcases hm₀ with ⟨-, rfl⟩ | ⟨-, -, -, rfl⟩
    · exact hm
    · exact ⟨hm.live, rfl⟩
  refine ⟨fun l hl => ?_, h₀.cancelled⟩
  rcases List.mem_cons.mp ((place_perm _ _ _).mem_iff.mp hl) with rfl | hl
  · exact hlive
  · exact h₀.live l (List.mem_of_mem_filter hl)

theorem call_alive (hm : Alive m) {id : ℕ} {c : SpeakerCall}
    (hc : (∃ l ∈ m.speakers, l.id = id) → c.Answered) : Alive (m.call id c) := by
  refine ⟨fun l hl => ?_, hm.cancelled⟩
  obtain ⟨k, hk, rfl⟩ := List.mem_map.mp hl
  by_cases hid : k.id = id
  · rw [if_pos hid]
    exact answered_keeps (hc ⟨k, hk, hid⟩) k.speaker (hm.live k hk)
  · rw [if_neg hid]
    exact hm.live k hk

/-- **One step.** -/
theorem step_alive {aes : Block → Block → Block} (hm : Alive m) {op : Op} (hop : Steady m op)
    (h : step aes m op = some m') : Alive m' := by
  cases op with
  | addSpeaker j =>
    have hlive : Live j.speaker := joining_live hop.1 hop.2
    exact addSpeaker_alive hm hlive h
  | removeSpeaker id teardown =>
    rcases removeSpeaker_cases h with rfl | rfl | ⟨-, -, rfl⟩
    · exact hm
    · exact ⟨fun l hl => hm.live l (List.mem_filter.mp hl).1, hm.cancelled⟩
    · exact ⟨fun l hl => hm.live l (List.mem_filter.mp hl).1, hm.cancelled⟩
  | call id c =>
    obtain rfl := Option.some.inj h
    exact call_alive hm hop
  | fill c =>
    obtain ⟨-, rfl⟩ := fill_cases h
    exact ⟨hm.live, hm.cancelled⟩
  | put =>
    obtain ⟨b, -, -, rfl⟩ := put_cases h
    exact ⟨hm.live, hm.cancelled⟩
  | clear stops =>
    obtain ⟨-, rfl⟩ := clear_cases h
    refine ⟨?_, hm.cancelled⟩
    by_cases hs : m.speakerstarted = true
    · simpa [hs] using stopAll_live hm.live hop
    · simpa [hs] using hm.live
  | drain =>
    obtain ⟨-, -, rfl⟩ := drain_cases h
    exact ⟨hm.live, hm.cancelled⟩
  | poll =>
    obtain ⟨b, queue, -, -, -, rfl⟩ := poll_cases h
    exact ⟨hm.live, hm.cancelled⟩
  | transmit t => exact transmit_alive hm hop h

/-! ### Runs -/

/-- **The sender is never cancelled** in a run whose connections succeed, whose requests are answered
and whose speakers have not expired when a packet is sent. -/
theorem sender_alive (aes : Block → Block → Block) {ops : List Op} {m : AirtunesManager}
    (hops : AllSteps (step aes) Steady {} ops) (h : run (step aes) {} ops = some m) :
    m.cancelled = false := by
  have hinit : Alive {} := ⟨by simp, rfl⟩
  exact (run_inv (fun _ _ _ hm hop => step_alive hm hop) hinit hops h).cancelled

/-- One speaker is added and one packet goes through the queue. -/
def firstPacket (c : Speaker.Connection) : List Op :=
  adding "kitchen" c :: (packet 0 ++ sending fun _ => false)

theorem sender_alive_answers :
    ∃ m, run (step fun _ b => b) {} (firstPacket answers) = some m ∧ m.sent.length = 1 ∧
      m.cancelled = false := by
  have hc : answers.Succeeds := ⟨rfl, rfl, ⟨6000, 6002, 6001, rfl⟩, rfl⟩
  have hops : AllSteps (step fun _ b => b) Steady {} (firstPacket answers) := by
    refine allSteps_cons ⟨hc, .inl rfl⟩ rfl (allSteps_cons trivial rfl (allSteps_cons trivial rfl
      (allSteps_cons trivial rfl ⟨?_, fun _ _ => trivial⟩)))
    intro l hl
    obtain rfl := List.mem_singleton.mp hl
    decide
  exact ⟨_, rfl, rfl, sender_alive _ hops rfl⟩

/-- A speaker refuses the connection. The first packet cancels the sender. -/
theorem cancelled_by_refusal :
    ∃ m, run (step fun _ b => b) {} (firstPacket refuses) = some m ∧ m.cancelled = true :=
  ⟨_, rfl, rfl⟩

end Waveplay.Airtunes.SenderAlive
