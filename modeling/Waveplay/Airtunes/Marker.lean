import Waveplay.Airtunes.Buffers

/-! # The marker of the first packet

The marker bit is decided when a packet is filled, from a counter that advances when a packet has been
sent. So it is right only if the first packet is sent before the second is filled, if sending it fails at
the first speaker or not at all, and if the sender holds no packet when the counter is reset.

* `FirstAlone`: the condition on a step.
* `marker_first`: in every run of such steps, of the audio packets sent since the last `start`, `clear` or
  `drain` exactly the first has the marker. -/

namespace Waveplay.Airtunes.Marker

open Waveplay.Lib.Runs
open Waveplay.Airtunes.AudioPacket Waveplay.Airtunes.Manager Waveplay.Airtunes.Buffers

/-- The first packet has the marker, the others do not. -/
def MarkerFirst : List Packet → Prop
  | [] => True
  | p :: ps => p.marker = 0xe0 ∧ ∀ q ∈ ps, q.marker = 0x60

/-- The condition on a step: the first packet is alone until it has been sent, sending it reaches a
speaker or fails at the first one, the counter does not wrap and is not reset under the sender. -/
def FirstAlone (m : AirtunesManager) : Op → Prop
  | .fill _ => m.packetcount = 0 → m.packetqueue = [] ∧ m.sending = none
  | .clear _ => m.sending = none
  | .drain => m.sending = none
  | .transmit t => m.packetcount + 1 < 2 ^ 32 ∧ (m.packetcount = 0 →
      connected t m.speakers ≠ [] ∧ ∀ l ∈ (connected t m.speakers).tail, t.audioFails l.id = false)
  | _ => True

theorem FirstAlone.keepsOrder {m : AirtunesManager} {op : Op} (h : FirstAlone m op) :
    KeepsOrder m op := by
  cases op <;> first | trivial | exact .inr h

/-- The buffers in use have the marker if no packet has been counted, and then there is at most one. -/
structure Marked (m : AirtunesManager) : Prop where
  order : InOrder m
  audio : MarkerFirst m.audio
  idle : m.cancelled = true → m.sending = none
  first : m.cancelled = false → m.packetcount = 0 → m.audio = [] ∧ (inUse m).length ≤ 1 ∧
    ∀ b ∈ inUse m, (m.encoder.packetdata b).marker = 0xe0
  later : m.cancelled = false → m.packetcount ≠ 0 → m.audio ≠ [] ∧
    ∀ b ∈ inUse m, (m.encoder.packetdata b).marker = 0x60

theorem MarkerFirst.append {ps : List Packet} {p : Packet} (h : MarkerFirst ps) (hne : ps ≠ [])
    (hp : p.marker = 0x60) : MarkerFirst (ps ++ [p]) := by
  cases ps with
  | nil => exact absurd rfl hne
  | cons q qs =>
    refine ⟨h.1, fun r hr => ?_⟩
    rcases List.mem_append.mp hr with hr | hr
    · exact h.2 r hr
    · rw [List.mem_singleton.mp hr]
      exact hp

variable {m m' : AirtunesManager}

/-! ### Steps of the producer -/

theorem Marked.withSpeakers (hm : Marked m) (ls : List Listed) (n : ℕ) :
    Marked { m with speakers := ls, created := n } :=
  ⟨hm.order.of_eq rfl rfl rfl rfl rfl, hm.audio, hm.idle, hm.first, hm.later⟩

theorem Marked.of_inUse (hm : Marked m) (horder : InOrder m') (huse : inUse m' = inUse m)
    (hidle : m'.cancelled = true → m'.sending = none) (haudio : m'.audio = m.audio)
    (hcancelled : m'.cancelled = m.cancelled) (hcount : m'.packetcount = m.packetcount)
    (hdata : m'.encoder = m.encoder) : Marked m' := by
  refine ⟨horder, by rw [haudio]; exact hm.audio, hidle, ?_, ?_⟩
  · rw [hcancelled, hcount, haudio, huse, hdata]
    exact hm.first
  · rw [hcancelled, hcount, haudio, huse, hdata]
    exact hm.later

theorem Marked.of_reset (hcount : m.packetcount = 0) (haudio : m.audio = []) (huse : inUse m = [])
    (horder : InOrder m) : Marked m := by
  obtain ⟨-, -, hs⟩ := inUse_eq_nil.mp huse
  refine ⟨horder, by rw [haudio]; trivial, fun _ => hs, fun _ _ => ?_, fun _ h => absurd hcount h⟩
  rw [huse]
  exact ⟨haudio, Nat.zero_le 1, fun b hb => absurd hb List.not_mem_nil⟩

theorem head_not_mem (hm : InOrder m) : m.encoder.packetdatahead ∉ inUse m :=
  hm.consecutive.not_mem (lt_of_le_of_lt (length_inUse_le hm.bounded) (by decide))

theorem fill_marked (hm : Marked m) {aes : Block → Block → Block} {c : Pcm}
    (hop : m.packetcount = 0 → m.packetqueue = [] ∧ m.sending = none)
    (h : m.fill aes c = some m') : Marked m' := by
  have horder : InOrder m' := fill_inOrder hm.order h
  obtain ⟨hf, rfl⟩ := fill_cases h
  -- the buffers in use keep their packets
  have hkept : ∀ b ∈ inUse m, (m.encoder.sendAudioPacket (doFinal (aes m.key) m.iv) m.packetcount
      c).packetdata b = m.encoder.packetdata b := by
    intro b hb
    refine sendAudioPacket_of_ne _ _ _ _ fun hbh => ?_
    exact head_not_mem hm.order (hbh ▸ hb)
  -- at most the filled one is new
  have hmem : ∀ b ∈ inUse { m with
      encoder := m.encoder.sendAudioPacket (doFinal (aes m.key) m.iv) m.packetcount c
      speakerstarted := true
      filling := if m.started then some m.encoder.packetdatahead else none },
      b = m.encoder.packetdatahead ∨ b ∈ inUse m := by
    intro b hb
    simp only [inUse, List.mem_append, Option.mem_toList] at hb ⊢
    rcases hb with hb | hb
    · split_ifs at hb
      exact .inl (Option.some.inj hb).symm
    · exact .inr (.inr hb)
  refine ⟨horder, hm.audio, hm.idle, fun hc h0 => ?_, fun hc h0 => ?_⟩
  · obtain ⟨hq, hs⟩ := hop h0
    have huse : inUse m = [] := inUse_eq_nil.mpr ⟨hf, hq, hs⟩
    refine ⟨(hm.first hc h0).1, ?_, fun b hb => ?_⟩
    · simp only [inUse, hq, hs]
      split_ifs <;> simp
    · rcases hmem b hb with rfl | hb
      · exact (sendAudioPacket_marker _ _ _ _).trans (if_pos h0)
      · rw [huse] at hb
        exact absurd hb List.not_mem_nil
  · refine ⟨(hm.later hc h0).1, fun b hb => ?_⟩
    rcases hmem b hb with rfl | hb
    · exact (sendAudioPacket_marker _ _ _ _).trans (if_neg h0)
    · exact (congrArg Packet.marker (hkept b hb)).trans ((hm.later hc h0).2 b hb)

/-! ### Runs of the sender -/

theorem stamped_marker (b : Buffer) : (m.stamped b).marker = (m.encoder.packetdata b).marker := rfl

theorem update_stamped_marker (b c : Buffer) :
    (Function.update m.encoder.packetdata b (m.stamped b) c).marker =
      (m.encoder.packetdata c).marker := by
  by_cases h : c = b
  · rw [h, Function.update_self, stamped_marker]
  · rw [Function.update_of_ne h]

theorem sendPacket_markerFirst (hm : Marked m) {b : Buffer} (hb : m.sending = some b) (t : Tick) :
    MarkerFirst (m.sendPacket b t).audio := by
  have hc : m.cancelled = false := not_cancelled hm.idle hb
  have huse : b ∈ inUse m := by simp [inUse, hb]
  have haudio : (m.sendPacket b t).audio =
      if (sendAudio t m.speakers).2.1 = [] then m.audio else m.audio ++ [m.stamped b] :=
    endRun_audio _
  rw [haudio]
  split_ifs
  · exact hm.audio
  · by_cases h0 : m.packetcount = 0
    · obtain ⟨hnil, -, hmarker⟩ := hm.first hc h0
      rw [hnil]
      exact ⟨hmarker b huse, fun q hq => absurd hq List.not_mem_nil⟩
    · obtain ⟨hne, hmarker⟩ := hm.later hc h0
      exact hm.audio.append hne (hmarker b huse)

/-- A run of the sender. What is left to show is that the counter leaves `0` exactly with the first
packet that reaches a speaker. -/
theorem endRun_marked (hm : Marked m) {b : Buffer} (hb : m.sending = some b) {m₀ : AirtunesManager}
    {e : Option Speaker.Throwable} (hq : m₀.packetqueue = m.packetqueue)
    (hf : m₀.filling = m.filling) (hst : m₀.started = m.started)
    (hhead : m₀.encoder.packetdatahead = m.encoder.packetdatahead)
    (hmarker : ∀ c, (m₀.encoder.packetdata c).marker = (m.encoder.packetdata c).marker)
    (haudio : MarkerFirst m₀.audio) (hcancelled : m₀.cancelled = m.cancelled)
    (hfirst : (m₀.endRun e).packetcount = 0 → e ≠ some .unchecked →
      m.packetcount = 0 ∧ m₀.audio = [])
    (hlater : (m₀.endRun e).packetcount ≠ 0 → e ≠ some .unchecked → m₀.audio ≠ []) :
    Marked (m₀.endRun e) := by
  have hc : m.cancelled = false := not_cancelled hm.idle hb
  have huse : inUse m = inUse (m₀.endRun e) ++ [b] := by
    rw [inUse_endRun e hq hf, hb, Option.toList_some]
  have he : (m₀.endRun e).cancelled = false → e ≠ some .unchecked := by
    intro h
    simpa [endRun_cancelled, hcancelled, hc] using h
  refine ⟨endRun_inOrder hm.order hhead hq hf hst, by rw [endRun_audio]; exact haudio,
    fun _ => endRun_sending e, fun h h0 => ?_, fun h h0 => ?_⟩
  · obtain ⟨hcount, hnil⟩ := hfirst h0 (he h)
    obtain ⟨-, hlen, hall⟩ := hm.first hc hcount
    rw [huse, List.length_append, List.length_singleton] at hlen
    refine ⟨by rw [endRun_audio]; exact hnil, by omega, fun c hc => ?_⟩
    rw [endRun_encoder, hmarker]
    exact hall c (by rw [huse]; exact List.mem_append_left _ hc)
  · refine ⟨by rw [endRun_audio]; exact hlater h0 (he h), fun c hmem => ?_⟩
    have hcm : c ∈ inUse m := by
      rw [huse]
      exact List.mem_append_left _ hmem
    by_cases hcount : m.packetcount = 0
    · -- the first packet was alone
      obtain ⟨-, hlen, -⟩ := hm.first hc hcount
      rw [huse, List.length_append, List.length_singleton] at hlen
      have hnil : inUse (m₀.endRun e) = [] := List.length_eq_zero_iff.mp (by omega)
      rw [hnil] at hmem
      exact absurd hmem List.not_mem_nil
    · rw [endRun_encoder, hmarker]
      exact (hm.later hc hcount).2 c hcm

/-- Without an exception at a later speaker, the packets logged are none as long as none is counted. -/
theorem sendPacket_first (hm : Marked m) {b : Buffer} (hb : m.sending = some b) {t : Tick}
    (hop : FirstAlone m (.transmit t)) (h0 : (m.sendPacket b t).packetcount = 0)
    (he : (sendAudio t m.speakers).2.2 ≠ some .unchecked) :
    m.packetcount = 0 ∧ (m.sendPacket b t).audio = [] := by
  obtain ⟨hwrap, hsent⟩ := hop
  rw [AirtunesManager.sendPacket, endRun_packetcount] at h0
  rw [AirtunesManager.sendPacket, endRun_audio]
  rcases hex : (sendAudio t m.speakers).2.2 with _ | _ | _
  · rw [if_pos hex, Nat.mod_eq_of_lt hwrap] at h0
    exact absurd h0 (Nat.succ_ne_zero _)
  · rw [if_neg (by simp [hex])] at h0
    have hids : (sendAudio t m.speakers).2.1 = [] := sendAudio_first (hsent h0).2 hex
    exact ⟨h0, (if_pos hids).trans (hm.first (not_cancelled hm.idle hb) h0).1⟩
  · exact absurd hex he

theorem sendPacket_later (hm : Marked m) {b : Buffer} (hb : m.sending = some b) {t : Tick}
    (hop : FirstAlone m (.transmit t)) (h0 : (m.sendPacket b t).packetcount ≠ 0)
    (he : (sendAudio t m.speakers).2.2 ≠ some .unchecked) : (m.sendPacket b t).audio ≠ [] := by
  have hlater : m.packetcount ≠ 0 → (if (sendAudio t m.speakers).2.1 = [] then m.audio
      else m.audio ++ [m.stamped b]) ≠ [] := by
    intro h1
    split_ifs
    · exact (hm.later (not_cancelled hm.idle hb) h1).1
    · simp
  rw [AirtunesManager.sendPacket, endRun_packetcount] at h0
  rw [AirtunesManager.sendPacket, endRun_audio]
  rcases hex : (sendAudio t m.speakers).2.2 with _ | _ | _
  · by_cases h1 : m.packetcount = 0
    · have hids : (sendAudio t m.speakers).2.1 ≠ [] := by
        rw [sendAudio_all hex, ne_eq, List.map_eq_nil_iff]
        exact (hop.2 h1).1
      show (if (sendAudio t m.speakers).2.1 = [] then m.audio else _) ≠ []
      rw [if_neg hids]
      simp
    · exact hlater h1
  · rw [if_neg (by simp [hex])] at h0
    exact hlater h0
  · exact absurd hex he

theorem transmit_marked (hm : Marked m) {t : Tick} (hop : FirstAlone m (.transmit t))
    (h : m.transmit t = some m') : Marked m' := by
  obtain ⟨b, hb, ⟨e, -, rfl⟩ | rfl⟩ := transmit_cases h
  · -- a sync packet failed: nothing is counted
    have hc : m.cancelled = false := not_cancelled hm.idle hb
    refine endRun_marked hm hb rfl rfl rfl rfl (fun _ => rfl) hm.audio rfl ?_ ?_
    · rw [endRun_packetcount, if_neg (by simp)]
      exact fun h0 _ => ⟨h0, (hm.first hc h0).1⟩
    · rw [endRun_packetcount, if_neg (by simp)]
      exact fun h0 _ => (hm.later hc h0).1
  · have haudio : MarkerFirst (m.sendPacket b t).audio := sendPacket_markerFirst hm hb t
    have hfirst := sendPacket_first hm hb hop
    have hlater := sendPacket_later hm hb hop
    rw [AirtunesManager.sendPacket, endRun_audio] at haudio hfirst hlater
    exact endRun_marked hm hb rfl rfl rfl rfl (update_stamped_marker b) haudio rfl hfirst hlater

/-! ### Runs -/

/-- **One step.** -/
theorem step_marked {aes : Block → Block → Block} (hm : Marked m) {op : Op}
    (hop : FirstAlone m op) (h : step aes m op = some m') : Marked m' := by
  have horder : InOrder m' := step_inOrder hm.order hop.keepsOrder h
  cases op with
  | addSpeaker j =>
    obtain ⟨m₀, ⟨-, rfl⟩ | ⟨-, hst, hf, rfl⟩, rfl⟩ := addSpeaker_cases h
    · exact hm.withSpeakers _ _
    · have hs := (inUse_eq_nil.mp (hm.order.stopped hst)).2.2
      exact .of_reset rfl rfl (inUse_eq_nil.mpr ⟨hf, rfl, hs⟩) horder
  | removeSpeaker id teardown =>
    rcases removeSpeaker_cases h with rfl | rfl | ⟨-, hf, rfl⟩
    · exact hm
    · exact hm.withSpeakers _ _
    · have huse : inUse (AirtunesManager.stop { m with
          speakers := m.speakers.filter (·.id ≠ id) }) = [] := inUse_eq_nil.mpr ⟨hf, rfl, rfl⟩
      refine ⟨horder, hm.audio, fun _ => rfl, fun hc h0 => ?_, fun hc h0 => ?_⟩
      · rw [huse]
        exact ⟨(hm.first hc h0).1, Nat.zero_le 1, fun b hb => absurd hb List.not_mem_nil⟩
      · rw [huse]
        exact ⟨(hm.later hc h0).1, fun b hb => absurd hb List.not_mem_nil⟩
  | call id c =>
    obtain rfl := Option.some.inj h
    exact hm.withSpeakers _ _
  | fill c => exact fill_marked hm hop h
  | put =>
    obtain ⟨b, hf, -, rfl⟩ := put_cases h
    exact hm.of_inUse horder (by simp [inUse, hf]) hm.idle rfl rfl rfl rfl
  | clear stops =>
    obtain ⟨hf, rfl⟩ := clear_cases h
    exact .of_reset rfl rfl (inUse_eq_nil.mpr ⟨hf, rfl, hop⟩) horder
  | drain =>
    obtain ⟨hf, hq, rfl⟩ := drain_cases h
    exact .of_reset rfl rfl (inUse_eq_nil.mpr ⟨hf, hq, hop⟩) horder
  | poll =>
    obtain ⟨b, queue, hs, hq, hc, rfl⟩ := poll_cases h
    exact hm.of_inUse horder (by simp [inUse, hs, hq]) (fun hc' => by simp [hc] at hc') rfl rfl rfl rfl
  | transmit t => exact transmit_marked hm hop h

theorem marked_initial : Marked {} :=
  .of_reset rfl rfl (inUse_eq_nil.mpr ⟨rfl, rfl, rfl⟩) inOrder_initial

/-- **Marker only on the first packet**, in a run in which the first packet is alone until it has been
sent, sending it reaches a speaker or fails at the first one, and the counter is not reset under the
sender. -/
theorem marker_first (aes : Block → Block → Block) {ops : List Op} {m : AirtunesManager}
    (hops : AllSteps (step aes) FirstAlone {} ops) (h : run (step aes) {} ops = some m) :
    MarkerFirst m.audio :=
  (run_inv (fun _ _ _ hm hop => step_marked hm hop) marked_initial hops h).audio

/-- Each packet is sent before the next is filled. -/
theorem marker_first_in_turn :
    let turn := fun b => packet b ++ sending fun _ => false
    ∃ m, run (step fun _ b => b) {} (adding "kitchen" answers :: (turn 0 ++ turn 1)) = some m ∧
      m.audio.length = 2 ∧ MarkerFirst m.audio := by
  intro turn
  have hops : AllSteps (step fun _ b => b) FirstAlone {}
      (adding "kitchen" answers :: (turn 0 ++ turn 1)) := by
    refine allSteps_cons trivial rfl (allSteps_cons (fun _ => ⟨rfl, rfl⟩) rfl (allSteps_cons trivial rfl
      (allSteps_cons trivial rfl (allSteps_cons ?_ rfl (allSteps_cons (fun h => ?_) rfl
        (allSteps_cons trivial rfl (allSteps_cons trivial rfl ⟨?_, fun _ _ => trivial⟩)))))))
    · exact ⟨by decide, fun _ => ⟨by decide, fun _ _ => rfl⟩⟩
    · exact ⟨rfl, rfl⟩
    · exact ⟨by decide, fun h => ⟨by decide, fun _ _ => rfl⟩⟩
  exact ⟨_, rfl, rfl, marker_first _ hops rfl⟩

/-- The second packet is filled before the first is sent. -/
theorem marker_twice :
    (run (step fun _ b => b) {} (adding "kitchen" answers ::
      (packet 0 ++ packet 1 ++ sending (fun _ => false) ++ sending (fun _ => false)))).map
      (fun m => m.audio.map (·.marker)) = some [0xe0, 0xe0] := by
  decide +kernel

end Waveplay.Airtunes.Marker
