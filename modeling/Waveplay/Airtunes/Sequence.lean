import Mathlib.Data.List.Pairwise
import Mathlib.Data.List.Nodup
import Waveplay.Airtunes.Manager
import Waveplay.Lib.Runs

/-! # The sequence numbers of the packets

The counters advance after the loop over the speakers. A send that fails at the first speaker leaves them
where they are and nothing has been sent; one that fails later leaves them where they are although the
speakers before it have been sent the packet, and the next packet goes out under the same numbers.

* `Advances`: one datagram follows another in the stream of a speaker.
* `FailsFirst`: the sends to the speakers after the first connected one succeed.
* `sequence_advances`: in every run of such steps the datagrams of a speaker advance, so no sequence number
  is used again for `2 ^ 16` packets. -/

namespace Waveplay.Airtunes.Sequence

open Waveplay.Lib.Runs
open Waveplay.Airtunes.AudioPacket Waveplay.Airtunes.Manager

/-- The condition on a step: of the sends of a packet only the first can fail. -/
def FailsFirst (m : AirtunesManager) : Op → Prop
  | .transmit t => ∀ l ∈ (connected t m.speakers).tail, t.audioFails l.id = false
  | _ => True

/-- The numbers of `b` are `d` packets after those of `a`, for a `d` that is positive and not more than
the number of packets handled between them. -/
def Advances (a b : Datagram) : Prop :=
  ∃ d, 0 < d ∧ a.index + d ≤ b.index ∧
    b.packet.rtpseq = a.packet.rtpseq + UInt16.ofNat d ∧
    b.packet.rtptime = a.packet.rtptime + UInt32.ofNat (PACKETSIZE * d)

theorem Advances.rtpseq_ne {a b : Datagram} (h : Advances a b) (hnear : b.index - a.index < 2 ^ 16) :
    a.packet.rtpseq ≠ b.packet.rtpseq := by
  obtain ⟨d, hd, hle, hseq, -⟩ := h
  intro heq
  rw [heq] at hseq
  have hzero : UInt16.ofNat d = 0 := by simpa using hseq.symm
  have hmod : d % 2 ^ 16 = 0 := by simpa using congrArg UInt16.toNat hzero
  rw [Nat.mod_eq_of_lt (by omega)] at hmod
  omega

/-- The counters are `d` packets after a datagram, for a `d` that is positive unless the sender has been
cancelled. -/
def Behind (m : AirtunesManager) (a : Datagram) : Prop :=
  ∃ d, (m.cancelled = false → 0 < d) ∧ a.index + d ≤ m.handled ∧
    UInt16.ofNat m.rtpseq = a.packet.rtpseq + UInt16.ofNat d ∧
    UInt32.ofNat m.rtptime = a.packet.rtptime + UInt32.ofNat (PACKETSIZE * d)

/-- The datagrams of a speaker advance, and the counters are after those of the listed speakers. -/
structure Advancing (m : AirtunesManager) : Prop where
  nodup : (m.speakers.map (·.id)).Nodup
  listed : ∀ id ∈ m.speakers.map (·.id), id < m.created
  made : ∀ a ∈ m.sent, a.speaker < m.created
  idle : m.cancelled = true → m.sending = none
  sent : m.sent.Pairwise fun a b => a.speaker = b.speaker → Advances a b
  behind : ∀ a ∈ m.sent, a.speaker ∈ m.speakers.map (·.id) → Behind m a

variable {m m' : AirtunesManager}

/-! ### Steps that send nothing -/

theorem Advancing.of_sublist (hm : Advancing m)
    (hids : (m'.speakers.map (·.id)).Sublist (m.speakers.map (·.id)))
    (hidle : m'.cancelled = true → m'.sending = none) (hcreated : m'.created = m.created)
    (hsent : m'.sent = m.sent) (hbehind : ∀ a ∈ m.sent, Behind m a → Behind m' a) :
    Advancing m' := by
  constructor
  · exact hids.nodup hm.nodup
  · intro id hid
    rw [hcreated]
    exact hm.listed id (hids.subset hid)
  · rw [hsent, hcreated]
    exact hm.made
  · exact hidle
  · rw [hsent]
    exact hm.sent
  · intro a ha hid
    rw [hsent] at ha
    exact hbehind a ha (hm.behind a ha (hids.subset hid))

theorem stopAll_ids (stops : ℕ → Bool × Speaker.Connection × Bool) : ∀ ls : List Listed,
    (stopAll stops ls).map (·.id) = ls.map (·.id)
  | [] => rfl
  | l :: ls => by
    unfold stopAll
    split
    · simp [stopAll_ids stops ls]
    · simp

theorem addSpeaker_advancing (hm : Advancing m) {j : Joining} (h : m.addSpeaker j = some m') :
    Advancing m' := by
  obtain ⟨m₀, hcases, rfl⟩ := addSpeaker_cases h
  have hm₀ : Advancing m₀ := by
    rcases hcases with ⟨-, rfl⟩ | ⟨hnil, -, -, rfl⟩
    · exact hm
    · -- `start` is called with no speaker listed
      refine ⟨hm.nodup, hm.listed, hm.made, fun h => absurd h Bool.false_ne_true, hm.sent, ?_⟩
      intro a _ hid
      have hid' : a.speaker ∈ m.speakers.map (·.id) := hid
      simp [hnil] at hid'
  set others := m₀.speakers.filter (·.name ≠ j.name) with hothers
  have hsub : (others.map (·.id)).Sublist (m₀.speakers.map (·.id)) := List.filter_sublist.map _
  have hnew : m₀.created ∉ others.map (·.id) := fun hmem =>
    absurd (hm₀.listed _ (hsub.subset hmem)) (lt_irrefl _)
  have hperm : ((others.take j.place ++ ⟨j.name, m₀.created, j.speaker⟩ ::
      others.drop j.place).map (·.id)).Perm (m₀.created :: others.map (·.id)) :=
    (place_perm j.place _ others).map _
  constructor
  · exact hperm.nodup_iff.mpr (List.nodup_cons.mpr ⟨hnew, hsub.nodup hm₀.nodup⟩)
  · intro id hid
    rcases List.mem_cons.mp (hperm.mem_iff.mp hid) with rfl | hid
    · exact Nat.lt_succ_self _
    · exact Nat.lt_succ_of_lt (hm₀.listed id (hsub.subset hid))
  · exact fun a ha => Nat.lt_succ_of_lt (hm₀.made a ha)
  · exact hm₀.idle
  · exact hm₀.sent
  · intro a ha hid
    rcases List.mem_cons.mp (hperm.mem_iff.mp hid) with hid | hid
    · exact absurd (hm₀.made a ha) (by omega)
    · exact hm₀.behind a ha (hsub.subset hid)

/-! ### Runs of the sender -/

theorem ofNat_rtpseq_succ (n : ℕ) : UInt16.ofNat ((n + 1) % 2 ^ 32) = UInt16.ofNat n + 1 := by
  apply UInt16.toNat.inj
  simp

theorem Behind.endRun {a : Datagram} (h : Behind m a) (hc : m.cancelled = false)
    {m₀ : AirtunesManager} (hseq : m₀.rtpseq = m.rtpseq) (htime : m₀.rtptime = m.rtptime)
    (hhandled : m₀.handled = m.handled + 1) (e : Option Speaker.Throwable) :
    Behind (m₀.endRun e) a := by
  obtain ⟨d, hd, hle, hs, ht⟩ := h
  by_cases he : e = none
  · refine ⟨d + 1, fun _ => Nat.succ_pos d, ?_, ?_, ?_⟩
    · rw [endRun_handled, hhandled]
      omega
    · rw [endRun_rtpseq, if_pos he, hseq, ofNat_rtpseq_succ, hs, UInt16.ofNat_add]
      exact UInt16.add_assoc _ _ _
    · rw [endRun_rtptime, if_pos he, htime, UInt32.ofNat_mod_size, UInt32.ofNat_add, ht, Nat.mul_succ,
        UInt32.ofNat_add]
      exact UInt32.add_assoc _ _ _
  · refine ⟨d, fun _ => hd hc, ?_, ?_, ?_⟩
    · rw [endRun_handled, hhandled]
      omega
    · rw [endRun_rtpseq, if_neg he, hseq, hs]
    · rw [endRun_rtptime, if_neg he, htime, ht]

/-- The datagrams of a run of the sender are behind at its end, unless the counters stay for the next. -/
theorem stamped_behind {m₀ : AirtunesManager} (hseq : m₀.rtpseq = m.rtpseq)
    (htime : m₀.rtptime = m.rtptime) (hhandled : m₀.handled = m.handled + 1)
    {e : Option Speaker.Throwable} (he : e ≠ some .ioException) (id : ℕ) (b : Buffer) :
    Behind (m₀.endRun e) ⟨id, m.handled, m.stamped b⟩ := by
  rcases e with _ | _ | _
  · refine ⟨1, fun _ => Nat.one_pos, ?_, ?_, ?_⟩
    · rw [endRun_handled, hhandled]
    · rw [endRun_rtpseq, if_pos rfl, hseq, ofNat_rtpseq_succ]
      rfl
    · rw [endRun_rtptime, if_pos rfl, htime, UInt32.ofNat_mod_size, UInt32.ofNat_add]
      rfl
  · exact absurd rfl he
  · refine ⟨0, fun hc => ?_, ?_, ?_, ?_⟩
    · simp [endRun_cancelled] at hc
    · rw [endRun_handled, hhandled]
      exact Nat.le_succ _
    · rw [endRun_rtpseq, if_neg (by simp), hseq]
      simp [AirtunesManager.stamped]
    · rw [endRun_rtptime, if_neg (by simp), htime]
      simp [AirtunesManager.stamped]

/-- A datagram that is behind the counters is followed by the packet with their numbers. -/
theorem Behind.advances {a : Datagram} (h : Behind m a) (hc : m.cancelled = false) (b : Buffer) :
    Advances a ⟨a.speaker, m.handled, m.stamped b⟩ := by
  obtain ⟨d, hd, hle, hs, ht⟩ := h
  exact ⟨d, hd hc, hle, hs, ht⟩

theorem sendPacket_advancing (hm : Advancing m) {b : Buffer} (hc : m.cancelled = false) {t : Tick}
    (hop : ∀ l ∈ (connected t m.speakers).tail, t.audioFails l.id = false) :
    Advancing (m.sendPacket b t) := by
  have hsub : (sendAudio t m.speakers).2.1.Sublist (m.speakers.map (·.id)) :=
    sendAudio_sublist t m.speakers
  have hids : (m.sendPacket b t).speakers.map (·.id) = m.speakers.map (·.id) := by
    rw [AirtunesManager.sendPacket, endRun_speakers, sendAudio_ids]
  have hcreated : (m.sendPacket b t).created = m.created := endRun_created _
  have hsent : (m.sendPacket b t).sent =
      m.sent ++ (sendAudio t m.speakers).2.1.map fun id => ⟨id, m.handled, m.stamped b⟩ :=
    endRun_sent _
  constructor
  · rw [hids]
    exact hm.nodup
  · rw [hids, hcreated]
    exact hm.listed
  · intro a ha
    rw [hsent, List.mem_append, List.mem_map] at ha
    rw [hcreated]
    rcases ha with ha | ⟨id, hid, rfl⟩
    · exact hm.made a ha
    · exact hm.listed id (hsub.subset hid)
  · exact fun _ => endRun_sending _
  · rw [hsent, List.pairwise_append, List.pairwise_map]
    refine ⟨hm.sent, ?_, ?_⟩
    · -- no speaker is sent the packet twice
      exact (hsub.nodup hm.nodup).imp fun hne heq => absurd heq hne
    · intro a ha c hc' heq
      obtain ⟨id, hid, rfl⟩ := List.mem_map.mp hc'
      have hlisted : a.speaker ∈ m.speakers.map (·.id) := by
        rw [show a.speaker = id from heq]
        exact hsub.subset hid
      rw [← show a.speaker = id from heq]
      exact (hm.behind a ha hlisted).advances hc b
  · intro a ha hid
    rw [hids] at hid
    rw [hsent, List.mem_append, List.mem_map] at ha
    rcases ha with ha | ⟨id, hmem, rfl⟩
    · refine (hm.behind a ha hid).endRun hc ?_ ?_ ?_ _ <;> rfl
    · refine stamped_behind ?_ ?_ ?_ (fun hio => ?_) id b <;> try rfl
      rw [sendAudio_first hop hio] at hmem
      exact absurd hmem List.not_mem_nil

theorem transmit_advancing (hm : Advancing m) {t : Tick} (hop : FailsFirst m (.transmit t))
    (h : m.transmit t = some m') : Advancing m' := by
  obtain ⟨b, hb, hcases⟩ := transmit_cases h
  have hc : m.cancelled = false := not_cancelled hm.idle hb
  rcases hcases with ⟨e, -, rfl⟩ | rfl
  · refine hm.of_sublist (by rw [endRun_speakers]) (fun _ => endRun_sending _) (endRun_created _)
      (endRun_sent _) fun a _ hbehind => ?_
    refine hbehind.endRun hc ?_ ?_ ?_ _ <;> rfl
  · exact sendPacket_advancing hm hc hop

/-! ### Runs -/

/-- **One step.** -/
theorem step_advancing {aes : Block → Block → Block} (hm : Advancing m) {op : Op}
    (hop : FailsFirst m op) (h : step aes m op = some m') : Advancing m' := by
  cases op with
  | addSpeaker j => exact addSpeaker_advancing hm h
  | removeSpeaker id teardown =>
    have hsub : ((m.speakers.filter (·.id ≠ id)).map (·.id)).Sublist (m.speakers.map (·.id)) :=
      List.filter_sublist.map _
    rcases removeSpeaker_cases h with rfl | rfl | ⟨-, -, rfl⟩
    · exact hm
    · exact hm.of_sublist hsub hm.idle rfl rfl fun _ _ hb => hb
    · exact hm.of_sublist hsub (fun _ => rfl) rfl rfl fun _ _ hb => hb
  | call id c =>
    obtain rfl := Option.some.inj h
    have hids : (m.call id c).speakers.map (·.id) = m.speakers.map (·.id) := by
      rw [AirtunesManager.call, List.map_map]
      refine List.map_congr_left fun l _ => ?_
      rw [Function.comp_apply]
      split_ifs <;> rfl
    exact hm.of_sublist (by rw [hids]) hm.idle rfl rfl fun _ _ hb => hb
  | fill c =>
    obtain ⟨-, rfl⟩ := fill_cases h
    exact hm.of_sublist (List.Sublist.refl _) hm.idle rfl rfl fun _ _ hb => hb
  | put =>
    obtain ⟨b, -, -, rfl⟩ := put_cases h
    exact hm.of_sublist (List.Sublist.refl _) hm.idle rfl rfl fun _ _ hb => hb
  | clear stops =>
    obtain ⟨-, rfl⟩ := clear_cases h
    refine hm.of_sublist ?_ hm.idle rfl rfl fun _ _ hb => hb
    show ((if m.speakerstarted then stopAll stops m.speakers else m.speakers).map (·.id)).Sublist _
    split_ifs
    · rw [stopAll_ids]
    · exact List.Sublist.refl _
  | drain =>
    obtain ⟨-, -, rfl⟩ := drain_cases h
    exact hm.of_sublist (List.Sublist.refl _) hm.idle rfl rfl fun _ _ hb => hb
  | poll =>
    obtain ⟨b, queue, -, -, hc, rfl⟩ := poll_cases h
    exact hm.of_sublist (List.Sublist.refl _) (fun hc' => by simp [hc] at hc') rfl rfl fun _ _ hb => hb
  | transmit t => exact transmit_advancing hm hop h

theorem advancing_initial : Advancing {} :=
  ⟨List.nodup_nil, fun _ h => absurd h List.not_mem_nil, fun _ h => absurd h List.not_mem_nil,
    fun _ => rfl, List.Pairwise.nil, fun _ h => absurd h List.not_mem_nil⟩

/-- **No sequence number is used again for `2 ^ 16` packets, and those of a speaker advance**, in a run in
which of the sends of a packet only the first can fail. -/
theorem sequence_advances (aes : Block → Block → Block) {ops : List Op} {m : AirtunesManager}
    (hops : AllSteps (step aes) FailsFirst {} ops) (h : run (step aes) {} ops = some m) :
    m.sent.Pairwise fun a b => a.speaker = b.speaker →
      Advances a b ∧ (b.index - a.index < 2 ^ 16 → a.packet.rtpseq ≠ b.packet.rtpseq) := by
  have hm := run_inv (fun _ _ _ hm hop => step_advancing hm hop) advancing_initial hops h
  exact hm.sent.imp fun hab heq => ⟨hab heq, (hab heq).rtpseq_ne⟩

/-- Two speakers, two packets; the sends to the speakers of `fails` fail in the first run of the
sender. -/
def twoSpeakers (fails : ℕ → Bool) : List Op :=
  adding "kitchen" answers :: adding "bath" answers ::
    (packet 0 ++ packet 1 ++ sending fails ++ sending fun _ => false)

theorem sequence_advances_two :
    ∃ m, run (step fun _ b => b) {} (twoSpeakers fun _ => false) = some m ∧
      m.sent.map (·.speaker) = [0, 1, 0, 1] ∧ m.sent.Pairwise fun a b => a.speaker = b.speaker →
        Advances a b ∧ (b.index - a.index < 2 ^ 16 → a.packet.rtpseq ≠ b.packet.rtpseq) := by
  have hops : AllSteps (step fun _ b => b) FailsFirst {} (twoSpeakers fun _ => false) := by
    refine allSteps_cons trivial rfl (allSteps_cons trivial rfl (allSteps_cons trivial rfl
      (allSteps_cons trivial rfl (allSteps_cons trivial rfl (allSteps_cons trivial rfl
        (allSteps_cons trivial rfl (allSteps_cons (fun _ _ => rfl) rfl (allSteps_cons trivial rfl
          ⟨fun _ _ => rfl, fun _ _ => trivial⟩))))))))
  exact ⟨_, rfl, rfl, sequence_advances _ hops rfl⟩

theorem payload_ne {xs ys : List UInt8} {p q u p' q' v : UInt8} (h : u ≠ v) :
    xs ++ [p, q, u] ≠ ys ++ [p', q', v] := by
  intro heq
  have hlast := congrArg List.getLast? heq
  simp [h] at hlast

/-- The send to the second speaker fails: the first is sent both packets under the same numbers. -/
theorem sequence_reused :
    ∃ m a b c, run (step fun _ b => b) {} (twoSpeakers fun id => id = 1) = some m ∧
      m.sent = [a, b, c] ∧ a.speaker = b.speaker ∧ a.packet.rtpseq = b.packet.rtpseq ∧
      a.packet.rtptime = b.packet.rtptime ∧ a.packet.payload ≠ b.packet.payload := by
  refine ⟨_, _, _, _, rfl, rfl, rfl, rfl, rfl, payload_ne ?_⟩
  decide +kernel

end Waveplay.Airtunes.Sequence
