import Waveplay.Airtunes.Manager
import Waveplay.Lib.Runs

/-! # The buffers in use

The buffers of `packetdata` are filled in turn. Those in use are the one `sendAudioPacket` works on, those
in the queue and the one the sender has polled, newest first; as long as none is skipped they are
consecutive, and there are at most `102` of the `105`. `clear` empties the queue under the sender: the
buffer the sender holds is then further behind than the length of the list says.

* `Consecutive`: the buffers of a list follow each other, down from an index.
* `KeepsOrder`: `clear` discards packets only while the sender holds none.
* `filling_free`: in every run of such steps the buffer being filled is neither queued nor being sent. -/

namespace Waveplay.Airtunes.Buffers

open Waveplay.Lib.Runs
open Waveplay.Airtunes.AudioPacket Waveplay.Airtunes.Manager

/-! ### Consecutive buffers -/

/-- The buffers of the list, from the one before `head` down. -/
def Consecutive : Buffer → List Buffer → Prop
  | _, [] => True
  | head, b :: bs => b + 1 = head ∧ Consecutive b bs

theorem Consecutive.of_append : ∀ {head : Buffer} {bs cs : List Buffer},
    Consecutive head (bs ++ cs) → Consecutive head bs
  | _, [], _, _ => trivial
  | _, _ :: _, _, h => ⟨h.1, Consecutive.of_append h.2⟩

theorem Consecutive.exists_eq : ∀ {head : Buffer} {bs : List Buffer}, Consecutive head bs →
    ∀ b ∈ bs, ∃ k < bs.length, (b.val + k + 1) % 105 = head.val
  | head, c :: bs, h, b, hb => by
    have hc : (c.val + 1) % 105 = head.val := by
      rw [← h.1, Fin.val_add]
      rfl
    rcases List.mem_cons.mp hb with rfl | hb
    · exact ⟨0, by simp, by simpa using hc⟩
    · obtain ⟨k, hk, hbk⟩ := Consecutive.exists_eq h.2 b hb
      refine ⟨k + 1, by simpa using hk, ?_⟩
      omega

/-- Up to `104` buffers do not come round to the next one. -/
theorem Consecutive.not_mem {head : Buffer} {bs : List Buffer} (h : Consecutive head bs)
    (hlen : bs.length < 105) : head ∉ bs := by
  intro hmem
  obtain ⟨k, hk, hbk⟩ := h.exists_eq head hmem
  have hlt : head.val < 105 := head.isLt
  omega

/-! ### The buffers in use -/

/-- The buffers in use, newest first. -/
def inUse (m : AirtunesManager) : List Buffer :=
  m.filling.toList ++ (m.packetqueue.reverse ++ m.sending.toList)

/-- The condition on a step: `clear` discards packets only while the sender holds none. -/
def KeepsOrder (m : AirtunesManager) : Op → Prop
  | .clear _ => m.packetqueue = [] ∨ m.sending = none
  | _ => True

/-- The buffers in use are consecutive, the queue is bounded, and a stopped manager uses none. -/
structure InOrder (m : AirtunesManager) : Prop where
  consecutive : Consecutive m.encoder.packetdatahead (inUse m)
  bounded : m.packetqueue.length ≤ QUEUELENGTH
  stopped : m.started = false → inUse m = []

theorem inUse_eq_nil {m : AirtunesManager} :
    inUse m = [] ↔ m.filling = none ∧ m.packetqueue = [] ∧ m.sending = none := by
  unfold inUse
  rw [List.append_eq_nil_iff, List.append_eq_nil_iff, List.reverse_eq_nil_iff,
    Option.toList_eq_nil_iff, Option.toList_eq_nil_iff]

theorem length_inUse_le {m : AirtunesManager} (h : m.packetqueue.length ≤ QUEUELENGTH) :
    (inUse m).length ≤ 102 := by
  have h1 : m.filling.toList.length ≤ 1 := by cases m.filling <;> simp
  have h2 : m.sending.toList.length ≤ 1 := by cases m.sending <;> simp
  have h3 : m.packetqueue.length ≤ 100 := h
  unfold inUse
  rw [List.length_append, List.length_append, List.length_reverse]
  omega

theorem InOrder.of_eq {m m' : AirtunesManager} (hm : InOrder m)
    (hhead : m'.encoder.packetdatahead = m.encoder.packetdatahead)
    (hq : m'.packetqueue = m.packetqueue) (hf : m'.filling = m.filling)
    (hs : m'.sending = m.sending) (hst : m'.started = m.started) : InOrder m' := by
  have huse : inUse m' = inUse m := by
    unfold inUse
    rw [hq, hf, hs]
  constructor
  · rw [hhead, huse]
    exact hm.consecutive
  · rw [hq]
    exact hm.bounded
  · rw [hst, huse]
    exact hm.stopped

theorem InOrder.of_free {m : AirtunesManager} (hf : m.filling = none) (hq : m.packetqueue = [])
    (hs : m.sending = none) : InOrder m := by
  have huse : inUse m = [] := inUse_eq_nil.mpr ⟨hf, hq, hs⟩
  constructor
  · rw [huse]
    trivial
  · rw [hq]
    exact Nat.zero_le _
  · exact fun _ => huse

variable {m m' : AirtunesManager}

theorem fill_inOrder (hm : InOrder m) {aes : Block → Block → Block} {c : Pcm}
    (h : m.fill aes c = some m') : InOrder m' := by
  obtain ⟨hf, rfl⟩ := fill_cases h
  by_cases hst : m.started = true
  · have huse : inUse m = m.packetqueue.reverse ++ m.sending.toList := by simp [inUse, hf]
    have hcons := hm.consecutive
    rw [huse] at hcons
    refine ⟨?_, hm.bounded, fun h0 => absurd (h0.symm.trans hst) Bool.false_ne_true⟩
    simp only [inUse, hst, if_true, sendAudioPacket_packetdatahead]
    exact ⟨rfl, hcons⟩
  · have hfree := hm.stopped (by simpa using hst)
    obtain ⟨-, hq, hs⟩ := inUse_eq_nil.mp hfree
    exact InOrder.of_free (by simp [hst]) hq hs

theorem put_inOrder (hm : InOrder m) (h : m.put = some m') : InOrder m' := by
  obtain ⟨b, hf, hl, rfl⟩ := put_cases h
  have huse : inUse { m with packetqueue := m.packetqueue ++ [b], filling := none } = inUse m := by
    simp [inUse, hf]
  refine ⟨by rw [huse]; exact hm.consecutive, ?_, by rw [huse]; exact hm.stopped⟩
  rw [List.length_append]
  exact hl

theorem poll_inOrder (hm : InOrder m) (h : m.poll = some m') : InOrder m' := by
  obtain ⟨b, queue, hs, hq, -, rfl⟩ := poll_cases h
  have huse : inUse { m with packetqueue := queue, sending := some b } = inUse m := by
    simp [inUse, hs, hq]
  refine ⟨by rw [huse]; exact hm.consecutive, ?_, by rw [huse]; exact hm.stopped⟩
  have hb := hm.bounded
  rw [hq, List.length_cons] at hb
  show queue.length ≤ QUEUELENGTH
  omega

theorem inUse_endRun {m₀ : AirtunesManager} (e : Option Speaker.Throwable)
    (hq : m₀.packetqueue = m.packetqueue) (hf : m₀.filling = m.filling) :
    inUse m = inUse (m₀.endRun e) ++ m.sending.toList := by
  simp [inUse, endRun_packetqueue, endRun_filling, endRun_sending, hq, hf]

theorem endRun_inOrder (hm : InOrder m) {e : Option Speaker.Throwable}
    {m₀ : AirtunesManager} (hhead : m₀.encoder.packetdatahead = m.encoder.packetdatahead)
    (hq : m₀.packetqueue = m.packetqueue) (hf : m₀.filling = m.filling)
    (hst : m₀.started = m.started) : InOrder (m₀.endRun e) := by
  have huse := inUse_endRun e hq hf
  have hcons := hm.consecutive
  rw [huse] at hcons
  constructor
  · rw [endRun_encoder, hhead]
    exact hcons.of_append
  · rw [endRun_packetqueue, hq]
    exact hm.bounded
  · rw [endRun_started, hst]
    intro h0
    have hnil := hm.stopped h0
    rw [huse, List.append_eq_nil_iff] at hnil
    exact hnil.1

theorem clear_inOrder (hm : InOrder m) {stops : ℕ → Bool × Speaker.Connection × Bool}
    (hop : m.packetqueue = [] ∨ m.sending = none) (h : m.clear stops = some m') : InOrder m' := by
  obtain ⟨hf, rfl⟩ := clear_cases h
  rcases hop with hq | hs
  · exact hm.of_eq rfl hq.symm rfl rfl rfl
  · exact InOrder.of_free hf rfl hs

/-- **One step.** -/
theorem step_inOrder {aes : Block → Block → Block} (hm : InOrder m) {op : Op}
    (hop : KeepsOrder m op) (h : step aes m op = some m') : InOrder m' := by
  cases op with
  | addSpeaker j =>
    obtain ⟨m₀, ⟨-, rfl⟩ | ⟨-, hst, hf, rfl⟩, rfl⟩ := addSpeaker_cases h
    · exact hm.of_eq rfl rfl rfl rfl rfl
    · have hs := (inUse_eq_nil.mp (hm.stopped hst)).2.2
      exact InOrder.of_free hf rfl hs
  | removeSpeaker id teardown =>
    rcases removeSpeaker_cases h with rfl | rfl | ⟨-, hf, rfl⟩
    · exact hm
    · exact hm.of_eq rfl rfl rfl rfl rfl
    · exact InOrder.of_free hf rfl rfl
  | call id c =>
    obtain rfl := Option.some.inj h
    exact hm.of_eq rfl rfl rfl rfl rfl
  | fill c => exact fill_inOrder hm h
  | put => exact put_inOrder hm h
  | clear stops => exact clear_inOrder hm hop h
  | drain =>
    obtain ⟨-, -, rfl⟩ := drain_cases h
    exact hm.of_eq rfl rfl rfl rfl rfl
  | poll => exact poll_inOrder hm h
  | transmit t =>
    obtain ⟨b, -, ⟨e, -, rfl⟩ | rfl⟩ := transmit_cases h
    · exact endRun_inOrder hm rfl rfl rfl rfl
    · exact endRun_inOrder hm rfl rfl rfl rfl

theorem inOrder_initial : InOrder {} := InOrder.of_free rfl rfl rfl

/-! ### Runs -/

theorem InOrder.newest_free (hm : InOrder m) {b : Buffer} (hb : m.filling = some b) :
    b ∉ m.packetqueue ∧ m.sending ≠ some b := by
  have hcons := hm.consecutive
  have hlen := length_inUse_le hm.bounded
  simp only [inUse, hb, Option.toList_some, List.singleton_append] at hcons hlen
  have hfree := hcons.2.not_mem (by simp only [List.length_cons] at hlen; omega)
  rw [List.mem_append, List.mem_reverse, Option.mem_toList, not_or] at hfree
  exact hfree

/-- **Packet buffers are not recycled while in use**, in a run in which `clear` discards packets only
while the sender holds none. -/
theorem filling_free (aes : Block → Block → Block) {ops : List Op} {m : AirtunesManager}
    (hops : AllSteps (step aes) KeepsOrder {} ops) (h : run (step aes) {} ops = some m) {b : Buffer}
    (hb : m.filling = some b) : b ∉ m.packetqueue ∧ m.sending ≠ some b :=
  (run_inv (fun _ _ _ hm hop => step_inOrder hm hop) inOrder_initial hops h).newest_free hb

/-- One packet is being sent, one is queued and a third is being filled. -/
theorem filling_free_third :
    let ops := adding "kitchen" answers :: (packet 0 ++ packet 1 ++ [.poll, .fill (sampleBlock 2)])
    ∃ m b, run (step fun _ b => b) {} ops = some m ∧ m.packetqueue.length = 1 ∧
      m.filling = some b ∧ b ∉ m.packetqueue ∧ m.sending ≠ some b := by
  intro ops
  have hops : AllSteps (step fun _ b => b) KeepsOrder {} ops := by
    refine allSteps_cons trivial rfl (allSteps_cons trivial rfl (allSteps_cons trivial rfl
      (allSteps_cons trivial rfl (allSteps_cons trivial rfl (allSteps_cons trivial rfl
        ⟨trivial, fun _ _ => trivial⟩)))))
  exact ⟨_, _, rfl, rfl, rfl, filling_free _ hops rfl rfl⟩

/-- The sender holds the first buffer; four packets are queued and cleared; a hundred more are queued.
The next one is put into the buffer that is being sent. -/
theorem recycled_after_clear :
    (run (step fun _ b => b) {}
      (adding "kitchen" answers :: (packet 0 ++ [.poll] ++
        (List.replicate 4 (packet 1)).flatten ++ [.clear fun _ => (true, answers, true)] ++
        (List.replicate 100 (packet 2)).flatten ++ [.fill (sampleBlock 3)]))).map
      (fun m => (m.filling, m.sending)) = some (some 0, some 0) := by
  decide +kernel

end Waveplay.Airtunes.Buffers
