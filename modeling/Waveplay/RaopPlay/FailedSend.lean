import Waveplay.RaopPlay.RaopClient

/-! # A send that fails

`raopcl_send_sample` advances the time stamp before it asks for memory, and puts its packet in the place of
what waits to be written before it asks for a slot of the event table. When one of the two is refused, it
returns `-1` and leaves these changes.

* `failedSend_iff`: when a failed send changes nothing.
* `sendAll_failed`: the time stamp after any number of failed sends. -/

namespace Waveplay.RaopPlay.FailedSend

open Waveplay.RaopPlay.EventTable Waveplay.RaopPlay.RaopClient

/-- The bytes still to be written. -/
def pending (r : Raopcl) : List UInt8 := (r.data.drop r.wblkWsize).take r.wblkRemsize

/-- What a failed send should leave as it was. -/
structure Unchanged (s t : Session) : Prop where
  timestamp : t.raopcl.timestamp = s.raopcl.timestamp
  seqNumber : t.statics.seqNumber = s.statics.seqNumber
  begin : t.statics.begin = s.statics.begin
  wsize : t.raopcl.wblkWsize = s.raopcl.wblkWsize
  remsize : t.raopcl.wblkRemsize = s.raopcl.wblkRemsize
  bytes : pending t.raopcl = pending s.raopcl

/-- A send that fails changes nothing. -/
def FailsSafely (aes : Block → Block) (s : Session) (alloc : Bool) (sample : List UInt8) : Prop :=
  (raopclSendSample aes s alloc sample).1 = false → Unchanged s (raopclSendSample aes s alloc sample).2

/-- The time stamp stays the same: over UDP the block has no bytes, as a 32-bit number. -/
def SameStamp (s : Session) (sample : List UInt8) : Prop := s.raopcl.udp = true → 2 ^ 32 ∣ sample.length

/-- A packet waits to be written, and nothing of it has been. -/
structure Waits (r : Raopcl) (packet : List UInt8) : Prop where
  wsize : r.wblkWsize = 0
  remsize : r.wblkRemsize = packet.length
  bytes : pending r = packet

/-- The condition: memory and a slot are there; or there is no memory, and nothing waits to be written; or
there is no slot, and the very packet waits to be written already. -/
def Harmless (aes : Block → Block) (s : Session) (alloc : Bool) (sample : List UInt8) : Prop :=
  if alloc then HasSlot s.raopcl.sfd s.fds ∨ SameStamp s sample ∧ Waits s.raopcl (s.packet aes sample)
  else SameStamp s sample ∧ pending s.raopcl = []

section

variable (aes : Block → Block) (s : Session) (sample : List UInt8)

theorem nextTimestamp_eq_iff :
    s.raopcl.nextTimestamp sample.length = s.raopcl.timestamp ↔ SameStamp s sample := by
  unfold Raopcl.nextTimestamp SameStamp
  split_ifs with hudp
  · have hzero : UInt32.ofNat sample.length = 0 ↔ 2 ^ 32 ∣ sample.length := by
      rw [← UInt32.toNat_inj, UInt32.toNat_ofNat, Nat.dvd_iff_mod_eq_zero]
      rfl
    rw [UInt32.add_eq_left, hzero]
    exact ⟨fun h _ => h, fun h => h hudp⟩
  · exact iff_of_true rfl fun h => absurd h hudp

theorem length_packet :
    (s.packet aes sample).length = sample.length + if s.raopcl.udp then 12 else 16 := by
  unfold Session.packet
  split_ifs
  · rw [List.length_append, length_encryptData, Nat.add_comm]
    rfl
  · rw [List.length_append, Nat.add_comm]
    rfl
  · exact length_tcpBlock aes s.raopcl sample

theorem setFdEvent_eq_none_iff_not_hasSlot :
    setFdEvent (s.raopcl.event true) s.fds = none ↔ ¬ HasSlot s.raopcl.sfd s.fds := by
  rw [setFdEvent_eq_none_iff]
  unfold HasSlot
  push Not
  rfl

theorem pending_sent : pending (s.sent aes true sample) = s.packet aes sample := by
  have hremsize : (s.sent aes true sample).wblkRemsize = (s.packet aes sample).length :=
    (length_packet aes s sample).symm
  rw [pending, hremsize]
  exact List.take_length

/-- A failed send, but for the client, changes nothing. -/
theorem failed_eq {alloc : Bool} (h : (raopclSendSample aes s alloc sample).1 = false) :
    (raopclSendSample aes s alloc sample).2 = { s with raopcl := s.sent aes alloc sample } := by
  rw [raopclSendSample_eq] at h ⊢
  split at h
  · rfl
  · cases h

theorem unchanged_without_memory :
    Unchanged s { s with raopcl := s.sent aes false sample } ↔
      SameStamp s sample ∧ pending s.raopcl = [] := by
  have hpending : pending (s.sent aes false sample) = [] := by
    unfold pending
    exact (congrArg (List.take _) List.drop_nil).trans List.take_nil
  rw [← nextTimestamp_eq_iff]
  constructor
  · intro h
    exact ⟨h.timestamp, h.bytes.symm.trans hpending⟩
  · rintro ⟨hstamp, hnil⟩
    exact ⟨hstamp, rfl, rfl, rfl, rfl, hpending.trans hnil.symm⟩

theorem unchanged_without_slot :
    Unchanged s { s with raopcl := s.sent aes true sample } ↔
      SameStamp s sample ∧ Waits s.raopcl (s.packet aes sample) := by
  have hremsize : (s.sent aes true sample).wblkRemsize = (s.packet aes sample).length :=
    (length_packet aes s sample).symm
  rw [← nextTimestamp_eq_iff]
  constructor
  · intro h
    refine ⟨h.timestamp, h.wsize.symm, h.remsize.symm.trans hremsize, ?_⟩
    exact h.bytes.symm.trans (pending_sent aes s sample)
  · rintro ⟨hstamp, hwaits⟩
    refine ⟨hstamp, rfl, rfl, hwaits.wsize.symm, hremsize.trans hwaits.remsize.symm, ?_⟩
    exact (pending_sent aes s sample).trans hwaits.bytes.symm

/-- **When a failed send changes nothing**, over TCP and UDP, from any state. -/
theorem failedSend_iff (alloc : Bool) : FailsSafely aes s alloc sample ↔ Harmless aes s alloc sample := by
  unfold FailsSafely Harmless
  cases alloc with
  | false =>
    have hfails : (raopclSendSample aes s false sample).1 = false :=
      (raopclSendSample_eq_false ..).mpr (.inl rfl)
    rw [failed_eq aes s sample hfails, unchanged_without_memory, if_neg (by decide)]
    exact ⟨fun h => h hfails, fun h _ => h⟩
  | true =>
    rw [if_pos rfl, ← unchanged_without_slot]
    by_cases hslot : HasSlot s.raopcl.sfd s.fds
    · refine iff_of_true (fun hfails => ?_) (.inl hslot)
      rcases (raopclSendSample_eq_false ..).mp hfails with halloc | hnone
      · cases halloc
      · exact absurd hslot ((setFdEvent_eq_none_iff_not_hasSlot s).mp hnone)
    · have hfails : (raopclSendSample aes s true sample).1 = false :=
        (raopclSendSample_eq_false ..).mpr (.inr ((setFdEvent_eq_none_iff_not_hasSlot s).mpr hslot))
      rw [failed_eq aes s sample hfails]
      exact ⟨fun h => .inr (h hfails), fun h _ => h.resolve_left hslot⟩

end

/-- A session over UDP, with every slot of the table taken by others. -/
def full : Session :=
  { raopcl := { iv := fun _ => 0, nv := fun _ => 0, sfd := 7, udp := true }
    fds := [{ fd := 3 }, { fd := 4 }, { fd := 5 }, { fd := 6 }] }

/-- A block of one byte: the time stamp moves, and thirteen bytes wait to be written. -/
theorem not_failsSafely_full : ¬ FailsSafely id full true [0] ∧
    (raopclSendSample id full true [0]).2.raopcl.timestamp = 1 ∧
    (raopclSendSample id full true [0]).2.raopcl.wblkRemsize = 13 := by
  refine ⟨fun h => ?_, rfl, rfl⟩
  have hremsize : 13 = 0 := (h rfl).remsize
  omega

/-! ### Failures add up -/

/-- Sends one after the other, with the outcome of each allocation. -/
def sendAll (aes : Block → Block) : Session → List (Bool × List UInt8) → Session
  | s, [] => s
  | s, (alloc, sample) :: sends => sendAll aes (raopclSendSample aes s alloc sample).2 sends

/-- Every send fails. -/
def AllFail (aes : Block → Block) : Session → List (Bool × List UInt8) → Prop
  | _, [] => True
  | s, (alloc, sample) :: sends =>
    (raopclSendSample aes s alloc sample).1 = false ∧
      AllFail aes (raopclSendSample aes s alloc sample).2 sends

/-- **After failed sends** over UDP the time stamp has moved by all the bytes that were not sent, and the
sequence number has not moved. -/
theorem sendAll_failed (aes : Block → Block) : ∀ (sends : List (Bool × List UInt8)) {s : Session},
    s.raopcl.udp = true → AllFail aes s sends →
    (sendAll aes s sends).raopcl.timestamp =
        s.raopcl.timestamp + UInt32.ofNat (sends.flatMap Prod.snd).length ∧
      (sendAll aes s sends).statics = s.statics
  | [], s, _, _ => ⟨(UInt32.add_zero _).symm, rfl⟩
  | (alloc, sample) :: sends, s, hudp, ⟨hfails, hrest⟩ => by
    have hnext := failed_eq aes s sample hfails
    have hstamp : (s.sent aes alloc sample).timestamp =
        s.raopcl.timestamp + UInt32.ofNat sample.length := by
      have hnextTimestamp : s.raopcl.nextTimestamp sample.length = _ := if_pos hudp
      rw [← hnextTimestamp]
      unfold Session.sent
      split_ifs <;> rfl
    have hudp' : (s.sent aes alloc sample).udp = true := by
      rw [← hudp]
      unfold Session.sent
      split_ifs <;> rfl
    rw [hnext] at hrest
    obtain ⟨htimestamp, hstatics⟩ := sendAll_failed aes sends hudp' hrest
    rw [sendAll, hnext, List.flatMap_cons, List.length_append, UInt32.ofNat_add, ← UInt32.add_assoc,
      ← hstamp]
    exact ⟨htimestamp, hstatics⟩

end Waveplay.RaopPlay.FailedSend
