import Waveplay.RaopPlay.RaopClient
import Waveplay.RaopPlay.Requests

/-! # UDP sessions

`raopcl_connect` starts the timestamp of a session at zero and announces `seq=0;rtptime=0`, but the
sequence number and the flag for the marker are static variables of `raopcl_send_sample` that nothing
sets back. The timestamp grows by the bytes of a block, and not by its frames.

* `sendAll_headers`: the headers of the packets of a session.
* `process_asAnnounced_iff`: every session of a process starts as announced exactly if no more than one of
  them sends anything.
* `countsFrames_iff`: the timestamps of a session count frames exactly if it has no more than one block. -/

namespace Waveplay.RaopPlay.UdpSessions

open Waveplay.RaopPlay.AexclLib (ascii)
open Waveplay.RaopPlay.AudioStream Waveplay.RaopPlay.EventTable Waveplay.RaopPlay.RaopClient

/-! ### Sessions -/

/-- What `raopcl_connect` gets for a session: the socket that is connected to the receiver, the number
from `rand`, and its argument. -/
structure Connect where
  sfd : ℤ
  ssrc : UInt32
  encrypt : Bool

/-- `raopcl_connect` in UDP mode, when it succeeds. -/
def raopclConnect (r : Raopcl) (c : Connect) : Raopcl :=
  { r with udp := true, ssrc := c.ssrc, timestamp := 0, encrypt := c.encrypt, sfd := c.sfd }

/-- A session: the client as `raopcl_open` or an earlier session left it, the event table, and the samples
that are sent after `raopcl_connect`. -/
structure UdpSession where
  raopcl : Raopcl
  fds : List (FdEvent Unit) := emptyTable
  connect : Connect
  samples : List (List UInt8)

/-- The session right after `raopcl_connect`, with the static variables of the process. -/
def UdpSession.start (u : UdpSession) (st : Statics) : Session :=
  { raopcl := raopclConnect u.raopcl u.connect, statics := st, fds := u.fds }

section

variable (aes : Block → Block)

/-- Calls of `raopcl_send_sample`, `none` if one of them fails: the packets. -/
def sendAll : Session → List (List UInt8) → Option (List (List UInt8) × Session)
  | s, [] => some ([], s)
  | s, sample :: samples =>
    match raopclSendSample aes s true sample with
    | (false, _) => none
    | (true, s) => (sendAll s samples).map fun (packets, t) => (s.raopcl.data :: packets, t)

/-- The packets of each session of a process that starts with the static variables `st`. -/
def process : Statics → List UdpSession → Option (List (List (List UInt8)))
  | _, [] => some []
  | st, u :: us => do
    let (packets, t) ← sendAll aes (u.start st) u.samples
    let rest ← process t.statics us
    some (packets :: rest)

end

/-! ### Headers -/

/-- The fields of the RTP header that a session has to start with. -/
structure RtpHeader where
  marker : Bool
  seq : ℕ
  timestamp : ℕ
  deriving DecidableEq, Repr

/-- The header of a packet, as a receiver reads it. -/
def rtpHeader (packet : List UInt8) : RtpHeader where
  marker := 128 ≤ packet.getD 1 0
  seq := 256 * (packet.getD 2 0).toNat + (packet.getD 3 0).toNat
  timestamp := 256 * (256 * (256 * (packet.getD 4 0).toNat + (packet.getD 5 0).toNat) +
    (packet.getD 6 0).toNat) + (packet.getD 7 0).toNat

/-- The text of the header `RTP-Info` for a first packet. -/
def rtpInfo (h : RtpHeader) : String := "seq=" ++ toString h.seq ++ ";rtptime=" ++ toString h.timestamp

/-- The packets of a session start as announced: the first one has the marker and the announced numbers,
which are zero, and the others have no marker and the next numbers in sixteen bits. -/
def AsAnnounced (packets : List (List UInt8)) : Prop :=
  (∀ p, packets[0]? = some p → rtpHeader p = ⟨true, 0, 0⟩ ∧
    Requests.rtspclRecord.hds.lookup (ascii "RTP-Info") = some (ascii (rtpInfo (rtpHeader p)))) ∧
  ∀ n p, packets[n + 1]? = some p → (rtpHeader p).marker = false ∧ (rtpHeader p).seq = (n + 1) % 2 ^ 16

theorem rtpHeader_udpHeader (s : Session) (body : List UInt8) :
    rtpHeader (udpHeader s ++ body) = ⟨s.statics.begin, s.statics.seqNumber.toNat % 2 ^ 16,
      s.raopcl.timestamp.toNat⟩ := by
  have hmarker : (128 ≤ if s.statics.begin then (96 + 128 : UInt8) else 96) ↔ s.statics.begin = true := by
    cases s.statics.begin <;> decide
  have hseq : 256 * (s.statics.seqNumber >>> 8).toUInt8.toNat + s.statics.seqNumber.toUInt8.toNat =
      s.statics.seqNumber.toNat % 2 ^ 16 := by
    simp [Nat.shiftRight_eq_div_pow]
    omega
  have htimestamp : 256 * (256 * (256 * (s.raopcl.timestamp >>> 24).toUInt8.toNat +
      (s.raopcl.timestamp >>> 16).toUInt8.toNat) + (s.raopcl.timestamp >>> 8).toUInt8.toNat) +
      s.raopcl.timestamp.toUInt8.toNat = s.raopcl.timestamp.toNat := by
    have hlt := s.raopcl.timestamp.toNat_lt
    simp [Nat.shiftRight_eq_div_pow]
    omega
  rw [RtpHeader.mk.injEq]
  refine ⟨?_, hseq, htimestamp⟩
  show decide (128 ≤ if s.statics.begin then (96 + 128 : UInt8) else 96) = s.statics.begin
  rw [Bool.eq_iff_iff, decide_eq_true_eq]
  exact hmarker

/-- **One packet**: its header is that of the counters before it, which then go on. -/
theorem raopclSendSample_udp {aes : Block → Block} {s t : Session} (hudp : s.raopcl.udp = true)
    {sample : List UInt8} (h : raopclSendSample aes s true sample = (true, t)) :
    (∃ body, t.raopcl.data = udpHeader s ++ body) ∧ t.raopcl.udp = true ∧
      t.raopcl.timestamp = s.raopcl.timestamp + UInt32.ofNat sample.length ∧
      t.statics.seqNumber = s.statics.seqNumber + 1 ∧ t.statics.begin = false := by
  rw [raopclSendSample, if_pos hudp] at h
  cases hencrypt : s.raopcl.encrypt
  all_goals
    simp only [hencrypt, Bool.not_true, Bool.false_eq_true, if_false, if_true] at h
    split at h
    · cases h
    · obtain ⟨-, rfl⟩ := Prod.mk.inj h
      exact ⟨⟨_, rfl⟩, hudp, rfl, rfl, rfl⟩

/-- The bytes sent before the packet `n`. -/
def sentBefore (samples : List (List UInt8)) (n : ℕ) : ℕ := ((samples.take n).map List.length).sum

/-- **The packets of a session**, from any state of the counters. -/
theorem sendAll_headers {aes : Block → Block} : ∀ {samples : List (List UInt8)} {s t : Session}
    {packets : List (List UInt8)}, s.raopcl.udp = true → sendAll aes s samples = some (packets, t) →
    packets.length = samples.length ∧ t.statics.begin = (s.statics.begin && samples.isEmpty) ∧
      (samples = [] → t.statics = s.statics) ∧
      ∀ n p, packets[n]? = some p → rtpHeader p = ⟨s.statics.begin && n = 0,
        (s.statics.seqNumber.toNat + n) % 2 ^ 16,
        (s.raopcl.timestamp.toNat + sentBefore samples n) % 2 ^ 32⟩
  | [], s, t, packets, _, h => by
    obtain ⟨rfl, rfl⟩ := Prod.mk.inj (Option.some.inj h)
    exact ⟨rfl, by simp, fun _ => rfl, fun n p hp => by simp at hp⟩
  | sample :: samples, s, t, packets, hudp, h => by
    rw [sendAll] at h
    split at h
    · cases h
    · next s' hsend =>
      obtain ⟨⟨packets', t'⟩, hrest, heq⟩ := Option.map_eq_some_iff.mp h
      obtain ⟨rfl, rfl⟩ := Prod.mk.inj heq
      obtain ⟨⟨body, hdata⟩, hudp', htimestamp, hseq, hbegin⟩ := raopclSendSample_udp hudp hsend
      obtain ⟨hlength, hbegin', -, hheaders⟩ := sendAll_headers hudp' hrest
      refine ⟨by rw [List.length_cons, hlength, List.length_cons], ?_, fun hnil => ?_, fun n p hp => ?_⟩
      · rw [hbegin', hbegin]
        simp
      · cases hnil
      · cases n with
        | zero =>
          obtain rfl : s'.raopcl.data = p := Option.some.inj hp
          rw [hdata, rtpHeader_udpHeader]
          simp [sentBefore, Nat.mod_eq_of_lt s.raopcl.timestamp.toNat_lt]
        | succ n =>
          rw [hheaders n p hp, hbegin, hseq, htimestamp]
          simp only [sentBefore, List.take_succ_cons, List.map_cons, List.sum_cons, RtpHeader.mk.injEq]
          refine ⟨by simp, ?_, ?_⟩
          · simp; omega
          · simp; omega

/-! ### How sessions start -/

/-- **One session** starts as announced exactly if the static variables are as at the start of the process,
up to the bits of the sequence number that are not sent, or if it sends nothing. -/
theorem sendAll_asAnnounced_iff {aes : Block → Block} {u : UdpSession} {st : Statics}
    {packets : List (List UInt8)} {t : Session} (h : sendAll aes (u.start st) u.samples = some (packets, t)) :
    AsAnnounced packets ↔ u.samples = [] ∨ st.begin = true ∧ st.seqNumber.toNat % 2 ^ 16 = 0 := by
  obtain ⟨hlength, -, -, hheaders⟩ := sendAll_headers rfl h
  have htimestamp : ((u.start st).raopcl.timestamp.toNat + sentBefore u.samples 0) % 2 ^ 32 = 0 := rfl
  have hstatics : (u.start st).statics = st := rfl
  rw [hstatics] at hheaders
  constructor
  · rintro ⟨hfirst, -⟩
    by_cases hnil : u.samples = []
    · exact .inl hnil
    · have hpos : 0 < packets.length := by
        rw [hlength]
        exact List.length_pos_of_ne_nil hnil
      obtain ⟨hheader, -⟩ := hfirst packets[0] (List.getElem?_eq_getElem hpos)
      rw [hheaders 0 packets[0] (List.getElem?_eq_getElem hpos), RtpHeader.mk.injEq] at hheader
      exact .inr ⟨by simpa using hheader.1, by simpa using hheader.2.1⟩
  · rintro (hnil | ⟨hbegin, hseq⟩)
    · have hpackets : packets = [] := List.length_eq_zero_iff.mp (by rw [hlength, hnil]; rfl)
      subst hpackets
      exact ⟨fun p hp => by simp at hp, fun n p hp => by simp at hp⟩
    · refine ⟨fun p hp => ?_, fun n p hp => ?_⟩
      · have hheader : rtpHeader p = ⟨true, 0, 0⟩ := by
          rw [hheaders 0 p hp, hbegin, Nat.add_zero, hseq, htimestamp]
          rfl
        exact ⟨hheader, by rw [hheader]; decide⟩
      · rw [hheaders (n + 1) p hp]
        refine ⟨by simp, ?_⟩
        show (st.seqNumber.toNat + (n + 1)) % 2 ^ 16 = (n + 1) % 2 ^ 16
        omega

theorem process_cons {aes : Block → Block} {u : UdpSession} {us : List UdpSession} {st : Statics}
    {logs : List (List (List UInt8))} (h : process aes st (u :: us) = some logs) :
    ∃ packets t rest, sendAll aes (u.start st) u.samples = some (packets, t) ∧
      process aes t.statics us = some rest ∧ logs = packets :: rest := by
  rw [process, Option.bind_eq_bind, Option.bind_eq_some_iff] at h
  obtain ⟨⟨packets, t⟩, hsend, h⟩ := h
  rw [Option.bind_eq_bind, Option.bind_eq_some_iff] at h
  obtain ⟨rest, hrest, hlogs⟩ := h
  exact ⟨packets, t, rest, hsend, hrest, (Option.some.inj hlogs).symm⟩

/-- Once a packet was sent, no session starts as announced. -/
theorem process_after {aes : Block → Block} : ∀ {us : List UdpSession} {st : Statics}
    {logs : List (List (List UInt8))}, st.begin = false → process aes st us = some logs →
    ((∀ packets ∈ logs, AsAnnounced packets) ↔ ∀ u ∈ us, u.samples = [])
  | [], st, logs, _, h => by
    obtain rfl := Option.some.inj h
    simp
  | u :: us, st, logs, hbegin, h => by
    obtain ⟨packets, t, rest, hsend, hrest, rfl⟩ := process_cons h
    have hbegin' : t.statics.begin = false := by
      rw [(sendAll_headers rfl hsend).2.1]
      show (st.begin && _) = false
      rw [hbegin, Bool.false_and]
    rw [List.forall_mem_cons, List.forall_mem_cons, process_after hbegin' hrest,
      sendAll_asAnnounced_iff hsend, hbegin]
    simp

/-- **Sessions of a process**: all of them start as announced exactly if no more than one sends. -/
theorem process_asAnnounced_iff (aes : Block → Block) : ∀ {us : List UdpSession}
    {logs : List (List (List UInt8))}, process aes {} us = some logs →
    ((∀ packets ∈ logs, AsAnnounced packets) ↔ us.countP (fun u => u.samples ≠ []) ≤ 1)
  | [], logs, h => by
    obtain rfl := Option.some.inj h
    simp
  | u :: us, logs, h => by
    obtain ⟨packets, t, rest, hsend, hrest, rfl⟩ := process_cons h
    obtain ⟨-, hbegin, hnil, -⟩ := sendAll_headers rfl hsend
    rw [List.forall_mem_cons, sendAll_asAnnounced_iff hsend]
    by_cases hsamples : u.samples = []
    · -- the next session finds the static variables untouched
      have hstatics : t.statics = {} := hnil hsamples
      rw [hstatics] at hrest
      rw [process_asAnnounced_iff aes hrest, List.countP_cons_of_neg (by simpa using hsamples)]
      simp [hsamples]
    · have hbegin' : t.statics.begin = false := by
        rw [hbegin]
        simp [hsamples]
      rw [process_after hbegin' hrest, List.countP_cons_of_pos (by simpa using hsamples)]
      have hcount : us.countP (fun u => u.samples ≠ []) + 1 ≤ 1 ↔ ∀ u ∈ us, u.samples = [] := by
        have hzero : ∀ k : ℕ, k + 1 ≤ 1 ↔ k = 0 := by omega
        rw [hzero, List.countP_eq_zero]
        simp
      rw [hcount]
      simp

/-- A client for sessions that are not encrypted. -/
def client (samples : List (List UInt8)) : UdpSession where
  raopcl := { iv := fun _ => 0, nv := fun _ => 0, sfd := 0 }
  connect := ⟨7, 1, false⟩
  samples

/-- A session with two packets between two that send nothing. -/
theorem process_one_sender : ∃ logs, process id {} [client [], client [[1], [2]], client []] = some logs ∧
    ∀ packets ∈ logs, AsAnnounced packets :=
  ⟨_, rfl, (@process_asAnnounced_iff id [client [], client [[1], [2]], client []] _ rfl).mpr (by decide)⟩

/-- The first packet of a second session has no marker, and the next sequence number. -/
theorem process_second_session : ∃ first second, process id {} [client [[1]], client [[2]]] =
    some [[first], [second]] ∧ rtpHeader second = ⟨false, 1, 0⟩ ∧ ¬ AsAnnounced [second] := by
  refine ⟨_, _, rfl, by decide, fun h => ?_⟩
  have hheader := (h.1 _ rfl).1
  revert hheader
  decide

/-! ### Timestamps -/

/-- A block that `auds_write_pcm` made of at least one frame. It is inside the buffer, and its size is an
`int`. -/
structure PcmBlock where
  channels : ℕ
  buffer : List UInt8
  bsize : ℕ
  ds : DataSource
  data : List UInt8
  size : ℕ
  written : audsWritePcm channels buffer bsize ds = some (data, size)
  pos : 1 ≤ bsize
  room : pcmSize bsize ≤ buffer.length
  int : pcmSize bsize < 2 ^ 31

/-- What is passed to `raopcl_send_sample`. -/
def PcmBlock.sample (b : PcmBlock) : List UInt8 := b.data.take b.size

/-- The frames that a receiver finds in a sample. -/
def carried (sample : List UInt8) : ℕ := ((decode sample).map fun d => d.frames.length).getD 0

/-- The timestamp of every packet is the number of frames before it, in 32 bits. -/
def CountsFrames (samples packets : List (List UInt8)) : Prop :=
  ∀ n p, packets[n]? = some p → (rtpHeader p).timestamp = ((samples.take n).map carried).sum % 2 ^ 32

theorem lt_pcmSize (bsize : ℕ) : bsize < pcmSize bsize := by
  unfold pcmSize
  split_ifs <;> omega

theorem PcmBlock.carried_sample (b : PcmBlock) :
    b.sample.length = pcmSize b.bsize ∧ carried b.sample = b.bsize := by
  have hlt := lt_pcmSize b.bsize
  have hint := b.int
  obtain ⟨hsize, hlength, fs, hdec⟩ := audsWritePcm_some b.pos (by omega) b.room b.written
  constructor
  · rw [PcmBlock.sample, List.length_take, hsize, hlength]
    exact Nat.min_eq_left b.room
  · rw [carried, PcmBlock.sample, hdec]
    exact length_blockFrames b.bsize fs

/-- **Timestamps** count frames exactly if there are no more than one block: the second packet has the bytes
of the first block. -/
theorem countsFrames_iff (aes : Block → Block) {r : Raopcl} {c : Connect} {st : Statics}
    {fds : List (FdEvent Unit)} {blocks : List PcmBlock} {packets : List (List UInt8)} {t : Session}
    (h : sendAll aes { raopcl := raopclConnect r c, statics := st, fds } (blocks.map PcmBlock.sample) =
      some (packets, t)) :
    CountsFrames (blocks.map PcmBlock.sample) packets ↔ blocks.length ≤ 1 := by
  obtain ⟨hlength, -, -, hheaders⟩ := sendAll_headers rfl h
  rw [List.length_map] at hlength
  constructor
  · intro hcounts
    by_contra hlong
    have hlt : 1 < packets.length := by omega
    obtain ⟨b, bs, rfl⟩ := List.exists_cons_of_length_pos (show 0 < blocks.length by omega)
    obtain ⟨hsize, hcarried⟩ := b.carried_sample
    have htimestamp := hcounts 1 packets[1] (List.getElem?_eq_getElem hlt)
    rw [hheaders 1 packets[1] (List.getElem?_eq_getElem hlt)] at htimestamp
    have hbytes : (raopclConnect r c).timestamp.toNat + sentBefore ((b :: bs).map PcmBlock.sample) 1 =
        pcmSize b.bsize := by
      show 0 + sentBefore _ 1 = _
      simp [sentBefore, hsize]
    have hframes : (((b :: bs).map PcmBlock.sample).take 1 |>.map carried).sum = b.bsize := by
      simp [hcarried]
    simp only [hbytes, hframes] at htimestamp
    have hmore := lt_pcmSize b.bsize
    have hint := b.int
    omega
  · intro hshort n p hp
    obtain ⟨hn, -⟩ := List.getElem?_eq_some_iff.mp hp
    obtain rfl : n = 0 := by omega
    rw [hheaders 0 p hp]
    rfl

/-- A block of one frame. -/
def oneFrame : PcmBlock where
  channels := 2
  buffer := List.replicate 11 0
  bsize := 1
  ds := .memory 4 fun _ => 0x0102
  data := [32, 0, 18, 0, 0, 0, 2, 2, 4, 2, 4]
  size := 11
  written := by decide +kernel
  pos := by decide
  room := by decide
  int := by decide

/-- The session that sends the blocks. -/
def sendBlocks (blocks : List PcmBlock) : Option (List (List UInt8) × Session) :=
  sendAll id ((client []).start {}) (blocks.map PcmBlock.sample)

/-- One block. -/
theorem countsFrames_one : ∃ packets t, sendBlocks [oneFrame] = some (packets, t) ∧
    CountsFrames [oneFrame.sample] packets :=
  ⟨_, _, rfl, (@countsFrames_iff id (client []).raopcl (client []).connect {} emptyTable [oneFrame] _ _
    rfl).mpr (by decide)⟩

/-- The second packet comes after one frame of eleven bytes. -/
theorem countsFrames_two : ∃ first second t, sendBlocks [oneFrame, oneFrame] = some ([first, second], t) ∧
    carried oneFrame.sample = 1 ∧ (rtpHeader second).timestamp = 11 ∧
    ¬ CountsFrames [oneFrame.sample, oneFrame.sample] [first, second] := by
  have hcarried : carried oneFrame.sample = 1 := oneFrame.carried_sample.2
  refine ⟨_, _, _, rfl, hcarried, by decide +kernel, fun h => ?_⟩
  have htimestamp := h 1 _ rfl
  simp only [List.take_succ_cons, List.take_zero, List.map_cons, List.map_nil, List.sum_cons, List.sum_nil,
    hcarried] at htimestamp
  revert htimestamp
  decide +kernel

end Waveplay.RaopPlay.UdpSessions
