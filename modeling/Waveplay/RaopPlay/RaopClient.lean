import Waveplay.Lib.Cbc
import Waveplay.RaopPlay.AudioStream
import Waveplay.RaopPlay.EventTable

/-! # `raop_client.c`: the audio connection

The session with the receiver as the event loop sees it: `raopcl_send_sample` makes a block and asks
for write events, `fd_event_callback` writes what the socket takes of it, and the pause functions
switch the events of the socket. AES is a parameter: `aes` is `aes_encrypt` under the key of the
session. RTSP requests go over another connection and are left out here. -/

namespace Waveplay.RaopPlay.RaopClient

open Waveplay.Lib Waveplay.RaopPlay.AudioStream Waveplay.RaopPlay.EventTable

/-! ### State -/

/-- Sixteen bytes: an AES block, a chaining vector. -/
abbrev Block := Fin 16 → UInt8

inductive Pause
  | noPause
  | opPause
  | nodataPause
  deriving DecidableEq, Repr

structure Timeval where
  sec : ℤ
  usec : ℤ
  deriving DecidableEq, Repr

/-- `raopcl_data_t`. `data` has the bytes of the block being written, and is empty for `NULL`;
`minSdata` are the first `min_sdata_size` bytes of `min_sdata`. -/
structure Raopcl where
  iv : Block
  nv : Block
  sfd : ℤ
  wblkWsize : ℕ := 0
  wblkRemsize : ℕ := 0
  pause : Pause := .noPause
  waitSongdone : Bool := false
  data : List UInt8 := []
  minSdata : List UInt8 := []
  pausedTime : ℤ := 0
  sizeInAex : ℤ := 0
  lastReadTv : Timeval := ⟨0, 0⟩
  ssrc : UInt32 := 0
  timestamp : UInt32 := 0
  encrypt : Bool := false
  udp : Bool := false

/-- The static variables of `raopcl_send_sample` and `raopcl_count_samples`. -/
structure Statics where
  seqNumber : UInt32 := 0
  begin : Bool := true
  totalcount : ℤ := 0
  deriving DecidableEq, Repr

/-- The session, and the event table it registers in. -/
structure Session where
  raopcl : Raopcl
  statics : Statics := {}
  fds : List (FdEvent Unit) := emptyTable

/-- The event of the stream socket. -/
def Raopcl.event (r : Raopcl) (write : Bool) : FdEvent Unit :=
  { fd := r.sfd, dp := some (), cbf := some .fdEventCallback, read := true, write }

/-! ### Encryption -/

section

variable (aes : Block → Block)

/-- The loop of `encrypt` over the whole blocks. -/
def encryptLoop : ℕ → Block → List UInt8 → List UInt8 × Block
  | 0, nv, data => (data, nv)
  | k + 1, nv, data =>
    let buf := aes fun j => Cbc.block 16 data j ^^^ nv j
    let out := encryptLoop k buf (data.drop 16)
    (List.ofFn buf ++ out.1, out.2)

/-- `encrypt`: the chain starts from `iv` at each call, and an incomplete last block stays as it is. -/
def Raopcl.encryptData (r : Raopcl) (data : List UInt8) : Raopcl × List UInt8 :=
  let out := encryptLoop aes (data.length / 16) r.iv data
  ({ r with nv := out.2 }, out.1)

end

/-! ### Sending -/

def BUFFER : ℕ := 512

/-- `raopcl_count_samples`, without its sleep. -/
def Statics.countSamples (st : Statics) (count : ℕ) : Statics :=
  let totalcount := st.totalcount + count
  { st with
    totalcount :=
      if (BUFFER * MAX_SAMPLES_IN_CHUNK : ℕ) ≤ totalcount then
        totalcount - (DEFAULT_SAMPLE_RATE / 25 : ℕ)
      else totalcount }

/-- The bytes of a 32-bit number, most significant first. -/
def bigEndian (x : UInt32) : List UInt8 :=
  [(x >>> 24).toUInt8, (x >>> 16).toUInt8, (x >>> 8).toUInt8, x.toUInt8]

/-- The RTP header of a UDP packet. -/
def udpHeader (s : Session) : List UInt8 :=
  ([128, if s.statics.begin then 96 + 128 else 96,
    (s.statics.seqNumber >>> 8).toUInt8, s.statics.seqNumber.toUInt8] : List UInt8) ++
    bigEndian s.raopcl.timestamp ++ bigEndian s.raopcl.ssrc

/-- The header of a TCP block of `count` bytes, with `len` in sixteen bits. -/
def tcpHeader (count : ℕ) : List UInt8 :=
  let len := UInt16.ofNat (count + 16 - 4)
  [0x24, 0x00, (len >>> 8).toUInt8, len.toUInt8, 0xF0, 0xFF, 0x00, 0x00,
    0x00, 0x00, 0x00, 0x00, 0x00, 0x00, 0x00, 0x00]

section

variable (aes : Block → Block)

/-- **`raopcl_send_sample`**, with the outcome `alloc` of `realloc_memory`; `false` is a return of
`-1`. A failed allocation has cleared `data`. The block it succeeds with is as large as asked for: the
header, the sample and, over TCP, sixteen bytes that are not used. -/
def raopclSendSample (s : Session) (alloc : Bool) (sample : List UInt8) : Bool × Session :=
  let count := sample.length
  if s.raopcl.udp then
    let header := udpHeader s
    let r := { s.raopcl with timestamp := s.raopcl.timestamp + UInt32.ofNat count }
    if !alloc then (false, { s with raopcl := { r with data := [] } })
    else
      let (r, body) := if r.encrypt then r.encryptData aes sample else (r, sample)
      let r := { r with data := header ++ body, wblkRemsize := count + 12, wblkWsize := 0 }
      match setFdEvent (r.event true) s.fds with
      | none => (false, { s with raopcl := r })
      | some fds =>
        let st := { s.statics with seqNumber := s.statics.seqNumber + 1, begin := false }
        (true, { raopcl := r, fds, statics := st.countSamples count })
  else
    if !alloc then (false, { s with raopcl := { s.raopcl with data := [] } })
    else
      let (r, body) := s.raopcl.encryptData aes sample
      let r := { r with data := tcpHeader count ++ body, wblkRemsize := count + 16, wblkWsize := 0 }
      match setFdEvent (r.event true) s.fds with
      | none => (false, { s with raopcl := r })
      | some fds => (true, { s with raopcl := r, fds })

end

/-! ### Events of the stream socket -/

/-- What `read` gives: an error, the end, or a message, with the 256 bytes of the buffer after it. -/
inductive ReadResult
  | error
  | eof
  | bytes (buf : List UInt8) (tv : Timeval)

/-- `GET_BIGENDIAN_INT`, a 32-bit `int`. -/
def getBigendianInt (buf : List UInt8) (i : ℕ) : ℤ :=
  BitVec.toInt ((buf.getD i 0).toBitVec ++ (buf.getD (i + 1) 0).toBitVec ++
    (buf.getD (i + 2) 0).toBitVec ++ (buf.getD (i + 3) 0).toBitVec)

/-- `fd_event_callback` with `RAOP_FD_READ`; `false` is a return of `-1`. -/
def fdEventCallbackRead (s : Session) : ReadResult → Bool × Session
  | .error => (false, s)
  | .eof => (false, s)
  | .bytes buf tv =>
    (true, { s with raopcl := { s.raopcl with
      sizeInAex := getBigendianInt buf 0x2c, lastReadTv := tv } })

/-- **`fd_event_callback`** with `RAOP_FD_WRITE`, where `write` returns `i`, at most what it is asked
to write: also the bytes written. From `NULL` nothing can be written. -/
def fdEventCallbackWrite (s : Session) (i : ℤ) : Bool × Session × List UInt8 :=
  let r := s.raopcl
  if r.wblkRemsize = 0 then (false, s, [])
  else if i ≤ 0 ∨ r.data = [] then (false, s, [])
  else
    let n := min i.toNat r.wblkRemsize
    let r' := { r with wblkWsize := r.wblkWsize + n, wblkRemsize := r.wblkRemsize - n }
    let fds :=
      if r'.wblkRemsize = 0 then (setFdEvent (r'.event false) s.fds).getD s.fds else s.fds
    (true, { s with raopcl := r', fds }, (r.data.drop r.wblkWsize).take n)

/-! ### Pauses -/

/-- `raopcl_set_pause`, at the time `now`. -/
def raopclSetPause (s : Session) (pause : Pause) (now : ℤ) : Session :=
  let r := { s.raopcl with pause }
  match pause with
  | .noPause => { s with raopcl := r, fds := (setFdEvent (r.event true) s.fds).getD s.fds }
  | _ =>
    { s with
      raopcl := { r with pausedTime := now }
      fds := (setFdEvent (r.event false) s.fds).getD s.fds }

/-- `raopcl_small_silent`. -/
def raopclSmallSilent (aes : Block → Block) (s : Session) (alloc : Bool) : Session :=
  (raopclSendSample aes s alloc s.raopcl.minSdata).2

/-- `raopcl_pause_check`: the time is `now`, and `mark` when it is read again. -/
def raopclPauseCheck (aes : Block → Block) (s : Session) (alloc : Bool) (now mark : ℤ) : Session :=
  match s.raopcl.pause with
  | .noPause => s
  | .opPause =>
    if now - s.raopcl.pausedTime < 3 then s
    else { s with raopcl := { s.raopcl with pausedTime := mark } }
  | .nodataPause =>
    if now - s.raopcl.pausedTime < 3 then s
    else
      let s := raopclSmallSilent aes s alloc
      { s with raopcl := { s.raopcl with pausedTime := mark } }

/-- `raopcl_aexbuf_time`, at the time `ctv`. -/
def raopclAexbufTime (r : Raopcl) (ctv : Timeval) : Timeval :=
  if r.sizeInAex ≤ 0 then ⟨0, 0⟩
  else
    let atv : Timeval := ⟨r.sizeInAex / 44100, r.sizeInAex % 44100 * 10000 / 441⟩
    let sec := atv.sec - (ctv.sec - r.lastReadTv.sec)
    let usec := atv.usec - (ctv.usec - r.lastReadTv.usec)
    let dtv : Timeval :=
      if 1000000 ≤ usec then ⟨sec + 1, usec - 1000000⟩
      else if usec < 0 then ⟨sec - 1, usec + 1000000⟩
      else ⟨sec, usec⟩
    if dtv.sec < 0 then ⟨0, 0⟩ else dtv

/-! ### What the functions do -/

/-- The block that `raopcl_send_sample` makes over TCP. -/
def Raopcl.tcpBlock (r : Raopcl) (aes : Block → Block) (sample : List UInt8) : List UInt8 :=
  tcpHeader sample.length ++ (r.encryptData aes sample).2

theorem encryptLoop_fst (aes : Block → Block) : ∀ (k : ℕ) (nv : Block) (data : List UInt8),
    (encryptLoop aes k nv data).1 = Cbc.encrypt (· ^^^ ·) aes k nv data
  | 0, _, _ => rfl
  | k + 1, nv, data => by
    rw [encryptLoop, Cbc.encrypt, ← encryptLoop_fst aes k]

theorem length_encryptData (aes : Block → Block) (r : Raopcl) (data : List UInt8) :
    (r.encryptData aes data).2.length = data.length := by
  rw [Raopcl.encryptData, encryptLoop_fst, Cbc.length_encrypt _ _ _ (by omega)]

theorem length_tcpHeader (count : ℕ) : (tcpHeader count).length = 16 := rfl

theorem length_tcpBlock (aes : Block → Block) (r : Raopcl) (sample : List UInt8) :
    (r.tcpBlock aes sample).length = sample.length + 16 := by
  rw [Raopcl.tcpBlock, List.length_append, length_encryptData, length_tcpHeader, Nat.add_comm]

/-- **`raopcl_send_sample` over TCP**, when memory and a slot are to be had: the block waits to be
written, whatever was there before. -/
theorem raopclSendSample_tcp (aes : Block → Block) {s : Session} (hudp : s.raopcl.udp = false)
    (hslot : HasSlot s.raopcl.sfd s.fds) (sample : List UInt8) :
    ∃ nv fds, raopclSendSample aes s true sample = (true, { s with
        raopcl := { s.raopcl with
          nv
          data := s.raopcl.tcpBlock aes sample
          wblkRemsize := sample.length + 16
          wblkWsize := 0 }
        fds }) ∧ s.raopcl.event true ∈ fds := by
  obtain ⟨fds, hfds, hmem⟩ := setFdEvent_hasSlot (e := s.raopcl.event true) hslot
  refine ⟨(encryptLoop aes (sample.length / 16) s.raopcl.iv sample).2, fds, ?_, hmem⟩
  simp only [raopclSendSample, hudp, Bool.not_true, Bool.false_eq_true, if_false, Raopcl.event,
    Raopcl.encryptData, Raopcl.tcpBlock] at hfds ⊢
  rw [hfds]

/-- The time stamp after a block of `count` bytes. -/
def Raopcl.nextTimestamp (r : Raopcl) (count : ℕ) : UInt32 :=
  if r.udp then r.timestamp + UInt32.ofNat count else r.timestamp

/-- The chaining vector after a block. -/
def Raopcl.nextNv (r : Raopcl) (aes : Block → Block) (sample : List UInt8) : Block :=
  if r.udp && !r.encrypt then r.nv else (r.encryptData aes sample).1.nv

/-- The packet that `raopcl_send_sample` makes. -/
def Session.packet (s : Session) (aes : Block → Block) (sample : List UInt8) : List UInt8 :=
  if s.raopcl.udp then
    udpHeader s ++ if s.raopcl.encrypt then (s.raopcl.encryptData aes sample).2 else sample
  else s.raopcl.tcpBlock aes sample

/-- The client after `raopcl_send_sample`, whether there was a slot or not. -/
def Session.sent (s : Session) (aes : Block → Block) (alloc : Bool) (sample : List UInt8) : Raopcl :=
  if alloc then { s.raopcl with
    nv := s.raopcl.nextNv aes sample
    data := s.packet aes sample
    wblkRemsize := sample.length + if s.raopcl.udp then 12 else 16
    wblkWsize := 0
    timestamp := s.raopcl.nextTimestamp sample.length }
  else { s.raopcl with data := [], timestamp := s.raopcl.nextTimestamp sample.length }

/-- The static variables after a packet. -/
def Session.counted (s : Session) (count : ℕ) : Statics :=
  if s.raopcl.udp then
    Statics.countSamples { s.statics with seqNumber := s.statics.seqNumber + 1, begin := false } count
  else s.statics

/-- **`raopcl_send_sample`** over TCP and UDP: what it does to the client comes before it asks for a slot. -/
theorem raopclSendSample_eq (aes : Block → Block) (s : Session) (alloc : Bool) (sample : List UInt8) :
    raopclSendSample aes s alloc sample =
      match if alloc then setFdEvent (s.raopcl.event true) s.fds else none with
      | none => (false, { s with raopcl := s.sent aes alloc sample })
      | some fds =>
        (true, { raopcl := s.sent aes alloc sample, fds, statics := s.counted sample.length }) := by
  obtain ⟨⟨_, _, _, _, _, _, _, _, _, _, _, _, _, _, encrypt, udp⟩, _, _⟩ := s
  cases alloc with
  | false => cases udp <;> rfl
  | true => cases udp <;> cases encrypt <;> rfl

theorem raopclSendSample_raopcl (aes : Block → Block) (s : Session) (alloc : Bool) (sample : List UInt8) :
    (raopclSendSample aes s alloc sample).2.raopcl = s.sent aes alloc sample := by
  rw [raopclSendSample_eq]
  split <;> rfl

theorem raopclSendSample_eq_false (aes : Block → Block) (s : Session) (alloc : Bool) (sample : List UInt8) :
    (raopclSendSample aes s alloc sample).1 = false ↔
      alloc = false ∨ setFdEvent (s.raopcl.event true) s.fds = none := by
  rw [raopclSendSample_eq]
  cases alloc <;> cases setFdEvent (s.raopcl.event true) s.fds <;> simp

/-- `raopcl_send_sample` over TCP, whatever comes of it: without memory the old block is gone, and with
it the new one is there to be written. -/
theorem raopclSendSample_cases (aes : Block → Block) {s : Session} (hudp : s.raopcl.udp = false)
    (alloc : Bool) (sample : List UInt8) :
    (raopclSendSample aes s alloc sample).2.raopcl = { s.raopcl with data := [] } ∨
      ∃ nv, (raopclSendSample aes s alloc sample).2.raopcl = { s.raopcl with
        nv
        data := s.raopcl.tcpBlock aes sample
        wblkRemsize := sample.length + 16
        wblkWsize := 0 } := by
  rw [raopclSendSample_raopcl]
  cases alloc with
  | false => exact .inl (by simp [Session.sent, Raopcl.nextTimestamp, hudp])
  | true => exact .inr ⟨_, by simp [Session.sent, Raopcl.nextTimestamp, Session.packet, hudp]; rfl⟩

/-- What `raopcl_send_sample` does to the event of the socket and to the bytes left, over TCP and UDP. -/
structure Asked (s : Session) (alloc : Bool) (t : Session) : Prop where
  sfd : t.raopcl.sfd = s.raopcl.sfd
  pause : t.raopcl.pause = s.raopcl.pause
  fds : t.fds = if alloc then (setFdEvent (s.raopcl.event true) s.fds).getD s.fds else s.fds
  remsize : if alloc then t.raopcl.wblkRemsize ≠ 0 else t.raopcl.wblkRemsize = s.raopcl.wblkRemsize

theorem raopclSendSample_asked (aes : Block → Block) (s : Session) (alloc : Bool) (sample : List UInt8) :
    Asked s alloc (raopclSendSample aes s alloc sample).2 ∧
      ((raopclSendSample aes s alloc sample).1 = true → alloc = true) := by
  rw [raopclSendSample_eq]
  cases alloc with
  | false => exact ⟨⟨rfl, rfl, rfl, rfl⟩, id⟩
  | true =>
    have hremsize : (s.sent aes true sample).wblkRemsize ≠ 0 := by
      simp only [Session.sent, if_true]
      split_ifs <;> omega
    refine ⟨?_, fun _ => rfl⟩
    cases hfds : setFdEvent (s.raopcl.event true) s.fds with
    | none => exact ⟨rfl, rfl, by simp [hfds], hremsize⟩
    | some fds => exact ⟨rfl, rfl, by simp [hfds], hremsize⟩

end Waveplay.RaopPlay.RaopClient
