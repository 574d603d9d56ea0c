import Waveplay.Lib.Overwrite
import Waveplay.Lib.Runs
import Waveplay.Lib.Wrap

/-! # `SpeakerImpl`: audio in packets of one size

`write` takes blocks of any length and passes packets of `1408` bytes to `sendAudioPacket`; what does not
fill a packet is held for the next call. The speaker is the one that its manager listens to. The packets
and the bytes written since the last `open`, `flush` or `drain` are recorded in the state.

* `write_held`: a call loses no byte, if the length with what is held does not wrap around.
* `repacketise_intact`: so it is in every run.
* `write_wrapped`: after a call where it does, bytes are missing. -/

namespace Waveplay.Airtunes.Repacketise

open Waveplay.Lib.Overwrite Waveplay.Lib.Runs Waveplay.Lib.Wrap

/-! ### The speaker -/

/-- The bytes of a packet. -/
def size : ℕ := 1408

/-- The fields that `write` uses, the packets passed to `sendAudioPacket`, and the bytes written. -/
structure SpeakerImpl where
  isOpen : Bool := false
  holdlen : ℕ := 0
  holdbuf : List UInt8 := List.replicate size 0
  sent : List (List UInt8) := []
  written : List UInt8 := []

/-- The arguments of `write`: a part of an array. -/
structure Write where
  buf : List UInt8
  off : ℕ
  len : ℕ
  fits : off + len ≤ buf.length
  isArray : buf.length < 2147483648

/-- The part of an array. -/
def part (buf : List UInt8) (off len : ℕ) : List UInt8 := (buf.drop off).take len

def Write.bytes (w : Write) : List UInt8 := part w.buf w.off w.len

/-- `System.arraycopy`, which throws if one of the arrays is too short. -/
def arraycopy (src : List UInt8) (srcPos : ℕ) (dest : List UInt8) (destPos length : ℕ) :
    Option (List UInt8) :=
  if srcPos + length ≤ src.length then overwrite dest destPos (part src srcPos length) else none

def SpeakerImpl.sendAudioPacket (s : SpeakerImpl) (buf : List UInt8) (off : ℕ) : SpeakerImpl :=
  { s with sent := s.sent ++ [part buf off size] }

/-- The branch that completes what is held, with `off` and `len` after it. -/
def SpeakerImpl.complete (s : SpeakerImpl) (buf : List UInt8) (off len : ℕ) :
    Option (SpeakerImpl × ℕ × ℕ) :=
  if s.holdlen ≠ 0 ∧ size ≤ toInt (s.holdlen + len) then
    let len1 := size - s.holdlen
    (arraycopy buf off s.holdbuf s.holdlen len1).map fun holdbuf =>
      ({ { s with holdbuf }.sendAudioPacket holdbuf 0 with holdlen := 0 }, off + len1, len - len1)
  else some (s, off, len)

/-- The loop, with `off` and `len` after it. -/
def SpeakerImpl.sendWhole (s : SpeakerImpl) (buf : List UInt8) (off len : ℕ) : SpeakerImpl × ℕ × ℕ :=
  if size ≤ len then (s.sendAudioPacket buf off).sendWhole buf (off + size) (len - size)
  else (s, off, len)
termination_by len
decreasing_by
  have hsize : 0 < size := by decide
  omega

/-- The rest is held. -/
def SpeakerImpl.hold (s : SpeakerImpl) (buf : List UInt8) (off len : ℕ) : Option SpeakerImpl :=
  if len ≠ 0 then
    (arraycopy buf off s.holdbuf s.holdlen len).map fun holdbuf =>
      { s with holdbuf, holdlen := s.holdlen + len }
  else some s

/-- **`write`**; `false` is an exception. -/
def SpeakerImpl.write (s : SpeakerImpl) (w : Write) : Bool × SpeakerImpl :=
  match s.complete w.buf w.off w.len with
  | none => (false, s)
  | some (s, off, len) =>
    let (s, off, len) := s.sendWhole w.buf off len
    match s.hold w.buf off len with
    | none => (false, s)
    | some s => (true, s)

/-- A call of a method. -/
inductive Op
  | «open»
  | write (w : Write)
  | flush
  | drain
  | close

/-- What `open`, `flush`, `drain` and `close` have in common. -/
def SpeakerImpl.reset (s : SpeakerImpl) : SpeakerImpl := { s with holdlen := 0, sent := [], written := [] }

/-- A call; a speaker that is not open takes only `open`. -/
def step (s : SpeakerImpl) : Op → Option SpeakerImpl
  | .open => some { s.reset with isOpen := true }
  | .write w =>
    if s.isOpen then some { (s.write w).2 with written := s.written ++ w.bytes } else none
  | .flush => if s.isOpen then some s.reset else none
  | .drain => if s.isOpen then some s.reset else none
  | .close => if s.isOpen then some { s.reset with isOpen := false } else none

/-! ### Parts of arrays -/

theorem length_part {buf : List UInt8} {off len : ℕ} (h : off + len ≤ buf.length) :
    (part buf off len).length = len := by
  rw [part, List.length_take, List.length_drop]
  omega

theorem part_append (buf : List UInt8) (off n len : ℕ) :
    part buf off n ++ part buf (off + n) len = part buf off (n + len) := by
  unfold part
  rw [← List.drop_drop, List.take_add]

theorem part_zero (buf : List UInt8) (off : ℕ) : part buf off 0 = [] := List.take_zero

theorem arraycopy_eq (src : List UInt8) (srcPos : ℕ) (dest : List UInt8) (destPos length : ℕ)
    (hsrc : srcPos + length ≤ src.length) (hdest : destPos + length ≤ dest.length) :
    ∃ out, arraycopy src srcPos dest destPos length = some out ∧ out.length = dest.length ∧
      out.take (destPos + length) = dest.take destPos ++ part src srcPos length := by
  have hpart := length_part hsrc
  have hroom : destPos + (part src srcPos length).length ≤ dest.length := by rwa [hpart]
  rw [arraycopy, if_pos hsrc]
  have hsome := overwrite_eq_some hroom
  rwa [hpart] at hsome

/-! ### The parts of `write` -/

/-- The bytes that were passed on, and those held. -/
def SpeakerImpl.content (s : SpeakerImpl) : List UInt8 := s.sent.flatten ++ s.holdbuf.take s.holdlen

/-- Whole packets, and the buffer of one packet. -/
structure Sized (s : SpeakerImpl) : Prop where
  holdbuf : s.holdbuf.length = size
  sent : ∀ p ∈ s.sent, p.length = size

/-- In the middle of `write`: with the rest of its bytes all are there, and there is room for the rest
unless nothing is held. -/
structure Midway (buf all : List UInt8) (s : SpeakerImpl) (off len : ℕ) : Prop extends Sized s where
  fits : off + len ≤ buf.length
  room : s.holdlen = 0 ∨ s.holdlen + len < size
  bytes : s.content ++ part buf off len = all

theorem Sized.sendAudioPacket {s : SpeakerImpl} (h : Sized s) {buf : List UInt8} {off : ℕ}
    (hoff : off + size ≤ buf.length) : Sized (s.sendAudioPacket buf off) := by
  refine ⟨h.holdbuf, fun p hp => ?_⟩
  rcases List.mem_append.mp hp with hp | hp
  · exact h.sent p hp
  · rw [List.mem_singleton.mp hp]
    exact length_part hoff

theorem flatten_sendAudioPacket (s : SpeakerImpl) (buf : List UInt8) (off : ℕ) :
    (s.sendAudioPacket buf off).sent.flatten = s.sent.flatten ++ part buf off size := by
  simp [SpeakerImpl.sendAudioPacket]

theorem complete_midway {s : SpeakerImpl} {buf : List UInt8} {off len : ℕ} (hs : Sized s)
    (hheld : s.holdlen < size) (hfits : off + len ≤ buf.length)
    (hwrap : s.holdlen = 0 ∨ s.holdlen + len < 2147483648) :
    ∃ s' off' len', s.complete buf off len = some (s', off', len') ∧
      Midway buf (s.content ++ part buf off len) s' off' len' := by
  unfold SpeakerImpl.complete
  by_cases hzero : s.holdlen = 0
  · rw [if_neg (by simp [hzero])]
    exact ⟨s, off, len, rfl, hs, hfits, .inl hzero, rfl⟩
  have htoInt : toInt (s.holdlen + len) = s.holdlen + len := toInt_of_bounds (by omega) (by omega)
  by_cases hfull : size ≤ s.holdlen + len
  · obtain ⟨holdbuf, hcopy, hlength, htake⟩ := arraycopy_eq buf off s.holdbuf s.holdlen
      (size - s.holdlen) (by omega) (by rw [hs.holdbuf]; omega)
    rw [if_pos ⟨hzero, by omega⟩]
    dsimp only
    rw [hcopy]
    refine ⟨_, _, _, rfl, ?_, by omega, .inl rfl, ?_⟩
    · have hsized : Sized { s with holdbuf } := ⟨hlength.trans hs.holdbuf, hs.sent⟩
      have hwhole : 0 + size ≤ holdbuf.length := Nat.le_of_eq (by rw [hlength, hs.holdbuf, Nat.zero_add])
      have hsent := hsized.sendAudioPacket hwhole
      exact ⟨hsent.holdbuf, hsent.sent⟩
    · have hpacket : part holdbuf 0 size = s.holdbuf.take s.holdlen ++ part buf off (size - s.holdlen) := by
        have hsum : s.holdlen + (size - s.holdlen) = size := by omega
        rw [part, List.drop_zero, ← htake, hsum]
      have hlen : len = (size - s.holdlen) + (len - (size - s.holdlen)) := by omega
      unfold SpeakerImpl.content
      rw [List.take_zero, List.append_nil, flatten_sendAudioPacket, hpacket]
      conv_rhs => rw [hlen, ← part_append]
      simp only [List.append_assoc]
  · rw [if_neg (by omega)]
    exact ⟨s, off, len, rfl, hs, hfits, .inr (by omega), rfl⟩

/-- **The loop** passes on the whole packets, and leaves what is held. -/
theorem sendWhole_spec (buf : List UInt8) (s : SpeakerImpl) (off len : ℕ) :
    (s.sendWhole buf off len).2.2 = len % size ∧
      (s.sendWhole buf off len).1.holdlen = s.holdlen ∧
      (s.sendWhole buf off len).1.holdbuf = s.holdbuf ∧
      (s.sendWhole buf off len).1.sent.flatten ++
          part buf (s.sendWhole buf off len).2.1 (s.sendWhole buf off len).2.2 =
        s.sent.flatten ++ part buf off len ∧
      (s.sendWhole buf off len).2.1 + (s.sendWhole buf off len).2.2 = off + len := by
  fun_induction SpeakerImpl.sendWhole s buf off len with
  | case1 s off len hlen ih =>
    obtain ⟨hmod, hholdlen, hholdbuf, hbytes, hoff⟩ := ih
    refine ⟨?_, hholdlen, hholdbuf, ?_, by omega⟩
    · rw [hmod, ← Nat.mod_eq_sub_mod hlen]
    · have hsum : size + (len - size) = len := by omega
      rw [hbytes, flatten_sendAudioPacket, List.append_assoc, part_append, hsum]
  | case2 s off len hlen => exact ⟨(Nat.mod_eq_of_lt (Nat.lt_of_not_le hlen)).symm, rfl, rfl, rfl, rfl⟩

theorem sendWhole_sized {buf : List UInt8} {s : SpeakerImpl} {off len : ℕ} (hs : Sized s)
    (hfits : off + len ≤ buf.length) : Sized (s.sendWhole buf off len).1 := by
  fun_induction SpeakerImpl.sendWhole s buf off len with
  | case1 s off len hlen ih => exact ih (hs.sendAudioPacket (by omega)) (by omega)
  | case2 s off len hlen => exact hs

theorem sendWhole_midway {buf all : List UInt8} {s : SpeakerImpl} {off len : ℕ}
    (h : Midway buf all s off len) :
    Midway buf all (s.sendWhole buf off len).1 (s.sendWhole buf off len).2.1
      (s.sendWhole buf off len).2.2 := by
  have hsized := sendWhole_sized h.toSized h.fits
  obtain ⟨hmod, hholdlen, hholdbuf, hbytes, hoff⟩ := sendWhole_spec buf s off len
  refine ⟨hsized, hoff ▸ h.fits, ?_, ?_⟩
  · have hle : len % size ≤ len := Nat.mod_le len size
    rw [hholdlen, hmod]
    exact h.room.imp_right fun hroom => by omega
  · rw [← h.bytes]
    unfold SpeakerImpl.content
    rw [hholdlen, hholdbuf]
    rcases h.room with hzero | hroom
    · rw [hzero, List.take_zero, List.append_nil, List.append_nil, hbytes]
    · have hwhole : s.sendWhole buf off len = (s, off, len) := by
        rw [SpeakerImpl.sendWhole, if_neg (by omega)]
      rw [hwhole]

/-! ### Calls -/

/-- **No byte is lost**: the packets and the bytes held are the bytes written, and less than a packet is
held. -/
structure Intact (s : SpeakerImpl) : Prop where
  bytes : s.sent.flatten ++ s.holdbuf.take s.holdlen = s.written
  holdlen : s.holdlen < 1408
  packets : ∀ p ∈ s.sent, p.length = 1408

/-- With the length of the buffer. -/
structure Held (s : SpeakerImpl) : Prop extends Intact s where
  holdbuf : s.holdbuf.length = size

theorem Held.sized {s : SpeakerImpl} (h : Held s) : Sized s := ⟨h.holdbuf, h.packets⟩

/-- The condition on a call: what is held and the length make an `int`. -/
def Unwrapped (s : SpeakerImpl) : Op → Prop
  | .write w => s.holdlen = 0 ∨ s.holdlen + w.len < 2147483648
  | _ => True

theorem hold_midway {buf all : List UInt8} {s : SpeakerImpl} {off len : ℕ} (h : Midway buf all s off len)
    (hlen : len < size) :
    ∃ s', s.hold buf off len = some s' ∧ Sized s' ∧ s'.holdlen < size ∧ s'.content = all := by
  have hroom : s.holdlen + len < size := h.room.elim (fun hzero => by omega) id
  unfold SpeakerImpl.hold
  split_ifs with hzero
  · obtain ⟨holdbuf, hcopy, hlength, htake⟩ := arraycopy_eq buf off s.holdbuf s.holdlen len h.fits
      (by rw [h.holdbuf]; omega)
    rw [hcopy]
    refine ⟨_, rfl, ⟨hlength.trans h.holdbuf, h.sent⟩, hroom, ?_⟩
    rw [← h.bytes]
    unfold SpeakerImpl.content
    rw [htake, List.append_assoc]
  · obtain rfl : len = 0 := by omega
    refine ⟨s, rfl, h.toSized, by omega, ?_⟩
    rw [← h.bytes, part_zero, List.append_nil]

theorem isOpen_sendWhole (buf : List UInt8) (s : SpeakerImpl) (off len : ℕ) :
    (s.sendWhole buf off len).1.isOpen = s.isOpen := by
  fun_induction SpeakerImpl.sendWhole s buf off len with
  | case1 s off len hlen ih => exact ih
  | case2 s off len hlen => rfl

theorem isOpen_complete {s s' : SpeakerImpl} {buf : List UInt8} {off len off' len' : ℕ}
    (h : s.complete buf off len = some (s', off', len')) : s'.isOpen = s.isOpen := by
  unfold SpeakerImpl.complete at h
  split_ifs at h
  · obtain ⟨holdbuf, -, heq⟩ := Option.map_eq_some_iff.mp h
    exact congrArg (fun out => out.1.isOpen) heq.symm
  · exact congrArg (fun out => out.1.isOpen) (Option.some.inj h).symm

theorem isOpen_hold {s s' : SpeakerImpl} {buf : List UInt8} {off len : ℕ}
    (h : s.hold buf off len = some s') : s'.isOpen = s.isOpen := by
  unfold SpeakerImpl.hold at h
  split_ifs at h
  · obtain ⟨holdbuf, -, rfl⟩ := Option.map_eq_some_iff.mp h
    rfl
  · rw [Option.some.inj h]

theorem isOpen_write (s : SpeakerImpl) (w : Write) : (s.write w).2.isOpen = s.isOpen := by
  unfold SpeakerImpl.write
  split
  · rfl
  · next s' off len hcomplete =>
    have hwhole := (isOpen_sendWhole w.buf s' off len).trans (isOpen_complete hcomplete)
    dsimp only
    split
    · exact hwhole
    · next hhold => exact (isOpen_hold hhold).trans hwhole

/-- **One call of `write`** that meets the condition: it returns, and no byte is lost. -/
theorem write_held {s : SpeakerImpl} (hs : Held s) {w : Write} (hw : Unwrapped s (.write w)) :
    (s.write w).1 = true ∧ Held { (s.write w).2 with written := s.written ++ w.bytes } := by
  obtain ⟨s', off, len, hcomplete, hmid⟩ := complete_midway hs.sized hs.holdlen w.fits hw
  have hmod : (s'.sendWhole w.buf off len).2.2 < size := by
    rw [(sendWhole_spec w.buf s' off len).1]
    exact Nat.mod_lt len (by decide)
  obtain ⟨s'', hhold, hsized, hholdlen, hcontent⟩ := hold_midway (sendWhole_midway hmid) hmod
  have hwrite : s.write w = (true, s'') := by
    unfold SpeakerImpl.write
    rw [hcomplete]
    dsimp only
    rw [hhold]
  rw [hwrite]
  refine ⟨rfl, ⟨?_, hholdlen, hsized.sent⟩, hsized.holdbuf⟩
  exact hcontent.trans (congrArg (· ++ w.bytes) hs.bytes)

theorem step_write {s : SpeakerImpl} (hopen : s.isOpen = true) (hs : Held s) {w : Write}
    (hw : Unwrapped s (.write w)) : ∃ s', step s (.write w) = some s' ∧ Held s' ∧ s'.isOpen = true ∧
      s'.written = s.written ++ w.bytes :=
  ⟨_, if_pos hopen, (write_held hs hw).2, (isOpen_write s w).trans hopen, rfl⟩

theorem held_reset {s : SpeakerImpl} (hs : Held s) : Held s.reset :=
  ⟨⟨rfl, Nat.zero_lt_succ 1407, fun _ hp => absurd hp List.not_mem_nil⟩, hs.holdbuf⟩

/-- **One call.** -/
theorem step_held (s : SpeakerImpl) (op : Op) (s' : SpeakerImpl) (hs : Held s) (hop : Unwrapped s op)
    (h : step s op = some s') : Held s' := by
  have hreset := held_reset hs
  cases op with
  | «open» =>
    obtain rfl := Option.some.inj h
    exact ⟨⟨hreset.bytes, hreset.holdlen, hreset.packets⟩, hreset.holdbuf⟩
  | write w =>
    simp only [step] at h
    split_ifs at h
    obtain rfl := Option.some.inj h
    exact (write_held hs hop).2
  | flush =>
    simp only [step] at h
    split_ifs at h
    exact Option.some.inj h ▸ hreset
  | drain =>
    simp only [step] at h
    split_ifs at h
    exact Option.some.inj h ▸ hreset
  | close =>
    simp only [step] at h
    split_ifs at h
    obtain rfl := Option.some.inj h
    exact ⟨⟨hreset.bytes, hreset.holdlen, hreset.packets⟩, hreset.holdbuf⟩

theorem held_new : Held {} :=
  ⟨⟨rfl, Nat.zero_lt_succ 1407, fun _ hp => absurd hp List.not_mem_nil⟩, List.length_replicate⟩

/-- A block of zeros. -/
def zeros (len : ℕ) (h : len < 2147483648) : Write where
  buf := List.replicate len 0
  off := 0
  len := len
  fits := Nat.le_of_eq (by rw [List.length_replicate, Nat.zero_add])
  isArray := by rwa [List.length_replicate]

/-- **No byte is lost** in any state of a run whose calls all meet the condition. -/
theorem repacketise_intact {ops : List Op} (hops : AllSteps step Unwrapped {} ops) :
    ∀ n s, run step {} (ops.take n) = some s → Intact s := by
  intro n s h
  exact (run_inv step_held held_new (hops.take n) h).toIntact

/-- Two writes of zeros. -/
def twoWrites : List Op := [.open, .write (zeros 1500 (by decide)), .write (zeros 10 (by decide))]

theorem repacketise_intact_zeros :
    AllSteps step Unwrapped {} twoWrites ∧ ∃ s, run step {} twoWrites = some s ∧ Intact s := by
  have hopened : Held { isOpen := true } := step_held {} .open _ held_new trivial rfl
  have hops : AllSteps step Unwrapped {} twoWrites := by
    refine allSteps_cons trivial rfl ⟨.inl rfl, fun s hs => ⟨.inr ?_, fun _ _ => trivial⟩⟩
    have hholdlen := (step_held _ (.write _) s hopened (.inl rfl) hs).holdlen
    show s.holdlen + 10 < 2147483648
    omega
  have hrun : (run step {} twoWrites).isSome = true := by decide +kernel
  obtain ⟨s, hs⟩ := Option.isSome_iff_exists.mp hrun
  exact ⟨hops, s, hs, repacketise_intact hops 3 s hs⟩

/-! ### Calls that wrap around -/

theorem length_flatten_packets : ∀ {ps : List (List UInt8)}, (∀ p ∈ ps, p.length = size) →
    ps.flatten.length = ps.length * size
  | [], _ => (Nat.zero_mul size).symm
  | p :: ps, h => by
    have hps := length_flatten_packets fun q hq => h q (List.mem_cons_of_mem p hq)
    rw [List.flatten_cons, List.length_append, h p List.mem_cons_self, hps, List.length_cons,
      Nat.succ_mul, Nat.add_comm]

theorem length_content {s : SpeakerImpl} (hs : Sized s) (hheld : s.holdlen ≤ size) :
    s.content.length = s.sent.length * size + s.holdlen := by
  rw [SpeakerImpl.content, List.length_append, length_flatten_packets hs.sent, List.length_take,
    hs.holdbuf, Nat.min_eq_left hheld]

/-- How much is held depends only on how much was written. -/
theorem holdlen_eq {s : SpeakerImpl} (hs : Held s) : s.holdlen = s.written.length % 1408 := by
  have hheld := hs.holdlen
  have hlength := length_content hs.sized (Nat.le_of_lt hheld)
  rw [SpeakerImpl.content, hs.bytes] at hlength
  rw [hlength, size]
  omega

/-- **A call where the length wraps around**: what is held is not completed, and if the rest does not fit
behind it, `write` ends with an exception and the rest is lost. -/
theorem write_wrapped {s : SpeakerImpl} (hs : Held s) {w : Write}
    (hwrap : 2147483648 ≤ s.holdlen + w.len) (hrest : size < s.holdlen + w.len % size) :
    (s.write w).1 = false ∧ ¬ Intact { (s.write w).2 with written := s.written ++ w.bytes } := by
  have hholdlen : s.holdlen < size := hs.holdlen
  have hmod : w.len % size < size := Nat.mod_lt w.len (by decide)
  have hlen : w.len < 2147483648 := by
    have hfits := w.fits
    have harray := w.isArray
    omega
  have hsize : size = 1408 := rfl
  have hnegative : toInt (s.holdlen + w.len) < 0 := by
    rw [toInt_of_upper (by omega) (by omega)]
    omega
  have hcomplete : s.complete w.buf w.off w.len = some (s, w.off, w.len) := by
    rw [SpeakerImpl.complete, if_neg (by omega)]
  obtain ⟨hrem, hsame, hbuf, hbytes, hoff⟩ := sendWhole_spec w.buf s w.off w.len
  have hpart : (part w.buf (s.sendWhole w.buf w.off w.len).2.1
      (s.sendWhole w.buf w.off w.len).2.2).length = w.len % size := by
    rw [length_part (hoff ▸ w.fits), hrem]
  have hhold : (s.sendWhole w.buf w.off w.len).1.hold w.buf (s.sendWhole w.buf w.off w.len).2.1
      (s.sendWhole w.buf w.off w.len).2.2 = none := by
    rw [SpeakerImpl.hold, if_pos (by omega), arraycopy, if_pos (hoff ▸ w.fits), overwrite_eq_none,
      Option.map_none]
    rw [hsame, hbuf, hpart, hs.holdbuf]
    exact hrest
  have hwrite : s.write w = (false, (s.sendWhole w.buf w.off w.len).1) := by
    unfold SpeakerImpl.write
    rw [hcomplete]
    dsimp only
    rw [hhold]
  rw [hwrite]
  refine ⟨rfl, fun hintact => ?_⟩
  -- the rest of the block is neither in the packets nor held
  have hlength := congrArg List.length hintact.bytes
  have hpackets := congrArg List.length hbytes
  have hbefore := congrArg List.length hs.bytes
  simp only [List.length_append, hsame, hbuf, Write.bytes, length_part w.fits, hpart] at *
  omega

theorem step_wrapped {s : SpeakerImpl} (hopen : s.isOpen = true) (hs : Held s) {w : Write}
    (hwrap : 2147483648 ≤ s.holdlen + w.len) (hrest : size < s.holdlen + w.len % size) :
    ∃ s', step s (.write w) = some s' ∧ ¬ Intact s' :=
  ⟨_, if_pos hopen, (write_wrapped hs hwrap hrest).2⟩

/-- All but one byte of a packet, and then a block whose length wraps around. -/
def wrapping : List Op :=
  [.open, .write (zeros 1407 (by decide)), .write (zeros 2147482241 (by decide))]

theorem not_intact_wrapping : ∃ s, run step {} wrapping = some s ∧ ¬ Intact s := by
  have hopened : Held { isOpen := true } := step_held {} .open _ held_new trivial rfl
  obtain ⟨s, hfirst, hs, hisOpen, hwritten⟩ :=
    step_write rfl hopened (w := zeros 1407 (by decide)) (.inl rfl)
  have hholdlen : s.holdlen = 1407 := by
    rw [holdlen_eq hs, hwritten, List.length_append, Write.bytes, length_part (zeros 1407 _).fits]
    rfl
  obtain ⟨t, hsecond, ht⟩ := step_wrapped hisOpen hs (w := zeros 2147482241 (by decide))
    (by rw [hholdlen]; exact Nat.le_refl 2147483648) (by rw [hholdlen, zeros, size]; decide)
  refine ⟨t, ?_, ht⟩
  refine run_cons_eq_some.mpr ⟨_, rfl, run_cons_eq_some.mpr ⟨s, hfirst, ?_⟩⟩
  exact run_cons_eq_some.mpr ⟨t, hsecond, rfl⟩

end Waveplay.Airtunes.Repacketise
