import Mathlib.Logic.Function.Basic
import Mathlib.Logic.Equiv.Defs
import Waveplay.Lib.Cbc
import Waveplay.RaopPlay.AudioStream

/-! # `AirtunesManager`: the bytes of an audio packet

`sendAudioPacket` fills one of the preallocated buffers of `packetdata`. The samples of the block go,
shifted by the `23` bits of an uncompressed ALAC header, through `cipherinput` into the cipher, and the
last three bytes after them in clear. The header is in `cipherinput` since `start`, but for its last
seven bits, which are those of the initial `v1`.

A buffer is described by the fields of its RTP packet. AES is a parameter, a permutation of blocks for
each key, and `doFinal` starts from the vector at each call.

* `fillInput_eq`: the loop writes a shifted copy of the bytes of the block.
* `receive_sendAudioPacket`: the receiver of the packet gets the frames of the block. -/

namespace Waveplay.Airtunes.AudioPacket

open Waveplay.Lib Waveplay.Lib.Bits
open Waveplay.RaopPlay.AudioStream (Frame sampleOf frameBits readFrames readFrames_frameBits
  length_frameBits)

def PACKETSIZE : ℕ := 352
def QUEUELENGTH : ℕ := 100

/-- Sixteen bytes: an AES block, a key, a chaining vector. -/
abbrev Block := Fin 16 → UInt8

/-! ### Buffers -/

/-- A buffer of `packetdata`: byte `0`, byte `1`, bytes `2` and `3`, bytes `4` to `7`, bytes `8` to `11`,
and the others. -/
structure Packet where
  version : UInt8 := 0
  marker : UInt8 := 0
  rtpseq : UInt16 := 0
  rtptime : UInt32 := 0
  ssrc : UInt32 := 0
  payload : List UInt8 := List.replicate (PACKETSIZE * 4 + 3) 0
  deriving DecidableEq, Repr

/-- `writeInt`. -/
def writeInt (val : UInt32) : List UInt8 :=
  [(val >>> 24).toUInt8, (val >>> 16).toUInt8, (val >>> 8).toUInt8, val.toUInt8]

/-- The bytes of a buffer. -/
def Packet.bytes (p : Packet) : List UInt8 :=
  [p.version, p.marker, (p.rtpseq >>> 8).toUInt8, p.rtpseq.toUInt8] ++ writeInt p.rtptime ++
    writeInt p.ssrc ++ p.payload

/-- `packetdata`, `packetdatahead` and `cipherinput`. -/
structure Encoder where
  packetdata : Fin (QUEUELENGTH + 5) → Packet := fun _ => {}
  packetdatahead : Fin (QUEUELENGTH + 5) := ⟨0, by decide⟩
  cipherinput : List UInt8 := List.replicate 1408 0

/-- What `start` writes to the buffers. -/
def Encoder.start (e : Encoder) (ssrc : UInt32) : Encoder :=
  { e with
    packetdata := fun i => { e.packetdata i with version := 0x80, ssrc }
    cipherinput := (e.cipherinput.set 0 0x20).set 1 0 }

/-! ### Filling a buffer -/

/-- Seven bits of a byte and the first bit of the next one. -/
def join (v1 v2 : UInt8) : UInt8 := ((v2 &&& 0x80) >>> 7) ||| (v1 <<< 1)

/-- The loop over the samples: `n` turns from the index `i`. -/
def fillInput (buf : List UInt8) (off highbyte : ℕ) :
    ℕ → ℕ → UInt8 → List UInt8 → UInt8 × List UInt8
  | 0, _, v1, cipherinput => (v1, cipherinput)
  | n + 1, i, v1, cipherinput =>
    let v2 := buf.getD (off + i + highbyte) 0
    let cipherinput := cipherinput.set (i + 2) (join v1 v2)
    let v1 := buf.getD (off + i + (1 - highbyte)) 0
    let cipherinput := cipherinput.set (i + 3) (join v2 v1)
    fillInput buf off highbyte n (i + 2) v1 cipherinput

/-- `cipher.doFinal` on the whole of `cipherinput`. -/
def doFinal (aes : Block → Block) (iv : Block) (input : List UInt8) : List UInt8 :=
  Cbc.encrypt (· ^^^ ·) aes (1408 / 16) iv input

/-- A call of `sendAudioPacket` with a `len` of `1408`: the buffer, the offset, the byte order. -/
structure Pcm where
  buf : List UInt8
  off : ℕ
  bigendian : Bool
  fits : off + PACKETSIZE * 4 ≤ buf.length
  deriving DecidableEq, Repr

/-- The index of the high byte in a sample. -/
def Pcm.highbyte (c : Pcm) : ℕ := if c.bigendian then 0 else 1

/-- **`sendAudioPacket` up to the `put`**: fills the buffer at `packetdatahead`. -/
def Encoder.sendAudioPacket (e : Encoder) (cipher : List UInt8 → List UInt8) (packetcount : ℕ)
    (c : Pcm) : Encoder :=
  let filled := fillInput c.buf c.off c.highbyte (1406 / 2) 0 1 e.cipherinput
  let v1 := filled.1
  let v2 := c.buf.getD (c.off + 1406 + c.highbyte) 0
  let v1' := c.buf.getD (c.off + 1406 + (1 - c.highbyte)) 0
  let data := { e.packetdata e.packetdatahead with
    marker := if packetcount = 0 then 0xe0 else 0x60
    payload := cipher filled.2 ++ [join v1 v2, join v2 v1', v1' <<< 1] }
  { packetdata := Function.update e.packetdata e.packetdatahead data
    packetdatahead := e.packetdatahead + 1
    cipherinput := filled.2 }

section

variable (e : Encoder) (cipher : List UInt8 → List UInt8) (packetcount : ℕ) (c : Pcm)

@[simp] theorem sendAudioPacket_packetdatahead :
    (e.sendAudioPacket cipher packetcount c).packetdatahead = e.packetdatahead + 1 := rfl

theorem sendAudioPacket_marker :
    ((e.sendAudioPacket cipher packetcount c).packetdata e.packetdatahead).marker =
      if packetcount = 0 then 0xe0 else 0x60 := by
  simp only [Encoder.sendAudioPacket, Function.update_self]

theorem sendAudioPacket_of_ne {i : Fin (QUEUELENGTH + 5)} (h : i ≠ e.packetdatahead) :
    (e.sendAudioPacket cipher packetcount c).packetdata i = e.packetdata i := by
  simp only [Encoder.sendAudioPacket, Function.update_of_ne h]

end

/-! ### The receiver -/

/-- The header of an uncompressed ALAC block without a size. -/
def alacHeader : List Bool := toBits 3 1 ++ toBits 16 0 ++ toBits 1 0 ++ toBits 2 0 ++ toBits 1 1

/-- What a receiver does with a packet: bytes `12` to `1422`, the first `1408` of them deciphered; the
header; the frames; and the bits after them. -/
def receive (aesInv : Block → Block) (iv : Block) (packet : List UInt8) :
    Option (List Frame × List Bool) :=
  let bits := bitsOf (Cbc.decrypt (· ^^^ ·) aesInv (1408 / 16) iv (packet.drop 12))
  if bits.take 23 = alacHeader then
    (readFrames PACKETSIZE (bits.drop 23)).map fun fs => (fs, bits.drop (23 + 32 * PACKETSIZE))
  else none

/-- The sample at an index of the buffer, in the byte order of the call. -/
def Pcm.sample (c : Pcm) (i : ℕ) : UInt16 :=
  let b0 := c.buf.getD (c.off + i) 0
  let b1 := c.buf.getD (c.off + i + 1) 0
  if c.bigendian then sampleOf b1 b0 else sampleOf b0 b1

/-- `n` frames of the block from the index `i`. -/
def Pcm.framesFrom (c : Pcm) : ℕ → ℕ → List Frame
  | 0, _ => []
  | n + 1, i => (c.sample i, c.sample (i + 2)) :: c.framesFrom n (i + 4)

/-- The left and right frames of the block. -/
def Pcm.frames (c : Pcm) : List Frame := c.framesFrom PACKETSIZE 0

/-! ### The shifted copy -/

/-- The bytes of `n` samples from the index `i`, the high byte of each first. -/
def sampleBytes (buf : List UInt8) (off highbyte : ℕ) : ℕ → ℕ → List UInt8
  | 0, _ => []
  | n + 1, i => buf.getD (off + i + highbyte) 0 :: buf.getD (off + i + (1 - highbyte)) 0 ::
      sampleBytes buf off highbyte n (i + 2)

/-- Each byte of a list with seven bits of the one before it. -/
def joins : UInt8 → List UInt8 → List UInt8
  | _, [] => []
  | v1, v2 :: vs => join v1 v2 :: joins v2 vs

theorem length_sampleBytes (buf : List UInt8) (off highbyte : ℕ) :
    ∀ n i, (sampleBytes buf off highbyte n i).length = 2 * n
  | 0, _ => rfl
  | n + 1, i => by
    rw [sampleBytes, List.length_cons, List.length_cons, length_sampleBytes buf off highbyte n]
    ring

theorem length_joins : ∀ (v1 : UInt8) (vs : List UInt8), (joins v1 vs).length = vs.length
  | _, [] => rfl
  | _, v2 :: vs => by rw [joins, List.length_cons, List.length_cons, length_joins v2 vs]

theorem joins_append : ∀ (v1 : UInt8) (vs ws : List UInt8),
    joins v1 (vs ++ ws) = joins v1 vs ++ joins (vs.getLastD v1) ws
  | _, [], _ => rfl
  | v1, v2 :: vs, ws => by
    rw [List.cons_append, joins, joins, joins_append v2 vs ws, List.cons_append,
      List.getLastD_cons]

theorem set_set_append {pre : List UInt8} {k : ℕ} (h : pre.length = k) (x y a b : UInt8)
    (rest : List UInt8) :
    ((pre ++ x :: y :: rest).set k a).set (k + 1) b = (pre ++ [a, b]) ++ rest := by
  subst h
  simp

/-- **The loop writes a shifted copy of the samples** and ends with `v1` on their last byte. -/
theorem fillInput_eq (buf : List UInt8) (off highbyte : ℕ) : ∀ (n i : ℕ) (v1 : UInt8)
    {pre rest : List UInt8}, pre.length = i + 2 → 2 * n ≤ rest.length →
    fillInput buf off highbyte n i v1 (pre ++ rest) =
      ((sampleBytes buf off highbyte n i).getLastD v1,
        pre ++ joins v1 (sampleBytes buf off highbyte n i) ++ rest.drop (2 * n))
  | 0, i, v1, pre, rest, _, _ => by
    simp [fillInput, sampleBytes, joins]
  | n + 1, i, v1, pre, [], _, hr => by
    simp at hr
  | n + 1, i, v1, pre, [_], _, hr => by
    simp at hr
    omega
  | n + 1, i, v1, pre, x :: y :: rest, hp, hr => by
    have hrest : 2 * n ≤ rest.length := by
      simp only [List.length_cons] at hr
      omega
    simp only [fillInput]
    rw [set_set_append hp, fillInput_eq buf off highbyte n (i + 2) _ (by simp [hp]) hrest]
    refine Prod.ext ?_ ?_
    · simp only [sampleBytes, List.getLastD_cons]
    · simp [sampleBytes, joins, Nat.mul_add]

/-! ### Its bits -/

theorem toNat_join (v1 v2 : UInt8) : (join v1 v2).toNat = v1.toNat % 128 * 2 + v2.toNat / 128 := by
  have hand : v2.toNat &&& 128 = v2.toNat / 128 % 2 * 128 := by
    have := Nat.and_two_pow v2.toNat 7
    rw [Nat.toNat_testBit] at this
    exact this
  have hlt : v2.toNat < 256 := v2.toNat_lt
  have hshift : v1.toNat * 2 % 256 = 2 ^ 1 * (v1.toNat % 128) := by omega
  unfold join
  rw [UInt8.toNat_or, UInt8.toNat_shiftRight, UInt8.toNat_and, UInt8.toNat_shiftLeft]
  simp only [UInt8.toNat_ofNat, Nat.reducePow, Nat.reduceMod, Nat.shiftRight_eq_div_pow,
    Nat.shiftLeft_eq]
  rw [hand, Nat.mul_div_cancel _ (by norm_num), hshift, Nat.or_comm,
    ← Nat.two_pow_add_eq_or_of_lt (by omega)]
  omega

theorem byteBits_join (v1 v2 : UInt8) :
    byteBits (join v1 v2) = toBits 7 v1.toNat ++ toBits 1 (v2.toNat / 128) := by
  have hlt : v2.toNat < 256 := v2.toNat_lt
  refine ofBits_inj (by simp) ?_
  rw [byteBits, ofBits_toBits, ofBits_append, ofBits_toBits, ofBits_toBits, toNat_join,
    length_toBits]
  omega

theorem byteBits_shiftLeft (v1 : UInt8) : byteBits (v1 <<< 1) = toBits 7 v1.toNat ++ [false] := by
  have h : v1 <<< 1 = join v1 0 := by simp [join]
  rw [h, byteBits_join]
  rfl

/-- A shifted copy, with the last byte shifted out, has the bits of the bytes and a zero. -/
theorem bitsOf_joins : ∀ (v1 : UInt8) (vs : List UInt8),
    bitsOf (joins v1 vs ++ [vs.getLastD v1 <<< 1]) = toBits 7 v1.toNat ++ (bitsOf vs ++ [false])
  | v1, [] => by
    simp [joins, byteBits_shiftLeft]
  | v1, v2 :: vs => by
    have hv : byteBits v2 = toBits 1 (v2.toNat / 128) ++ toBits 7 v2.toNat :=
      toBits_add 1 7 v2.toNat
    rw [joins, List.cons_append, bitsOf_cons, List.getLastD_cons, bitsOf_joins v2 vs,
      byteBits_join, bitsOf_cons, hv]
    simp only [List.append_assoc]

/-! ### The samples of the block -/

theorem toBits_sampleOf (lo hi : UInt8) :
    toBits 16 (sampleOf lo hi).toNat = byteBits hi ++ byteBits lo := by
  have hl : lo.toNat < 256 := lo.toNat_lt
  have hh : hi.toNat < 256 := hi.toNat_lt
  have hn : (sampleOf lo hi).toNat = lo.toNat + 256 * hi.toNat := by
    rw [sampleOf, UInt16.toNat_ofNat', Nat.mod_eq_of_lt (by omega)]
  rw [toBits_add 8 8, hn, byteBits, byteBits, ← toBits_mod 8 (lo.toNat + 256 * hi.toNat)]
  congr 2
  · omega
  · omega

theorem toBits_sample (c : Pcm) (i : ℕ) : toBits 16 (c.sample i).toNat =
    byteBits (c.buf.getD (c.off + i + c.highbyte) 0) ++
      byteBits (c.buf.getD (c.off + i + (1 - c.highbyte)) 0) := by
  unfold Pcm.sample Pcm.highbyte
  cases c.bigendian
  · exact toBits_sampleOf _ _
  · exact toBits_sampleOf _ _

theorem bitsOf_sampleBytes (c : Pcm) : ∀ n i : ℕ,
    bitsOf (sampleBytes c.buf c.off c.highbyte (2 * n) i) = (c.framesFrom n i).flatMap frameBits
  | 0, _ => rfl
  | n + 1, i => by
    rw [show 2 * (n + 1) = 2 * n + 1 + 1 by ring, sampleBytes, sampleBytes, Pcm.framesFrom,
      List.flatMap_cons, frameBits, toBits_sample, toBits_sample, bitsOf_cons, bitsOf_cons,
      bitsOf_cons, bitsOf_cons, bitsOf_sampleBytes c n (i + 2 + 2)]
    simp only [List.append_assoc, Nat.add_assoc]

theorem length_framesFrom (c : Pcm) : ∀ n i : ℕ, (c.framesFrom n i).length = n
  | 0, _ => rfl
  | n + 1, i => by rw [Pcm.framesFrom, List.length_cons, length_framesFrom c n]

theorem sampleBytes_succ (buf : List UInt8) (off highbyte : ℕ) : ∀ n i : ℕ,
    sampleBytes buf off highbyte (n + 1) i = sampleBytes buf off highbyte n i ++
      [buf.getD (off + (i + 2 * n) + highbyte) 0, buf.getD (off + (i + 2 * n) + (1 - highbyte)) 0]
  | 0, _ => rfl
  | n + 1, i => by
    rw [sampleBytes, sampleBytes_succ buf off highbyte n (i + 2), sampleBytes,
      show i + 2 + 2 * n = i + 2 * (n + 1) by ring]
    rfl

/-! ### The round trip -/

/-- What `start` leaves in `cipherinput`, and every packet keeps there. -/
structure Ready (e : Encoder) : Prop where
  length : e.cipherinput.length = 1408
  header : e.cipherinput.take 2 = [0x20, 0]

/-- The plain text of a packet: the header and the shifted copy of the block. -/
def Pcm.plain (c : Pcm) : List UInt8 :=
  let vs := sampleBytes c.buf c.off c.highbyte (2 * PACKETSIZE) 0
  0x20 :: 0 :: (joins 1 vs ++ [vs.getLastD 1 <<< 1])

theorem bitsOf_plain (c : Pcm) :
    bitsOf c.plain = alacHeader ++ (c.frames.flatMap frameBits ++ [false]) := by
  have h : alacHeader = byteBits 0x20 ++ (byteBits 0 ++ toBits 7 (1 : UInt8).toNat) := by decide
  rw [Pcm.plain, bitsOf_cons, bitsOf_cons, bitsOf_joins, bitsOf_sampleBytes, h]
  simp only [List.append_assoc]
  rfl

/-- **The buffer that is filled**: `1408` bytes of the plain text go through the cipher, the others
follow in clear. -/
theorem sendAudioPacket_eq {e : Encoder} (he : Ready e) (cipher : List UInt8 → List UInt8)
    (packetcount : ℕ) (c : Pcm) :
    ∃ secret clear : List UInt8, c.plain = secret ++ clear ∧ secret.length = 1408 ∧
      secret.take 2 = [0x20, 0] ∧
      (e.sendAudioPacket cipher packetcount c).cipherinput = secret ∧
      ((e.sendAudioPacket cipher packetcount c).packetdata e.packetdatahead).payload =
        cipher secret ++ clear := by
  have hsplit : e.cipherinput = [0x20, 0] ++ e.cipherinput.drop 2 := by
    rw [← he.header, List.take_append_drop]
  have hdrop : (e.cipherinput.drop 2).length = 1406 := by
    rw [List.length_drop, he.length]
  have hloop := fillInput_eq c.buf c.off c.highbyte (1406 / 2) 0 1
    (show ([0x20, 0] : List UInt8).length = 0 + 2 by rfl)
    (show 2 * (1406 / 2) ≤ (e.cipherinput.drop 2).length by rw [hdrop])
  rw [← hsplit, List.drop_of_length_le (by omega), List.append_nil] at hloop
  have hlast := sampleBytes_succ c.buf c.off c.highbyte (1406 / 2) 0
  set vs := sampleBytes c.buf c.off c.highbyte (1406 / 2) 0
  set v2 := c.buf.getD (c.off + 1406 + c.highbyte) 0 with hv2
  set v1 := c.buf.getD (c.off + 1406 + (1 - c.highbyte)) 0 with hv1
  have hplain : c.plain = (([0x20, 0] : List UInt8) ++ joins 1 vs) ++
      [join (vs.getLastD 1) v2, join v2 v1, v1 <<< 1] := by
    have hall : sampleBytes c.buf c.off c.highbyte (2 * PACKETSIZE) 0 = vs ++ [v2, v1] := hlast
    unfold Pcm.plain
    simp only [hall, joins_append, joins]
    simp
  refine ⟨_, _, hplain, ?_, rfl, ?_, ?_⟩
  · rw [List.length_append, length_joins, length_sampleBytes]
    rfl
  · unfold Encoder.sendAudioPacket
    simp only [hloop]
  · unfold Encoder.sendAudioPacket
    simp only [hloop, Function.update_self]
    rfl

theorem ready_start {e : Encoder} (h : e.cipherinput.length = 1408) (ssrc : UInt32) :
    Ready (e.start ssrc) := by
  obtain ⟨a, b, rest, hci⟩ : ∃ a b rest, e.cipherinput = a :: b :: rest := by
    match hci : e.cipherinput, h with
    | a :: b :: rest, _ => exact ⟨a, b, rest, rfl⟩
  constructor
  · simp only [Encoder.start, List.length_set, h]
  · simp [Encoder.start, hci]

theorem ready_sendAudioPacket {e : Encoder} (he : Ready e) (cipher : List UInt8 → List UInt8)
    (packetcount : ℕ) (c : Pcm) : Ready (e.sendAudioPacket cipher packetcount c) := by
  obtain ⟨secret, clear, -, hlen, hhead, hci, -⟩ := sendAudioPacket_eq he cipher packetcount c
  exact ⟨by rw [hci, hlen], by rw [hci, hhead]⟩

/-- What happens to the buffers before a packet: `start`, with a new key and vector, or another
packet. -/
inductive Use
  | start (ssrc : UInt32)
  | send (key iv : Block) (packetcount : ℕ) (c : Pcm)

/-- One use of the buffers. -/
def Encoder.use (aes : Block → Block → Block) (e : Encoder) : Use → Encoder
  | .start ssrc => e.start ssrc
  | .send key iv packetcount c => e.sendAudioPacket (doFinal (aes key) iv) packetcount c

/-- Since the first `start` the header is in `cipherinput`. -/
theorem ready_uses (aes : Block → Block → Block) (ssrc : UInt32) (before : List Use) :
    Ready (before.foldl (Encoder.use aes) (Encoder.start {} ssrc)) := by
  refine List.foldlRecOn before _ (ready_start List.length_replicate ssrc) fun e he u _ => ?_
  cases u with
  | start ssrc => exact ready_start he.length ssrc
  | send key iv packetcount c =>
    rw [Encoder.use]
    exact ready_sendAudioPacket he _ packetcount c

theorem receive_of_payload (aes : Equiv.Perm Block) (iv : Block) (c : Pcm) {p : Packet}
    {secret clear : List UInt8} (hplain : c.plain = secret ++ clear) (hlen : secret.length = 1408)
    (hp : p.payload = doFinal aes iv secret ++ clear) :
    receive aes.symm iv p.bytes = some (c.frames, [false]) := by
  have hbytes : p.bytes.drop 12 = p.payload := rfl
  have hplain' : Cbc.decrypt (· ^^^ ·) aes.symm (1408 / 16) iv p.payload = c.plain := by
    rw [hp, doFinal, ← Cbc.encrypt_append _ _ _ _ (by rw [hlen]), ← hplain]
    refine Cbc.decrypt_encrypt _ _ _ (fun a b => ?_) (fun b => aes.symm_apply_apply b) iv ?_
    · rw [UInt8.xor_assoc, UInt8.xor_self, UInt8.xor_zero]
    · rw [hplain, List.length_append, hlen]
      omega
  have hhead : alacHeader.length = 23 := by decide
  have hfr : (c.frames.flatMap frameBits).length = 32 * PACKETSIZE := by
    rw [length_frameBits, Pcm.frames, length_framesFrom]
  have hread := readFrames_frameBits c.frames [false]
  rw [Pcm.frames, length_framesFrom] at hread
  unfold receive
  simp only [hbytes, hplain', bitsOf_plain]
  rw [List.take_left' hhead, if_pos rfl, List.drop_left' hhead, ← List.drop_drop,
    List.drop_left' hhead, List.drop_left' hfr]
  simp only [Pcm.frames, hread, Option.map_some]

/-- **The round trip of an audio packet.** After any uses of the buffers since the first `start`, the
packet that `sendAudioPacket` fills from a block of `1408` bytes, at any offset of a buffer and in either
byte order, gives a receiver with the key and the vector the `352` frames of the block and one zero
bit. -/
theorem receive_sendAudioPacket (aes : Block → Equiv.Perm Block) (key iv : Block) (ssrc : UInt32)
    (before : List Use) (packetcount : ℕ) (c : Pcm) :
    let e := before.foldl (Encoder.use fun k => aes k) (Encoder.start {} ssrc)
    let filled := e.sendAudioPacket (doFinal (aes key) iv) packetcount c
    receive (aes key).symm iv (filled.packetdata e.packetdatahead).bytes =
      some (c.frames, [false]) := by
  intro e
  have he : Ready e := ready_uses (fun k => aes k) ssrc before
  obtain ⟨secret, clear, hplain, hlen, -, -, hp⟩ :=
    sendAudioPacket_eq he (doFinal (aes key) iv) packetcount c
  have hreceive := receive_of_payload (aes key) iv c hplain hlen hp
  exact hreceive

end Waveplay.Airtunes.AudioPacket
