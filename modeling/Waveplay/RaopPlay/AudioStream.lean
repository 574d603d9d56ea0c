import Waveplay.RaopPlay.BitsWrite

/-! # `audio_stream.c`: uncompressed ALAC blocks

`auds_write_pcm` writes one block: a header of `23` bits, the number of frames in `32` bits unless it
is `4096`, the frames as big-endian samples, and zeros for the frames the source does not have. The
bytes of a sample in memory are in the little-endian order of the target.

`decode` is what a receiver does with a block; `decode_audsWritePcm` is the round trip for a source in
memory. -/

namespace Waveplay.RaopPlay.AudioStream

open Waveplay.Lib.Bits Waveplay.RaopPlay.BitsWrite

def DEFAULT_SAMPLE_RATE : ℕ := 44100
def MAX_SAMPLES_IN_CHUNK : ℕ := 4096
def MINIMUM_SAMPLE_SIZE : ℕ := 32

/-- `aud_clac_chunk_size`. -/
def audClacChunkSize (sampleRate : ℕ) : ℕ :=
  let ratio := DEFAULT_SAMPLE_RATE * 100 / sampleRate
  if 100 < ratio then MAX_SAMPLES_IN_CHUNK * 100 / ratio - 1 else MAX_SAMPLES_IN_CHUNK

/-! ### Sources -/

/-- A stereo frame: left and right sample. -/
abbrev Frame := UInt16 × UInt16

/-- Two bytes of memory as a sample. -/
def sampleOf (b0 b1 : UInt8) : UInt16 := UInt16.ofNat (b0.toNat + 256 * b1.toNat)

/-- `data_source_t`. A descriptor or a stream is given by what the reads of the loop return; memory by
its size in bytes and the samples at and after the pointer. -/
inductive DataSource
  | descriptor (reads : ℕ → List UInt8)
  | stream (reads : ℕ → List UInt8)
  | memory (size : ℤ) (data : ℕ → UInt16)

/-- A frame from one read of the source: two bytes for a mono source, four for stereo. -/
def frameOfRead (channels : ℕ) (one : List UInt8) : Option Frame :=
  if channels = 1 then
    match one with
    | [b0, b1] => some (sampleOf b0 b1, sampleOf b0 b1)
    | _ => none
  else
    match one with
    | [b0, b1, b2, b3] => some (sampleOf b0 b1, sampleOf b2 b3)
    | _ => none

/-- The `count`-th frame of the source; `none` when it sets `nodata`. -/
def DataSource.fetch (channels count : ℕ) : DataSource → Option Frame
  | .descriptor reads => frameOfRead channels (reads count)
  | .stream reads => frameOfRead channels (reads count)
  | .memory size data =>
    if channels = 1 then
      if size ≤ count * 2 then none else some (data count, data count)
    else
      if size ≤ count * 4 then none else some (data (count * 2), data (count * 2 + 1))

/-- No more turns of the loop than this find data in memory. -/
def DataSource.turns : DataSource → ℕ
  | .memory size _ => size.toNat
  | _ => 0

/-! ### Writing a block -/

/-- The fields of the header. -/
def headerFields (bsize : ℕ) : List (UInt8 × ℕ) :=
  ([(1, 3), (0, 4), (0, 8), (0, 4), (if bsize ≠ 4096 then 1 else 0, 1), (0, 2), (1, 1)] :
    List (UInt8 × ℕ)) ++
    if bsize ≠ 4096 then
      [(UInt8.ofNat (bsize >>> 24), 8), (UInt8.ofNat (bsize >>> 16), 8),
        (UInt8.ofNat (bsize >>> 8), 8), (UInt8.ofNat bsize, 8)]
    else []

/-- The fields of a frame: the high byte of each sample first. -/
def frameFields (f : Frame) : List (UInt8 × ℕ) :=
  [(UInt8.ofNat (f.1.toNat / 256), 8), (UInt8.ofNat f.1.toNat, 8),
    (UInt8.ofNat (f.2.toNat / 256), 8), (UInt8.ofNat f.2.toNat, 8)]

/-- The loop over the frames of the source, with the number of frames written. -/
def writeFrames (channels bsize : ℕ) (ds : DataSource) : ℕ → ℕ → BitWriter → ℕ × BitWriter
  | 0, count, w => (count, w)
  | fuel + 1, count, w =>
    match ds.fetch channels count with
    | none => (count, w)
    | some f =>
      if count + 1 = bsize then (count + 1, writeFields w (frameFields f))
      else writeFrames channels bsize ds fuel (count + 1) (writeFields w (frameFields f))

/-- **`auds_write_pcm`**: the buffer and `*size`, `none` when it returns `-1`. -/
def audsWritePcm (channels : ℕ) (buffer : List UInt8) (bsize : ℕ) (ds : DataSource) :
    Option (List UInt8 × ℕ) :=
  let w := writeFields { buffer } (headerFields bsize)
  let (count, w) := writeFrames channels bsize ds (bsize + ds.turns) 0 w
  if count = 0 then none
  else
    let w := writeFields w (List.replicate ((bsize - count) * 4) (0, 8))
    some (w.buffer, w.size)

/-! ### The receiver -/

/-- What a receiver finds in a block. -/
structure Decoded where
  channels : ℕ
  notCompressed : ℕ
  frameCount : ℕ
  frames : List Frame
  deriving DecidableEq, Repr

/-- Read frames of big-endian samples. -/
def readFrames : ℕ → List Bool → Option (List Frame)
  | 0, _ => some []
  | n + 1, bits => do
    let (l, bits) ← readBits 16 bits
    let (r, bits) ← readBits 16 bits
    let fs ← readFrames n bits
    some ((UInt16.ofNat l, UInt16.ofNat r) :: fs)

/-- Read a block. -/
def decode (data : List UInt8) : Option Decoded := do
  let (channels, bits) ← readBits 3 (bitsOf data)
  let (_, bits) ← readBits 16 bits
  let (hasSize, bits) ← readBits 1 bits
  let (_, bits) ← readBits 2 bits
  let (notCompressed, bits) ← readBits 1 bits
  let (frameCount, bits) ← if hasSize = 1 then readBits 32 bits else some (4096, bits)
  let frames ← readFrames frameCount bits
  some { channels, notCompressed, frameCount, frames }

/-- The samples of a list, and what memory holds after it. -/
def samplesAt (samples : List UInt16) (beyond : ℕ → UInt16) (i : ℕ) : UInt16 :=
  if h : i < samples.length then samples.get ⟨i, h⟩ else beyond i

/-- The frames of a list of samples: a mono sample stands for both channels; in a stereo list the
samples alternate. A left sample without a right one, at the end of an odd list, is paired with what
follows it in memory. -/
def sourceFrames (channels : ℕ) (samples : List UInt16) (beyond : ℕ → UInt16) : List Frame :=
  if channels = 1 then samples.map fun s => (s, s)
  else (List.range ((samples.length + 1) / 2)).map fun i =>
    (samplesAt samples beyond (i * 2), samplesAt samples beyond (i * 2 + 1))

/-- The size of a block of `bsize` frames, in bytes. -/
def pcmSize (bsize : ℕ) : ℕ := (23 + (if bsize = 4096 then 0 else 32) + 32 * bsize + 7) / 8

/-! ### The fields of a block -/

/-- The source presents the frames `fs`, one a turn of the loop. -/
def Presents (ds : DataSource) (channels : ℕ) (fs : List Frame) : Prop :=
  ∀ i, ds.fetch channels i = fs[i]?

/-- The frames found in `size` bytes of memory, the last one cut short or not. -/
def memoryFrames (channels size : ℕ) (data : ℕ → UInt16) : List Frame :=
  if channels = 1 then (List.range ((size + 1) / 2)).map fun i => (data i, data i)
  else (List.range ((size + 3) / 4)).map fun i => (data (i * 2), data (i * 2 + 1))

theorem length_memoryFrames (channels size : ℕ) (data : ℕ → UInt16) :
    (memoryFrames channels size data).length =
      if channels = 1 then (size + 1) / 2 else (size + 3) / 4 := by
  unfold memoryFrames
  split_ifs <;> simp

theorem memoryFrames_ne_nil {channels size : ℕ} (hsize : 0 < size) (data : ℕ → UInt16) :
    memoryFrames channels size data ≠ [] := by
  rw [← List.length_pos_iff, length_memoryFrames]
  split_ifs <;> omega

theorem presents_memory (channels size : ℕ) (data : ℕ → UInt16) :
    Presents (.memory size data) channels (memoryFrames channels size data) := by
  intro i
  unfold DataSource.fetch memoryFrames
  by_cases hc : channels = 1
  · simp only [hc, if_true, List.getElem?_map]
    by_cases hi : i < (size + 1) / 2
    · rw [if_neg (by omega), List.getElem?_range hi]
      rfl
    · rw [if_pos (by omega), List.getElem?_eq_none (by simpa using hi)]
      rfl
  · simp only [hc, if_false, List.getElem?_map]
    by_cases hi : i < (size + 3) / 4
    · rw [if_neg (by omega), List.getElem?_range hi]
      rfl
    · rw [if_pos (by omega), List.getElem?_eq_none (by simpa using hi)]
      rfl

theorem samplesAt_lt {samples : List UInt16} {i : ℕ} (h : i < samples.length)
    (beyond : ℕ → UInt16) : samplesAt samples beyond i = samples[i] := by
  simp [samplesAt, h]

theorem memoryFrames_samplesAt (channels : ℕ) (samples : List UInt16) (beyond : ℕ → UInt16) :
    memoryFrames channels (2 * samples.length) (samplesAt samples beyond) =
      sourceFrames channels samples beyond := by
  unfold memoryFrames sourceFrames
  split_ifs with hc
  · apply List.ext_getElem
    · simp; omega
    · intro i _ hi
      rw [List.length_map] at hi
      simp [samplesAt_lt hi]
  · rw [show (2 * samples.length + 3) / 4 = (samples.length + 1) / 2 by omega]

theorem writeFrames_eq {channels bsize : ℕ} {ds : DataSource} {fs : List Frame}
    (h : Presents ds channels fs) : ∀ (fuel count : ℕ) (w : BitWriter), count < bsize →
    bsize ≤ fuel + count → writeFrames channels bsize ds fuel count w =
      (count + ((fs.drop count).take (bsize - count)).length,
        writeFields w (((fs.drop count).take (bsize - count)).flatMap frameFields))
  | 0, count, w, hc, hf => absurd hf (by omega)
  | fuel + 1, count, w, hc, hf => by
    rw [writeFrames, h count]
    rcases Nat.lt_or_ge count fs.length with hl | hl
    · have hdrop := List.drop_eq_getElem_cons hl
      have hlast : bsize - count = (bsize - (count + 1)) + 1 := by omega
      rw [List.getElem?_eq_getElem hl, hdrop, hlast, List.take_succ_cons]
      simp only [List.flatMap_cons, List.length_cons, writeFields_append]
      by_cases hb : count + 1 = bsize
      · rw [if_pos hb, ← hb]
        simp [writeFields]
      · rw [if_neg hb, writeFrames_eq h fuel (count + 1) _ (by omega) (by omega)]
        congr 1; ring
    · rw [List.getElem?_eq_none hl, List.drop_of_length_le hl]
      simp [writeFields]

/-- The frames of the block: those of the source, then zero frames. -/
def blockFrames (bsize : ℕ) (fs : List Frame) : List Frame :=
  fs.take bsize ++ List.replicate (bsize - fs.length) (0, 0)

theorem length_blockFrames (bsize : ℕ) (fs : List Frame) : (blockFrames bsize fs).length = bsize := by
  simp [blockFrames]; omega

/-- All fields of the block. -/
def blockFields (bsize : ℕ) (fs : List Frame) : List (UInt8 × ℕ) :=
  headerFields bsize ++ (blockFrames bsize fs).flatMap frameFields

theorem flatMap_frameFields_zero (n : ℕ) :
    (List.replicate n ((0, 0) : Frame)).flatMap frameFields = List.replicate (n * 4) (0, 8) := by
  induction n with
  | zero => rfl
  | succ n ih =>
    rw [List.replicate_succ, List.flatMap_cons, ih, Nat.add_mul, Nat.add_comm (n * 4),
      List.replicate_add]
    rfl

/-- **The block is one sequence of fields.** -/
theorem audsWritePcm_eq {channels bsize : ℕ} {ds : DataSource} {fs : List Frame}
    (h : Presents ds channels fs) (hb : 1 ≤ bsize) (hfs : fs ≠ []) (buffer : List UInt8) :
    audsWritePcm channels buffer bsize ds =
      some ((writeFields { buffer } (blockFields bsize fs)).buffer,
        (writeFields { buffer } (blockFields bsize fs)).size) := by
  have hpos : 0 < fs.length := List.length_pos_iff.mpr hfs
  have hloop := writeFrames_eq h (bsize + ds.turns) 0
    (writeFields { buffer } (headerFields bsize)) (show 0 < bsize by omega) (by omega)
  simp only [List.drop_zero, Nat.sub_zero, Nat.zero_add, List.length_take] at hloop
  unfold audsWritePcm
  simp only [hloop]
  have hmin : min bsize fs.length ≠ 0 := by
    rw [Nat.min_def]; split_ifs <;> omega
  rw [if_neg hmin, show bsize - min bsize fs.length = bsize - fs.length by omega]
  simp only [blockFields, blockFrames, List.flatMap_append, writeFields_append,
    flatMap_frameFields_zero]

theorem writeFrames_fields (channels bsize : ℕ) (ds : DataSource) : ∀ (fuel count : ℕ) (w : BitWriter),
    count < bsize → ∃ fs : List Frame, count + fs.length ≤ bsize ∧
      writeFrames channels bsize ds fuel count w =
        (count + fs.length, writeFields w (fs.flatMap frameFields))
  | 0, count, w, hc => ⟨[], hc.le, rfl⟩
  | fuel + 1, count, w, hc => by
    rw [writeFrames]
    cases hfetch : ds.fetch channels count with
    | none => exact ⟨[], hc.le, rfl⟩
    | some f =>
      simp only
      split_ifs with hb
      · refine ⟨[f], by simp; omega, ?_⟩
        simp
      · obtain ⟨fs, hle, hfs⟩ := writeFrames_fields channels bsize ds fuel (count + 1)
          (writeFields w (frameFields f)) (by omega)
        refine ⟨f :: fs, by simp only [List.length_cons]; omega, ?_⟩
        rw [hfs, List.flatMap_cons, writeFields_append, List.length_cons]
        congr 1; ring

theorem audsWritePcm_fields {channels bsize size : ℕ} {ds : DataSource} {buffer data : List UInt8}
    (hb : 1 ≤ bsize) (h : audsWritePcm channels buffer bsize ds = some (data, size)) :
    ∃ fs, data = (writeFields { buffer } (blockFields bsize fs)).buffer ∧
      size = (writeFields { buffer } (blockFields bsize fs)).size := by
  obtain ⟨fs, hle, hloop⟩ := writeFrames_fields channels bsize ds (bsize + ds.turns) 0
    (writeFields { buffer } (headerFields bsize)) (by omega)
  rw [Nat.zero_add] at hle
  have htake : fs.take bsize = fs := List.take_of_length_le hle
  unfold audsWritePcm at h
  simp only [hloop, Nat.zero_add] at h
  split_ifs at h
  obtain ⟨rfl, rfl⟩ := Prod.mk.inj (Option.some.inj h)
  refine ⟨fs, ?_⟩
  simp only [blockFields, blockFrames, List.flatMap_append, writeFields_append,
    flatMap_frameFields_zero, htake, and_self]

/-! ### The bits of a block -/

/-- The bits of a frame. -/
def frameBits (f : Frame) : List Bool := toBits 16 f.1.toNat ++ toBits 16 f.2.toNat

theorem toBits_sample (s : UInt16) :
    toBits 8 (UInt8.ofNat (s.toNat / 256)).toNat ++ toBits 8 (UInt8.ofNat s.toNat).toNat =
      toBits 16 s.toNat := by
  rw [toBits_ofNat, toBits_ofNat, toBits_add 8 8]; rfl

theorem fieldsBits_frameFields (f : Frame) : fieldsBits (frameFields f) = frameBits f := by
  simp only [frameFields, fieldsBits_cons, fieldsBits_nil, List.append_nil, frameBits,
    ← toBits_sample, List.append_assoc]

theorem fieldsBits_frames (fs : List Frame) :
    fieldsBits (fs.flatMap frameFields) = fs.flatMap frameBits := by
  induction fs with
  | nil => rfl
  | cons f fs ih =>
    rw [List.flatMap_cons, fieldsBits_append, ih, fieldsBits_frameFields, List.flatMap_cons]

theorem length_frameBits (fs : List Frame) : (fs.flatMap frameBits).length = 32 * fs.length := by
  induction fs with
  | nil => rfl
  | cons f fs ih => simp [ih, frameBits]; ring

/-- The size field. -/
def sizeBits (bsize : ℕ) : List Bool := if bsize = 4096 then [] else toBits 32 bsize

theorem fieldsBits_headerFields (bsize : ℕ) :
    fieldsBits (headerFields bsize) = toBits 3 1 ++ (toBits 16 0 ++
      (toBits 1 (if bsize = 4096 then 0 else 1) ++ (toBits 2 0 ++ (toBits 1 1 ++ sizeBits bsize)))) := by
  unfold headerFields sizeBits
  by_cases h : bsize = 4096
  · simp only [h, ne_eq, not_true_eq_false, if_false, if_true, List.append_nil]
    rfl
  · have h32 : toBits 32 bsize = toBits 8 (bsize >>> 24) ++ (toBits 8 (bsize >>> 16) ++
        (toBits 8 (bsize >>> 8) ++ toBits 8 bsize)) := by
      simp only [Nat.shiftRight_eq_div_pow]
      rw [toBits_add 8 24, toBits_add 8 16, toBits_add 8 8]
    simp only [h, ne_eq, not_false_eq_true, if_true, if_false, fieldsBits_append, fieldsBits_cons,
      fieldsBits_nil, toBits_ofNat, h32, List.append_nil, List.append_assoc]
    rfl

theorem fieldOk_header (bsize : ℕ) : ∀ f ∈ headerFields bsize, FieldOk f := by
  intro f hf
  unfold headerFields at hf
  by_cases h : bsize = 4096
  · simp only [h, ne_eq, not_true_eq_false, if_false, List.append_nil, List.mem_cons,
      List.not_mem_nil, or_false] at hf
    rcases hf with rfl | rfl | rfl | rfl | rfl | rfl | rfl <;> simp [FieldOk]
  · simp only [h, ne_eq, not_false_eq_true, if_true, List.cons_append, List.nil_append,
      List.mem_cons, List.not_mem_nil, or_false] at hf
    rcases hf with rfl | rfl | rfl | rfl | rfl | rfl | rfl | rfl | rfl | rfl | rfl <;>
      first | exact fieldOk_byte _ | simp [FieldOk]

theorem fieldOk_frames (fs : List Frame) : ∀ f ∈ fs.flatMap frameFields, FieldOk f := by
  intro f hf
  obtain ⟨fr, -, hf⟩ := List.mem_flatMap.mp hf
  simp only [frameFields, List.mem_cons, List.not_mem_nil, or_false] at hf
  rcases hf with rfl | rfl | rfl | rfl <;> exact fieldOk_byte _

/-! ### The round trip -/

theorem readFrames_frameBits : ∀ (fs : List Frame) (rest : List Bool),
    readFrames fs.length (fs.flatMap frameBits ++ rest) = some fs
  | [], rest => rfl
  | f :: fs, rest => by
    have hl : f.1.toNat % 2 ^ 16 = f.1.toNat := Nat.mod_eq_of_lt f.1.toNat_lt
    have hr : f.2.toNat % 2 ^ 16 = f.2.toNat := Nat.mod_eq_of_lt f.2.toNat_lt
    rw [List.length_cons, readFrames, List.flatMap_cons, frameBits]
    simp only [List.append_assoc, readBits_toBits, hl, hr, Option.bind_eq_bind, Option.bind_some,
      readFrames_frameBits fs rest, UInt16.ofNat_toNat, Prod.mk.eta]

/-- The bits of the whole block, in the order a receiver reads them. -/
theorem fieldsBits_blockFields (bsize : ℕ) (fs : List Frame) :
    fieldsBits (blockFields bsize fs) = toBits 3 1 ++ (toBits 16 0 ++
      (toBits 1 (if bsize = 4096 then 0 else 1) ++ (toBits 2 0 ++ (toBits 1 1 ++
        (sizeBits bsize ++ (blockFrames bsize fs).flatMap frameBits))))) := by
  rw [blockFields, fieldsBits_append, fieldsBits_headerFields, fieldsBits_frames]
  simp only [List.append_assoc]

theorem length_fieldsBits_blockFields (bsize : ℕ) (fs : List Frame) :
    (fieldsBits (blockFields bsize fs)).length =
      23 + (if bsize = 4096 then 0 else 32) + 32 * bsize := by
  rw [fieldsBits_blockFields]
  simp only [List.length_append, length_toBits, length_frameBits, length_blockFrames, sizeBits]
  split_ifs <;> simp <;> ring

theorem decode_of_bits {bsize : ℕ} (hb : bsize < 2 ^ 32) {data : List UInt8} {fs : List Frame}
    {rest : List Bool} (h : bitsOf data = fieldsBits (blockFields bsize fs) ++ rest) :
    decode data = some ⟨1, 1, bsize, blockFrames bsize fs⟩ := by
  have hfr : ∀ rest, readFrames bsize ((blockFrames bsize fs).flatMap frameBits ++ rest) =
      some (blockFrames bsize fs) := by
    intro rest
    have := readFrames_frameBits (blockFrames bsize fs) rest
    rwa [length_blockFrames] at this
  rw [decode, h, fieldsBits_blockFields]
  simp only [List.append_assoc, readBits_toBits, Option.bind_eq_bind, Option.bind_some]
  unfold sizeBits
  by_cases h4 : bsize = 4096
  · subst h4
    simp [hfr]
  · have hsize : bsize % 4294967296 = bsize := Nat.mod_eq_of_lt (by omega)
    simp [h4, hfr, readBits_toBits, hsize]

theorem pcmSize_le {bsize : ℕ} (hb : bsize ≤ 4096) : pcmSize bsize ≤ MAX_SAMPLES_IN_CHUNK * 4 + 16 := by
  unfold pcmSize MAX_SAMPLES_IN_CHUNK
  split_ifs <;> omega

/-- The fields of a block, in a buffer with room for it: its size, and what a receiver reads. -/
theorem writeFields_blockFields {bsize : ℕ} (hb : bsize < 2 ^ 32) (fs : List Frame) {buffer : List UInt8}
    (hbuf : pcmSize bsize ≤ buffer.length) :
    (writeFields { buffer } (blockFields bsize fs)).size = pcmSize bsize ∧
      decode ((writeFields { buffer } (blockFields bsize fs)).buffer.take (pcmSize bsize)) =
        some ⟨1, 1, bsize, blockFrames bsize fs⟩ := by
  have hlen := length_fieldsBits_blockFields bsize fs
  have hw : Written buffer (fieldsBits (blockFields bsize fs))
      (writeFields { buffer } (blockFields bsize fs)) := by
    have := writeFields_written (blockFields bsize fs) (written_nil buffer) ?_ ?_
    · simpa using this
    · intro f hf
      rcases List.mem_append.mp hf with hf | hf
      · exact fieldOk_header bsize f hf
      · exact fieldOk_frames _ f hf
    · unfold pcmSize at hbuf
      simp only [List.length_nil, hlen]
      omega
  have hsize : (writeFields { buffer } (blockFields bsize fs)).size = pcmSize bsize := by
    rw [hw.size, hlen, pcmSize]
  have hbits := hw.bitsOf_take
  rw [hsize] at hbits
  exact ⟨hsize, decode_of_bits hb hbits⟩

/-- **A block from any source**: its size, and what a receiver reads. -/
theorem audsWritePcm_presents {channels bsize : ℕ} {ds : DataSource} {fs : List Frame}
    (h : Presents ds channels fs) (hb : 1 ≤ bsize) (hb' : bsize ≤ 4096) (hfs : fs ≠ [])
    {buffer : List UInt8} (hbuf : pcmSize bsize ≤ buffer.length) :
    ∃ data, audsWritePcm channels buffer bsize ds = some (data, pcmSize bsize) ∧
      data.length = buffer.length ∧
      decode (data.take (pcmSize bsize)) = some ⟨1, 1, bsize, blockFrames bsize fs⟩ := by
  obtain ⟨hsize, hdec⟩ := writeFields_blockFields (show bsize < 2 ^ 32 by omega) fs hbuf
  exact ⟨_, by rw [audsWritePcm_eq h hb hfs, hsize], length_writeFields _ _, hdec⟩

/-- **A block that was written**: its size, and the number of frames in it. -/
theorem audsWritePcm_some {channels bsize size : ℕ} {ds : DataSource} {buffer data : List UInt8}
    (hb : 1 ≤ bsize) (hb' : bsize < 2 ^ 32) (hbuf : pcmSize bsize ≤ buffer.length)
    (h : audsWritePcm channels buffer bsize ds = some (data, size)) :
    size = pcmSize bsize ∧ data.length = buffer.length ∧
      ∃ fs, decode (data.take size) = some ⟨1, 1, bsize, blockFrames bsize fs⟩ := by
  obtain ⟨fs, rfl, rfl⟩ := audsWritePcm_fields hb h
  obtain ⟨hsize, hdec⟩ := writeFields_blockFields hb' fs hbuf
  rw [hsize]
  exact ⟨rfl, length_writeFields _ _, fs, hdec⟩

/-- **The round trip of uncompressed ALAC.** A receiver of the block written from a nonempty list of
samples in memory reads one channel element, not compressed, `bsize` frames: the first ones of the
source, as many as there are and fit, then zero frames. The size of the block is what its bits need,
and fits the buffer the player allocates. -/
theorem decode_audsWritePcm {channels bsize : ℕ} (hb : 1 ≤ bsize) (hb' : bsize ≤ 4096)
    {samples : List UInt16} (hne : samples ≠ []) (beyond : ℕ → UInt16) {buffer : List UInt8}
    (hbuf : pcmSize bsize ≤ buffer.length) :
    ∃ data size, audsWritePcm channels buffer bsize
        (.memory (2 * samples.length) (samplesAt samples beyond)) = some (data, size) ∧
      size = (23 + (if bsize = 4096 then 0 else 32) + 32 * bsize + 7) / 8 ∧
      size ≤ MAX_SAMPLES_IN_CHUNK * 4 + 16 ∧
      decode (data.take size) = some
        { channels := 1
          notCompressed := 1
          frameCount := bsize
          frames := (sourceFrames channels samples beyond).take bsize ++
            List.replicate (bsize - (sourceFrames channels samples beyond).length) (0, 0) } := by
  have hpos : 0 < 2 * samples.length := by
    have := List.length_pos_iff.mpr hne
    omega
  obtain ⟨data, hdata, -, hdec⟩ := audsWritePcm_presents (presents_memory channels _ _) hb hb'
    (memoryFrames_ne_nil hpos (samplesAt samples beyond)) hbuf
  rw [memoryFrames_samplesAt] at hdec
  exact ⟨data, pcmSize bsize, by exact_mod_cast hdata, rfl, pcmSize_le hb', hdec⟩

/-- Three frames asked of a mono source of two samples, over a buffer that is not clear. -/
theorem decode_audsWritePcm_mono :
    ∃ data, audsWritePcm 1 (List.replicate 20 0xaa) 3
        (.memory 4 (samplesAt [0x1234, 0xffff] fun _ => 7)) = some (data, 19) ∧
      decode (data.take 19) = some ⟨1, 1, 3, [(0x1234, 0x1234), (0xffff, 0xffff), (0, 0)]⟩ := by
  obtain ⟨data, size, h, rfl, -, hdec⟩ := decode_audsWritePcm (show 1 ≤ 3 by decide) (by decide)
    (List.cons_ne_nil 0x1234 [0xffff]) (fun _ => 7)
    (show pcmSize 3 ≤ (List.replicate 20 (0xaa : UInt8)).length by decide)
  exact ⟨data, h, hdec⟩

end Waveplay.RaopPlay.AudioStream
