import Waveplay.RaopPlay.AudioStream

/-! # `pcm_stream.c`: blocks from the capture socket

Each call of `pcm_get_next_sample` encodes what one `recv` returns, and keeps nothing for the next
call. The frames a receiver gets are then those of each chunk by itself; they are the frames of the
stream if the chunks end between two frames, and not otherwise (`captureFrames_eq_cut_iff`). -/

namespace Waveplay.RaopPlay.PcmStream

open Waveplay.RaopPlay.AudioStream

/-! ### The model -/

/-- `auds_t` with its `pcm_t`. The listening socket `sfd` is negative when a file is played. -/
structure Auds where
  channels : ℕ
  chunkSize : ℕ
  sfd : ℤ
  buffer : List UInt8

/-- What a call gets from the system: no memory for `rbuf`, an error of `recv` or `read`, or bytes. -/
inductive Received
  | noMemory
  | error
  | bytes (bs : List UInt8)

/-- The size of `rbuf`. -/
def Auds.rbufSize (auds : Auds) : ℕ :=
  if 0 ≤ auds.sfd then auds.chunkSize else auds.chunkSize * 4

/-- The samples of `rbuf`. -/
def samplesOf (rbuf : List UInt8) (i : ℕ) : UInt16 :=
  sampleOf (rbuf.getD (i * 2) 0) (rbuf.getD (i * 2 + 1) 0)

/-- **`pcm_get_next_sample`**: the block and its size, `none` when it returns `-1`. -/
def pcmGetNextSample (auds : Auds) : Received → Option (Auds × List UInt8 × ℕ)
  | .noMemory => none
  | .error => none
  | .bytes bs =>
    let rbuf := bs ++ List.replicate (auds.rbufSize - bs.length) 0
    let size := if bs.length < MINIMUM_SAMPLE_SIZE * 4 then MINIMUM_SAMPLE_SIZE * 4 else bs.length
    (audsWritePcm auds.channels auds.buffer (size / 4) (.memory size (samplesOf rbuf))).map
      fun (data, size) => ({ auds with buffer := data }, data, size)

/-- The stream is open on the capture socket, as `auds_open` and `pcm_open` leave it. -/
structure Capturing (auds : Auds) : Prop where
  channels : auds.channels = 2
  chunkSize : auds.chunkSize = audClacChunkSize DEFAULT_SAMPLE_RATE
  socket : 0 ≤ auds.sfd
  buffer : auds.buffer.length = MAX_SAMPLES_IN_CHUNK * 4 + 16

/-- The real frames of the blocks made from successive chunks: in each block those before the null
data, one for every four bytes received. -/
def captureFrames : Auds → List (List UInt8) → Option (List Frame)
  | _, [] => some []
  | auds, c :: cs => do
    let (auds, data, size) ← pcmGetNextSample auds (.bytes c)
    let block ← decode (data.take size)
    let fs ← captureFrames auds cs
    some (block.frames.take (c.length / 4) ++ fs)

/-- What is encoded for a chunk: null data follows a short one. -/
def withNullData (c : List UInt8) : List UInt8 := c ++ List.replicate (MINIMUM_SAMPLE_SIZE * 4 - c.length) 0

/-- A byte stream cut into consecutive stereo frames of four bytes. -/
def cut : List UInt8 → List Frame
  | b0 :: b1 :: b2 :: b3 :: bs => (sampleOf b0 b1, sampleOf b2 b3) :: cut bs
  | _ => []

/-- The chunks have whole frames, except that the bytes after the last whole frame of the stream may
come in any number of chunks. -/
def FrameAligned : List ℕ → Prop
  | [] => True
  | n :: ns => (4 ∣ n ∧ FrameAligned ns) ∨ n % 4 + ns.sum < 4

/-! ### Cutting a stream -/

theorem cut_short {bs : List UInt8} (h : bs.length < 4) : cut bs = [] := by
  match bs, h with
  | [], _ => rfl
  | [_], _ => rfl
  | [_, _], _ => rfl
  | [_, _, _], _ => rfl

theorem cut_append : ∀ {bs : List UInt8} (_ : 4 ∣ bs.length) (rest : List UInt8),
    cut (bs ++ rest) = cut bs ++ cut rest
  | [], _, rest => rfl
  | [_], h, _ | [_, _], h, _ | [_, _, _], h, _ => absurd h (by simp)
  | b0 :: b1 :: b2 :: b3 :: bs, h, rest => by
    have h' : 4 ∣ bs.length := by simpa [Nat.add_assoc] using h
    simp only [List.cons_append, cut, cut_append h' rest]

theorem cut_append_short : ∀ {bs : List UInt8} {rest : List UInt8},
    bs.length % 4 + rest.length < 4 → cut (bs ++ rest) = cut bs
  | [], _, h | [_], _, h | [_, _], _, h | [_, _, _], _, h => by
    rw [cut_short (by simp at h ⊢; omega), cut_short (by simp)]
  | b0 :: b1 :: b2 :: b3 :: bs, rest, h => by
    have h' : bs.length % 4 + rest.length < 4 := by simp at h; omega
    simp only [List.cons_append, cut, cut_append_short h']

theorem samplesOf_cons (b0 b1 : UInt8) (bs : List UInt8) (i : ℕ) :
    samplesOf (b0 :: b1 :: bs) (i + 1) = samplesOf bs i := by
  simp [samplesOf, Nat.add_mul]

theorem samplesOf_append {bs : List UInt8} {i : ℕ} (h : i * 2 + 1 < bs.length)
    (rest : List UInt8) : samplesOf (bs ++ rest) i = samplesOf bs i := by
  unfold samplesOf
  rw [List.getD_append _ _ _ _ (by omega), List.getD_append _ _ _ _ h]

theorem cut_eq_map : ∀ bs : List UInt8, cut bs = (List.range (bs.length / 4)).map fun i =>
    (samplesOf bs (i * 2), samplesOf bs (i * 2 + 1))
  | [] | [_] | [_, _] | [_, _, _] => by simp [cut]
  | b0 :: b1 :: b2 :: b3 :: bs => by
    have hl : (b0 :: b1 :: b2 :: b3 :: bs).length / 4 = bs.length / 4 + 1 := by
      simp only [List.length_cons]; omega
    rw [cut, hl, List.range_succ_eq_map, List.map_cons, List.map_map, cut_eq_map bs]
    congr 1
    apply List.map_congr_left
    intro i _
    simp only [Function.comp_apply, Nat.succ_eq_add_one, Nat.add_mul, samplesOf_cons]

theorem map_samplesOf_append (bs rest : List UInt8) : ((List.range (bs.length / 4)).map fun i =>
    (samplesOf (bs ++ rest) (i * 2), samplesOf (bs ++ rest) (i * 2 + 1))) = cut bs := by
  rw [cut_eq_map]
  apply List.map_congr_left
  intro i hi
  have hi := List.mem_range.mp hi
  rw [samplesOf_append (by omega), samplesOf_append (by omega)]

theorem take_cut_append (c rest : List UInt8) : (cut (c ++ rest)).take (c.length / 4) = cut c := by
  have hle : c.length / 4 ≤ (c ++ rest).length / 4 :=
    Nat.div_le_div_right (by rw [List.length_append]; exact Nat.le_add_right _ _)
  rw [cut_eq_map, ← List.map_take, List.take_range, Nat.min_eq_left hle, map_samplesOf_append]

/-! ### One call -/

theorem take_memoryFrames (bs rest : List UInt8) :
    (memoryFrames 2 bs.length (samplesOf (bs ++ rest))).take (bs.length / 4) = cut bs := by
  rw [memoryFrames, if_neg (by decide), ← List.map_take, List.take_range, Nat.min_eq_left (by omega),
    map_samplesOf_append]

theorem length_withNullData (c : List UInt8) : (withNullData c).length =
    if c.length < MINIMUM_SAMPLE_SIZE * 4 then MINIMUM_SAMPLE_SIZE * 4 else c.length := by
  rw [withNullData, List.length_append, List.length_replicate]
  split_ifs <;> omega

theorem withNullData_of_le {c : List UInt8} (h : MINIMUM_SAMPLE_SIZE * 4 ≤ c.length) : withNullData c = c := by
  rw [withNullData, Nat.sub_eq_zero_of_le h, List.replicate_zero, List.append_nil]

/-- **One chunk.** The block of a chunk holds the frames cut from it and from the null data after it, and
the stream stays as it was opened. -/
theorem pcmGetNextSample_bytes {auds : Auds} (h : Capturing auds) {c : List UInt8}
    (hc : c.length ≤ 4096) : ∃ auds' data size block,
      pcmGetNextSample auds (.bytes c) = some (auds', data, size) ∧ Capturing auds' ∧
      decode (data.take size) = some block ∧ block.frames = cut (withNullData c) := by
  have hlen := length_withNullData c
  have hbounds : 128 ≤ (withNullData c).length ∧ (withNullData c).length ≤ 4096 := by
    rw [hlen, MINIMUM_SAMPLE_SIZE]
    split_ifs <;> omega
  -- `rbuf` goes on with zeros behind the null data
  obtain ⟨k, hk⟩ : ∃ k, c ++ List.replicate (auds.rbufSize - c.length) (0 : UInt8) =
      withNullData c ++ List.replicate k 0 := by
    have hsize : auds.rbufSize = 4096 := by
      rw [Auds.rbufSize, if_pos h.socket, h.chunkSize]
      decide
    refine ⟨4096 - (withNullData c).length, ?_⟩
    rw [withNullData, List.append_assoc, ← List.replicate_add, hsize, MINIMUM_SAMPLE_SIZE, List.length_append,
      List.length_replicate]
    congr 2
    omega
  have hbuf : pcmSize ((withNullData c).length / 4) ≤ auds.buffer.length := h.buffer ▸ pcmSize_le (by omega)
  obtain ⟨data, hdata, hlength, hdec⟩ := audsWritePcm_presents
    (presents_memory 2 (withNullData c).length (samplesOf (withNullData c ++ List.replicate k 0)))
    (show 1 ≤ (withNullData c).length / 4 by omega) (by omega) (memoryFrames_ne_nil (by omega) _) hbuf
  refine ⟨{ auds with buffer := data }, data, _, _, ?_,
    ⟨h.channels, h.chunkSize, h.socket, hlength.trans h.buffer⟩, hdec, ?_⟩
  · rw [pcmGetNextSample, h.channels]
    simp only [← hlen, hk]
    rw [hdata]
    rfl
  · have hfull : (withNullData c).length / 4 - ((withNullData c).length + 3) / 4 = 0 := by omega
    rw [blockFrames, take_memoryFrames, length_memoryFrames, if_neg (by decide), hfull, List.replicate_zero,
      List.append_nil]

theorem captureFrames_eq : ∀ {cs : List (List UInt8)} {auds : Auds}, Capturing auds →
    (∀ c ∈ cs, c.length ≤ 4096) → captureFrames auds cs = some (cs.flatMap cut)
  | [], _, _, _ => rfl
  | c :: cs, auds, h, hcs => by
    obtain ⟨auds', data, size, block, hcall, h', hdec, hframes⟩ :=
      pcmGetNextSample_bytes h (hcs c List.mem_cons_self)
    have ih := captureFrames_eq h' fun c hc => hcs c (List.mem_cons_of_mem _ hc)
    simp only [captureFrames, hcall, hdec, ih, hframes, withNullData, take_cut_append, Option.bind_eq_bind,
      Option.bind_some, List.flatMap_cons]

/-! ### Cuts that shift no frame -/

theorem flatMap_cut_short {cs : List (List UInt8)} (h : (cs.map List.length).sum < 4) :
    cs.flatMap cut = [] := by
  rw [List.flatMap_eq_nil_iff]
  intro c hc
  have := List.le_sum_of_mem (List.mem_map_of_mem (f := List.length) hc)
  exact cut_short (by omega)

theorem flatMap_cut : ∀ {cs : List (List UInt8)}, FrameAligned (cs.map List.length) →
    cs.flatMap cut = cut cs.flatten
  | [], _ => rfl
  | c :: cs, h => by
    rw [List.flatMap_cons, List.flatten_cons]
    rcases h with ⟨hc, h⟩ | h
    · rw [cut_append hc, flatMap_cut h]
    · rw [cut_append_short (by rwa [List.length_flatten]), flatMap_cut_short (by omega),
        List.append_nil]

theorem cut_zeros (n : ℕ) : ∀ f ∈ cut (List.replicate n 0), f = (0, 0) := by
  intro f hf
  rw [cut_eq_map] at hf
  obtain ⟨i, -, rfl⟩ := List.mem_map.mp hf
  simp [samplesOf, sampleOf]

theorem sampleOf_one_ne (b : UInt8) : sampleOf 1 b ≠ 0 := by
  have := b.toNat_lt
  intro h
  have h := congrArg UInt16.toNat h
  simp [sampleOf] at h
  omega

theorem exists_mem_cut_one {rest : List UInt8} (h : 3 ≤ rest.length) :
    ∃ f ∈ cut (1 :: rest), f ≠ (0, 0) := by
  match rest, h with
  | b1 :: b2 :: b3 :: bs, _ =>
    exact ⟨_, List.mem_cons_self, fun h => sampleOf_one_ne b1 (Prod.ext_iff.mp h).1⟩

/-- If a chunk ends inside a frame that the later ones complete, some stream shows it: zeros but for
the first byte of that frame, which no block carries. -/
theorem exists_flatMap_cut_ne : ∀ {ns : List ℕ}, ¬ FrameAligned ns →
    ∃ cs : List (List UInt8), cs.map List.length = ns ∧ cs.flatMap cut ≠ cut cs.flatten
  | [], h => absurd trivial h
  | n :: ns, h => by
    simp only [FrameAligned, not_or, not_and, Nat.not_lt] at h
    obtain ⟨htail, hshort⟩ := h
    by_cases hn : 4 ∣ n
    · obtain ⟨cs, rfl, hcs⟩ := exists_flatMap_cut_ne (htail hn)
      refine ⟨List.replicate n 0 :: cs, by simp, ?_⟩
      rw [List.flatMap_cons, List.flatten_cons, cut_append (by simpa using hn)]
      simpa using hcs
    · let zeros := List.replicate (4 * (n / 4)) (0 : UInt8)
      let left := List.replicate (n % 4 - 1) (0 : UInt8)
      let cs := ns.map fun k => List.replicate k (0 : UInt8)
      have hzeros : 4 ∣ zeros.length := by simp [zeros]
      have hleft : left.length = n % 4 - 1 := by simp [left]
      have hcs : cs.map List.length = ns := by simp [cs, Function.comp_def]
      refine ⟨(zeros ++ 1 :: left) :: cs, ?_, ?_⟩
      · rw [List.map_cons, hcs, List.length_append, List.length_cons, hleft]
        simp [zeros]; omega
      · have hrest : 3 ≤ (left ++ cs.flatten).length := by
          rw [List.length_append, List.length_flatten, hcs, hleft]; omega
        obtain ⟨f, hf, hf0⟩ := exists_mem_cut_one hrest
        intro heq
        refine hf0 ?_
        -- every frame of the blocks is zero, the frame `f` of the stream among them
        have hmem : f ∈ ((zeros ++ 1 :: left) :: cs).flatMap cut := by
          rw [heq, List.flatten_cons, List.append_assoc, cut_append hzeros]
          exact List.mem_append_right _ hf
        have hpart : cut (1 :: left) = [] := cut_short (by rw [List.length_cons, hleft]; omega)
        rw [List.flatMap_cons, cut_append hzeros, hpart, List.append_nil, List.mem_append,
          List.mem_flatMap] at hmem
        rcases hmem with hmem | ⟨c, hc, hmem⟩
        · exact cut_zeros _ f hmem
        · obtain ⟨k, -, rfl⟩ := List.mem_map.mp hc
          exact cut_zeros k f hmem

/-- **The frames of the capture.** Chunks of the lengths `ns` carry every stream so cut to the receiver,
frame by frame, if and only if they are aligned to its frames. -/
theorem captureFrames_eq_cut_iff {auds : Auds} (h : Capturing auds) {ns : List ℕ}
    (hns : ∀ n ∈ ns, 1 ≤ n ∧ n ≤ 4096) :
    (∀ cs : List (List UInt8), cs.map List.length = ns →
      captureFrames auds cs = some (cut cs.flatten)) ↔ FrameAligned ns := by
  have hcapture : ∀ cs : List (List UInt8), cs.map List.length = ns →
      captureFrames auds cs = some (cs.flatMap cut) := by
    rintro cs rfl
    exact captureFrames_eq h fun c hc => (hns _ (List.mem_map_of_mem hc)).2
  constructor
  · intro hall
    by_contra hna
    obtain ⟨cs, hcs, hne⟩ := exists_flatMap_cut_ne hna
    exact hne (Option.some.inj ((hcapture cs hcs).symm.trans (hall cs hcs)))
  · rintro hal cs rfl
    rw [hcapture cs rfl, flatMap_cut hal]

/-- The stream right after it was opened. -/
def opened : Auds :=
  { channels := 2, chunkSize := 4096, sfd := 5,
    buffer := List.replicate (MAX_SAMPLES_IN_CHUNK * 4 + 16) 0 }

theorem capturing_opened : Capturing opened :=
  ⟨rfl, by decide, by decide, List.length_replicate⟩

/-- Two whole frames, one frame, and one byte left over at the end of the stream. -/
theorem captureFrames_eq_cut_iff_aligned :
    captureFrames opened [[1, 2, 3, 4, 5, 6, 7, 8], [9, 10, 11, 12], [13]] =
      some [(0x0201, 0x0403), (0x0605, 0x0807), (0x0a09, 0x0c0b)] :=
  (captureFrames_eq_cut_iff capturing_opened (show ∀ n ∈ [8, 4, 1], 1 ≤ n ∧ n ≤ 4096 by decide)).mpr
    (by simp [FrameAligned]) [[1, 2, 3, 4, 5, 6, 7, 8], [9, 10, 11, 12], [13]] rfl

/-- A chunk of five bytes shifts what follows: the receiver gets the bytes `6` to `9` for the second
frame of the stream, `5` to `8`. -/
theorem captureFrames_shifted :
    captureFrames opened [[1, 2, 3, 4, 5], [6, 7, 8, 9, 10, 11, 12]] =
        some [(0x0201, 0x0403), (0x0706, 0x0908)] ∧
      cut ([[1, 2, 3, 4, 5], [6, 7, 8, 9, 10, 11, 12]] : List (List UInt8)).flatten =
        [(0x0201, 0x0403), (0x0605, 0x0807), (0x0a09, 0x0c0b)] := by
  refine ⟨?_, by decide⟩
  rw [captureFrames_eq capturing_opened (by decide)]
  decide

end Waveplay.RaopPlay.PcmStream
