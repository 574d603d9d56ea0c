import Waveplay.RaopPlay.AesKeys
import Waveplay.RaopPlay.PcmStream
import Waveplay.RaopPlay.TcpFraming
import Mathlib.Data.Finite.Prod

/-! # From the capture socket to the receiver

The whole way of the audio over TCP: `pcm_get_next_sample` encodes each chunk of the capture socket,
`raopcl_send_sample` enciphers it with the key that `raopcl_open` chose, `fd_event_callback` writes the
block in pieces, and a receiver with the same key cuts the stream, deciphers with `aes_decrypt` and
decodes. It gets the frames of the capture, and null frames for short chunks (`heard_transmit`). -/

namespace Waveplay.RaopPlay.EncryptedStream

open Waveplay.Lib Waveplay.RaopPlay.Aes Waveplay.RaopPlay.AudioStream Waveplay.RaopPlay.EventTable
open Waveplay.RaopPlay.PcmStream Waveplay.RaopPlay.RaopClient Waveplay.RaopPlay.TcpFraming

/-! ### The cipher of a session -/

theorem finite_block : Finite Block := by
  have : Finite UInt8 := Finite.of_injective UInt8.toFin fun _ _ h => UInt8.toFin_inj.mp h
  infer_instance

/-- `aes_encrypt` and `aes_decrypt` with a context, as a permutation of the blocks. -/
def cipher {ctx : Context} {nk : ℕ} {key : List UInt8} (h : Keyed ctx nk key) : Equiv.Perm Block where
  toFun := aesEncrypt ctx
  invFun := aesDecrypt ctx
  left_inv := h.decrypt_encrypt
  right_inv b := by
    -- there are finitely many blocks, so that every one is enciphered
    have := finite_block
    obtain ⟨a, rfl⟩ := Finite.surjective_of_injective
      (Function.LeftInverse.injective (show Function.LeftInverse (aesDecrypt ctx) _ from h.decrypt_encrypt)) b
    rw [h.decrypt_encrypt]

/-! ### The sender and the receiver -/

/-- What is passed to `raopcl_send_sample` for successive chunks of the capture socket. -/
def capturedSamples : Auds → List (List UInt8) → Option (List (List UInt8))
  | _, [] => some []
  | auds, c :: cs => do
    let (auds, data, size) ← pcmGetNextSample auds (.bytes c)
    let samples ← capturedSamples auds cs
    some (data.take size :: samples)

/-- The frames decoded from samples. -/
def decodeAll : List (List UInt8) → Option (List Frame)
  | [] => some []
  | sample :: samples => do
    let block ← decode sample
    let fs ← decodeAll samples
    some (block.frames ++ fs)

/-- What a receiver with the context `ctx` hears of a stream. -/
def heard (ctx : Context) (iv : Block) (stream : List UInt8) : Option (List Frame) := do
  let samples ← receive (aesDecrypt ctx) iv stream
  decodeAll samples

/-! ### One way -/

theorem pcmGetNextSample_buffer {auds auds' : Auds} {c data : List UInt8} {size : ℕ}
    (h : pcmGetNextSample auds (.bytes c) = some (auds', data, size)) : auds'.buffer = data := by
  obtain ⟨⟨d, n⟩, -, hd⟩ := Option.map_eq_some_iff.mp h
  obtain ⟨rfl, rfl, -⟩ := Prod.mk.injEq .. ▸ hd
  rfl

theorem capturedSamples_some : ∀ {cs : List (List UInt8)} {auds : Auds}, Capturing auds →
    (∀ c ∈ cs, c.length ≤ 4096) → ∃ samples, capturedSamples auds cs = some samples ∧
      samples.length = cs.length ∧ (∀ s ∈ samples, s.length ≤ 65523) ∧
      decodeAll samples = some (cs.flatMap fun c => cut (withNullData c))
  | [], _, _, _ => ⟨[], rfl, rfl, by simp, rfl⟩
  | c :: cs, auds, h, hcs => by
    obtain ⟨auds', data, size, block, hcall, h', hdec, hframes⟩ :=
      pcmGetNextSample_bytes h (hcs c List.mem_cons_self)
    obtain ⟨samples, hsamples, hlen, hsmall, hdecode⟩ :=
      capturedSamples_some h' fun c hc => hcs c (List.mem_cons_of_mem _ hc)
    have hdata : (data.take size).length ≤ 65523 := by
      have hlen := pcmGetNextSample_buffer hcall ▸ h'.buffer
      rw [List.length_take, hlen]
      exact (Nat.min_le_right _ _).trans (by decide)
    refine ⟨data.take size :: samples, ?_, by simp [hlen], ?_, ?_⟩
    · simp only [capturedSamples, hcall, hsamples, Option.bind_eq_bind, Option.bind_some]
    · exact List.forall_mem_cons.mpr ⟨hdata, hsmall⟩
    · simp only [decodeAll, hdec, hdecode, hframes, Option.bind_eq_bind, Option.bind_some, List.flatMap_cons]

theorem receive_blocks (aes : Equiv.Perm Block) (r : Raopcl) {samples : List (List UInt8)}
    (h : ∀ s ∈ samples, s.length ≤ 65523) :
    receive aes.symm r.iv (samples.map (r.tcpBlock aes)).flatten = some samples := by
  rw [receive, cutFrames_blocks h (length_le_blocks _ _ _), Option.map_some, List.map_map]
  congr 1
  conv_rhs => rw [← List.map_id samples]
  exact List.map_congr_left fun s _ => openFrame_tcpBlock aes r s

theorem flatMap_cut_withNullData {cs : List (List UInt8)} (hlong : ∀ c ∈ cs, 128 ≤ c.length)
    (haligned : FrameAligned (cs.map List.length)) :
    (cs.flatMap fun c => cut (withNullData c)) = cut cs.flatten := by
  rw [← flatMap_cut haligned]
  exact List.flatMap_congr fun c hc => congrArg cut (withNullData_of_le (hlong c hc))

/-- **The receiver hears the capture.** For every key, every cut of the capture into chunks and every way
the socket takes the blocks, the receiver hears the frames of each chunk with the null data after a short
one; these are the frames of the capture if no chunk is short and the chunks end between frames. -/
theorem heard_transmit {key : List UInt8} {ctx : Context} (hkey : aesSetKey key 128 = some ctx)
    {auds : Auds} (hauds : Capturing auds) {s : Session} (hudp : s.raopcl.udp = false)
    (hslot : HasSlot s.raopcl.sfd s.fds) {cs : List (List UInt8)} (hcs : ∀ c ∈ cs, c.length ≤ 4096) :
    ∃ samples, capturedSamples auds cs = some samples ∧
      ∀ items : List (List UInt8 × List ℕ), items.map Prod.fst = samples → (∀ it ∈ items, WritesAll it) →
      ∃ t stream, transmit (aesEncrypt ctx) s items = some (t, stream) ∧
        heard ctx s.raopcl.iv stream = some (cs.flatMap fun c => cut (withNullData c)) ∧
        ((∀ c ∈ cs, 128 ≤ c.length) → FrameAligned (cs.map List.length) →
          heard ctx s.raopcl.iv stream = some (cut cs.flatten)) := by
  obtain ⟨nk, -, hkeyed⟩ := keyed_of_aesSetKey hkey
  obtain ⟨samples, hsamples, -, hsmall, hdecode⟩ := capturedSamples_some hauds hcs
  refine ⟨samples, hsamples, fun items hitems hall => ?_⟩
  obtain ⟨t, ht⟩ := transmit_eq (aesEncrypt ctx) hudp hslot hall
  have hblocks : (items.map fun it => s.raopcl.tcpBlock (aesEncrypt ctx) it.1) =
      samples.map (s.raopcl.tcpBlock (aesEncrypt ctx)) := by rw [← hitems, List.map_map]; rfl
  have hreceive : receive (aesDecrypt ctx) s.raopcl.iv
      (samples.map (s.raopcl.tcpBlock (aesEncrypt ctx))).flatten = some samples :=
    receive_blocks (cipher hkeyed) s.raopcl hsmall
  have hheard : heard ctx s.raopcl.iv (items.map fun it => s.raopcl.tcpBlock (aesEncrypt ctx) it.1).flatten =
      some (cs.flatMap fun c => cut (withNullData c)) := by
    rw [hblocks, heard, hreceive, Option.bind_eq_bind, Option.bind_some, hdecode]
  refine ⟨t, _, ht, hheard, fun hlong haligned => ?_⟩
  rw [hheard, flatMap_cut_withNullData hlong haligned]

/-- A chunk of `32` frames and a short one, each block written at once. -/
theorem heard_transmit_chunks : ∃ ctx samples t stream,
    aesSetKey (List.replicate 16 0) 128 = some ctx ∧
    capturedSamples opened [List.replicate 128 7, [1, 2, 3, 4, 5]] = some samples ∧
    transmit (aesEncrypt ctx) sampleSession (samples.map fun s => (s, [s.length + 16])) = some (t, stream) ∧
    heard ctx sampleSession.raopcl.iv stream = some (List.replicate 32 (0x0707, 0x0707) ++
      ((0x0201, 0x0403) :: (0x0005, 0) :: List.replicate 30 (0, 0))) := by
  obtain ⟨ctx, hkey⟩ : ∃ ctx, aesSetKey (List.replicate 16 0) 128 = some ctx := ⟨_, rfl⟩
  have hcs : ∀ c ∈ ([List.replicate 128 7, [1, 2, 3, 4, 5]] : List (List UInt8)), c.length ≤ 4096 := by
    simp
  obtain ⟨samples, hsamples, hall⟩ := heard_transmit (s := sampleSession) hkey capturing_opened rfl
    ⟨{}, by decide, Or.inr (by decide)⟩ hcs
  obtain ⟨t, stream, ht, hheard, -⟩ := hall (samples.map fun s => (s, [s.length + 16]))
    (by rw [List.map_map]; exact List.map_id _) (by simp [WritesAll])
  exact ⟨ctx, samples, t, stream, hkey, hsamples, ht, hheard.trans (by decide +kernel)⟩

end Waveplay.RaopPlay.EncryptedStream
