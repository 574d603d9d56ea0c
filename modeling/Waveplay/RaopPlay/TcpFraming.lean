import Waveplay.RaopPlay.RaopClient
import Mathlib.Data.Fin.VecNotation
import Mathlib.Logic.Equiv.Basic

/-! # The frames of the TCP stream

Every block of `raopcl_send_sample` is a frame with its length in the header, and is enciphered by
itself from the initialization vector. A receiver that knows the key reads the samples back from the
bytes of the socket, however the writes were cut (`receive_transmit`). -/

namespace Waveplay.RaopPlay.TcpFraming

open Waveplay.Lib Waveplay.RaopPlay.EventTable Waveplay.RaopPlay.RaopClient

/-! ### The sender -/

/-- Write events in which `write` takes the numbers of bytes `counts`: what goes to the socket. -/
def writeCounts : Session → List ℕ → Option (Session × List UInt8)
  | s, [] => some (s, [])
  | s, n :: counts =>
    match fdEventCallbackWrite s n with
    | (false, _) => none
    | (true, s, out) => (writeCounts s counts).map fun (t, rest) => (t, out ++ rest)

/-- Send samples one after the other, each with the write events that follow it. -/
def transmit (aes : Block → Block) : Session → List (List UInt8 × List ℕ) →
    Option (Session × List UInt8)
  | s, [] => some (s, [])
  | s, (sample, counts) :: items =>
    match raopclSendSample aes s true sample with
    | (false, _) => none
    | (true, s) => do
      let (s, out) ← writeCounts s counts
      let (t, rest) ← transmit aes s items
      some (t, out ++ rest)

/-- The counts write the whole block of the sample, none of them nothing. -/
def WritesAll (item : List UInt8 × List ℕ) : Prop :=
  (∀ n ∈ item.2, 0 < n) ∧ item.2.sum = item.1.length + 16

instance (item : List UInt8 × List ℕ) : Decidable (WritesAll item) :=
  inferInstanceAs (Decidable (_ ∧ _))

/-! ### The receiver -/

/-- Cut the stream into frames by the length at offset `2`. -/
def cutFrames : ℕ → List UInt8 → Option (List (List UInt8))
  | _, [] => some []
  | 0, _ => none
  | fuel + 1, stream =>
    let size := 4 + (256 * (stream.getD 2 0).toNat + (stream.getD 3 0).toNat)
    if stream.length < size then none
    else (cutFrames fuel (stream.drop size)).map (stream.take size :: ·)

/-- The sample of a frame: decipher the whole blocks after the header, and keep the rest. -/
def openFrame (aesInv : Block → Block) (iv : Block) (frame : List UInt8) : List UInt8 :=
  let data := frame.drop 16
  Cbc.decrypt (· ^^^ ·) aesInv (data.length / 16) iv data

/-- The samples of a stream. A frame has at least four bytes, so the length is fuel enough. -/
def receive (aesInv : Block → Block) (iv : Block) (stream : List UInt8) : Option (List (List UInt8)) :=
  (cutFrames stream.length stream).map (·.map (openFrame aesInv iv))

/-! ### Writing a block -/

theorem hasSlot_setFdEvent {r : Raopcl} {b : Bool} {fds : List (FdEvent Unit)}
    (h : HasSlot r.sfd fds) : HasSlot r.sfd ((setFdEvent (r.event b) fds).getD fds) := by
  obtain ⟨fds', hfds, hmem⟩ := setFdEvent_hasSlot (e := r.event b) h
  rw [hfds]
  exact hasSlot_of_mem hmem

/-- What the write events leave as it is. -/
structure Kept (s t : Session) : Prop where
  iv : t.raopcl.iv = s.raopcl.iv
  udp : t.raopcl.udp = s.raopcl.udp
  slot : HasSlot s.raopcl.sfd s.fds → HasSlot t.raopcl.sfd t.fds

theorem Kept.trans {s t u : Session} (h : Kept s t) (h' : Kept t u) : Kept s u :=
  ⟨h'.iv.trans h.iv, h'.udp.trans h.udp, fun hs => h'.slot (h.slot hs)⟩

theorem fdEventCallbackWrite_pos {s : Session} {n : ℕ} (hn : 0 < n)
    (hle : n ≤ s.raopcl.wblkRemsize) (hdata : s.raopcl.data ≠ []) : ∃ t, fdEventCallbackWrite s n =
      (true, t, (s.raopcl.data.drop s.raopcl.wblkWsize).take n) ∧ Kept s t ∧
      t.raopcl.data = s.raopcl.data ∧ t.raopcl.wblkWsize = s.raopcl.wblkWsize + n ∧
      t.raopcl.wblkRemsize = s.raopcl.wblkRemsize - n := by
  have hrem : s.raopcl.wblkRemsize ≠ 0 := by omega
  have hpos : ¬ ((n : ℤ) ≤ 0 ∨ s.raopcl.data = []) := by
    rintro (h | h)
    · omega
    · exact hdata h
  rw [fdEventCallbackWrite, if_neg hrem, if_neg hpos, Int.toNat_natCast, Nat.min_eq_left hle]
  refine ⟨_, rfl, ⟨rfl, rfl, fun h => ?_⟩, rfl, rfl, rfl⟩
  dsimp only
  split_ifs
  · exact hasSlot_setFdEvent h
  · exact h

/-- **All write events of a block**: the rest of its bytes goes out. -/
theorem writeCounts_eq : ∀ {counts : List ℕ} {s : Session}, (∀ n ∈ counts, 0 < n) →
    counts.sum = s.raopcl.wblkRemsize →
    s.raopcl.data.length = s.raopcl.wblkWsize + s.raopcl.wblkRemsize →
    ∃ t, writeCounts s counts = some (t, s.raopcl.data.drop s.raopcl.wblkWsize) ∧ Kept s t
  | [], s, _, hsum, hlen => by
    rw [List.sum_nil] at hsum
    rw [List.drop_of_length_le (by omega)]
    exact ⟨s, rfl, rfl, rfl, id⟩
  | n :: counts, s, hpos, hsum, hlen => by
    rw [List.sum_cons] at hsum
    have hn := hpos n List.mem_cons_self
    have hne : s.raopcl.data ≠ [] := List.length_pos_iff.mp (by omega)
    obtain ⟨s', hs', hkept, hdata, hw, hr⟩ :=
      fdEventCallbackWrite_pos hn (show n ≤ s.raopcl.wblkRemsize by omega) hne
    obtain ⟨t, ht, hkept'⟩ := writeCounts_eq (s := s')
      (fun k hk => hpos k (List.mem_cons_of_mem n hk)) (by omega) (by rw [hdata]; omega)
    refine ⟨t, ?_, hkept.trans hkept'⟩
    rw [writeCounts, hs']
    simp only [ht, Option.map_some, hdata, hw]
    rw [← List.drop_drop, List.take_append_drop]

/-- **What goes out for a list of samples**: their blocks. -/
theorem transmit_eq (aes : Block → Block) : ∀ {items : List (List UInt8 × List ℕ)} {s : Session},
    s.raopcl.udp = false → HasSlot s.raopcl.sfd s.fds → (∀ it ∈ items, WritesAll it) →
    ∃ t, transmit aes s items =
      some (t, (items.map fun it => s.raopcl.tcpBlock aes it.1).flatten)
  | [], s, _, _, _ => ⟨s, rfl⟩
  | (sample, counts) :: items, s, hudp, hslot, hall => by
    obtain ⟨hpos, hsum⟩ := hall _ List.mem_cons_self
    obtain ⟨nv, fds, hsend, hmem⟩ := raopclSendSample_tcp aes hudp hslot sample
    obtain ⟨s', hs', hkept⟩ := writeCounts_eq (s := { s with
      raopcl := { s.raopcl with
        nv
        data := s.raopcl.tcpBlock aes sample
        wblkRemsize := sample.length + 16
        wblkWsize := 0 }
      fds }) hpos hsum (by simp [length_tcpBlock])
    obtain ⟨t, ht⟩ := transmit_eq aes (s := s') (hkept.udp.trans hudp)
      (hkept.slot (hasSlot_of_mem hmem)) fun it hit => hall it (List.mem_cons_of_mem _ hit)
    have hblock : ∀ sample, s'.raopcl.tcpBlock aes sample = s.raopcl.tcpBlock aes sample := by
      intro sample
      simp only [Raopcl.tcpBlock, Raopcl.encryptData, hkept.iv]
    refine ⟨t, ?_⟩
    rw [transmit, hsend]
    simp only [hs', ht, hblock, Option.bind_eq_bind, Option.bind_some, List.drop_zero, List.map_cons,
      List.flatten_cons]

/-! ### Reading frames -/

theorem tcpHeader_len {count : ℕ} (h : count ≤ 65523) :
    256 * ((tcpHeader count).getD 2 0).toNat + ((tcpHeader count).getD 3 0).toNat = count + 12 := by
  have hlen : (UInt16.ofNat (count + 16 - 4)).toNat = count + 12 := by
    rw [UInt16.toNat_ofNat']
    omega
  have hshift : (8 : UInt16).toNat % 16 = 8 := rfl
  simp only [tcpHeader, List.getD_cons_succ, List.getD_cons_zero, UInt16.toNat_toUInt8,
    UInt16.toNat_shiftRight, hlen, hshift, Nat.shiftRight_eq_div_pow]
  omega

theorem cutFrames_block {aes : Block → Block} {r : Raopcl} {sample : List UInt8}
    (h : sample.length ≤ 65523) (fuel : ℕ) (rest : List UInt8) :
    cutFrames (fuel + 1) (r.tcpBlock aes sample ++ rest) =
      (cutFrames fuel rest).map (r.tcpBlock aes sample :: ·) := by
  have hlen := length_tcpBlock aes r sample
  have hsize : 4 + (256 * ((r.tcpBlock aes sample ++ rest).getD 2 0).toNat +
      ((r.tcpBlock aes sample ++ rest).getD 3 0).toNat) = (r.tcpBlock aes sample).length := by
    have h2 : (r.tcpBlock aes sample ++ rest).getD 2 0 = (tcpHeader sample.length).getD 2 0 := rfl
    have h3 : (r.tcpBlock aes sample ++ rest).getD 3 0 = (tcpHeader sample.length).getD 3 0 := rfl
    rw [h2, h3, tcpHeader_len h, hlen]
    omega
  obtain ⟨b, bs, hb⟩ : ∃ b bs, r.tcpBlock aes sample ++ rest = b :: bs := ⟨_, _, rfl⟩
  rw [hb, cutFrames, ← hb]
  · simp only [hsize]
    rw [if_neg (by simp), List.drop_left, List.take_left]
  · simp

theorem openFrame_tcpBlock (aes : Equiv.Perm Block) (r : Raopcl) (sample : List UInt8) :
    openFrame aes.symm r.iv (r.tcpBlock aes sample) = sample := by
  have hdata : (r.tcpBlock aes sample).drop 16 = (r.encryptData aes sample).2 := rfl
  rw [openFrame, hdata, length_encryptData, Raopcl.encryptData, encryptLoop_fst]
  refine Cbc.decrypt_encrypt _ _ _ (fun a b => ?_) aes.symm_apply_apply _ (by omega)
  rw [UInt8.xor_assoc, UInt8.xor_self, UInt8.xor_zero]

theorem cutFrames_blocks {aes : Block → Block} {r : Raopcl} :
    ∀ {samples : List (List UInt8)} {fuel : ℕ}, (∀ sample ∈ samples, sample.length ≤ 65523) →
    samples.length ≤ fuel →
    cutFrames fuel (samples.map (r.tcpBlock aes)).flatten = some (samples.map (r.tcpBlock aes))
  | [], fuel, _, _ => by cases fuel <;> rfl
  | sample :: samples, fuel, h, hf => by
    obtain ⟨fuel, rfl⟩ : ∃ k, fuel = k + 1 := ⟨fuel - 1, by simp at hf; omega⟩
    rw [List.map_cons, List.flatten_cons, cutFrames_block (h _ List.mem_cons_self),
      cutFrames_blocks (fun b hb => h b (List.mem_cons_of_mem _ hb)) (by simpa using hf)]
    rfl

theorem length_le_blocks (aes : Block → Block) (r : Raopcl) (samples : List (List UInt8)) :
    samples.length ≤ (samples.map (r.tcpBlock aes)).flatten.length := by
  induction samples with
  | nil => exact Nat.zero_le _
  | cons sample samples ih =>
    rw [List.map_cons, List.flatten_cons, List.length_append, length_tcpBlock, List.length_cons]
    omega

/-- **The round trip of the TCP stream.** Whatever the session did before, and however `write` cuts
the blocks, a receiver with the key and the initialization vector gets the samples that were sent. -/
theorem receive_transmit (aes : Block → Equiv.Perm Block) (key : Block) {s : Session}
    (hudp : s.raopcl.udp = false) (hslot : HasSlot s.raopcl.sfd s.fds)
    {items : List (List UInt8 × List ℕ)} (hsize : ∀ it ∈ items, it.1.length ≤ 65523)
    (hall : ∀ it ∈ items, WritesAll it) :
    ∃ t stream, transmit (aes key) s items = some (t, stream) ∧
      receive (aes key).symm s.raopcl.iv stream = some (items.map Prod.fst) := by
  obtain ⟨t, ht⟩ := transmit_eq (aes key) hudp hslot hall
  refine ⟨t, _, ht, ?_⟩
  have hblocks : (items.map fun it => s.raopcl.tcpBlock (aes key) it.1) =
      (items.map Prod.fst).map (s.raopcl.tcpBlock (aes key)) := by
    rw [List.map_map]; rfl
  have hsmall : ∀ sample ∈ items.map Prod.fst, sample.length ≤ 65523 := by
    intro sample hsample
    obtain ⟨it, hit, rfl⟩ := List.mem_map.mp hsample
    exact hsize it hit
  rw [receive, hblocks, cutFrames_blocks hsmall (length_le_blocks _ _ _), Option.map_some,
    List.map_map]
  congr 1
  conv_rhs => rw [← List.map_id (items.map Prod.fst)]
  exact List.map_congr_left fun sample _ => openFrame_tcpBlock (aes key) s.raopcl sample

/-- A block cipher that is AES under the key `00 01 .. 0f` on one block. -/
def sampleAes (_ : Block) : Equiv.Perm Block :=
  Equiv.swap
    ![0x00, 0x11, 0x22, 0x33, 0x44, 0x55, 0x66, 0x77, 0x88, 0x99, 0xaa, 0xbb, 0xcc, 0xdd, 0xee, 0xff]
    ![0x69, 0xc4, 0xe0, 0xd8, 0x6a, 0x7b, 0x04, 0x30, 0xd8, 0xcd, 0xb7, 0x80, 0x70, 0xb4, 0xc5, 0x5a]

/-- A session over TCP. -/
def sampleSession : Session := { raopcl := { iv := fun _ => 0, nv := fun _ => 7, sfd := 5 } }

/-- A sample of nineteen bytes written in three pieces, and one of two bytes. -/
theorem receive_transmit_pieces :
    ∃ t stream, transmit (sampleAes fun j => UInt8.ofNat j) sampleSession
        [([0x00, 0x11, 0x22, 0x33, 0x44, 0x55, 0x66, 0x77, 0x88, 0x99, 0xaa, 0xbb, 0xcc, 0xdd, 0xee,
          0xff, 1, 2, 3], [5, 1, 29]), ([8, 9], [18])] = some (t, stream) ∧
      receive (sampleAes fun j => UInt8.ofNat j).symm (fun _ => 0) stream = some
        [[0x00, 0x11, 0x22, 0x33, 0x44, 0x55, 0x66, 0x77, 0x88, 0x99, 0xaa, 0xbb, 0xcc, 0xdd, 0xee,
          0xff, 1, 2, 3], [8, 9]] :=
  receive_transmit sampleAes (fun j => UInt8.ofNat j) rfl
    ⟨{}, by decide, Or.inr (by decide)⟩ (by decide) (by decide)

end Waveplay.RaopPlay.TcpFraming
