import Waveplay.Lib.Bits

/-! # `bits_write`, the bit packer of `audio_stream.h`

The packer keeps a pointer `bp` into the output buffer and the number `bpos` of bits already used in
the byte there. `bpos` runs up to `8`: a byte that has just been filled stays the current one until
the next field. `Written old bs w` says that the writer `w` has written the bits `bs` over a buffer
that held `old`, and `writeFields_written` that a sequence of fields appends its bits. -/

namespace Waveplay.RaopPlay.BitsWrite

open Waveplay.Lib.Bits

/-- The output buffer, `bp - buffer` and `bpos`. -/
structure BitWriter where
  buffer : List UInt8
  bp : ℕ := 0
  bpos : ℕ := 0
  deriving Repr

/-- `**p |= bd`. -/
def BitWriter.orAt (w : BitWriter) (bd : UInt8) : List UInt8 :=
  w.buffer.set w.bp (w.buffer.getD w.bp 0 ||| bd)

/-- **`bits_write`**: append the `blen` low bits of `d`. The shifts are those of `int`, cut to a byte
when stored. -/
def bitsWrite (w : BitWriter) (d : UInt8) (blen : ℕ) : BitWriter :=
  let lb : ℤ := 7 - w.bpos
  let rb : ℤ := lb - blen + 1
  if 0 ≤ rb then
    let bd := UInt8.ofNat (d.toNat <<< rb.toNat)
    { w with
      buffer := if w.bpos ≠ 0 then w.orAt bd else w.buffer.set w.bp bd
      bpos := w.bpos + blen }
  else
    let bd := UInt8.ofNat (d.toNat >>> (-rb).toNat)
    { buffer := (w.orAt bd).set (w.bp + 1) (UInt8.ofNat (d.toNat <<< (8 + rb).toNat))
      bp := w.bp + 1
      bpos := (-rb).toNat }

/-- A sequence of calls. -/
def writeFields (w : BitWriter) (fs : List (UInt8 × ℕ)) : BitWriter :=
  fs.foldl (fun w f => bitsWrite w f.1 f.2) w

theorem writeFields_append (w : BitWriter) (fs fs' : List (UInt8 × ℕ)) :
    writeFields w (fs ++ fs') = writeFields (writeFields w fs) fs' := List.foldl_append

theorem length_bitsWrite (w : BitWriter) (d : UInt8) (blen : ℕ) :
    (bitsWrite w d blen).buffer.length = w.buffer.length := by
  simp only [bitsWrite, BitWriter.orAt]
  split_ifs <;> simp

theorem length_writeFields : ∀ (fs : List (UInt8 × ℕ)) (w : BitWriter),
    (writeFields w fs).buffer.length = w.buffer.length
  | [], _ => rfl
  | f :: fs, w => (length_writeFields fs _).trans (length_bitsWrite w f.1 f.2)

/-- The bytes used so far: the whole ones, and the one being filled. -/
def BitWriter.size (w : BitWriter) : ℕ := if w.bpos ≠ 0 then w.bp + 1 else w.bp

/-- A field the packer is called with: one to eight bits wide, and its value fits. -/
def FieldOk (f : UInt8 × ℕ) : Prop := 1 ≤ f.2 ∧ f.2 ≤ 8 ∧ f.1.toNat < 2 ^ f.2

theorem fieldOk_byte (b : UInt8) : FieldOk (b, 8) := ⟨by norm_num, by norm_num, b.toNat_lt⟩

/-- The bits of a sequence of fields. -/
def fieldsBits (fs : List (UInt8 × ℕ)) : List Bool := fs.flatMap fun f => toBits f.2 f.1.toNat

@[simp] theorem fieldsBits_nil : fieldsBits [] = [] := rfl

@[simp] theorem fieldsBits_cons (f : UInt8 × ℕ) (fs : List (UInt8 × ℕ)) :
    fieldsBits (f :: fs) = toBits f.2 f.1.toNat ++ fieldsBits fs := rfl

@[simp] theorem fieldsBits_append (fs fs' : List (UInt8 × ℕ)) :
    fieldsBits (fs ++ fs') = fieldsBits fs ++ fieldsBits fs' := by
  simp [fieldsBits]

/-! ### What has been written -/

/-- The byte being filled, if a bit of it is used. -/
def current (cur : List Bool) : List UInt8 := if cur = [] then [] else [byteOf cur]

/-- The writer has written `bs` over `old`: whole bytes `full`, then the byte being filled, which
starts with `cur`; what follows is as before. -/
def Written (old : List UInt8) (bs : List Bool) (w : BitWriter) : Prop :=
  ∃ (full : List UInt8) (cur : List Bool), bs = bitsOf full ++ cur ∧ cur.length ≤ 8 ∧
    (cur = [] → full = []) ∧ w.bp = full.length ∧ w.bpos = cur.length ∧
    w.buffer = full ++ current cur ++ old.drop (full.length + (current cur).length)

theorem written_nil (old : List UInt8) : Written old [] { buffer := old } :=
  ⟨[], [], rfl, by simp, fun _ => rfl, rfl, rfl, by simp [current]⟩

theorem set_length_append (l : List UInt8) (a b : UInt8) (r : List UInt8) :
    (l ++ a :: r).set l.length b = l ++ b :: r := by simp

theorem current_of_ne {cur : List Bool} (h : cur ≠ []) : current cur = [byteOf cur] := if_neg h

theorem toBits_ne_nil {w v : ℕ} (hw : 0 < w) : toBits w v ≠ [] :=
  List.length_pos_iff.mp (by rwa [length_toBits])

/-- The byte that the low bits of a field make at its top: the rest of the field is shifted out. -/
theorem byteOf_toBits {k : ℕ} (hk : k ≤ 8) (d : ℕ) :
    byteOf (toBits k d) = UInt8.ofNat (d <<< (8 - k)) := by
  rw [byteOf, ofBits_toBits, length_toBits, Nat.shiftLeft_eq]
  apply UInt8.toNat_inj.mp
  rw [UInt8.toNat_ofNat', UInt8.toNat_ofNat', ← Nat.mul_mod_mul_right,
    show 2 ^ k * 2 ^ (8 - k) = 2 ^ 8 by rw [← pow_add]; congr 1; omega, Nat.mod_mod]

/-- A byte that the high bits of a field fill up, when `k` bits of it are left. -/
theorem byteBits_fill {cur : List Bool} {d blen k : ℕ} (h8 : cur.length ≤ 8)
    (hk : cur.length + blen = 8 + k) (hd : d < 2 ^ blen) :
    byteBits (byteOf cur ||| UInt8.ofNat (d >>> k)) = cur ++ toBits (8 - cur.length) (d / 2 ^ k) := by
  have hhi : d / 2 ^ k < 2 ^ (8 - cur.length) := by
    rw [Nat.div_lt_iff_lt_mul (by positivity), ← pow_add]
    rwa [show 8 - cur.length + k = blen by omega]
  have hor := byteOf_append cur (toBits (8 - cur.length) (d / 2 ^ k)) (by simp; omega)
  rw [ofBits_toBits, Nat.mod_eq_of_lt hhi, length_toBits,
    show 8 - (cur.length + (8 - cur.length)) = 0 by omega, pow_zero, Nat.mul_one] at hor
  rw [Nat.shiftRight_eq_div_pow, hor, byteBits_byteOf (by simp; omega)]
  simp; omega

theorem bitsWrite_fits {old : List UInt8} {bs : List Bool} {w : BitWriter} {d : UInt8} {blen : ℕ}
    {full : List UInt8} {cur : List Bool} (hbs : bs = bitsOf full ++ cur)
    (hne : cur = [] → full = []) (hbp : w.bp = full.length) (hbpos : w.bpos = cur.length)
    (hbuf : w.buffer = full ++ current cur ++ old.drop (full.length + (current cur).length))
    (hd : FieldOk (d, blen)) (hroom : bs.length + blen ≤ 8 * old.length)
    (hfit : cur.length + blen ≤ 8) :
    Written old (bs ++ toBits blen d.toNat) (bitsWrite w d blen) := by
  obtain ⟨h1, hb8, hlt⟩ := hd
  simp only at h1 hb8 hlt
  have hrb : (0 : ℤ) ≤ 7 - w.bpos - blen + 1 := by omega
  have hsh : ((7 : ℤ) - w.bpos - blen + 1).toNat = 8 - (cur.length + blen) := by omega
  have hnew : cur ++ toBits blen d.toNat ≠ [] := List.append_ne_nil_of_right_ne_nil _ (toBits_ne_nil h1)
  refine ⟨full, cur ++ toBits blen d.toNat, by rw [hbs, List.append_assoc], by simpa using hfit,
    fun h => absurd h hnew, ?_⟩
  rw [bitsWrite]
  simp only [hrb, if_true, hsh]
  refine ⟨hbp, by simp [hbpos], ?_⟩
  rw [current_of_ne hnew]
  by_cases hc : cur = []
  · -- the first field of the buffer
    subst hc
    obtain rfl := hne rfl
    have hpos : 0 < old.length := by simp at hroom hbs; subst hbs; simp at hroom; omega
    obtain ⟨a, old, rfl⟩ := List.exists_cons_of_length_pos hpos
    simp only [List.length_nil, Nat.zero_add, List.nil_append, current, if_true] at hbp hbpos hbuf ⊢
    rw [hbpos, hbuf, hbp, if_neg (by simp), byteOf_toBits hb8]
    rfl
  · have hpos : w.bpos ≠ 0 := by rw [hbpos]; simpa using hc
    rw [if_pos hpos, BitWriter.orAt, hbuf, hbp, current_of_ne hc]
    simp only [List.append_assoc, List.singleton_append, List.length_singleton]
    have hor := byteOf_append cur (toBits blen d.toNat) (by simpa using hfit)
    rw [ofBits_toBits, Nat.mod_eq_of_lt hlt, length_toBits] at hor
    rw [set_length_append, ← hor]
    simp [Nat.shiftLeft_eq]

theorem bitsWrite_straddles {old : List UInt8} {bs : List Bool} {w : BitWriter} {d : UInt8} {blen : ℕ}
    {full : List UInt8} {cur : List Bool} (hbs : bs = bitsOf full ++ cur) (h8 : cur.length ≤ 8)
    (hbp : w.bp = full.length) (hbpos : w.bpos = cur.length)
    (hbuf : w.buffer = full ++ current cur ++ old.drop (full.length + (current cur).length))
    (hd : FieldOk (d, blen)) (hroom : bs.length + blen ≤ 8 * old.length)
    (hfit : 8 < cur.length + blen) :
    Written old (bs ++ toBits blen d.toNat) (bitsWrite w d blen) := by
  obtain ⟨-, hb8, hlt⟩ := hd
  simp only at hb8 hlt
  -- the `k` low bits of the field go to the next byte
  obtain ⟨k, hk⟩ : ∃ k, cur.length + blen = 8 + k := ⟨cur.length + blen - 8, by omega⟩
  have hrb : ¬ (0 : ℤ) ≤ 7 - w.bpos - blen + 1 := by omega
  have hsr : (-((7 : ℤ) - w.bpos - blen + 1)).toNat = k := by omega
  have hsl : ((8 : ℤ) + (7 - w.bpos - blen + 1)).toNat = 8 - k := by omega
  have hc : cur ≠ [] := by rintro rfl; simp at hfit; omega
  have hlow : toBits k d.toNat ≠ [] := toBits_ne_nil (by omega)
  have hsplit : toBits blen d.toNat = toBits (8 - cur.length) (d.toNat / 2 ^ k) ++ toBits k d.toNat := by
    rw [← toBits_add]; congr 1; omega
  have hlen : full.length + 1 < old.length := by
    have := congrArg List.length hbs
    simp at this; omega
  refine ⟨full ++ [byteOf cur ||| UInt8.ofNat (d.toNat >>> k)], toBits k d.toNat, ?_, by simp; omega,
    fun h => absurd h hlow, ?_⟩
  · rw [bitsOf_append, bitsOf_cons, bitsOf_nil, byteBits_fill h8 hk hlt, hbs, hsplit]
    simp
  rw [bitsWrite]
  simp only [hrb, if_false, hsr, hsl]
  refine ⟨by simp [hbp], by simp, ?_⟩
  rw [BitWriter.orAt, hbuf, hbp, current_of_ne hc, current_of_ne hlow, byteOf_toBits (by omega)]
  simp only [List.append_assoc, List.singleton_append, List.length_singleton]
  obtain ⟨a, ha⟩ : ∃ a, old.drop (full.length + 1) = a :: old.drop (full.length + 1 + 1) :=
    ⟨_, List.drop_eq_getElem_cons hlen⟩
  rw [set_length_append, ha]
  simp

/-- **One call appends its field.** -/
theorem bitsWrite_written {old : List UInt8} {bs : List Bool} {w : BitWriter} (hw : Written old bs w)
    {d : UInt8} {blen : ℕ} (hd : FieldOk (d, blen)) (hroom : bs.length + blen ≤ 8 * old.length) :
    Written old (bs ++ toBits blen d.toNat) (bitsWrite w d blen) := by
  obtain ⟨full, cur, hbs, h8, hne, hbp, hbpos, hbuf⟩ := hw
  rcases Nat.lt_or_ge 8 (cur.length + blen) with h | h
  · exact bitsWrite_straddles hbs h8 hbp hbpos hbuf hd hroom h
  · exact bitsWrite_fits hbs hne hbp hbpos hbuf hd hroom h

/-- **A sequence of fields appends their bits.** -/
theorem writeFields_written {old : List UInt8} : ∀ (fs : List (UInt8 × ℕ)) {bs : List Bool}
    {w : BitWriter}, Written old bs w → (∀ f ∈ fs, FieldOk f) →
    bs.length + (fieldsBits fs).length ≤ 8 * old.length →
    Written old (bs ++ fieldsBits fs) (writeFields w fs)
  | [], bs, w, hw, _, _ => by simpa [writeFields] using hw
  | f :: fs, bs, w, hw, hok, hroom => by
    rw [fieldsBits_cons, List.length_append, length_toBits] at hroom
    have hstep := bitsWrite_written hw (hok f (by simp)) (by omega)
    have := writeFields_written fs hstep (fun g hg => hok g (by simp [hg]))
      (by rw [List.length_append, length_toBits]; omega)
    rw [fieldsBits_cons, ← List.append_assoc]
    exact this

/-! ### The size, and the bits of the buffer -/

theorem Written.size {old : List UInt8} {bs : List Bool} {w : BitWriter} (hw : Written old bs w) :
    w.size = (bs.length + 7) / 8 := by
  obtain ⟨full, cur, hbs, h8, hne, hbp, hbpos, -⟩ := hw
  rw [BitWriter.size, hbp, hbpos, hbs, List.length_append, length_bitsOf]
  by_cases hc : cur = []
  · obtain rfl := hne hc
    subst hc; rfl
  · have : 0 < cur.length := List.length_pos_iff.mpr hc
    rw [if_pos (by omega)]; omega

theorem size_eq {w : BitWriter} {full : List UInt8} {cur : List Bool} (hbp : w.bp = full.length)
    (hbpos : w.bpos = cur.length) : w.size = (full ++ current cur).length := by
  rw [BitWriter.size, hbp, hbpos, List.length_append]
  by_cases hc : cur = []
  · simp [hc, current]
  · simp [hc, current]

theorem Written.bitsOf_take {old : List UInt8} {bs : List Bool} {w : BitWriter}
    (hw : Written old bs w) :
    bitsOf (w.buffer.take w.size) = bs ++ List.replicate (8 * w.size - bs.length) false := by
  have hsize := hw.size
  obtain ⟨full, cur, hbs, h8, hne, hbp, hbpos, hbuf⟩ := hw
  have hlen := size_eq hbp hbpos
  rw [hbuf, hlen, List.take_left' rfl, bitsOf_append, hbs]
  by_cases hc : cur = []
  · obtain rfl := hne hc
    subst hc; rfl
  · simp only [current, if_neg hc, bitsOf_cons, bitsOf_nil, List.append_nil, List.append_assoc]
    rw [byteBits_byteOf h8]
    simp; omega

theorem Written.drop {old : List UInt8} {bs : List Bool} {w : BitWriter} (hw : Written old bs w) :
    w.buffer.drop w.size = old.drop w.size := by
  obtain ⟨full, cur, -, -, -, hbp, hbpos, hbuf⟩ := hw
  rw [hbuf, size_eq hbp hbpos, List.drop_left' rfl, List.length_append]

theorem Written.bpos_le {old : List UInt8} {bs : List Bool} {w : BitWriter} (hw : Written old bs w) :
    w.bpos ≤ 8 := by
  obtain ⟨full, cur, -, h8, -, -, hbpos, -⟩ := hw
  omega

theorem length_fieldsBits (fs : List (UInt8 × ℕ)) : (fieldsBits fs).length = (fs.map Prod.snd).sum := by
  simp only [fieldsBits, List.length_flatMap, length_toBits]

/-- **The bit packer.** After any fields the buffer starts with their bits, and zeros up to the end of the
current byte; behind that byte it is as before. The bytes used are as many as the bits need. -/
theorem writeFields_packs {fs : List (UInt8 × ℕ)} (hok : ∀ f ∈ fs, FieldOk f) (old : List UInt8)
    (hroom : (fs.map Prod.snd).sum ≤ 8 * old.length) :
    let w := writeFields { buffer := old } fs
    bitsOf (w.buffer.take w.size) =
        fieldsBits fs ++ List.replicate (8 * w.size - (fs.map Prod.snd).sum) false ∧
      w.buffer.drop w.size = old.drop w.size ∧ w.bpos ≤ 8 ∧
      w.bp + (if w.bpos ≠ 0 then 1 else 0) = ((fs.map Prod.snd).sum + 7) / 8 := by
  have hlen := length_fieldsBits fs
  have hw : Written old (fieldsBits fs) (writeFields { buffer := old } fs) :=
    writeFields_written fs (written_nil old) hok (by rw [List.length_nil]; omega)
  have hsize := hw.size
  have hbits := hw.bitsOf_take
  rw [hlen] at hsize hbits
  refine ⟨hbits, hw.drop, hw.bpos_le, ?_⟩
  rw [← hsize, BitWriter.size]
  split_ifs
  · rfl
  · rfl

/-- A field that crosses a byte, over a buffer of ones. -/
theorem writeFields_packs_three :
    (∀ f ∈ [(1, 3), (0, 4), (5, 8)], FieldOk f) ∧
      (writeFields { buffer := [255, 255, 255] } [(1, 3), (0, 4), (5, 8)]).buffer.drop 2 = [255] := by
  have hok : ∀ f ∈ [((1 : UInt8), 3), (0, 4), (5, 8)], FieldOk f := by
    simp only [List.forall_mem_cons, FieldOk]
    decide
  exact ⟨hok, (writeFields_packs hok [255, 255, 255] (by decide)).2.1⟩

end Waveplay.RaopPlay.BitsWrite
