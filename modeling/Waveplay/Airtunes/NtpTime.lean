import Mathlib.Algebra.Group.Int.Defs
import Mathlib.Algebra.Group.Nat.Defs
import Mathlib.Data.Int.Notation
import Mathlib.Data.List.Basic
import Mathlib.Tactic.Common

/-! # `AirtunesManager`: times on the wire

A time in milliseconds goes into a packet as an NTP time: seconds since an epoch in the upper half of a
`long`, and a fraction of a second in the lower half, of which a millisecond is `MSECMULT`. The `long` is
written byte by byte, and read back through two signed `int`s.

* `fromNTPTime_toNTPTime`: a time of less than `2 ^ 32` seconds is what is read off its NTP time.
* `readLong_writeLong`: any `long` is read back from its bytes.
* `toNTPTime_lt`: later times are larger.
* **`ntpTime_wire`**: all of this for times in an array. -/

namespace Waveplay.Airtunes.NtpTime

/-- `long` -/
abbrev Long := BitVec 64

def MSECMULT : Long := 4294967

/-! ### NTP times -/

/-- `toNTPTime` -/
def toNTPTime (epoch ms : Long) : Long :=
  let secs := ms.sdiv 1000 + epoch
  let frac := ms.srem 1000 * MSECMULT
  (secs <<< 32) + frac

/-- `fromNTPTime` -/
def fromNTPTime (epoch ntptime : Long) : Long :=
  let secs := ((ntptime >>> 32) - epoch) &&& 0xFFFFFFFF
  let msecs := (ntptime &&& 0xFFFFFFFF).sdiv MSECMULT
  secs * 1000 + msecs

/-- `initializeEpoch`, with the system time in milliseconds. -/
def initializeEpoch (epoch ntptime currentTimeMillis : Long) : Long :=
  if epoch = 0 then (ntptime >>> 32) - currentTimeMillis.sdiv 1000 else epoch

/-! ### Bytes -/

/-- The cast to `byte`. -/
def byte (v : Long) : UInt8 := .ofBitVec (v.setWidth 8)

/-- The `int` `b & 0xFF`, of a signed byte. -/
def unsigned (b : UInt8) : BitVec 32 := b.toBitVec.signExtend 32 &&& 0xFF

/-- Stores in succession, each of which throws outside the array. -/
def store : List Long → List UInt8 → ℕ → Option (List UInt8)
  | [], buf, _ => some buf
  | v :: vs, buf, off => if off < buf.length then store vs (buf.set off (byte v)) (off + 1) else none

/-- `writeLong` -/
def writeLong (val : Long) (buf : List UInt8) (off : ℕ) : Option (List UInt8) :=
  store [val >>> 56, val >>> 48, val >>> 40, val >>> 32, val >>> 24, val >>> 16, val >>> 8, val >>> 0] buf off

/-- The sum of `int`s in `readInt`. -/
def int (b₀ b₁ b₂ b₃ : UInt8) : BitVec 32 :=
  (unsigned b₀ <<< 24) + (unsigned b₁ <<< 16) + (unsigned b₂ <<< 8) + unsigned b₃

/-- `readInt`, which returns a `long`. -/
def readInt (buf : List UInt8) (i : ℕ) : Option Long := do
  let b₀ ← buf[i]?
  let b₁ ← buf[i + 1]?
  let b₂ ← buf[i + 2]?
  let b₃ ← buf[i + 3]?
  return (int b₀ b₁ b₂ b₃).signExtend 64

/-- `readLong` -/
def readLong (buf : List UInt8) (off : ℕ) : Option Long := do
  let hi ← readInt buf off
  let lo ← readInt buf (off + 4)
  return (hi <<< 32) + (lo &&& 0xFFFFFFFF)

/-! ### Halves of a `long` -/

theorem toNat_mask (v : Long) : (v &&& 0xFFFFFFFF).toNat = v.toNat % 4294967296 := by
  rw [BitVec.toNat_and]
  exact Nat.and_two_pow_sub_one_eq_mod v.toNat 32

theorem toNat_shiftRight (v : Long) : (v >>> 32).toNat = v.toNat / 4294967296 := by
  rw [BitVec.toNat_ushiftRight, Nat.shiftRight_eq_div_pow]

theorem toNat_shiftLeft (v : Long) : (v <<< 32).toNat = v.toNat % 4294967296 * 4294967296 := by
  rw [BitVec.toNat_shiftLeft, Nat.shiftLeft_eq]
  omega

theorem toNat_halves (hi lo : Long) (h : lo.toNat < 4294967296) :
    ((hi <<< 32) + lo).toNat = hi.toNat % 4294967296 * 4294967296 + lo.toNat := by
  rw [BitVec.toNat_add, toNat_shiftLeft]
  omega

/-! ### There and back -/

theorem msb_of_nonneg {v : Long} (h : 0 ≤ v.toInt) : v.msb = false := by
  rw [BitVec.msb_eq_toInt, decide_eq_false_iff_not]
  omega

theorem toNat_sdiv {v w : Long} (hv : v.msb = false) (hw : w.msb = false) :
    (v.sdiv w).toNat = v.toNat / w.toNat := by
  rw [BitVec.sdiv_eq, hv, hw]
  exact BitVec.toNat_udiv

theorem toNat_srem {v w : Long} (hv : v.msb = false) (hw : w.msb = false) :
    (v.srem w).toNat = v.toNat % w.toNat := by
  rw [BitVec.srem_eq, hv, hw]
  exact BitVec.toNat_umod

theorem toNat_MSECMULT : MSECMULT.toNat = 4294967 := rfl

theorem toNat_toNTPTime (epoch : Long) {ms : Long} (h : ms.msb = false) :
    (toNTPTime epoch ms).toNat =
      (ms.toNat / 1000 + epoch.toNat) % 4294967296 * 4294967296 + ms.toNat % 1000 * 4294967 := by
  have hq : (ms.sdiv 1000).toNat = ms.toNat / 1000 := toNat_sdiv h (by decide)
  have hr : (ms.srem 1000).toNat = ms.toNat % 1000 := toNat_srem h (by decide)
  have hfrac : (ms.srem 1000 * MSECMULT).toNat = ms.toNat % 1000 * 4294967 := by
    rw [BitVec.toNat_mul, hr, toNat_MSECMULT]
    omega
  have hsecs : (ms.sdiv 1000 + epoch).toNat % 4294967296 =
      (ms.toNat / 1000 + epoch.toNat) % 4294967296 := by
    rw [BitVec.toNat_add, hq]
    omega
  rw [toNTPTime, toNat_halves _ _ (by omega), hsecs, hfrac]

theorem toNat_fromNTPTime (epoch ntptime : Long) :
    (fromNTPTime epoch ntptime).toNat =
      (ntptime.toNat / 4294967296 + (18446744073709551616 - epoch.toNat)) % 4294967296 * 1000 +
        ntptime.toNat % 4294967296 / 4294967 := by
  have hmask := toNat_mask ntptime
  have hmsb : (ntptime &&& 0xFFFFFFFF).msb = false := by
    rw [BitVec.msb_eq_false_iff_two_mul_lt]
    omega
  have hsecs : (((ntptime >>> 32) - epoch) &&& 0xFFFFFFFF).toNat =
      (ntptime.toNat / 4294967296 + (18446744073709551616 - epoch.toNat)) % 4294967296 := by
    rw [toNat_mask, BitVec.toNat_sub, toNat_shiftRight]
    omega
  have hthousand : BitVec.toNat (1000 : Long) = 1000 := rfl
  rw [fromNTPTime, BitVec.toNat_add, BitVec.toNat_mul, hsecs, hthousand, toNat_sdiv hmsb (by decide), hmask,
    toNat_MSECMULT]
  omega

/-- **Round trip** of the times before the last second that an NTP time can say has passed. -/
theorem fromNTPTime_toNTPTime (epoch : Long) {ms : Long} (h : 0 ≤ ms.toInt)
    (hlt : ms.toInt < 1000 * 4294967296) : fromNTPTime epoch (toNTPTime epoch ms) = ms := by
  have hmsb := msb_of_nonneg h
  rw [BitVec.toInt_eq_toNat_of_msb hmsb] at hlt
  have hntp := toNat_toNTPTime epoch hmsb
  have hsecs : (toNTPTime epoch ms).toNat / 4294967296 = (ms.toNat / 1000 + epoch.toNat) % 4294967296 := by
    omega
  have hfrac : (toNTPTime epoch ms).toNat % 4294967296 = ms.toNat % 1000 * 4294967 := by omega
  have hepoch := epoch.isLt
  have hback : ((ms.toNat / 1000 + epoch.toNat) % 4294967296 + (18446744073709551616 - epoch.toNat)) %
      4294967296 = ms.toNat / 1000 := by omega
  apply BitVec.eq_of_toNat_eq
  rw [toNat_fromNTPTime, hsecs, hfrac, hback, Nat.mul_div_cancel _ (by decide)]
  exact Nat.div_add_mod' ms.toNat 1000

/-! ### The order of times -/

/-- The seconds of a time are those of an NTP time that is not negative. -/
def InRange (epoch ms : Long) : Prop :=
  0 ≤ (ms.sdiv 1000 + epoch).toInt ∧ (ms.sdiv 1000 + epoch).toInt < 2147483648

/-- Seconds and milliseconds, which have the sign of the time. -/
theorem tdiv_thousand (x : ℤ) : 1000 * x.tdiv 1000 + x.tmod 1000 = x ∧
    -1000 < x.tmod 1000 ∧ x.tmod 1000 < 1000 ∧ (0 ≤ x → 0 ≤ x.tmod 1000) ∧ (x ≤ 0 → x.tmod 1000 ≤ 0) := by
  refine ⟨Int.mul_tdiv_add_tmod x 1000, Int.lt_tmod_of_pos x (by decide), Int.tmod_lt_of_pos x (by decide),
    Int.tmod_nonneg 1000, fun hx => ?_⟩
  have hneg := Int.tmod_nonneg 1000 (Int.neg_nonneg_of_nonpos hx)
  rw [Int.neg_tmod] at hneg
  omega

theorem toInt_sdiv_thousand (ms : Long) : (ms.sdiv 1000).toInt = ms.toInt.tdiv 1000 :=
  BitVec.toInt_sdiv_of_ne_or_ne ms 1000 (.inr (by decide))

theorem InRange.secs {epoch ms : Long} (h : InRange epoch ms) :
    (ms.sdiv 1000 + epoch).toInt = ms.toInt.tdiv 1000 + epoch.toInt := by
  obtain ⟨hlow, hhigh⟩ := h
  have hms := ms.toInt_lt
  have hms' := ms.le_toInt
  have hepoch := epoch.toInt_lt
  have hepoch' := epoch.le_toInt
  have hq := tdiv_thousand ms.toInt
  rw [BitVec.toInt_add, toInt_sdiv_thousand, Int.bmod_def] at hlow hhigh ⊢
  split_ifs at hlow hhigh ⊢
  · omega
  · omega

theorem InRange.toInt_toNTPTime {epoch ms : Long} (h : InRange epoch ms) :
    (toNTPTime epoch ms).toInt =
      (ms.toInt.tdiv 1000 + epoch.toInt) * 4294967296 + ms.toInt.tmod 1000 * 4294967 := by
  have hq := tdiv_thousand ms.toInt
  have hfrac : (ms.srem 1000 * MSECMULT).toInt = ms.toInt.tmod 1000 * 4294967 := by
    have hthousand : BitVec.toInt (1000 : Long) = 1000 := rfl
    have hmult : MSECMULT.toInt = 4294967 := rfl
    rw [BitVec.toInt_mul, BitVec.toInt_srem, hthousand, hmult]
    exact Int.bmod_eq_of_le (by omega) (by omega)
  rw [toNTPTime, BitVec.toInt_add, hfrac, ← h.secs]
  obtain ⟨hlow, hhigh⟩ := h
  generalize ms.sdiv 1000 + epoch = secs at hlow hhigh ⊢
  have hnat := BitVec.toInt_eq_toNat_of_msb (msb_of_nonneg hlow)
  have hshift : (secs <<< 32).toInt = secs.toInt * 4294967296 := by
    rw [BitVec.toInt_shiftLeft, Nat.shiftLeft_eq, hnat]
    exact Int.bmod_eq_of_le (by omega) (by omega)
  rw [hshift]
  exact Int.bmod_eq_of_le (by omega) (by omega)

/-- **Later times are larger.** -/
theorem toNTPTime_lt {epoch ms ms' : Long} (h : InRange epoch ms) (h' : InRange epoch ms')
    (hlt : ms.toInt < ms'.toInt) : (toNTPTime epoch ms).toInt < (toNTPTime epoch ms').toInt := by
  have hq := tdiv_thousand ms.toInt
  have hq' := tdiv_thousand ms'.toInt
  rw [h.toInt_toNTPTime, h'.toInt_toNTPTime]
  omega

/-! ### Bytes there and back -/

theorem toNat_byte (v : Long) (k : ℕ) : (byte (v >>> k)).toNat = v.toNat / 2 ^ k % 256 := by
  rw [byte, UInt8.toNat_ofBitVec, BitVec.toNat_setWidth, BitVec.toNat_ushiftRight, Nat.shiftRight_eq_div_pow]

theorem toNat_signExtend_mod {w v : ℕ} (h : w ≤ v) (x : BitVec w) :
    (x.signExtend v).toNat % 2 ^ w = x.toNat := by
  have hset : (x.signExtend v).setWidth w = x := by
    ext i hi
    have hiv : i < v := by omega
    rw [BitVec.getElem_setWidth, BitVec.getLsbD_signExtend]
    simp [hi, hiv]
  rw [← BitVec.toNat_setWidth, hset]

theorem toNat_unsigned (b : UInt8) : (unsigned b).toNat = b.toNat := by
  rw [unsigned, BitVec.toNat_and]
  exact (Nat.and_two_pow_sub_one_eq_mod _ 8).trans (toNat_signExtend_mod (by decide) b.toBitVec)

theorem toNat_int (b₀ b₁ b₂ b₃ : UInt8) : (int b₀ b₁ b₂ b₃).toNat =
    b₀.toNat * 16777216 + b₁.toNat * 65536 + b₂.toNat * 256 + b₃.toNat := by
  have h₀ := b₀.toNat_lt
  have h₁ := b₁.toNat_lt
  have h₂ := b₂.toNat_lt
  have h₃ := b₃.toNat_lt
  simp only [int, BitVec.toNat_add, BitVec.toNat_shiftLeft, toNat_unsigned, Nat.shiftLeft_eq]
  omega

/-- The sign of the upper `int` is shifted out, and that of the lower one masked. -/
theorem toNat_signExtend_halves (hi lo : BitVec 32) :
    (((hi.signExtend 64) <<< 32) + (lo.signExtend 64 &&& 0xFFFFFFFF)).toNat =
      hi.toNat * 4294967296 + lo.toNat := by
  have hhi : (hi.signExtend 64).toNat % 4294967296 = hi.toNat := toNat_signExtend_mod (by decide) hi
  have hlo : (lo.signExtend 64 &&& 0xFFFFFFFF).toNat = lo.toNat := by
    rw [toNat_mask]
    exact toNat_signExtend_mod (by decide) lo
  have hlt := lo.isLt
  rw [toNat_halves _ _ (by omega), hhi, hlo]

/-- What `writeLong` writes. -/
def longBytes (val : Long) : List UInt8 := [56, 48, 40, 32, 24, 16, 8, 0].map fun k => byte (val >>> k)

theorem store_append (post : List UInt8) : ∀ (vs : List Long) (pre mid : List UInt8), mid.length = vs.length →
    store vs (pre ++ (mid ++ post)) pre.length = some (pre ++ (vs.map byte ++ post)) := by
  intro vs
  induction vs with
  | nil =>
    intro pre mid hmid
    rw [List.eq_nil_of_length_eq_zero hmid]
    rfl
  | cons v vs ih =>
    intro pre mid hmid
    obtain ⟨b, mid, rfl⟩ := List.exists_cons_of_length_eq_add_one hmid
    have hlt : pre.length < (pre ++ (b :: mid ++ post)).length := by simp
    have hset : (pre ++ (b :: mid ++ post)).set pre.length (byte v) = pre ++ [byte v] ++ (mid ++ post) := by
      simp
    have hstep := ih (pre ++ [byte v]) mid (Nat.succ.inj hmid)
    rw [List.length_append, List.length_singleton] at hstep
    rw [store, if_pos hlt, hset, hstep, List.append_assoc]
    rfl

theorem writeLong_eq (val : Long) {buf : List UInt8} {off : ℕ} (h : off + 8 ≤ buf.length) :
    writeLong val buf off = some (buf.take off ++ (longBytes val ++ buf.drop (off + 8))) := by
  have hsplit : buf = buf.take off ++ ((buf.drop off).take 8 ++ buf.drop (off + 8)) := by
    rw [← List.drop_drop, List.take_append_drop, List.take_append_drop]
  have hoff : (buf.take off).length = off := List.length_take_of_le (by omega)
  have hmid : ((buf.drop off).take 8).length = 8 := List.length_take_of_le (by rw [List.length_drop]; omega)
  have hstore := store_append (buf.drop (off + 8))
    [val >>> 56, val >>> 48, val >>> 40, val >>> 32, val >>> 24, val >>> 16, val >>> 8, val >>> 0]
    (buf.take off) _ hmid
  rw [← hsplit, hoff] at hstore
  exact hstore

theorem readInt_append (pre post : List UInt8) (b₀ b₁ b₂ b₃ : UInt8) :
    readInt (pre ++ b₀ :: b₁ :: b₂ :: b₃ :: post) pre.length = some ((int b₀ b₁ b₂ b₃).signExtend 64) := by
  simp [readInt]

/-- The `int` of four bytes of a number. -/
def word (val : Long) (k : ℕ) : BitVec 32 :=
  int (byte (val >>> (k + 24))) (byte (val >>> (k + 16))) (byte (val >>> (k + 8))) (byte (val >>> k))

theorem toNat_word (val : Long) (k : ℕ) : (word val k).toNat = val.toNat / 2 ^ k % 4294967296 := by
  rw [word, toNat_int, toNat_byte, toNat_byte, toNat_byte, toNat_byte, Nat.pow_add, Nat.pow_add, Nat.pow_add,
    ← Nat.div_div_eq_div_mul, ← Nat.div_div_eq_div_mul, ← Nat.div_div_eq_div_mul]
  omega

theorem readLong_append (pre post : List UInt8) (val : Long) :
    readLong (pre ++ (longBytes val ++ post)) pre.length = some val := by
  have hhi : readInt (pre ++ (longBytes val ++ post)) pre.length = some ((word val 32).signExtend 64) :=
    readInt_append pre _ _ _ _ _
  have hlo : readInt (pre ++ (longBytes val ++ post)) (pre.length + 4) = some ((word val 0).signExtend 64) := by
    have hread := readInt_append (pre ++ (longBytes val).take 4) post (byte (val >>> 24)) (byte (val >>> 16))
      (byte (val >>> 8)) (byte (val >>> 0))
    rw [List.length_append, List.append_assoc] at hread
    exact hread
  have hval := val.isLt
  rw [readLong, hhi, hlo]
  refine congrArg some (BitVec.eq_of_toNat_eq ?_)
  rw [toNat_signExtend_halves, toNat_word, toNat_word]
  omega

/-- **Written and read back**: `writeLong` changes eight bytes, and `readLong` returns the number. -/
theorem readLong_writeLong (val : Long) {buf : List UInt8} {off : ℕ} (h : off + 8 ≤ buf.length) :
    ∃ buf', writeLong val buf off = some buf' ∧ readLong buf' off = some val ∧ buf'.length = buf.length ∧
      buf'.take off = buf.take off ∧ buf'.drop (off + 8) = buf.drop (off + 8) := by
  have hoff : (buf.take off).length = off := List.length_take_of_le (by omega)
  have hread := readLong_append (buf.take off) (buf.drop (off + 8)) val
  rw [hoff] at hread
  refine ⟨_, writeLong_eq val h, hread, ?_, List.take_left' hoff, ?_⟩
  · rw [List.length_append, hoff, List.length_append, List.length_drop]
    have hlen : (longBytes val).length = 8 := rfl
    omega
  · rw [← List.append_assoc]
    refine List.drop_left' ?_
    rw [List.length_append, hoff]
    rfl

theorem exists_readInt {buf : List UInt8} {i : ℕ} (h : i + 4 ≤ buf.length) : ∃ v, readInt buf i = some v := by
  have hget : ∀ k < 4, ∃ b, buf[i + k]? = some b := fun k hk => ⟨_, List.getElem?_eq_getElem (by omega)⟩
  obtain ⟨b₀, h₀⟩ := hget 0 (by decide)
  obtain ⟨b₁, h₁⟩ := hget 1 (by decide)
  obtain ⟨b₂, h₂⟩ := hget 2 (by decide)
  obtain ⟨b₃, h₃⟩ := hget 3 (by decide)
  rw [Nat.add_zero] at h₀
  refine ⟨(int b₀ b₁ b₂ b₃).signExtend 64, ?_⟩
  rw [readInt, h₀, h₁, h₂, h₃]
  rfl

theorem exists_readLong {buf : List UInt8} {off : ℕ} (h : off + 8 ≤ buf.length) :
    ∃ v, readLong buf off = some v := by
  obtain ⟨hi, hhi⟩ := exists_readInt (show off + 4 ≤ buf.length by omega)
  obtain ⟨lo, hlo⟩ := exists_readInt (show off + 4 + 4 ≤ buf.length by omega)
  rw [readLong, hhi, hlo]
  exact ⟨_, rfl⟩

/-! ### On the wire -/

/-- **NTP times on the wire**, for any epoch: a time that is written and read back is the same, a `long` is
read as it was written and nothing else in the array changes, and later times are written as larger ones. -/
theorem ntpTime_wire (epoch : Long) :
    (∀ ms : Long, 0 ≤ ms.toInt → ms.toInt < 1000 * 2 ^ 32 →
      ∀ (buf : List UInt8) (off : ℕ), off + 8 ≤ buf.length →
        ∃ buf', writeLong (toNTPTime epoch ms) buf off = some buf' ∧
          (readLong buf' off).map (fromNTPTime epoch) = some ms) ∧
    (∀ (val : Long) (buf : List UInt8) (off : ℕ), off + 8 ≤ buf.length →
      ∃ buf', writeLong val buf off = some buf' ∧ readLong buf' off = some val ∧ buf'.length = buf.length ∧
        buf'.take off = buf.take off ∧ buf'.drop (off + 8) = buf.drop (off + 8)) ∧
    ∀ ms ms' : Long, InRange epoch ms → InRange epoch ms' → ms.toInt < ms'.toInt →
      (toNTPTime epoch ms).toInt < (toNTPTime epoch ms').toInt := by
  refine ⟨fun ms h hlt buf off hoff => ?_, fun val buf off hoff => readLong_writeLong val hoff,
    fun ms ms' h h' hlt => toNTPTime_lt h h' hlt⟩
  obtain ⟨buf', hwrite, hread, -⟩ := readLong_writeLong (toNTPTime epoch ms) hoff
  refine ⟨buf', hwrite, ?_⟩
  rw [hread, Option.map_some, fromNTPTime_toNTPTime epoch h hlt]

/-- The last millisecond of a day at an epoch before it, in a timing packet, and the one after it. -/
theorem ntpTime_wire_day :
    (∃ buf', writeLong (toNTPTime (-5) 86399999) (List.replicate 32 0) 24 = some buf' ∧
      (readLong buf' 24).map (fromNTPTime (-5)) = some 86399999) ∧
    (∃ buf', writeLong (-1) (List.replicate 32 0) 24 = some buf' ∧ readLong buf' 24 = some (-1) ∧
      buf'.length = (List.replicate 32 (0 : UInt8)).length ∧
      buf'.take 24 = (List.replicate 32 0).take 24 ∧ buf'.drop 32 = (List.replicate 32 0).drop 32) ∧
    (toNTPTime (-5) 86399999).toInt < (toNTPTime (-5) 86400000).toInt :=
  ⟨(ntpTime_wire (-5)).1 86399999 (by decide) (by decide) (List.replicate 32 0) 24 (by decide),
    (ntpTime_wire (-5)).2.1 (-1) (List.replicate 32 0) 24 (by decide),
    (ntpTime_wire (-5)).2.2 86399999 86400000 ⟨by decide, by decide⟩ ⟨by decide, by decide⟩ (by decide)⟩

end Waveplay.Airtunes.NtpTime
