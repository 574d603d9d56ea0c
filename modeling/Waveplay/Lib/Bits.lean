import Mathlib.Data.List.Basic
import Mathlib.Data.Nat.Bitwise
import Mathlib.Tactic.Linarith
import Mathlib.Tactic.Positivity
import Mathlib.Tactic.Ring

/-! # Bit strings, the most significant bit first

`toBits w v` is the `w`-bit field of the number `v`, `ofBits` the number a bit string denotes, and
`bitsOf` the bit string of a list of bytes. `byteOf cur` is the byte that starts with the bits `cur`
(at most eight) and is zero after them: a byte being filled from its most significant end. `readBits`
takes a field off a bit string. -/

namespace Waveplay.Lib.Bits

/-- The `w` low bits of `v`. -/
def toBits : ℕ → ℕ → List Bool
  | 0, _ => []
  | w + 1, v => v.testBit w :: toBits w v

/-- The number a bit string denotes. -/
def ofBits (bs : List Bool) : ℕ := bs.foldl (fun n b => 2 * n + b.toNat) 0

/-- The bits of a byte. -/
def byteBits (b : UInt8) : List Bool := toBits 8 b.toNat

/-- The bits of a list of bytes. -/
def bitsOf (l : List UInt8) : List Bool := l.flatMap byteBits

/-- The byte that starts with `cur` and goes on with zeros. -/
def byteOf (cur : List Bool) : UInt8 := UInt8.ofNat (ofBits cur * 2 ^ (8 - cur.length))

/-- Take a field of `w` bits off a bit string. -/
def readBits (w : ℕ) (bs : List Bool) : Option (ℕ × List Bool) :=
  if w ≤ bs.length then some (ofBits (bs.take w), bs.drop w) else none

/-! ### Fields -/

theorem mask_shiftRight (n k w : ℕ) : (n &&& (2 ^ w - 1) <<< k) >>> k = n / 2 ^ k % 2 ^ w := by
  rw [Nat.shiftRight_and_distrib, Nat.shiftLeft_shiftRight, Nat.and_two_pow_sub_one_eq_mod,
    Nat.shiftRight_eq_div_pow]

@[simp] theorem length_toBits : ∀ w v : ℕ, (toBits w v).length = w
  | 0, _ => rfl
  | w + 1, v => by simp [toBits, length_toBits w v]

theorem foldl_ofBits : ∀ (bs : List Bool) (n : ℕ),
    bs.foldl (fun n b => 2 * n + b.toNat) n = n * 2 ^ bs.length + ofBits bs
  | [], n => by simp [ofBits]
  | b :: bs, n => by
    have h0 : ofBits (b :: bs) = b.toNat * 2 ^ bs.length + ofBits bs := by
      rw [ofBits, List.foldl_cons, foldl_ofBits bs, Nat.mul_zero, Nat.zero_add]
    rw [List.foldl_cons, foldl_ofBits bs, h0, List.length_cons, pow_succ]
    ring

theorem ofBits_append (a b : List Bool) : ofBits (a ++ b) = ofBits a * 2 ^ b.length + ofBits b := by
  rw [ofBits, List.foldl_append, foldl_ofBits b]; rfl

theorem ofBits_cons (b : Bool) (bs : List Bool) :
    ofBits (b :: bs) = b.toNat * 2 ^ bs.length + ofBits bs := by
  rw [← List.singleton_append, ofBits_append]
  simp [ofBits]

theorem ofBits_lt : ∀ bs : List Bool, ofBits bs < 2 ^ bs.length
  | [] => by simp [ofBits]
  | b :: bs => by
    have ih := ofBits_lt bs
    have hb : b.toNat ≤ 1 := by cases b <;> simp
    rw [ofBits_cons, List.length_cons, pow_succ]
    nlinarith

theorem ofBits_toBits : ∀ w v : ℕ, ofBits (toBits w v) = v % 2 ^ w
  | 0, v => by simp [toBits, ofBits, Nat.mod_one]
  | w + 1, v => by
    rw [toBits, ofBits_cons, ofBits_toBits w v, length_toBits, Nat.mod_pow_succ, Nat.toNat_testBit]
    ring

theorem toBits_add : ∀ m n v : ℕ, toBits (m + n) v = toBits m (v / 2 ^ n) ++ toBits n v
  | 0, n, v => by simp [toBits]
  | m + 1, n, v => by
    rw [show m + 1 + n = (m + n) + 1 by ring, toBits, toBits, toBits_add m n v, List.cons_append,
      Nat.testBit_div_two_pow]

theorem toBits_zero : ∀ w : ℕ, toBits w 0 = List.replicate w false
  | 0 => rfl
  | w + 1 => by rw [toBits, toBits_zero w, Nat.zero_testBit]; rfl

theorem ofBits_inj : ∀ {a b : List Bool}, a.length = b.length → ofBits a = ofBits b → a = b
  | [], [], _, _ => rfl
  | x :: a, y :: b, hl, h => by
    have hl' : a.length = b.length := by simpa using hl
    rw [ofBits_cons, ofBits_cons, ← hl'] at h
    have ha := ofBits_lt a
    have hb := ofBits_lt b
    rw [← hl'] at hb
    have hxy : x = y := by cases x <;> cases y <;> simp at h ⊢ <;> omega
    subst hxy
    rw [ofBits_inj hl' (by omega)]

theorem toBits_mod (w v : ℕ) : toBits w (v % 2 ^ w) = toBits w v := by
  refine ofBits_inj (by simp) ?_
  rw [ofBits_toBits, ofBits_toBits, Nat.mod_mod]

/-! ### Bytes -/

@[simp] theorem length_byteBits (b : UInt8) : (byteBits b).length = 8 := length_toBits 8 _

@[simp] theorem bitsOf_nil : bitsOf [] = [] := rfl

@[simp] theorem bitsOf_cons (b : UInt8) (l : List UInt8) : bitsOf (b :: l) = byteBits b ++ bitsOf l :=
  rfl

@[simp] theorem bitsOf_append (l l' : List UInt8) : bitsOf (l ++ l') = bitsOf l ++ bitsOf l' := by
  simp [bitsOf]

@[simp] theorem length_bitsOf (l : List UInt8) : (bitsOf l).length = 8 * l.length := by
  induction l with
  | nil => rfl
  | cons b l ih => rw [bitsOf_cons, List.length_append, ih, length_byteBits, List.length_cons]; ring

theorem toBits_ofNat (n : ℕ) : toBits 8 (UInt8.ofNat n).toNat = toBits 8 n := by
  rw [UInt8.toNat_ofNat', toBits_mod]

theorem byteOf_lt {cur : List Bool} (h : cur.length ≤ 8) : ofBits cur * 2 ^ (8 - cur.length) < 256 := by
  have hlt := ofBits_lt cur
  calc ofBits cur * 2 ^ (8 - cur.length) < 2 ^ cur.length * 2 ^ (8 - cur.length) :=
        Nat.mul_lt_mul_of_pos_right hlt (by positivity)
    _ = 2 ^ 8 := by rw [← pow_add, show cur.length + (8 - cur.length) = 8 by omega]

theorem toNat_byteOf {cur : List Bool} (h : cur.length ≤ 8) :
    (byteOf cur).toNat = ofBits cur * 2 ^ (8 - cur.length) := by
  rw [byteOf, UInt8.toNat_ofNat', Nat.mod_eq_of_lt (byteOf_lt h)]

/-- The bits of a byte being filled: those written, then zeros. -/
theorem byteBits_byteOf {cur : List Bool} (h : cur.length ≤ 8) :
    byteBits (byteOf cur) = cur ++ List.replicate (8 - cur.length) false := by
  refine ofBits_inj (by simp; omega) ?_
  rw [byteBits, ofBits_toBits, toNat_byteOf h, Nat.mod_eq_of_lt (by exact byteOf_lt h), ofBits_append,
    ← toBits_zero, ofBits_toBits, length_toBits, Nat.zero_mod, Nat.add_zero]

/-- Filling up a byte: the bits of `b` under the `cur` already there. -/
theorem byteOf_append (cur b : List Bool) (h : cur.length + b.length ≤ 8) :
    byteOf cur ||| UInt8.ofNat (ofBits b * 2 ^ (8 - (cur.length + b.length))) = byteOf (cur ++ b) := by
  have hb : ofBits b * 2 ^ (8 - (cur.length + b.length)) < 2 ^ (8 - cur.length) := by
    calc ofBits b * 2 ^ (8 - (cur.length + b.length))
        < 2 ^ b.length * 2 ^ (8 - (cur.length + b.length)) :=
          Nat.mul_lt_mul_of_pos_right (ofBits_lt b) (by positivity)
      _ = 2 ^ (8 - cur.length) := by
          rw [← pow_add, show b.length + (8 - (cur.length + b.length)) = 8 - cur.length by omega]
  have hb8 : ofBits b * 2 ^ (8 - (cur.length + b.length)) < 256 :=
    lt_of_lt_of_le hb (Nat.pow_le_pow_right (n := 2) (by norm_num) (show 8 - cur.length ≤ 8 by omega))
  apply UInt8.toNat_inj.mp
  rw [UInt8.toNat_or, toNat_byteOf (by omega), UInt8.toNat_ofNat', Nat.mod_eq_of_lt hb8,
    toNat_byteOf (by rw [List.length_append]; omega), Nat.mul_comm (ofBits cur),
    ← Nat.two_pow_add_eq_or_of_lt hb, ofBits_append, List.length_append, Nat.add_mul]
  congr 1
  rw [Nat.mul_assoc, ← pow_add, Nat.mul_comm,
    show b.length + (8 - (cur.length + b.length)) = 8 - cur.length by omega]

/-! ### Reading -/

theorem readBits_append {w : ℕ} {bs : List Bool} (h : bs.length = w) (rest : List Bool) :
    readBits w (bs ++ rest) = some (ofBits bs, rest) := by
  subst h
  simp [readBits]

theorem readBits_toBits (w v : ℕ) (rest : List Bool) :
    readBits w (toBits w v ++ rest) = some (v % 2 ^ w, rest) := by
  rw [readBits_append (length_toBits w v), ofBits_toBits]

end Waveplay.Lib.Bits
