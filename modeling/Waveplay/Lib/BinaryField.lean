import Mathlib.Dynamics.PeriodicPts.Defs
import Mathlib.Tactic.Common

/-! # Polynomials over two elements, modulo one of them

A bit vector of width `w` is a polynomial of degree below `w` over the field with two elements, and
sums are exclusive ors. `xtime r` multiplies by the variable modulo `x ^ w + r`, and `mul r` multiplies.

* `mul_comm`, `mul_assoc`, `mul_xor`, `one_mul`: a commutative ring;
* `mul_iterate`: the powers of an element are the iterates of its multiplication, so that products can
  be read off a table of logarithms (`mul_exp`);
* `inverse_eq`: inverses are unique. -/

namespace Waveplay.Lib.BinaryField

variable {w : ℕ} (r : BitVec w)

/-- Multiplication by the variable. -/
def xtime (a : BitVec w) : BitVec w := (a <<< 1) ^^^ if a.msb then r else 0

/-- The sum of the multiples of `a` by the first `k` bits of `b`. -/
def mulLow (a b : BitVec w) : ℕ → BitVec w
  | 0 => 0
  | k + 1 => mulLow a b k ^^^ if b.getLsbD k then (xtime r)^[k] a else 0

/-- Multiplication. -/
def mul (a b : BitVec w) : BitVec w := mulLow r a b w

/-! ### Linear maps -/

/-- `F` respects sums and multiplication by the variable. -/
structure Linear (F : BitVec w → BitVec w) : Prop where
  xor : ∀ a b, F (a ^^^ b) = F a ^^^ F b
  xtime : ∀ a, F (xtime r a) = xtime r (F a)

theorem xor_xor_xor_comm (a b c d : BitVec w) : a ^^^ b ^^^ (c ^^^ d) = a ^^^ c ^^^ (b ^^^ d) := by
  ac_rfl

theorem xtime_xor (a b : BitVec w) : xtime r (a ^^^ b) = xtime r a ^^^ xtime r b := by
  have hshift : (a ^^^ b) <<< 1 = (a <<< 1) ^^^ (b <<< 1) := BitVec.shiftLeft_xor_distrib a b 1
  unfold xtime
  rw [hshift, xor_xor_xor_comm, BitVec.msb_xor]
  congr 1
  cases a.msb <;> cases b.msb <;> simp

variable {r}

theorem Linear.map_zero {F : BitVec w → BitVec w} (h : Linear r F) : F 0 = 0 := by
  simpa using h.xor 0 0

theorem Linear.iterate {F : BitVec w → BitVec w} (h : Linear r F) (k : ℕ) (a : BitVec w) :
    F ((BinaryField.xtime r)^[k] a) = (BinaryField.xtime r)^[k] (F a) :=
  (Function.Semiconj.iterate_right (show Function.Semiconj F _ _ from h.xtime) k) a

theorem Linear.mulLow {F : BitVec w → BitVec w} (h : Linear r F) (a b : BitVec w) (k : ℕ) :
    F (mulLow r a b k) = BinaryField.mulLow r (F a) b k := by
  induction k with
  | zero => exact h.map_zero
  | succ k ih =>
    simp only [BinaryField.mulLow, h.xor, ih]
    split
    · rw [h.iterate]
    · rw [h.map_zero]

theorem linear_xtime : Linear r (xtime r) := ⟨xtime_xor r, fun _ => rfl⟩

theorem linear_iterate (k : ℕ) : Linear r (xtime r)^[k] := by
  refine ⟨fun a b => ?_, fun a => ?_⟩
  · induction k generalizing a b with
    | zero => rfl
    | succ k ih => simp only [Function.iterate_succ, Function.comp_apply, xtime_xor, ih]
  · rw [← Function.iterate_succ_apply, Function.iterate_succ_apply']

theorem linear_mul (b : BitVec w) : Linear r (mul r · b) := by
  refine ⟨fun a a' => ?_, fun a => (linear_xtime.mulLow a b w).symm⟩
  have h : ∀ k, mulLow r (a ^^^ a') b k = mulLow r a b k ^^^ mulLow r a' b k := by
    intro k
    induction k with
    | zero => simp [mulLow]
    | succ k ih =>
      simp only [mulLow, ih, (linear_iterate k).xor]
      split
      · exact (xor_xor_xor_comm _ _ _ _).symm
      · simp
  exact h w

/-! ### The ring -/

theorem iterate_xtime_one {k : ℕ} (h : k < w) : (xtime r)^[k] 1 = BitVec.twoPow w k := by
  induction k with
  | zero => simp [BitVec.twoPow]
  | succ k ih =>
    have hmsb : (BitVec.twoPow w k).msb = false := by
      rw [BitVec.msb_twoPow]
      simp only [Bool.and_eq_false_imp, decide_eq_true_eq, decide_eq_false_iff_not]
      omega
    rw [Function.iterate_succ_apply', ih (by omega), xtime, hmsb]
    simp [BitVec.twoPow, BitVec.shiftLeft_add]

theorem getLsbD_ite_twoPow (c : Bool) {k : ℕ} (hk : k < w) (j : ℕ) :
    (if c then BitVec.twoPow w k else 0).getLsbD j = (decide (j = k) && c) := by
  cases c
  · simp
  · simp only [if_true, BitVec.getLsbD_twoPow, hk, decide_true, Bool.true_and, Bool.and_true,
      eq_comm (a := k)]

theorem getLsbD_mulLow_one (b : BitVec w) {k : ℕ} (hk : k ≤ w) (j : ℕ) :
    (mulLow r 1 b k).getLsbD j = (decide (j < k) && b.getLsbD j) := by
  induction k with
  | zero => simp [mulLow]
  | succ k ih =>
    rw [mulLow, BitVec.getLsbD_xor, ih (by omega), iterate_xtime_one (by omega),
      getLsbD_ite_twoPow _ (by omega)]
    by_cases h : j = k
    · subst h
      simp
    · have hlt : j < k + 1 ↔ j < k := by omega
      simp [h, hlt]

theorem one_mul (b : BitVec w) : mul r 1 b = b := by
  refine BitVec.eq_of_getLsbD_eq fun i hi => ?_
  rw [mul, getLsbD_mulLow_one b (le_refl w)]
  simp [hi]

/-- **A linear map multiplies** by its value at one. -/
theorem Linear.eq_mul {F : BitVec w → BitVec w} (h : Linear r F) (a : BitVec w) : F a = mul r (F 1) a := by
  conv_lhs => rw [← one_mul (r := r) a]
  exact h.mulLow 1 a w

theorem mul_comm (a b : BitVec w) : mul r a b = mul r b a := by
  have h := (linear_mul (r := r) b).eq_mul a
  rwa [one_mul] at h

theorem xor_mul (a b c : BitVec w) : mul r (a ^^^ b) c = mul r a c ^^^ mul r b c := (linear_mul c).xor a b

theorem mul_xor (a b c : BitVec w) : mul r a (b ^^^ c) = mul r a b ^^^ mul r a c := by
  rw [mul_comm, xor_mul, mul_comm b, mul_comm c]

theorem xtime_mul (a b : BitVec w) : mul r (xtime r a) b = xtime r (mul r a b) := (linear_mul b).xtime a

theorem mul_assoc (a b c : BitVec w) : mul r (mul r a b) c = mul r a (mul r b c) := by
  have h : Linear r fun a => mul r (mul r a b) c :=
    ⟨fun a a' => by rw [xor_mul, xor_mul], fun a => by rw [xtime_mul, xtime_mul]⟩
  have heq := h.eq_mul a
  rwa [one_mul, mul_comm _ a] at heq

theorem zero_mul (a : BitVec w) : mul r 0 a = 0 := (linear_mul a).map_zero

theorem mul_zero (a : BitVec w) : mul r a 0 = 0 := by rw [mul_comm, zero_mul]

/-! ### Powers and logarithms -/

theorem mul_iterate (g a : BitVec w) (i : ℕ) : mul r ((mul r g)^[i] 1) a = (mul r g)^[i] a := by
  induction i with
  | zero => exact one_mul a
  | succ i ih => rw [Function.iterate_succ_apply', Function.iterate_succ_apply', mul_assoc, ih]

/-- **Products by logarithms**, if `g` has order `n`. -/
theorem mul_exp {g : BitVec w} {n : ℕ} (h : Function.IsPeriodicPt (mul r g) n 1) (i j : ℕ) :
    mul r ((mul r g)^[i] 1) ((mul r g)^[j] 1) = (mul r g)^[(i + j) % n] 1 := by
  rw [h.iterate_mod_apply, mul_iterate, Function.iterate_add_apply]

/-! ### Inverses -/

variable (r) in
open Classical in
/-- The multiplicative inverse, zero for what has none. -/
noncomputable def inverse (a : BitVec w) : BitVec w := if h : ∃ b, mul r a b = 1 then h.choose else 0

theorem inverse_eq {a b : BitVec w} (h : mul r a b = 1) : inverse r a = b := by
  have hex : ∃ b, mul r a b = 1 := ⟨b, h⟩
  have hc : mul r a hex.choose = 1 := hex.choose_spec
  rw [inverse, dif_pos hex]
  calc hex.choose = mul r (mul r a b) hex.choose := by rw [h, one_mul]
    _ = mul r b (mul r a hex.choose) := by rw [mul_comm a b, mul_assoc]
    _ = b := by rw [hc, mul_comm, one_mul]

theorem inverse_zero : inverse r 0 = 0 := by
  unfold inverse
  split
  · rename_i h
    obtain ⟨b, hb⟩ := h
    rw [zero_mul] at hb
    -- one is zero only if there are no bits
    have hall : ∀ c : BitVec w, c = 0 := fun c => by rw [← one_mul (r := r) c, ← hb, zero_mul]
    exact hall _
  · rfl

end Waveplay.Lib.BinaryField
