import Waveplay.Lib.BinaryField
import Waveplay.RaopPlay.Aes
import Mathlib.Data.Fintype.Card
import Mathlib.Data.Finset.Card
import Mathlib.NumberTheory.Divisors

/-! # The tables of `aes.c`

What the loops of `aes_gen_tables` leave in its tables, in terms of the field of 256 elements.

* `mul_eq`: `MUL` multiplies in the field;
* `fsb_eq`: `FSb` is the inverse in the field, then the affine map of the standard;
* `rsb_sbox`: `RSb` takes it back. -/

namespace Waveplay.RaopPlay.Aes

open Waveplay.Lib

/-- The polynomial of the field, without its leading term. -/
def poly : Byte := 0x1B

theorem xtime_eq (x : Byte) : xtime x = BinaryField.xtime poly x := by
  revert x
  decide +kernel

/-! ### Powers of three -/

/-- The powers of the generator. -/
def exp (i : ℕ) : Byte := (BinaryField.mul poly 3)^[i] 1

@[simp] theorem exp_zero : exp 0 = 1 := rfl

theorem exp_succ (i : ℕ) : exp (i + 1) = exp i ^^^ xtime (exp i) := by
  have h3 : (3 : Byte) = 1 ^^^ BinaryField.xtime poly 1 := by decide
  rw [exp, exp, Function.iterate_succ_apply', xtime_eq]
  generalize (BinaryField.mul poly 3)^[i] 1 = x
  rw [h3, BinaryField.xor_mul, BinaryField.xtime_mul, BinaryField.one_mul]

/-- `exp` by its recursion, to compute with. -/
def expRec : ℕ → Byte
  | 0 => 1
  | i + 1 => expRec i ^^^ xtime (expRec i)

theorem exp_eq_expRec (i : ℕ) : exp i = expRec i := by
  induction i with
  | zero => rfl
  | succ i ih => rw [exp_succ, ih, expRec]

theorem exp_period : Function.IsPeriodicPt (BinaryField.mul poly 3) 255 1 := by
  have h : exp 255 = 1 := by
    rw [exp_eq_expRec]
    decide +kernel
  exact h

/-- **Three generates the field**: a smaller period would divide one of 15, 51 and 85. -/
theorem minimalPeriod_eq : Function.minimalPeriod (BinaryField.mul poly 3) 1 = 255 := by
  have hne : exp 15 ≠ 1 ∧ exp 51 ≠ 1 ∧ exp 85 ≠ 1 := by
    simp only [exp_eq_expRec]
    decide +kernel
  have hdvd := exp_period.minimalPeriod_dvd
  have hper : ∀ n, Function.minimalPeriod (BinaryField.mul poly 3) 1 ∣ n → exp n = 1 := fun n hn =>
    (Function.isPeriodicPt_iff_minimalPeriod_dvd.mpr hn)
  have hdivisors : ∀ d ∈ Nat.divisors 255, ¬ d ∣ 15 → ¬ d ∣ 51 → ¬ d ∣ 85 → d = 255 := by decide +kernel
  exact hdivisors _ (Nat.mem_divisors.mpr ⟨hdvd, by decide⟩) (fun h => hne.1 (hper 15 h))
    (fun h => hne.2.1 (hper 51 h)) fun h => hne.2.2 (hper 85 h)

theorem exp_inj {i j : ℕ} (h : exp i = exp j) : i % 255 = j % 255 := by
  rw [exp, exp, ← exp_period.iterate_mod_apply i, ← exp_period.iterate_mod_apply j,
    Function.iterate_eq_iterate_iff_of_lt_minimalPeriod (by rw [minimalPeriod_eq]; omega)
      (by rw [minimalPeriod_eq]; omega)] at h
  exact h

theorem exp_mul_exp (i j : ℕ) : BinaryField.mul poly (exp i) (exp j) = exp ((i + j) % 255) :=
  BinaryField.mul_exp exp_period i j

theorem exp_mod (i : ℕ) : exp (i % 255) = exp i := exp_period.iterate_mod_apply i

theorem exp_mul_exp_sub {i : ℕ} (h : i ≤ 255) : BinaryField.mul poly (exp i) (exp (255 - i)) = 1 := by
  rw [exp_mul_exp, show (i + (255 - i)) % 255 = 0 by omega, exp_zero]

theorem exp_ne_zero (i : ℕ) : exp i ≠ 0 := by
  intro h
  have hone := exp_mul_exp_sub (i := i % 255) (by omega)
  rw [exp_mod, h, BinaryField.zero_mul] at hone
  exact absurd hone (by decide)

/-- Every other byte than zero is a power: there are as many powers as such bytes. -/
theorem exists_exp {x : Byte} (hx : x ≠ 0) : ∃ i, 1 ≤ i ∧ i ≤ 255 ∧ exp i = x := by
  let powers := (Finset.range 255).image fun i => (exp (i + 1)).toNat
  have hcard : powers.card = 255 := by
    rw [Finset.card_image_of_injOn, Finset.card_range]
    intro i hi j hj hij
    have hlt : i < 255 := Finset.mem_range.mp hi
    have hlt' : j < 255 := Finset.mem_range.mp hj
    have := exp_inj (BitVec.eq_of_toNat_eq hij)
    omega
  have hne : ∀ {y : Byte}, y ≠ 0 → y.toNat ∈ (Finset.range 256).erase 0 := fun {y} hy =>
    Finset.mem_erase.mpr ⟨fun h => hy (BitVec.eq_of_toNat_eq h), Finset.mem_range.mpr y.isLt⟩
  have hsub : powers ⊆ (Finset.range 256).erase 0 := by
    intro y hy
    obtain ⟨i, -, rfl⟩ := Finset.mem_image.mp hy
    exact hne (exp_ne_zero _)
  have heq : powers = (Finset.range 256).erase 0 := by
    refine Finset.eq_of_subset_of_card_le hsub ?_
    rw [Finset.card_erase_of_mem (by simp), Finset.card_range, hcard]
  have hmem : x.toNat ∈ powers := heq ▸ hne hx
  obtain ⟨i, hi, hix⟩ := Finset.mem_image.mp hmem
  exact ⟨i + 1, by omega, by have := Finset.mem_range.mp hi; omega, BitVec.eq_of_toNat_eq hix⟩

/-! ### Logarithms -/

theorem logsAfter_succ (n : ℕ) : logsAfter (n + 1) = (logsAfter n).step n := by
  rw [logsAfter, List.range_succ, List.foldl_append, logsAfter]
  rfl

/-- After `n` turns the tables have the first `n` powers; `log` has the last index of each of them. -/
structure Filled (t : Logs) (n : ℕ) : Prop where
  x : t.x = exp n
  pow : ∀ i < n, t.pow (.ofNat 8 i) = exp i
  log : ∀ i < n, 1 ≤ i → t.log (exp i) = .ofNat 8 i

theorem ofNat_inj {i j : ℕ} (hi : i < 256) (hj : j < 256) : BitVec.ofNat 8 i = BitVec.ofNat 8 j ↔ i = j := by
  refine ⟨fun h => ?_, fun h => h ▸ rfl⟩
  have := congrArg BitVec.toNat h
  simp only [BitVec.toNat_ofNat] at this
  omega

theorem Filled.step {t : Logs} {n : ℕ} (h : Filled t n) (hn : n < 256) : Filled (t.step n) (n + 1) where
  x := by rw [exp_succ, ← h.x, Logs.step]
  pow i hi := by
    rcases Nat.lt_succ_iff_lt_or_eq.mp hi with hlt | rfl
    · have hne : BitVec.ofNat 8 i ≠ BitVec.ofNat 8 n := fun he =>
        absurd ((ofNat_inj (by omega) hn).mp he) (by omega)
      exact (Function.update_of_ne hne _ _).trans (h.pow i hlt)
    · exact (Function.update_self _ _ _).trans h.x
  log i hi h1 := by
    rcases Nat.lt_succ_iff_lt_or_eq.mp hi with hlt | rfl
    · -- between one and 255 no power comes twice
      have hne : exp i ≠ t.x := fun he => by
        have := exp_inj (he.trans h.x)
        omega
      exact (Function.update_of_ne hne _ _).trans (h.log i hlt h1)
    · rw [← h.x]
      exact Function.update_self _ _ _

theorem filled_logsAfter {n : ℕ} (hn : n ≤ 256) : Filled (logsAfter n) n := by
  induction n with
  | zero => exact ⟨rfl, fun _ h => absurd h (by omega), fun _ h => absurd h (by omega)⟩
  | succ n ih =>
    rw [logsAfter_succ]
    exact (ih (by omega)).step (by omega)

theorem pow_ofNat {i : ℕ} (h : i < 256) : logs.pow (.ofNat 8 i) = exp i := (filled_logsAfter (le_refl _)).pow i h

theorem log_exp {i : ℕ} (h1 : 1 ≤ i) (h : i ≤ 255) : (logs.log (exp i)).toNat = i := by
  rw [logs, (filled_logsAfter (le_refl _)).log i (by omega) h1, BitVec.toNat_ofNat]
  omega

/-- **`MUL` multiplies in the field.** -/
theorem mul_eq (x y : Byte) : mul x y = BinaryField.mul poly x y := by
  rw [mul]
  split
  · rename_i h
    obtain ⟨i, hi, hi', rfl⟩ := exists_exp h.1
    obtain ⟨j, hj, hj', rfl⟩ := exists_exp h.2
    rw [log_exp hi hi', log_exp hj hj', pow_ofNat (by omega), exp_mul_exp]
  · rename_i h
    rcases not_and_or.mp h with h | h
    · rw [not_not.mp h, BinaryField.zero_mul]
    · rw [not_not.mp h, BinaryField.mul_zero]

/-! ### S-boxes -/

/-- The affine map of the standard: bit `i` is the sum of the bits `i`, `i + 4`, `i + 5`, `i + 6` and
`i + 7`, modulo eight, and of that of a constant. -/
def stdAffine (b : Byte) : Byte :=
  b ^^^ b.rotateRight 4 ^^^ b.rotateRight 5 ^^^ b.rotateRight 6 ^^^ b.rotateRight 7 ^^^ 0x63

/-- The S-box of the standard. -/
noncomputable def sbox (x : Byte) : Byte := stdAffine (BinaryField.inverse poly x)

theorem affine_eq (x : Byte) : affine x = stdAffine x := by
  revert x
  decide +kernel

/-- The affine map of the inverse S-box takes that of the S-box back. -/
theorem stdAffine_injective : Function.Injective stdAffine := by
  have h : Function.LeftInverse
      (fun b : Byte => b.rotateRight 2 ^^^ b.rotateRight 5 ^^^ b.rotateRight 7 ^^^ 0x05) stdAffine := by
    unfold Function.LeftInverse
    decide +kernel
  exact h.injective

theorem inverse_exp {i : ℕ} (h : i ≤ 255) : BinaryField.inverse poly (exp i) = exp (255 - i) :=
  BinaryField.inverse_eq (exp_mul_exp_sub h)

theorem inverse_inverse (x : Byte) : BinaryField.inverse poly (BinaryField.inverse poly x) = x := by
  by_cases hx : x = 0
  · rw [hx, BinaryField.inverse_zero, BinaryField.inverse_zero]
  · obtain ⟨i, -, hi, rfl⟩ := exists_exp hx
    rw [inverse_exp hi, inverse_exp (by omega), show 255 - (255 - i) = i by omega]

theorem sbox_injective : Function.Injective sbox :=
  stdAffine_injective.comp (Function.LeftInverse.injective inverse_inverse)

theorem sbox_surjective : Function.Surjective sbox := by
  have : Finite Byte := Finite.of_injective BitVec.toFin fun _ _ h => BitVec.eq_of_toFin_eq h
  exact Finite.injective_iff_surjective.mp sbox_injective

theorem sbox_zero : sbox 0 = 0x63 := by
  rw [sbox, BinaryField.inverse_zero]
  decide

theorem affine_pow_log {x : Byte} (hx : x ≠ 0) :
    affine (logs.pow (.ofNat 8 (255 - (logs.log x).toNat))) = sbox x := by
  obtain ⟨i, h1, hi, rfl⟩ := exists_exp hx
  rw [log_exp h1 hi, pow_ofNat (by omega), affine_eq, sbox, inverse_exp hi]

/-- The S-boxes at the bytes up to `n`. -/
structure Boxed (s : Boxes) (n : ℕ) : Prop where
  fsb : ∀ i ≤ n, s.fsb (.ofNat 8 i) = (sbox (.ofNat 8 i)).setWidth 32
  rsb : ∀ i ≤ n, s.rsb (sbox (.ofNat 8 i)) = .ofNat 32 i

theorem Boxed.step {s : Boxes} {n : ℕ} (h : Boxed s n) (hn : n < 255) : Boxed (s.step (n + 1)) (n + 1) := by
  have hnz : BitVec.ofNat 8 (n + 1) ≠ BitVec.ofNat 8 0 := fun he =>
    absurd ((ofNat_inj (by omega) (by omega)).mp he) (by omega)
  have hstep : s.step (n + 1) =
      { fsb := Function.update s.fsb (.ofNat 8 (n + 1)) ((sbox (.ofNat 8 (n + 1))).setWidth 32)
        rsb := Function.update s.rsb (sbox (.ofNat 8 (n + 1))) (.ofNat 32 (n + 1)) } := by
    simp only [Boxes.step, affine_pow_log hnz]
  have hne : ∀ i ≤ n, BitVec.ofNat 8 i ≠ BitVec.ofNat 8 (n + 1) := fun i hi he =>
    absurd ((ofNat_inj (by omega) (by omega)).mp he) (by omega)
  rw [hstep]
  constructor <;> intro i hi <;> rcases Nat.le_succ_iff.mp hi with hle | rfl
  · exact (Function.update_of_ne (hne i hle) _ _).trans (h.fsb i hle)
  · exact Function.update_self _ _ _
  · exact (Function.update_of_ne (sbox_injective.ne (hne i hle)) _ _).trans (h.rsb i hle)
  · exact Function.update_self _ _ _

theorem boxed_boxesAfter {n : ℕ} (hn : n ≤ 255) : Boxed (boxesAfter n) n := by
  induction n with
  | zero =>
    have h0 : ∀ i ≤ 0, BitVec.ofNat 8 i = 0 := fun i hi => by rw [Nat.le_zero.mp hi]; rfl
    constructor <;> intro i hi
    · rw [h0 i hi, sbox_zero]
      rfl
    · rw [h0 i hi, sbox_zero, Nat.le_zero.mp hi]
      rfl
  | succ n ih =>
    have hsucc : boxesAfter (n + 1) = (boxesAfter n).step (n + 1) := by
      rw [boxesAfter, List.range'_concat, List.foldl_append, boxesAfter, Nat.one_mul, Nat.add_comm 1 n]
      rfl
    rw [hsucc]
    exact (ih (by omega)).step (by omega)

/-- **`FSb` is the S-box of the standard.** -/
theorem fsb_eq (x : Byte) : fsb x = (sbox x).setWidth 32 := by
  have h := (boxed_boxesAfter (le_refl 255)).fsb x.toNat (by have := x.isLt; omega)
  rwa [BitVec.ofNat_toNat, BitVec.setWidth_eq] at h

/-- **`RSb` takes the S-box back.** -/
theorem rsb_sbox (x : Byte) : rsb (sbox x) = x.setWidth 32 := by
  have h := (boxed_boxesAfter (le_refl 255)).rsb x.toNat (by have := x.isLt; omega)
  rwa [BitVec.ofNat_toNat, BitVec.setWidth_eq, BitVec.ofNat_toNat] at h

end Waveplay.RaopPlay.Aes
