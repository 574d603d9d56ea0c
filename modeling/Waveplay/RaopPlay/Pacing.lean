import Waveplay.Lib.Runs
import Waveplay.RaopPlay.RaopClient

/-! # The pacing counter

`raopcl_count_samples` adds the bytes of a block to `totalcount`, and once there are `512 * 4096` takes off
the frames of a twenty-fifth of a second, which are `1764`. A block of more than `1764` bytes adds more than
is ever taken off, so that the counter grows by every such block, until it overflows.

* `fits_of_paced`: if no larger block comes at the threshold, the counter stays below the threshold.
* `constant_fits_iff`: blocks of one size never overflow the counter exactly if they have `1764` bytes at
  most. -/

namespace Waveplay.RaopPlay.Pacing

open Waveplay.Lib.Runs Waveplay.RaopPlay.AudioStream Waveplay.RaopPlay.RaopClient

/-- A call of `raopcl_count_samples`. -/
def countStep (st : Statics) (count : ℕ) : Option Statics := some (st.countSamples count)

/-- The threshold, and what is taken off above it. -/
def threshold : ℤ := (BUFFER * MAX_SAMPLES_IN_CHUNK : ℕ)

def takenOff : ℤ := (DEFAULT_SAMPLE_RATE / 25 : ℕ)

theorem threshold_eq : threshold = 2097152 := rfl

theorem takenOff_eq : takenOff = 1764 := rfl

/-- The largest `int`. -/
def INT_MAX : ℤ := 2 ^ 31 - 1

/-- The counter does not overflow in the call, neither before the subtraction nor after it. -/
def Fits (st : Statics) (count : ℕ) : Prop :=
  st.totalcount + count ≤ INT_MAX ∧ (st.countSamples count).totalcount ≤ INT_MAX

/-- The condition on a call: a block of more than `1764` bytes comes below the threshold. -/
def Paced (st : Statics) (count : ℕ) : Prop :=
  (count : ℤ) ≤ takenOff ∨ st.totalcount + count < threshold

theorem totalcount_countSamples (st : Statics) (count : ℕ) : (st.countSamples count).totalcount =
    if threshold ≤ st.totalcount + count then st.totalcount + count - takenOff
    else st.totalcount + count := rfl

/-! ### Below the threshold -/

/-- The counter is below the threshold. -/
def Below (st : Statics) : Prop := st.totalcount < threshold

/-- **One call** that meets the condition. -/
theorem below_countSamples {st : Statics} {count : ℕ} (hst : Below st) (hcount : Paced st count) :
    Below (st.countSamples count) ∧ st.totalcount + count < threshold + takenOff := by
  unfold Below at *
  unfold Paced at hcount
  rw [totalcount_countSamples]
  rw [threshold_eq, takenOff_eq] at *
  split_ifs <;> omega

/-- The counter does not overflow in the call, and stays below a constant. -/
def Bounded (st : Statics) (count : ℕ) : Prop :=
  Fits st count ∧ st.totalcount + count < threshold + takenOff

theorem allSteps_bounded {st : Statics} (hst : Below st) {counts : List ℕ}
    (hcounts : AllSteps countStep Paced st counts) : AllSteps countStep Bounded st counts := by
  refine AllSteps.of_inv (fun s c s' hs hc h => ?_) (fun s c hs hc => ?_) hst hcounts
  · obtain rfl := Option.some.inj h
    exact (below_countSamples hs hc).1
  · obtain ⟨hafter, hbefore⟩ := below_countSamples hs hc
    refine ⟨⟨?_, ?_⟩, hbefore⟩
    · rw [threshold_eq, takenOff_eq] at hbefore
      unfold INT_MAX
      omega
    · unfold Below at hafter
      rw [threshold_eq] at hafter
      unfold INT_MAX
      omega

theorem below_zero {st : Statics} (hst : st.totalcount = 0) : Below st := by
  rw [Below, hst, threshold_eq]
  omega

/-- **The counter does not overflow**, and stays below a constant, in every sequence of calls that meet
the condition. -/
theorem fits_of_paced {st : Statics} (hst : st.totalcount = 0) {counts : List ℕ}
    (hcounts : AllSteps countStep Paced st counts) : AllSteps countStep Bounded st counts :=
  allSteps_bounded (below_zero hst) hcounts

theorem fits_small_blocks : AllSteps countStep Bounded {} [135, 16387, 1764] := by
  refine fits_of_paced rfl ?_
  refine allSteps_cons (.inl (by decide)) rfl (allSteps_cons (.inr (by decide)) rfl ?_)
  exact allSteps_cons (.inl (by decide)) rfl trivial

/-! ### Blocks of one size -/

theorem constant_grows {count : ℕ} : ∀ {n : ℕ} {st : Statics}, 0 < n →
    AllSteps countStep Fits st (List.replicate n count) → st.totalcount + n * (count - takenOff) ≤ INT_MAX
  | 1, st, _, h => by
    have hafter := h.1.2
    rw [totalcount_countSamples] at hafter
    rw [takenOff_eq] at *
    split_ifs at hafter <;> push_cast <;> omega
  | n + 2, st, _, h => by
    have hrest := constant_grows (n := n + 1) (Nat.succ_pos n) (h.2 _ rfl)
    have hstep : st.totalcount + (count - takenOff) ≤ (st.countSamples count).totalcount := by
      rw [totalcount_countSamples, takenOff_eq]
      split_ifs <;> omega
    have hsum : ((n + 2 : ℕ) : ℤ) * (count - takenOff) =
        (count - takenOff) + ((n + 1 : ℕ) : ℤ) * (count - takenOff) := by
      push_cast
      ring
    rw [hsum]
    omega

/-- Blocks of the largest size that the player makes: three bytes of header and `4096` frames of four. -/
theorem not_fits_largest : ¬ AllSteps countStep Fits {} (List.replicate 146858 16387) := by
  intro h
  have hgrows := constant_grows (by decide) h
  rw [takenOff_eq, INT_MAX] at hgrows
  norm_num at hgrows

/-- **Blocks of one size** overflow the counter if they have more than `1764` bytes, and otherwise never. -/
theorem constant_fits_iff {count : ℕ} :
    (∀ n, AllSteps countStep Fits {} (List.replicate n count)) ↔ count ≤ takenOff := by
  constructor
  · intro hall
    by_contra hlarge
    have hgrows := constant_grows (n := 2 ^ 31) (by decide) (hall (2 ^ 31))
    have hle : ((2 ^ 31 : ℕ) : ℤ) * 1 ≤ ((2 ^ 31 : ℕ) : ℤ) * (count - takenOff) :=
      Int.mul_le_mul_of_nonneg_left (by omega) (by decide)
    unfold INT_MAX at hgrows
    push_cast at hgrows hle
    omega
  · intro hsmall n
    have hpaced : AllSteps countStep Paced {} (List.replicate n count) := by
      generalize ({} : Statics) = st
      induction n generalizing st with
      | zero => trivial
      | succ n ih => exact ⟨.inl hsmall, fun s' _ => ih s'⟩
    exact AllSteps.of_inv (I := fun _ => True) (fun _ _ _ _ _ _ => trivial) (fun _ _ _ h => h.1) trivial
      (allSteps_bounded (below_zero rfl) hpaced)

end Waveplay.RaopPlay.Pacing
