import Mathlib.Data.List.Basic
import Mathlib.Tactic.Common

/-! # Writing into the middle of an array

`overwrite dest pos l` puts `l` into `dest` from position `pos` on, and fails if there is no room for it.
An array that is padded behind a prefix is padded behind a longer one after a write that does not touch the
prefix (`overwrite_padded`). -/

namespace Waveplay.Lib.Overwrite

variable {α : Type*}

/-- The array with `l` at the positions from `pos` on. -/
def overwrite (dest : List α) (pos : ℕ) (l : List α) : Option (List α) :=
  if pos + l.length ≤ dest.length then some (dest.take pos ++ l ++ dest.drop (pos + l.length)) else none

theorem overwrite_eq_none {dest l : List α} {pos : ℕ} (h : dest.length < pos + l.length) :
    overwrite dest pos l = none :=
  if_neg (by omega)

theorem length_overwrite {dest out l : List α} {pos : ℕ} (h : overwrite dest pos l = some out) :
    out.length = dest.length := by
  rw [overwrite] at h
  split_ifs at h with hroom
  obtain rfl := Option.some.inj h
  simp only [List.length_append, List.length_take, List.length_drop]
  omega

/-- With room, the array keeps its length and what is before the position. -/
theorem overwrite_eq_some {dest l : List α} {pos : ℕ} (h : pos + l.length ≤ dest.length) :
    ∃ out, overwrite dest pos l = some out ∧ out.length = dest.length ∧
      out.take (pos + l.length) = dest.take pos ++ l := by
  refine ⟨_, if_pos h, length_overwrite (if_pos h), List.take_left' ?_⟩
  simp only [List.length_append, List.length_take]
  omega

/-- The first elements of an array of length `n`, with `z` behind them. -/
def padded (n : ℕ) (z : α) (p : List α) : List α := p ++ List.replicate (n - p.length) z

theorem length_padded {n : ℕ} {z : α} {p : List α} (h : p.length ≤ n) : (padded n z p).length = n := by
  rw [padded, List.length_append, List.length_replicate]
  omega

/-- **A write behind the prefix**, with a gap of `k`. -/
theorem overwrite_padded {n k pos : ℕ} {z : α} {p l : List α} (hpos : pos = p.length + k)
    (hroom : pos + l.length ≤ n) :
    overwrite (padded n z p) pos l = some (padded n z (p ++ List.replicate k z ++ l)) := by
  subst hpos
  have hfront : (p ++ List.replicate k z).length = p.length + k := by
    rw [List.length_append, List.length_replicate]
  have hsplit : padded n z p = p ++ List.replicate k z ++
      (List.replicate l.length z ++ List.replicate (n - (p.length + k + l.length)) z) := by
    have hsum : n - p.length = k + (l.length + (n - (p.length + k + l.length))) := by omega
    rw [padded, hsum, List.replicate_add, List.replicate_add, List.append_assoc]
  have htake : (padded n z p).take (p.length + k) = p ++ List.replicate k z := by
    rw [hsplit]
    exact List.take_left' hfront
  have hdrop : (padded n z p).drop (p.length + k + l.length) =
      List.replicate (n - (p.length + k + l.length)) z := by
    rw [hsplit, ← List.append_assoc]
    refine List.drop_left' ?_
    rw [List.length_append, hfront, List.length_replicate]
  rw [overwrite, if_pos (by rw [length_padded (by omega)]; exact hroom), htake, hdrop, padded,
    List.length_append, hfront]

theorem take_padded {n k : ℕ} {z : α} {p : List α} (h : p.length + k ≤ n) :
    (padded n z p).take (p.length + k) = p ++ List.replicate k z := by
  rw [padded, List.take_length_add_append, List.take_replicate]
  congr 2
  omega

end Waveplay.Lib.Overwrite
