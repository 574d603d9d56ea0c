import Mathlib.Data.List.Basic
import Mathlib.Data.Nat.ModEq

/-! # Ring buffers

An array of `N` cells holds a window of an unbounded stream: item `i` of the stream is in cell `i % N`.
Blocks are written and read at a cell; a block that reaches the end of the array goes on at its start.

* `put`, `get`: a block is written, is read.
* `Holds`: the cells hold the items of a stream from a position on.
* `Holds.put`: writing the next items of the stream, if they do not come round to that position.
* `Holds.get_eq`: reading gives the items of the stream. -/

namespace Waveplay.Lib.Ring

variable {α : Type*} {N : ℕ} {q : ℕ → α}

/-- The items are copied to the cells from `pos` on. -/
def copy (q : ℕ → α) (pos : ℕ) (xs : List α) (i : ℕ) : α :=
  if pos ≤ i then (xs[i - pos]?).getD (q i) else q i

/-- The contents of `len` cells from `pos` on. -/
def slice (q : ℕ → α) (pos len : ℕ) : List α := (List.range len).map fun i => q (pos + i)

/-- A block is written at `pos`. -/
def put (N : ℕ) (q : ℕ → α) (pos : ℕ) (xs : List α) : ℕ → α :=
  if pos + xs.length ≤ N then copy q pos xs
  else copy (copy q pos (xs.take (N - pos))) 0 (xs.drop (N - pos))

/-- A block is read at `pos`. -/
def get (N : ℕ) (q : ℕ → α) (pos len : ℕ) : List α :=
  if pos + len ≤ N then slice q pos len
  else slice q pos (N - pos) ++ slice q 0 (pos + len - N)

/-! ### Cells -/

theorem copy_new {pos i : ℕ} {xs : List α} {x : α} (hpos : pos ≤ i) (hx : xs[i - pos]? = some x) :
    copy q pos xs i = x := by
  rw [copy, if_pos hpos, hx, Option.getD_some]

theorem copy_old {pos i : ℕ} {xs : List α} (h : i < pos ∨ pos + xs.length ≤ i) :
    copy q pos xs i = q i := by
  unfold copy
  rcases h with h | h
  · rw [if_neg (by omega)]
  · rw [if_pos (by omega), List.getElem?_eq_none (by omega), Option.getD_none]

theorem add_mod_cases {pos j : ℕ} (hpos : pos < N) (hj : j ≤ N) :
    pos + j < N ∧ (pos + j) % N = pos + j ∨ N ≤ pos + j ∧ (pos + j) % N = pos + j - N := by
  rcases Nat.lt_or_ge (pos + j) N with h | h
  · exact .inl ⟨h, Nat.mod_eq_of_lt h⟩
  · refine .inr ⟨h, ?_⟩
    rw [Nat.mod_eq_sub_mod h, Nat.mod_eq_of_lt (by omega)]

theorem put_new {pos j : ℕ} {xs : List α} {x : α} (hpos : pos < N) (hlen : xs.length ≤ N)
    (hx : xs[j]? = some x) : put N q pos xs ((pos + j) % N) = x := by
  have hj : j < xs.length := (List.getElem?_eq_some_iff.mp hx).1
  unfold put
  split_ifs with hfit
  · rw [Nat.mod_eq_of_lt (by omega)]
    exact copy_new (by omega) (by rw [Nat.add_sub_cancel_left]; exact hx)
  · rcases add_mod_cases hpos (by omega : j ≤ N) with ⟨hlt, hmod⟩ | ⟨hge, hmod⟩
    · rw [hmod, copy_old (.inr (by rw [List.length_drop]; omega))]
      refine copy_new (by omega) ?_
      rw [Nat.add_sub_cancel_left, List.getElem?_take_of_lt (by omega)]
      exact hx
    · rw [hmod]
      refine copy_new (Nat.zero_le _) ?_
      rw [List.getElem?_drop, show N - pos + (pos + j - N - 0) = j by omega]
      exact hx

theorem put_old {pos c : ℕ} {xs : List α} (hpos : pos < N) (hc : c < N)
    (hne : ∀ j < xs.length, c ≠ (pos + j) % N) : put N q pos xs c = q c := by
  have hbefore : c < pos ∨ pos + xs.length ≤ c := by
    by_contra hin
    refine hne (c - pos) (by omega) ?_
    rw [show pos + (c - pos) = c by omega, Nat.mod_eq_of_lt hc]
  unfold put
  split_ifs with hfit
  · exact copy_old hbefore
  · have hafter : xs.length - (N - pos) ≤ c := by
      by_contra hin
      refine hne (c + (N - pos)) (by omega) ?_
      rw [show pos + (c + (N - pos)) = c + N by omega, Nat.add_mod_right, Nat.mod_eq_of_lt hc]
    rw [copy_old (.inr (by rw [List.length_drop]; omega)), copy_old]
    rw [List.length_take]
    omega

theorem get_eq_map {pos len : ℕ} (hpos : pos < N) (hlen : len ≤ N) :
    get N q pos len = (List.range len).map fun j => q ((pos + j) % N) := by
  unfold get
  split_ifs with hfit
  · refine List.map_congr_left fun j hj => ?_
    rw [Nat.mod_eq_of_lt (by have := List.mem_range.mp hj; omega)]
  · obtain ⟨k, rfl⟩ : ∃ k, len = N - pos + k := ⟨len - (N - pos), by omega⟩
    rw [List.range_add, List.map_append, List.map_map, show pos + (N - pos + k) - N = k by omega]
    congr 1
    · refine List.map_congr_left fun j hj => ?_
      rw [Nat.mod_eq_of_lt (by have := List.mem_range.mp hj; omega)]
    · refine List.map_congr_left fun j hj => ?_
      have hjk := List.mem_range.mp hj
      rw [Function.comp_apply, show pos + (N - pos + j) = j + N by omega, Nat.add_mod_right,
        Nat.mod_eq_of_lt (by omega), Nat.zero_add]

/-! ### Streams -/

/-- The cells hold the items of a stream from position `t` on. -/
def Holds (N : ℕ) (q : ℕ → α) (stream : List α) (t : ℕ) : Prop :=
  ∀ i x, t ≤ i → stream[i]? = some x → q (i % N) = x

theorem holds_nil (t : ℕ) : Holds N q [] t := by
  intro i x _ hx
  simp at hx

theorem Holds.mono {stream : List α} {t t' : ℕ} (h : Holds N q stream t) (htt : t ≤ t') :
    Holds N q stream t' := fun i x hi => h i x (le_trans htt hi)

theorem mod_ne_of_lt {a b : ℕ} (hab : a < b) (hN : b < a + N) : a % N ≠ b % N := by
  intro h
  have hdiff : (b - a) % N = 0 := Nat.sub_mod_eq_zero_of_mod_eq h.symm
  rw [Nat.mod_eq_of_lt (by omega)] at hdiff
  omega

/-- **The next items of the stream are written.** -/
theorem Holds.put {stream xs : List α} {t : ℕ} (h : Holds N q stream t) (hN : 0 < N)
    (hfit : stream.length + xs.length ≤ t + N) (ht : t ≤ stream.length) :
    Holds N (put N q (stream.length % N) xs) (stream ++ xs) t := by
  have hpos : stream.length % N < N := Nat.mod_lt _ hN
  intro i x hi hx
  rcases Nat.lt_or_ge i stream.length with hlt | hge
  · rw [List.getElem?_append_left hlt] at hx
    rw [put_old hpos (Nat.mod_lt _ hN) fun j hj => ?_]
    · exact h i x hi hx
    · rw [Nat.mod_add_mod]
      exact mod_ne_of_lt (by omega) (by omega)
  · obtain ⟨j, rfl⟩ := Nat.exists_eq_add_of_le hge
    rw [List.getElem?_append_right hge, Nat.add_sub_cancel_left] at hx
    rw [← Nat.mod_add_mod]
    exact put_new hpos (by omega) hx

/-- **The items of the stream are read.** -/
theorem Holds.get_eq {stream : List α} {t len : ℕ} (h : Holds N q stream t) (hN : 0 < N)
    (hlen : len ≤ N) (hend : t + len ≤ stream.length) :
    Ring.get N q (t % N) len = (stream.drop t).take len := by
  rw [get_eq_map (Nat.mod_lt _ hN) hlen]
  refine List.ext_getElem? fun j => ?_
  rcases Nat.lt_or_ge j len with hj | hj
  · obtain ⟨x, hx⟩ : ∃ x, stream[t + j]? = some x :=
      ⟨_, List.getElem?_eq_getElem (by omega : t + j < stream.length)⟩
    rw [List.getElem?_map, List.getElem?_range hj, Option.map_some, Nat.mod_add_mod,
      h (t + j) x (Nat.le_add_right t j) hx, List.getElem?_take_of_lt hj, List.getElem?_drop, hx]
  · rw [List.getElem?_eq_none (by simpa using hj), List.getElem?_eq_none]
    rw [List.length_take]
    omega

theorem update_eq_put {x : α} {pos : ℕ} (hpos : pos < N) :
    Function.update q pos x = Ring.put N q pos [x] := by
  funext c
  rw [Ring.put, List.length_singleton, if_pos (by omega)]
  by_cases hc : c = pos
  · rw [hc, Function.update_self, copy_new le_rfl (by rw [Nat.sub_self]; rfl)]
  · rw [Function.update_of_ne hc, copy_old (by rw [List.length_singleton]; omega)]

end Waveplay.Lib.Ring
