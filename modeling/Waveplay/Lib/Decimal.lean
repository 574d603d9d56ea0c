import Mathlib.Data.Nat.Digits.Lemmas

/-! # Decimal numbers

Numbers written with ten characters, the greatest digit first, and read back with a function that says
which digit a character is. -/

namespace Waveplay.Lib.Decimal

variable {α : Type*}

/-- The digits of a number, the greatest first. -/
def digits (n : ℕ) : List ℕ := if n = 0 then [0] else (Nat.digits 10 n).reverse

theorem digits_ne_nil (n : ℕ) : digits n ≠ [] := by
  rw [digits]
  split_ifs with h
  · exact List.cons_ne_nil 0 []
  · simpa [Nat.digits_ne_nil_iff_ne_zero] using h

theorem digits_lt_ten {n d : ℕ} (h : d ∈ digits n) : d < 10 := by
  rw [digits] at h
  split_ifs at h
  · rw [List.mem_singleton.mp h]
    decide
  · exact Nat.digits_lt_base (by decide) (List.mem_reverse.mp h)

/-- A number that is written with the characters of its digits. -/
def write (char : ℕ → α) (n : ℕ) : List α := (digits n).map char

/-- The number that characters stand for, if each of them is a digit. -/
def read (digit : α → Option ℕ) (s : List α) : Option ℕ :=
  s.foldlM (fun n c => (digit c).map (10 * n + ·)) 0

theorem foldlM_read {digit : α → Option ℕ} {char : ℕ → α} (h : ∀ d < 10, digit (char d) = some d) :
    ∀ (ds : List ℕ), (∀ d ∈ ds, d < 10) → ∀ n,
      (ds.map char).foldlM (fun n c => (digit c).map (10 * n + ·)) n =
        some (ds.foldl (fun n d => 10 * n + d) n)
  | [], _, n => rfl
  | d :: ds, hds, n => by
    rw [List.map_cons, List.foldlM_cons, h d (hds d List.mem_cons_self), List.foldl_cons]
    exact foldlM_read h ds (fun e he => hds e (List.mem_cons_of_mem d he)) (10 * n + d)

theorem foldl_digits (n : ℕ) : (digits n).foldl (fun n d => 10 * n + d) 0 = n := by
  rw [digits]
  split_ifs with h
  · rw [h]
    rfl
  · rw [List.foldl_reverse]
    have hdigits := Nat.ofDigits_digits 10 n
    rw [Nat.ofDigits_eq_foldr] at hdigits
    simpa [Nat.add_comm] using hdigits

/-- **What is written is read.** -/
theorem read_write {digit : α → Option ℕ} {char : ℕ → α} (h : ∀ d < 10, digit (char d) = some d) (n : ℕ) :
    read digit (write char n) = some n := by
  rw [read, write, foldlM_read h (digits n) fun d hd => digits_lt_ten hd, foldl_digits]

end Waveplay.Lib.Decimal
