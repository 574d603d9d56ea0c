import Mathlib

/-! # Lexicographic comparison

Two lists are compared by the keys at the first place where they differ, and by their lengths if one of them
runs out before. -/

namespace Waveplay.Lib.Lexicographic

variable {α κ : Type*} [LinearOrder κ] (key : α → κ)

/-- Positive if the first list is the greater one, negative if the second one is. -/
def compareBy : List α → List α → ℤ
  | a :: as, b :: bs => if key b < key a then 1 else if key a < key b then -1 else compareBy as bs
  | as, bs => as.length - bs.length

theorem compareBy_swap : ∀ as bs : List α, compareBy key bs as = -compareBy key as bs
  | a :: as, b :: bs => by
    rw [compareBy, compareBy, compareBy_swap as bs]
    split_ifs with h h'
    · exact absurd h' (lt_asymm h)
    · rfl
    · rfl
    · rfl
  | [], bs => by
    rw [compareBy, compareBy] <;> simp
  | a :: as, [] => by
    rw [compareBy, compareBy] <;> simp

variable {key}

theorem compareBy_eq_zero (hkey : Function.Injective key) : ∀ {as bs : List α}, compareBy key as bs = 0 → as = bs
  | a :: as, b :: bs, h => by
    rw [compareBy] at h
    split_ifs at h with hlt hgt
    · cases h
    · rw [hkey (le_antisymm (not_lt.mp hlt) (not_lt.mp hgt)), compareBy_eq_zero hkey h]
  | [], [], _ => rfl
  | [], b :: bs, h => by
    rw [compareBy, List.length_nil, List.length_cons] at h
    · omega
    · nofun
  | a :: as, [], h => by
    rw [compareBy, List.length_nil, List.length_cons] at h
    · omega
    · nofun

end Waveplay.Lib.Lexicographic
