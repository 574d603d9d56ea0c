import Mathlib.Data.List.Basic
import Mathlib.Tactic.Common

/-! # Bytes as digits of six bits

`sextets` cuts the bits of a byte string into digits of six, with zeros behind the last byte. With an alphabet
for the digits and a symbol that fills the last group of four, `spell` and `spellPadded` are the texts of a
byte string. -/

namespace Waveplay.Lib.Sextets

/-- The digits of a byte string. -/
def sextets : List UInt8 → List ℕ
  | [] => []
  | [a] => [a.toNat / 4, a.toNat % 4 * 16]
  | [a, b] => [a.toNat / 4, a.toNat % 4 * 16 + b.toNat / 16, b.toNat % 16 * 4]
  | a :: b :: c :: l =>
    a.toNat / 4 :: (a.toNat % 4 * 16 + b.toNat / 16) :: (b.toNat % 16 * 4 + c.toNat / 64) ::
      (c.toNat % 64) :: sextets l

theorem sextets_lt {l : List UInt8} : ∀ d ∈ sextets l, d < 64 := by
  induction l using sextets.induct with
  | case1 => exact fun d hd => absurd hd List.not_mem_nil
  | case2 a =>
    have ha := a.toNat_lt
    intro d hd
    simp only [sextets, List.mem_cons, List.not_mem_nil, or_false] at hd
    omega
  | case3 a b =>
    have ha := a.toNat_lt
    have hb := b.toNat_lt
    intro d hd
    simp only [sextets, List.mem_cons, List.not_mem_nil, or_false] at hd
    omega
  | case4 a b c l ih =>
    have ha := a.toNat_lt
    have hb := b.toNat_lt
    have hc := c.toNat_lt
    intro d hd
    simp only [sextets, List.mem_cons] at hd
    rcases hd with hd | hd | hd | hd | hd
    · omega
    · omega
    · omega
    · omega
    · exact ih d hd

theorem length_sextets (l : List UInt8) : (sextets l).length = (4 * l.length + 2) / 3 := by
  induction l using sextets.induct with
  | case1 => rfl
  | case2 a => simp [sextets]
  | case3 a b => simp [sextets]
  | case4 a b c l ih =>
    simp only [sextets, List.length_cons, ih]
    omega

/-! ### Texts -/

section

variable {α : Type*} (char : ℕ → α) (fill : α)

/-- How many symbols fill the last group, for `n` bytes. -/
def missing (n : ℕ) : ℕ := (3 - n % 3) % 3

/-- The text without filling. -/
def spell (l : List UInt8) : List α := (sextets l).map char

/-- The text with filling. -/
def spellPadded (l : List UInt8) : List α := spell char l ++ List.replicate (missing l.length) fill

theorem missing_add_three (n : ℕ) : missing (n + 3) = missing n := by
  unfold missing
  omega

theorem missing_eq (l : List UInt8) : (4 - (spell char l).length % 4) % 4 = missing l.length := by
  rw [spell, List.length_map, length_sextets, missing]
  have hcases : l.length % 3 = 0 ∨ l.length % 3 = 1 ∨ l.length % 3 = 2 := by omega
  rcases hcases with h | h | h <;> omega

theorem spellPadded_nil : spellPadded char fill [] = [] := rfl

theorem spellPadded_one (a : UInt8) : spellPadded char fill [a] =
    [char (a.toNat / 4), char (a.toNat % 4 * 16), fill, fill] := rfl

theorem spellPadded_two (a b : UInt8) : spellPadded char fill [a, b] =
    [char (a.toNat / 4), char (a.toNat % 4 * 16 + b.toNat / 16), char (b.toNat % 16 * 4), fill] := rfl

theorem spellPadded_three (a b c : UInt8) (l : List UInt8) : spellPadded char fill (a :: b :: c :: l) =
    char (a.toNat / 4) :: char (a.toNat % 4 * 16 + b.toNat / 16) ::
      char (b.toNat % 16 * 4 + c.toNat / 64) :: char (c.toNat % 64) :: spellPadded char fill l := by
  rw [spellPadded, List.length_cons, List.length_cons, List.length_cons, missing_add_three]
  rfl

end

/-! ### Reading at an index -/

section

variable {α : Type*} {l rest : List α} {i : ℕ}

theorem length_of_drop {x : α} (h : l.drop i = x :: rest) : l.length = i + (rest.length + 1) := by
  have hdrop := congrArg List.length h
  rw [List.length_drop, List.length_cons] at hdrop
  omega

theorem getD_of_drop (h : l.drop i = rest) (k : ℕ) (d : α) : l.getD (i + k) d = rest.getD k d := by
  rw [← h, List.getD_eq_getElem?_getD, List.getD_eq_getElem?_getD, List.getElem?_drop]

end

end Waveplay.Lib.Sextets
