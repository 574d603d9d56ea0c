import Mathlib.Data.List.OfFn
import Mathlib.Data.List.GetD
import Mathlib.Tactic.Common

/-! # Cipher block chaining

Blocks of `n` symbols are enciphered by `E` and deciphered by `D`; `mix` combines a symbol with one of
the chaining vector, and undoes itself. `encrypt k v data` does the first `k` blocks of `data` and
leaves the rest as it is, and `decrypt` takes it back (`decrypt_encrypt`). -/

namespace Waveplay.Lib.Cbc

variable {α : Type*} [Inhabited α] {n : ℕ}

/-- The first `n` symbols. -/
def block (n : ℕ) (data : List α) : Fin n → α := fun j => data.getD j default

theorem ofFn_block {data : List α} (h : n ≤ data.length) :
    List.ofFn (block n data) = data.take n := by
  apply List.ext_getElem
  · simp [h]
  · intro i h₁ h₂
    have hi : i < data.length := by simp at h₁; omega
    rw [List.getElem_ofFn, block, List.getD_eq_getElem _ _ hi, List.getElem_take]

theorem block_ofFn_append (b : Fin n → α) (rest : List α) :
    block n (List.ofFn b ++ rest) = b := by
  funext j
  rw [block, List.getD_append _ _ _ _ (by simp), List.getD_eq_getElem _ _ (by simp)]
  simp

omit [Inhabited α] in
theorem drop_ofFn_append (b : Fin n → α) (rest : List α) :
    (List.ofFn b ++ rest).drop n = rest := List.drop_left' (by simp)

section

variable (mix : α → α → α) (E D : (Fin n → α) → Fin n → α)

/-- Encipher `k` blocks after the chaining vector `v`. -/
def encrypt : ℕ → (Fin n → α) → List α → List α
  | 0, _, data => data
  | k + 1, v, data =>
    let c := E fun j => mix (block n data j) (v j)
    List.ofFn c ++ encrypt k c (data.drop n)

/-- Decipher `k` blocks after the chaining vector `v`. -/
def decrypt : ℕ → (Fin n → α) → List α → List α
  | 0, _, data => data
  | k + 1, v, data =>
    List.ofFn (fun j => mix (D (block n data) j) (v j)) ++ decrypt k (block n data) (data.drop n)

theorem length_encrypt : ∀ {k : ℕ} (v : Fin n → α) {data : List α}, k * n ≤ data.length →
    (encrypt mix E k v data).length = data.length
  | 0, _, _, _ => rfl
  | k + 1, v, data, h => by
    rw [Nat.add_mul, Nat.one_mul] at h
    rw [encrypt, List.length_append, List.length_ofFn,
      length_encrypt _ (by rw [List.length_drop]; omega), List.length_drop]
    omega

theorem encrypt_append : ∀ {k : ℕ} (v : Fin n → α) {data : List α} (rest : List α),
    k * n ≤ data.length → encrypt mix E k v (data ++ rest) = encrypt mix E k v data ++ rest
  | 0, _, _, _, _ => rfl
  | k + 1, v, data, rest, h => by
    rw [Nat.add_mul, Nat.one_mul] at h
    have hb : block n (data ++ rest) = block n data := by
      funext j
      have hj : (j : ℕ) < data.length := by omega
      rw [block, block, List.getD_append _ _ _ _ hj]
    simp only [encrypt, hb]
    rw [List.drop_append_of_le_length (by omega),
      encrypt_append _ rest (by rw [List.length_drop]; omega), List.append_assoc]

/-- **Deciphering after enciphering.** -/
theorem decrypt_encrypt (hmix : ∀ a b, mix (mix a b) b = a) (hD : ∀ b, D (E b) = b) :
    ∀ {k : ℕ} (v : Fin n → α) {data : List α}, k * n ≤ data.length →
    decrypt mix D k v (encrypt mix E k v data) = data
  | 0, _, _, _ => rfl
  | k + 1, v, data, h => by
    rw [Nat.add_mul, Nat.one_mul] at h
    have hk : k * n ≤ (data.drop n).length := by rw [List.length_drop]; omega
    simp only [encrypt, decrypt, block_ofFn_append, drop_ofFn_append, hD, hmix,
      decrypt_encrypt hmix hD _ hk]
    rw [ofFn_block (by omega), List.take_append_drop]

end

end Waveplay.Lib.Cbc
