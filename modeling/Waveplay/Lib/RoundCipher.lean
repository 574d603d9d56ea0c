import Mathlib.Data.List.Induction
import Mathlib.Tactic.Common

/-! # Ciphers made of rounds

A cipher adds a key to the state, then makes rounds of a substitution `sub`, a mixing `mix` and the
addition of a key, and a last round without mixing. If the mixing respects sums, then the cipher with
the inverse substitution, the inverse mixing and the keys in the opposite order, those of the middle
mixed backwards, takes it back (`cipher_cipher`). -/

namespace Waveplay.Lib.RoundCipher

variable {σ : Type*} (add : σ → σ → σ) (sub mix : σ → σ)

/-- One round. -/
def round (s k : σ) : σ := add (mix (sub s)) k

/-- The cipher with the keys `first`, `mids` and `last`. -/
def cipher (first : σ) (mids : List σ) (last s : σ) : σ :=
  add (sub (mids.foldl (round add sub mix) (add s first))) last

/-- `sub'` and `mix'` take `sub` and `mix` back, and `add` undoes itself. -/
structure Inverts (sub' mix' : σ → σ) : Prop where
  add_add : ∀ a k, add (add a k) k = a
  sub_sub : ∀ a, sub' (sub a) = a
  mix_mix : ∀ a, mix' (mix a) = a
  mix_add : ∀ a b, mix' (add a b) = add (mix' a) (mix' b)

variable {add sub mix} {sub' mix' : σ → σ}

theorem Inverts.round (h : Inverts add sub mix sub' mix') (s k : σ) :
    RoundCipher.round add sub' mix' (sub (RoundCipher.round add sub mix s k)) (mix' k) = sub s := by
  rw [RoundCipher.round, h.sub_sub, ← h.mix_add, RoundCipher.round, h.add_add, h.mix_mix]

theorem Inverts.rounds (h : Inverts add sub mix sub' mix') (mids : List σ) (s : σ) :
    (mids.reverse.map mix').foldl (RoundCipher.round add sub' mix')
      (sub (mids.foldl (RoundCipher.round add sub mix) s)) = sub s := by
  induction mids using List.reverseRecOn with
  | nil => rfl
  | append_singleton mids k ih =>
    rw [List.foldl_append, List.foldl_cons, List.foldl_nil, List.reverse_append, List.reverse_singleton,
      List.singleton_append, List.map_cons, List.foldl_cons, h.round, ih]

/-- **The inverse cipher.** -/
theorem cipher_cipher (h : Inverts add sub mix sub' mix') (first : σ) (mids : List σ) (last s : σ) :
    cipher add sub' mix' last (mids.reverse.map mix') first (cipher add sub mix first mids last s) = s := by
  rw [cipher, cipher, h.add_add, h.rounds, h.sub_sub, h.add_add]

end Waveplay.Lib.RoundCipher
