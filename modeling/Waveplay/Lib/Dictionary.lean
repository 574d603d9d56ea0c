import Waveplay.Lib.Codec
import Mathlib.Algebra.GroupWithZero.Nat
import Mathlib.Algebra.BigOperators.Group.Finset.Basic

/-! # Writers with a dictionary

A writer that refers to what was written before writes less of it the second time. If every entry of the
dictionary has a weight, and a writer writes the weights of its new entries and `c` symbols more, then the
length of a sequence is the weight of all its entries and the sum of the `c`: it does not depend on the
order. -/

namespace Waveplay.Lib.Dictionary

open Waveplay.Lib.Codec

variable {β γ κ : Type*} [DecidableEq κ]

/-- The entries of several dictionaries. -/
def entries {ι : Type*} (S : ι → Finset κ) (items : List ι) : Finset κ := items.foldr (fun i T => S i ∪ T) ∅

theorem entries_singleton {ι : Type*} (S : ι → Finset κ) (i : ι) : entries S [i] = S i := Finset.union_empty _

theorem entries_append {ι : Type*} (S : ι → Finset κ) (items items' : List ι) :
    entries S (items ++ items') = entries S items ∪ entries S items' := by
  induction items with
  | nil => exact (Finset.empty_union _).symm
  | cons i items ih =>
    rw [List.cons_append, entries, List.foldr_cons, ← entries, ih, ← Finset.union_assoc]
    rfl

section

variable (D : γ → Finset κ → Prop) (weight : κ → ℕ)

/-- `w` writes its new entries, and `c` symbols more; `D` says which entries a context has. -/
def Weighs (w : Emitter β γ) (S : Finset κ) (c : ℕ) : Prop :=
  ∀ g n K, D g K → (w g n).1.length + ∑ k ∈ K, weight k = ∑ k ∈ K ∪ S, weight k + c ∧ D (w g n).2 (K ∪ S)

variable {D weight} {w w' : Emitter β γ} {S S' : Finset κ} {c c' : ℕ}

theorem weighs_const (bytes : List β) : Weighs D weight (.const bytes) ∅ bytes.length := by
  intro g n K hD
  rw [Finset.union_empty, Nat.add_comm]
  exact ⟨rfl, hD⟩

theorem Weighs.of_eq (h : Weighs D weight w S c) (hS : S = S') (hc : c = c') : Weighs D weight w S' c' :=
  hS ▸ hc ▸ h

theorem Weighs.andThen (h : Weighs D weight w S c) (h' : Weighs D weight w' S' c') :
    Weighs D weight (w.andThen w') (S ∪ S') (c + c') := by
  intro g n K hD
  obtain ⟨hlen, hD⟩ := h g n K hD
  obtain ⟨hlen', hD'⟩ := h' _ (n + (w g n).1.length) _ hD
  rw [← Finset.union_assoc]
  refine ⟨?_, hD'⟩
  rw [Emitter.andThen, List.length_append]
  omega

theorem Weighs.mapM {ι : Type*} {write : ι → Option (Emitter β γ)} {S : ι → Finset κ} {c : ι → ℕ}
    {items : List ι} {ws : List (Emitter β γ)} (hws : items.mapM write = some ws)
    (h : ∀ i ∈ items, ∀ w, write i = some w → Weighs D weight w (S i) (c i)) :
    Weighs D weight (.all ws) (entries S items) (items.map c).sum := by
  induction items generalizing ws with
  | nil =>
    obtain rfl : [] = ws := Option.some.inj hws
    exact weighs_const []
  | cons i items ih =>
    obtain ⟨w, ws', hw, hws', rfl⟩ := mapM_cons_eq_some hws
    exact (h i List.mem_cons_self w hw).andThen (ih hws' fun j hj => h j (List.mem_cons_of_mem i hj))

end

end Waveplay.Lib.Dictionary
