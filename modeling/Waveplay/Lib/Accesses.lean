import Mathlib.Data.List.DropRight
import Mathlib.Tactic.Common

/-! # Memory with a record of its accesses

A `Heap` is a list of cells and the addresses that have been accessed, in order; an access outside it fails.
Loops that walk up (`walk`) or down (`walkBack`) while a condition holds are computed exactly where they
stop inside the memory, with their accesses (`walk_eq`, `walkBack_eq`). -/

namespace Waveplay.Lib.Accesses

variable {α : Type*}

structure Heap (α : Type*) where
  cells : List α
  accessed : List ℕ

/-- The cell at an address. -/
def Heap.load (h : Heap α) (a : ℕ) : Option (α × Heap α) :=
  h.cells[a]?.map fun x => (x, { h with accessed := h.accessed ++ [a] })

def Heap.store (h : Heap α) (a : ℕ) (x : α) : Option (Heap α) :=
  if a < h.cells.length then some ⟨h.cells.set a x, h.accessed ++ [a]⟩ else none

/-- `while (p(*a)) a++`, through `n` cells at most. -/
def walk (p : α → Bool) : ℕ → Heap α → ℕ → Option (ℕ × Heap α)
  | 0, _, _ => none
  | n + 1, h, a => (h.load a).bind fun r => if p r.1 then walk p n r.2 (a + 1) else some (a, r.2)

/-- `while (p(*--a))` -/
def walkBack (p : α → Bool) : ℕ → Heap α → Option (ℕ × Heap α)
  | 0, _ => none
  | a + 1, h => (h.load a).bind fun r => if p r.1 then walkBack p a r.2 else some (a, r.2)

theorem load_append (l r : List α) (x : α) (log : List ℕ) :
    Heap.load ⟨l ++ x :: r, log⟩ l.length = some (x, ⟨l ++ x :: r, log ++ [l.length]⟩) := by
  rw [Heap.load, List.getElem?_append_right (Nat.le_refl _), Nat.sub_self]
  rfl

theorem store_append (l r : List α) (x y : α) (log : List ℕ) :
    Heap.store ⟨l ++ x :: r, log⟩ l.length y = some ⟨l ++ y :: r, log ++ [l.length]⟩ := by
  have hlt : l.length < (l ++ x :: r).length := by
    rw [List.length_append, List.length_cons]
    omega
  rw [Heap.store, if_pos hlt, List.set_append_right _ _ (Nat.le_refl _), Nat.sub_self]
  rfl

theorem store_eq_some {h h' : Heap α} {a : ℕ} {x : α} (hs : h.store a x = some h') :
    h'.cells = h.cells.set a x ∧ h.accessed ⊆ h'.accessed := by
  rw [Heap.store] at hs
  split_ifs at hs
  obtain rfl := Option.some.inj hs
  exact ⟨rfl, List.subset_append_left _ _⟩

/-! ### Walking up -/

/-- **Up to the first cell** without the condition. -/
theorem walk_eq {p : α → Bool} {y : α} (hy : p y = false) (r : List α) :
    ∀ (sp l : List α) (n : ℕ) (log : List ℕ), (∀ x ∈ sp, p x = true) → sp.length < n →
      walk p n ⟨l ++ (sp ++ y :: r), log⟩ l.length =
        some (l.length + sp.length, ⟨l ++ (sp ++ y :: r), log ++ List.range' l.length (sp.length + 1)⟩) := by
  intro sp
  induction sp with
  | nil =>
    intro l n log _ hn
    obtain ⟨n, rfl⟩ := Nat.exists_eq_succ_of_ne_zero (Nat.ne_of_gt hn)
    rw [walk, List.nil_append, load_append, Option.bind_some, hy]
    rfl
  | cons x sp ih =>
    intro l n log hsp hn
    obtain ⟨hx, hsp⟩ := List.forall_mem_cons.mp hsp
    rw [List.length_cons] at hn
    obtain ⟨n, rfl⟩ := Nat.exists_eq_succ_of_ne_zero (show n ≠ 0 by omega)
    have hstep := ih (l ++ [x]) n (log ++ [l.length]) hsp (by omega)
    rw [List.length_append, List.length_singleton, List.append_assoc, List.singleton_append] at hstep
    rw [walk, List.cons_append, load_append, Option.bind_some, hx, if_pos rfl, hstep, List.length_cons,
      List.append_assoc, List.range'_succ, Nat.add_assoc, Nat.add_comm 1]
    rfl

/-! ### Walking down -/

theorem walkBack_append {p : α → Bool} (l : List α) :
    ∀ (sp r : List α) (log : List ℕ), (∀ x ∈ sp, p x = true) →
      walkBack p (l.length + sp.length) ⟨l ++ (sp ++ r), log⟩ =
        walkBack p l.length ⟨l ++ (sp ++ r), log ++ (List.range' l.length sp.length).reverse⟩ := by
  intro sp
  induction sp using List.reverseRecOn with
  | nil =>
    intro r log _
    rw [List.length_nil, Nat.add_zero, List.range'_zero, List.reverse_nil, List.append_nil]
  | append_singleton sp x ih =>
    intro r log hsp
    have hx : p x = true := hsp x (List.mem_append_right sp (List.mem_singleton_self x))
    have hinit : ∀ z ∈ sp, p z = true := fun z hz => hsp z (List.mem_append_left _ hz)
    have hload := load_append (l ++ sp) r x log
    rw [List.length_append, List.append_assoc] at hload
    have hstep := ih (x :: r) (log ++ [l.length + sp.length]) hinit
    rw [List.length_append, List.length_singleton, ← Nat.add_assoc, walkBack, List.append_assoc,
      List.singleton_append, hload, Option.bind_some, hx, if_pos rfl, hstep, List.range'_concat,
      List.reverse_append, List.append_assoc, Nat.one_mul]
    rfl

/-- **Down to the last cell** without the condition. -/
theorem walkBack_eq {p : α → Bool} {y : α} (hy : p y = false) (l sp r : List α) (log : List ℕ)
    (hsp : ∀ x ∈ sp, p x = true) :
    walkBack p (l.length + 1 + sp.length) ⟨l ++ y :: (sp ++ r), log⟩ = some (l.length,
      ⟨l ++ y :: (sp ++ r), log ++ (List.range' (l.length + 1) sp.length).reverse ++ [l.length]⟩) := by
  have happ := walkBack_append (l ++ [y]) sp r log hsp
  rw [List.length_append, List.length_singleton, List.append_assoc, List.singleton_append] at happ
  rw [happ, walkBack, load_append, Option.bind_some, hy]
  rfl

/-- A walk changes no cell, and its first access is right below its start. -/
theorem walkBack_eq_some {p : α → Bool} : ∀ {n : ℕ} {h : Heap α} {r : ℕ × Heap α}, walkBack p n h = some r →
    0 < n ∧ r.2.cells = h.cells ∧ h.accessed ++ [n - 1] ⊆ r.2.accessed
  | n + 1, h, r, hr => by
    rw [walkBack, Heap.load] at hr
    obtain ⟨c, hc, hr⟩ := Option.bind_eq_some_iff.mp hr
    obtain ⟨x, -, rfl⟩ := Option.map_eq_some_iff.mp hc
    dsimp only at hr
    split_ifs at hr
    · obtain ⟨-, hcells, hsub⟩ := walkBack_eq_some hr
      exact ⟨Nat.succ_pos n, hcells, List.Subset.trans (List.subset_append_left _ _) hsub⟩
    · obtain rfl := Option.some.inj hr
      exact ⟨Nat.succ_pos n, rfl, List.Subset.refl _⟩

end Waveplay.Lib.Accesses
