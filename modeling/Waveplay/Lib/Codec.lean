import Mathlib.Data.List.Basic
import Mathlib.Tactic.Common

/-! # Writers and readers that share a context

A writer appends symbols at a position and may change a context, such as a table of what was written
where. A reader takes symbols from the front of its input and has a state of its own, which is related
to the context and the position of the writer by `R`. `Reads R input w p x` says that `p` reads `x` off
what `w` writes, whatever follows it, and keeps the relation; it holds of a sequence if it holds of the
parts (`Reads.andThen`, `Reads.all`). -/

namespace Waveplay.Lib.Codec

variable {α α' β γ σ : Type*}

/-- What is written at a position in a context, and the context after it. -/
def Emitter (β γ : Type*) := γ → ℕ → List β × γ

/-- A writer that writes the same in every context. -/
def Emitter.const (bytes : List β) : Emitter β γ := fun g _ => (bytes, g)

/-- One writer, then the other. -/
def Emitter.andThen (w w' : Emitter β γ) : Emitter β γ := fun g n =>
  let out := w g n
  let out' := w' out.2 (n + out.1.length)
  (out.1 ++ out'.1, out'.2)

/-- Writers one after the other. -/
def Emitter.all : List (Emitter β γ) → Emitter β γ
  | [] => .const []
  | w :: ws => w.andThen (all ws)

/-- Read as many values as the list has, with the same reader. -/
def readAll (p : σ → Option (α × σ)) : ℕ → σ → Option (List α × σ)
  | 0, s => some ([], s)
  | n + 1, s => (p s).bind fun out => (readAll p n out.2).map fun out' => (out.1 :: out'.1, out'.2)

theorem mapM_cons_eq_some {f : α → Option α'} {x : α} {xs : List α} {ys : List α'}
    (h : (x :: xs).mapM f = some ys) : ∃ y ys', f x = some y ∧ xs.mapM f = some ys' ∧ y :: ys' = ys := by
  rw [List.mapM_cons, Option.bind_eq_bind, Option.bind_eq_some_iff] at h
  obtain ⟨y, hy, h⟩ := h
  obtain ⟨ys', hys', hcons⟩ := Option.bind_eq_some_iff.mp h
  exact ⟨y, ys', hy, hys', Option.some.inj hcons⟩

section

variable (R : γ → ℕ → σ → Prop) (input : σ → List β)

/-- `p` reads `x` off what `w` writes. -/
def Reads (w : Emitter β γ) (p : σ → Option (α × σ)) (x : α) : Prop :=
  ∀ (g : γ) (n : ℕ) (s : σ) (rest : List β), R g n s → input s = (w g n).1 ++ rest →
    ∃ s', p s = some (x, s') ∧ input s' = rest ∧ R (w g n).2 (n + (w g n).1.length) s'

variable {R input} {w w' : Emitter β γ}

theorem Reads.pure (x : α) : Reads R input (.const []) (fun s => some (x, s)) x := fun _ _ s _ hR hs =>
  ⟨s, rfl, hs, hR⟩

/-- **Sequences**: the second reader may depend on what the first one has read. -/
theorem Reads.andThen {p : σ → Option (α × σ)} {q : α → σ → Option (α' × σ)} {x : α} {y : α'}
    (h : Reads R input w p x) (h' : Reads R input w' (q x) y) :
    Reads R input (w.andThen w') (fun s => (p s).bind fun out => q out.1 out.2) y := by
  intro g n s rest hR hs
  simp only [Emitter.andThen] at hs ⊢
  rw [List.append_assoc] at hs
  obtain ⟨s₁, hp, hs₁, hR₁⟩ := h g n s _ hR hs
  obtain ⟨s₂, hq, hs₂, hR₂⟩ := h' _ _ s₁ rest hR₁ hs₁
  refine ⟨s₂, by simp only [hp, Option.bind_some, hq], hs₂, ?_⟩
  rwa [List.length_append, ← Nat.add_assoc]

theorem Reads.map {p : σ → Option (α × σ)} {x : α} (h : Reads R input w p x) (f : α → α') :
    Reads R input w (fun s => (p s).map fun out => (f out.1, out.2)) (f x) := by
  intro g n s rest hR hs
  obtain ⟨s', hp, hs', hR'⟩ := h g n s rest hR hs
  exact ⟨s', by simp only [hp, Option.map_some], hs', hR'⟩

theorem Reads.bind {p : σ → Option (α × σ)} {x : α} {f : α → Option α'} {y : α'} (h : Reads R input w p x)
    (hf : f x = some y) : Reads R input w (fun s => (p s).bind fun out => (f out.1).map (·, out.2)) y := by
  intro g n s rest hR hs
  obtain ⟨s', hp, hs', hR'⟩ := h g n s rest hR hs
  exact ⟨s', by simp only [hp, Option.bind_some, hf, Option.map_some], hs', hR'⟩

/-- **Lists** of what may fail to be written. -/
theorem Reads.mapM {ι : Type*} {p : σ → Option (α × σ)} {write : ι → Option (Emitter β γ)} {value : ι → α} :
    ∀ {items : List ι} {ws : List (Emitter β γ)}, items.mapM write = some ws →
    (∀ i ∈ items, ∀ w, write i = some w → Reads R input w p (value i)) →
    Reads R input (.all ws) (readAll p items.length) (items.map value)
  | [], ws, hws, _ => by
    obtain rfl : [] = ws := Option.some.inj hws
    exact Reads.pure []
  | i :: items, ws, hws, h => by
    obtain ⟨w, ws', hw, hws', rfl⟩ := mapM_cons_eq_some hws
    have hall := Reads.mapM hws' fun j hj => h j (List.mem_cons_of_mem i hj)
    exact (h i List.mem_cons_self w hw).andThen
      (q := fun x s => (readAll p items.length s).map fun out => (x :: out.1, out.2))
      (hall.map (value i :: ·))

/-- **Lists.** -/
theorem Reads.all {ι : Type*} {p : σ → Option (α × σ)} {write : ι → Emitter β γ} {value : ι → α}
    {items : List ι} (h : ∀ i ∈ items, Reads R input (write i) p (value i)) :
    Reads R input (.all (items.map write)) (readAll p items.length) (items.map value) := by
  have hws : items.mapM (fun i => some (write i)) = some (items.map write) := List.mapM_pure
  refine Reads.mapM hws fun i hi w hw => ?_
  obtain rfl := Option.some.inj hw
  exact h i hi

end

section

variable {w w' : Emitter β γ} {k : ℕ}

theorem le_andThen_left (h : ∀ g n, k ≤ (w g n).1.length) (g : γ) (n : ℕ) :
    k ≤ (w.andThen w' g n).1.length := by
  rw [Emitter.andThen, List.length_append]
  exact Nat.le_add_right_of_le (h g n)

theorem le_andThen_right (h : ∀ g n, k ≤ (w' g n).1.length) (g : γ) (n : ℕ) :
    k ≤ (w.andThen w' g n).1.length := by
  rw [Emitter.andThen, List.length_append]
  exact Nat.le_add_left_of_le (h _ _)

end

theorem length_le_mapM {ι : Type*} {write : ι → Option (Emitter β γ)} {items : List ι}
    (h : ∀ i ∈ items, ∀ w, write i = some w → ∀ g n, (w g n).1 ≠ []) {ws : List (Emitter β γ)}
    (hws : items.mapM write = some ws) (g : γ) (n : ℕ) : items.length ≤ (Emitter.all ws g n).1.length := by
  induction items generalizing ws g n with
  | nil => exact Nat.zero_le _
  | cons i items ih =>
    obtain ⟨w, ws', hw, hws', rfl⟩ := mapM_cons_eq_some hws
    have hpos : 0 < (w g n).1.length := List.length_pos_iff.mpr (h i List.mem_cons_self w hw g n)
    have hrest := ih (fun j hj => h j (List.mem_cons_of_mem i hj)) hws' (w g n).2 (n + (w g n).1.length)
    rw [List.length_cons, Emitter.all, Emitter.andThen, List.length_append]
    omega

end Waveplay.Lib.Codec
