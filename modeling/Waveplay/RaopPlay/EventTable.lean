import Mathlib.Data.Int.Notation
import Mathlib.Data.List.Basic
import Mathlib.Data.List.GetD
import Mathlib.Tactic.Common

/-! # The event table of `raop_play.c`

`raopld->fds` has four slots; a slot with a negative descriptor is free. -/

namespace Waveplay.RaopPlay.EventTable

def MAX_NUM_OF_FDS : ℕ := 4

/-- The callbacks the player registers. -/
inductive Callback
  | consoleRead
  | fdEventCallback
  | terminateCbf
  deriving DecidableEq, Repr

/-- `fdev_t`. The flags `RAOP_FD_READ` and `RAOP_FD_WRITE`, the only bits of `flags` that are used, are two
fields. -/
structure FdEvent (δ : Type*) where
  fd : ℤ := -1
  dp : Option δ := none
  cbf : Option Callback := none
  read : Bool := false
  write : Bool := false
  deriving DecidableEq, Repr

variable {δ : Type*}

/-- Put `e` into the first slot that satisfies `p`. -/
def replaceFirst (p : FdEvent δ → Bool) (e : FdEvent δ) : List (FdEvent δ) → Option (List (FdEvent δ))
  | [] => none
  | x :: xs => if p x then some (e :: xs) else (replaceFirst p e xs).map (x :: ·)

/-- `set_fd_event`: the slot of the descriptor is updated, or a free one taken. -/
def setFdEvent (e : FdEvent δ) (fds : List (FdEvent δ)) : Option (List (FdEvent δ)) :=
  match replaceFirst (·.fd = e.fd) e fds with
  | some fds => some fds
  | none => replaceFirst (·.fd < 0) e fds

/-- `clear_fd_event`. -/
def clearFdEvent (fd : ℤ) (fds : List (FdEvent δ)) : Option (List (FdEvent δ)) :=
  replaceFirst (·.fd = fd) {} fds

/-- The table at the start. -/
def emptyTable : List (FdEvent δ) := List.replicate MAX_NUM_OF_FDS {}

/-- There is a slot for the descriptor. -/
def HasSlot (fd : ℤ) (fds : List (FdEvent δ)) : Prop := ∃ e ∈ fds, e.fd = fd ∨ e.fd < 0

theorem replaceFirst_isSome {p : FdEvent δ → Bool} {e : FdEvent δ} : ∀ {fds : List (FdEvent δ)},
    (∃ x ∈ fds, p x) → (replaceFirst p e fds).isSome
  | [], ⟨_, hx, _⟩ => absurd hx List.not_mem_nil
  | y :: ys, ⟨x, hx, hp⟩ => by
    rw [replaceFirst]
    split_ifs with hy
    · rfl
    · rcases List.mem_cons.mp hx with rfl | hx
      · exact absurd hp hy
      · simpa using replaceFirst_isSome ⟨x, hx, hp⟩

theorem mem_of_replaceFirst {p : FdEvent δ → Bool} {e : FdEvent δ} :
    ∀ {fds fds' : List (FdEvent δ)}, replaceFirst p e fds = some fds' → e ∈ fds'
  | [], _, h => by simp [replaceFirst] at h
  | x :: xs, fds', h => by
    rw [replaceFirst] at h
    split_ifs at h
    · rw [← Option.some.inj h]
      exact List.mem_cons_self
    · obtain ⟨ys, hys, rfl⟩ := Option.map_eq_some_iff.mp h
      exact List.mem_cons_of_mem x (mem_of_replaceFirst hys)

/-- **`set_fd_event` with room**: it succeeds, and the event is in the table. -/
theorem setFdEvent_hasSlot {e : FdEvent δ} {fds : List (FdEvent δ)} (h : HasSlot e.fd fds) :
    ∃ fds', setFdEvent e fds = some fds' ∧ e ∈ fds' := by
  obtain ⟨x, hx, hfd⟩ := h
  unfold setFdEvent
  split
  · next fds' hfds => exact ⟨fds', rfl, mem_of_replaceFirst hfds⟩
  · next hnone =>
    have hneg : x.fd < 0 := by
      refine hfd.resolve_left fun heq => ?_
      have := replaceFirst_isSome (p := (·.fd = e.fd)) (e := e) ⟨x, hx, by simpa using heq⟩
      rw [hnone] at this
      cases this
    obtain ⟨fds', hfds⟩ := Option.isSome_iff_exists.mp
      (replaceFirst_isSome (p := (·.fd < 0)) (e := e) ⟨x, hx, by simpa using hneg⟩)
    exact ⟨fds', hfds, mem_of_replaceFirst hfds⟩

theorem hasSlot_of_mem {e : FdEvent δ} {fds : List (FdEvent δ)} (h : e ∈ fds) : HasSlot e.fd fds :=
  ⟨e, h, Or.inl rfl⟩

/-! ### Where the event goes -/

/-- Slot `i`; there is a free one beyond the table. -/
def slot (fds : List (FdEvent δ)) (i : ℕ) : FdEvent δ := fds.getD i {}

theorem slot_set {fds : List (FdEvent δ)} {k : ℕ} (hk : k < fds.length) (e : FdEvent δ) (i : ℕ) :
    slot (fds.set k e) i = if i = k then e else slot fds i := by
  unfold slot
  rw [List.getD_eq_getElem?_getD, List.getElem?_set, List.getD_eq_getElem?_getD]
  by_cases hi : k = i
  · subst hi
    simp [hk]
  · rw [if_neg hi, if_neg (Ne.symm hi)]

theorem forall_slot {P : FdEvent δ → Prop} (hfree : P {}) {fds : List (FdEvent δ)} :
    (∀ i, P (slot fds i)) ↔ ∀ x ∈ fds, P x := by
  constructor
  · intro h x hx
    obtain ⟨i, hi, rfl⟩ := List.getElem_of_mem hx
    have hslot := h i
    rwa [slot, List.getD_eq_getElem _ _ hi] at hslot
  · intro h i
    by_cases hi : i < fds.length
    · rw [slot, List.getD_eq_getElem _ _ hi]
      exact h _ (List.getElem_mem hi)
    · rw [slot, List.getD_eq_default _ _ (by omega)]
      exact hfree

theorem replaceFirst_eq_some {p : FdEvent δ → Bool} {e : FdEvent δ} :
    ∀ {fds fds' : List (FdEvent δ)}, replaceFirst p e fds = some fds' →
    ∃ k < fds.length, p (slot fds k) = true ∧ fds' = fds.set k e
  | [], _, h => by simp [replaceFirst] at h
  | x :: xs, fds', h => by
    rw [replaceFirst] at h
    split_ifs at h with hx
    · exact ⟨0, by simp, hx, (Option.some.inj h).symm⟩
    · obtain ⟨ys, hys, rfl⟩ := Option.map_eq_some_iff.mp h
      obtain ⟨k, hk, hp, rfl⟩ := replaceFirst_eq_some hys
      exact ⟨k + 1, by simpa using hk, hp, rfl⟩

theorem replaceFirst_eq_none {p : FdEvent δ → Bool} {e : FdEvent δ} {fds : List (FdEvent δ)}
    (h : replaceFirst p e fds = none) : ∀ x ∈ fds, p x = false := by
  intro x hx
  by_contra hp
  have hsome := replaceFirst_isSome (e := e) ⟨x, hx, by simpa using hp⟩
  rw [h] at hsome
  cases hsome

/-- The table after an event was put into slot `k`, which was that of its descriptor unless it had none. -/
structure PutAt (fds : List (FdEvent δ)) (e : FdEvent δ) (k : ℕ) (fds' : List (FdEvent δ)) : Prop where
  slot : ∀ i, slot fds' i = if i = k then e else slot fds i
  own : (EventTable.slot fds k).fd = e.fd ∨ ∀ x ∈ fds, x.fd ≠ e.fd

/-- **`set_fd_event`** that returns 0 has filled the slot of the descriptor, or a free one if there was no
such slot. -/
theorem setFdEvent_eq_some {e : FdEvent δ} {fds fds' : List (FdEvent δ)} (h : setFdEvent e fds = some fds') :
    ∃ k < fds.length, fds' = fds.set k e ∧
      ((slot fds k).fd = e.fd ∨ (slot fds k).fd < 0 ∧ ∀ x ∈ fds, x.fd ≠ e.fd) := by
  unfold setFdEvent at h
  cases hown : replaceFirst (·.fd = e.fd) e fds with
  | some own =>
    rw [hown] at h
    obtain rfl := Option.some.inj h
    obtain ⟨k, hk, hfd, rfl⟩ := replaceFirst_eq_some hown
    exact ⟨k, hk, rfl, .inl (by simpa using hfd)⟩
  | none =>
    rw [hown] at h
    obtain ⟨k, hk, hfd, rfl⟩ := replaceFirst_eq_some h
    have hnone : ∀ x ∈ fds, x.fd ≠ e.fd := fun x hx => by simpa using replaceFirst_eq_none hown x hx
    exact ⟨k, hk, rfl, .inr ⟨by simpa using hfd, hnone⟩⟩

/-- It returns `-1` if there is neither. -/
theorem setFdEvent_eq_none_iff {e : FdEvent δ} {fds : List (FdEvent δ)} :
    setFdEvent e fds = none ↔ ∀ x ∈ fds, x.fd ≠ e.fd ∧ 0 ≤ x.fd := by
  constructor
  · intro h x hx
    by_contra hslot
    have hhas : HasSlot e.fd fds := ⟨x, hx, by omega⟩
    obtain ⟨fds', hsome, -⟩ := setFdEvent_hasSlot hhas
    rw [h] at hsome
    cases hsome
  · intro h
    by_contra hne
    obtain ⟨fds', hsome⟩ := Option.ne_none_iff_exists'.mp hne
    obtain ⟨k, hk, -, hfd⟩ := setFdEvent_eq_some hsome
    have hmem : slot fds k ∈ fds := by
      rw [slot, List.getD_eq_getElem _ _ hk]
      exact List.getElem_mem hk
    obtain ⟨hother, hnonneg⟩ := h _ hmem
    rcases hfd with hfd | ⟨hfd, -⟩
    · exact hother hfd
    · omega

/-- **`set_fd_event`** finds a slot, or the descriptor has none. -/
theorem setFdEvent_cases (e : FdEvent δ) (fds : List (FdEvent δ)) :
    (∃ k, PutAt fds e k ((setFdEvent e fds).getD fds)) ∨
      (setFdEvent e fds).getD fds = fds ∧ ∀ x ∈ fds, x.fd ≠ e.fd := by
  cases h : setFdEvent e fds with
  | some fds' =>
    obtain ⟨k, hk, rfl, hfd⟩ := setFdEvent_eq_some h
    exact .inl ⟨k, fun i => slot_set hk e i, hfd.imp_right And.right⟩
  | none => exact .inr ⟨rfl, fun x hx => (setFdEvent_eq_none_iff.mp h x hx).1⟩

theorem clearFdEvent_cases (fd : ℤ) (fds : List (FdEvent δ)) :
    (∃ k, (slot fds k).fd = fd ∧
      ∀ i, slot ((clearFdEvent fd fds).getD fds) i = if i = k then {} else slot fds i) ∨
      (clearFdEvent fd fds).getD fds = fds := by
  unfold clearFdEvent
  cases h : replaceFirst (·.fd = fd) {} fds with
  | some fds' =>
    obtain ⟨k, hk, hfd, rfl⟩ := replaceFirst_eq_some h
    exact .inl ⟨k, by simpa using hfd, fun i => slot_set hk {} i⟩
  | none => exact .inr rfl

end Waveplay.RaopPlay.EventTable
