import Mathlib.Data.Finmap
import Mathlib.Data.List.Induction

/-! # Finite maps of bounded size

A `Bounded` map has room for `n` keys. A command sets the value of a key, which fails if the key is new and
there is no room for it, or takes a key out, which fails if it is not there. What a key has after a sequence
of commands is what the latest command on it has set (`lookup_after`). -/

namespace Waveplay.Lib.BoundedMap

/-- A finite map with at most `n` keys. -/
structure Bounded (κ α : Type*) (n : ℕ) where
  map : Finmap fun _ : κ => α
  card_le : map.keys.card ≤ n

/-- The commands. -/
inductive Cmd (κ α : Type*)
  | set (k : κ) (a : α)
  | clear (k : κ)

variable {κ α : Type*} {n : ℕ}

def Cmd.key : Cmd κ α → κ
  | .set k _ => k
  | .clear k => k

/-- The map without a key. -/
def empty : Bounded κ α n := ⟨∅, by simp⟩

variable [DecidableEq κ]

def lookup (m : Bounded κ α n) (k : κ) : Option α := m.map.lookup k

theorem keys_insert (m : Finmap fun _ : κ => α) (k : κ) (a : α) :
    (m.insert k a).keys = insert k m.keys := by
  ext j
  rw [Finmap.mem_keys, Finmap.mem_insert, Finset.mem_insert, Finmap.mem_keys]

theorem card_insert_le {m : Bounded κ α n} {k : κ} (a : α)
    (h : (lookup m k).isSome ∨ m.map.keys.card < n) : (m.map.insert k a).keys.card ≤ n := by
  rw [keys_insert]
  rcases h with h | h
  · have hmem : k ∈ m.map.keys := Finmap.mem_keys.mpr (Finmap.lookup_isSome.mp h)
    rw [Finset.insert_eq_of_mem hmem]
    exact m.card_le
  · exact (Finset.card_insert_le k m.map.keys).trans h

theorem card_erase_le (m : Bounded κ α n) (k : κ) : (m.map.erase k).keys.card ≤ n := by
  rw [Finmap.keys_erase]
  exact (Finset.card_erase_le).trans m.card_le

/-- A command, `none` if it fails. -/
def exec (m : Bounded κ α n) : Cmd κ α → Option (Bounded κ α n)
  | .set k a =>
    if h : (lookup m k).isSome ∨ m.map.keys.card < n then some ⟨m.map.insert k a, card_insert_le a h⟩
    else none
  | .clear k => if (lookup m k).isSome then some ⟨m.map.erase k, card_erase_le m k⟩ else none

/-- The map after a command; one that fails changes nothing. -/
def next (m : Bounded κ α n) (c : Cmd κ α) : Bounded κ α n := (exec m c).getD m

/-- The map after a sequence of commands. -/
def after (m : Bounded κ α n) (cs : List (Cmd κ α)) : Bounded κ α n := cs.foldl next m

theorem lookup_empty (k : κ) : lookup (empty : Bounded κ α n) k = none := Finmap.lookup_empty k

theorem lookup_next_of_ne {m : Bounded κ α n} {c : Cmd κ α} {k : κ} (h : c.key ≠ k) :
    lookup (next m c) k = lookup m k := by
  unfold next
  cases c with
  | set j a =>
    rw [exec]
    split_ifs
    · exact Finmap.lookup_insert_of_ne _ (Ne.symm h)
    · rfl
  | clear j =>
    rw [exec]
    split_ifs
    · exact Finmap.lookup_erase_ne (Ne.symm h)
    · rfl

theorem eq_set_of_lookup_next {m : Bounded κ α n} {c : Cmd κ α} {a : α}
    (h : lookup (next m c) c.key = some a) : c = .set c.key a := by
  unfold next at h
  cases c with
  | set j b =>
    rw [exec] at h
    split_ifs at h with hroom
    · have hsome : some b = some a := (Finmap.lookup_insert m.map).symm.trans h
      rw [Option.some.inj hsome]
      rfl
    · have hlookup : lookup m j = some a := h
      exact absurd (.inl (by rw [hlookup]; rfl)) hroom
  | clear j =>
    rw [exec] at h
    split_ifs at h with hsome
    · have hnone : none = some a := (Finmap.lookup_erase j m.map).symm.trans h
      cases hnone
    · have hlookup : lookup m j = some a := h
      exact absurd (by rw [hlookup]; rfl) hsome

/-- **The latest command** on a key that is there has set it. -/
theorem lookup_after {cs : List (Cmd κ α)} {k : κ} {a : α}
    (h : lookup (after (empty : Bounded κ α n) cs) k = some a) :
    ∃ pre post, cs = pre ++ .set k a :: post ∧ ∀ c ∈ post, c.key ≠ k := by
  induction cs using List.reverseRecOn with
  | nil =>
    rw [after, List.foldl_nil, lookup_empty] at h
    cases h
  | append_singleton cs c ih =>
    rw [after, List.foldl_append, List.foldl_cons, List.foldl_nil] at h
    by_cases hkey : c.key = k
    · subst hkey
      have hc := eq_set_of_lookup_next h
      exact ⟨cs, [], by rw [← hc], by simp⟩
    · rw [lookup_next_of_ne hkey] at h
      obtain ⟨pre, post, rfl, hpost⟩ := ih h
      refine ⟨pre, post ++ [c], by simp, fun d hd => ?_⟩
      rcases List.mem_append.mp hd with hd | hd
      · exact hpost d hd
      · rw [List.mem_singleton.mp hd]
        exact hkey

end Waveplay.Lib.BoundedMap
