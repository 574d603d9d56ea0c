import Mathlib.Data.List.Nodup
import Mathlib.Tactic.Common

/-! # Maps that keep the order of insertion

A `LinkedMap` is the list of its entries, with one entry at most for a key. A new key goes to the end, and
setting a key that is there leaves it in its place. -/

namespace Waveplay.Lib

@[ext]
structure LinkedMap (κ α : Type*) where
  entries : List (κ × α)
  nodup : (entries.map Prod.fst).Nodup

namespace LinkedMap

variable {κ α : Type*}

def empty : LinkedMap κ α := ⟨[], List.nodup_nil⟩

variable [DecidableEq κ]

def get (m : LinkedMap κ α) (k : κ) : Option α := (m.entries.find? fun e => e.1 = k).map Prod.snd

/-- The entry of a key that is there is replaced. -/
def replace (m : LinkedMap κ α) (k : κ) (a : α) : LinkedMap κ α where
  entries := m.entries.map fun e => (e.1, if e.1 = k then a else e.2)
  nodup := by
    rw [List.map_map]
    exact m.nodup

/-- A key that is not there is added. -/
def append (m : LinkedMap κ α) (k : κ) (a : α) (h : k ∉ m.entries.map Prod.fst) : LinkedMap κ α where
  entries := m.entries ++ [(k, a)]
  nodup := by
    have hconcat := m.nodup.concat h
    rw [List.concat_eq_append] at hconcat
    rw [List.map_append]
    exact hconcat

def put (m : LinkedMap κ α) (k : κ) (a : α) : LinkedMap κ α :=
  if h : k ∈ m.entries.map Prod.fst then m.replace k a else m.append k a h

def remove (m : LinkedMap κ α) (k : κ) : LinkedMap κ α where
  entries := m.entries.filter fun e => e.1 ≠ k
  nodup := m.nodup.sublist (List.filter_sublist.map Prod.fst)

/-! ### What is there -/

variable {m : LinkedMap κ α} {k : κ} {a b : α}

theorem get_eq_some_iff : m.get k = some a ↔ (k, a) ∈ m.entries := by
  unfold get
  constructor
  · intro h
    obtain ⟨e, he, rfl⟩ := Option.map_eq_some_iff.mp h
    have hkey : e.1 = k := by simpa using List.find?_some he
    exact hkey ▸ List.mem_of_find?_eq_some he
  · intro h
    cases hfind : m.entries.find? fun e => e.1 = k with
    | none =>
      have hne := List.find?_eq_none.mp hfind (k, a) h
      exact absurd (decide_eq_true rfl) hne
    | some e =>
      have hkey : e.1 = k := by simpa using List.find?_some hfind
      have heq : e = (k, a) :=
        List.inj_on_of_nodup_map m.nodup (List.mem_of_find?_eq_some hfind) h hkey
      rw [heq]
      rfl

theorem get_eq_none_iff : m.get k = none ↔ k ∉ m.entries.map Prod.fst := by
  constructor
  · intro h hmem
    obtain ⟨⟨j, a⟩, he, rfl⟩ := List.mem_map.mp hmem
    rw [get_eq_some_iff.mpr he] at h
    cases h
  · intro h
    rw [Option.eq_none_iff_forall_ne_some]
    exact fun a ha => h (List.mem_map_of_mem (get_eq_some_iff.mp ha))

theorem entries_put_of_none (h : m.get k = none) : (m.put k a).entries = m.entries ++ [(k, a)] := by
  rw [put, dif_neg (get_eq_none_iff.mp h)]
  rfl

theorem entries_put_of_some (h : m.get k = some b) :
    (m.put k a).entries = m.entries.map fun e => (e.1, if e.1 = k then a else e.2) := by
  have hmem : k ∈ m.entries.map Prod.fst := List.mem_map_of_mem (get_eq_some_iff.mp h)
  rw [put, dif_pos hmem]
  rfl

/-- What is set is found, and the other keys keep what they have. -/
theorem get_put (m : LinkedMap κ α) (k j : κ) (a : α) :
    (m.put k a).get j = if k = j then some a else m.get j := by
  by_cases hj : k = j
  · subst hj
    rw [if_pos rfl, get_eq_some_iff]
    cases hk : m.get k with
    | none =>
      rw [entries_put_of_none hk]
      exact List.mem_append_right _ List.mem_cons_self
    | some b =>
      rw [entries_put_of_some hk]
      exact List.mem_map.mpr ⟨(k, b), get_eq_some_iff.mp hk, by rw [if_pos rfl]⟩
  · rw [if_neg hj]
    refine Option.ext fun c => ?_
    rw [get_eq_some_iff, get_eq_some_iff]
    cases hk : m.get k with
    | none =>
      rw [entries_put_of_none hk, List.mem_append, List.mem_singleton]
      exact or_iff_left fun heq => hj (congrArg Prod.fst heq).symm
    | some b =>
      rw [entries_put_of_some hk, List.mem_map]
      constructor
      · rintro ⟨e, he, heq⟩
        obtain ⟨rfl, rfl⟩ := Prod.mk.inj heq
        rwa [if_neg (Ne.symm hj)]
      · intro he
        exact ⟨(j, c), he, by rw [if_neg (Ne.symm hj)]⟩

theorem get_remove (m : LinkedMap κ α) (k j : κ) :
    (m.remove k).get j = if k = j then none else m.get j := by
  refine Option.ext fun c => ?_
  rw [get_eq_some_iff, remove, List.mem_filter]
  split_ifs with hj
  · simp [hj]
  · rw [get_eq_some_iff]
    simp [Ne.symm hj]

/-! ### Calls that change nothing -/

theorem remove_of_none (h : m.get k = none) : m.remove k = m := by
  refine LinkedMap.ext (List.filter_eq_self.mpr fun e he => ?_)
  refine decide_eq_true fun hkey => get_eq_none_iff.mp h ?_
  exact hkey ▸ List.mem_map_of_mem he

theorem put_of_some (h : m.get k = some a) : m.put k a = m := by
  refine LinkedMap.ext ?_
  rw [entries_put_of_some h]
  refine (List.map_congr_left fun e he => ?_).trans (List.map_id _)
  split_ifs with hkey
  · have hget := get_eq_some_iff.mpr he
    rw [hkey, h] at hget
    rw [Option.some.inj hget]
    rfl
  · rfl

end LinkedMap

end Waveplay.Lib
