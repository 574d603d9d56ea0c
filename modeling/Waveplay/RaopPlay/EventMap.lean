import Mathlib.Data.Finset.Card
import Waveplay.Lib.BoundedMap
import Waveplay.RaopPlay.EventTable

/-! # The event table as a bounded map

The four slots of the table hold a finite map from descriptors to events, with room for four.

* `Represents`: the slots in use are the entries of the map.
* `represents_set`, `represents_clear`: `set_fd_event` and `clear_fd_event` do what the map does, and fail
  when it does.
* `represents_after`: so do sequences of calls.
* `eventTable_boundedMap`: what this says of the slots and of the results. -/

namespace Waveplay.RaopPlay.EventMap

open Waveplay.Lib.BoundedMap Waveplay.RaopPlay.EventTable

variable {δ : Type*}

/-! ### Calls -/

/-- A call of `set_fd_event` or `clear_fd_event`. -/
inductive Call (δ : Type*)
  | set (e : FdEvent δ)
  | clear (fd : ℤ)

def Call.fd : Call δ → ℤ
  | .set e => e.fd
  | .clear fd => fd

/-- The table after the call if it returns 0. -/
def Call.exec (fds : List (FdEvent δ)) : Call δ → Option (List (FdEvent δ))
  | .set e => setFdEvent e fds
  | .clear fd => clearFdEvent fd fds

/-- The table after the call; one that returns `-1` writes to no slot. -/
def Call.next (fds : List (FdEvent δ)) (c : Call δ) : List (FdEvent δ) := (c.exec fds).getD fds

/-- The table after the calls. -/
def tableAfter (calls : List (Call δ)) : List (FdEvent δ) := calls.foldl Call.next emptyTable

/-- The descriptor has a slot. -/
def Registered (fds : List (FdEvent δ)) (fd : ℤ) : Prop := ∃ x ∈ fds, x.fd = fd

/-! ### The map -/

/-- The map that a table stands for. -/
abbrev FdMap (δ : Type*) := Bounded ℤ (FdEvent δ) MAX_NUM_OF_FDS

/-- The command of a call. -/
def Call.cmd : Call δ → Cmd ℤ (FdEvent δ)
  | .set e => .set e.fd e
  | .clear fd => .clear fd

/-- The slots with a descriptor are the entries of the map. -/
structure Represents (fds : List (FdEvent δ)) (m : FdMap δ) : Prop where
  length : fds.length = MAX_NUM_OF_FDS
  unique : ∀ i j, 0 ≤ (slot fds i).fd → (slot fds i).fd = (slot fds j).fd → i = j
  entry : ∀ fd e, lookup m fd = some e ↔ 0 ≤ fd ∧ e.fd = fd ∧ ∃ i, slot fds i = e

theorem free_fd : ¬ 0 ≤ ({} : FdEvent δ).fd := by
  show ¬ (0 : ℤ) ≤ -1
  omega

theorem slot_emptyTable (i : ℕ) : slot (emptyTable : List (FdEvent δ)) i = {} :=
  (forall_slot (P := fun x => x = {}) rfl).mpr (fun _ hx => List.eq_of_mem_replicate hx) i

theorem represents_empty : Represents (emptyTable : List (FdEvent δ)) empty where
  length := List.length_replicate
  unique i j hi _ := by
    rw [slot_emptyTable] at hi
    exact absurd hi free_fd
  entry fd e := by
    rw [lookup_empty]
    refine ⟨fun h => absurd h (by simp), ?_⟩
    rintro ⟨hfd, rfl, i, rfl⟩
    rw [slot_emptyTable] at hfd
    exact absurd hfd free_fd

section

variable {fds fds' : List (FdEvent δ)} {m : FdMap δ}

theorem registered_iff_slot {fd : ℤ} (hfd : 0 ≤ fd) : Registered fds fd ↔ ∃ i, (slot fds i).fd = fd := by
  constructor
  · rintro ⟨x, hx, rfl⟩
    obtain ⟨i, hi, rfl⟩ := List.getElem_of_mem hx
    exact ⟨i, by rw [slot, List.getD_eq_getElem _ _ hi]⟩
  · rintro ⟨i, rfl⟩
    have hi : i < fds.length := by
      by_contra hi
      rw [slot, List.getD_eq_default _ _ (by omega)] at hfd
      exact absurd hfd free_fd
    refine ⟨slot fds i, ?_, rfl⟩
    rw [slot, List.getD_eq_getElem _ _ hi]
    exact List.getElem_mem hi

theorem Represents.registered (h : Represents fds m) {fd : ℤ} (hfd : 0 ≤ fd) :
    Registered fds fd ↔ (lookup m fd).isSome := by
  rw [registered_iff_slot hfd, Option.isSome_iff_exists]
  constructor
  · rintro ⟨i, hi⟩
    exact ⟨slot fds i, (h.entry fd _).mpr ⟨hfd, hi, i, rfl⟩⟩
  · rintro ⟨e, he⟩
    obtain ⟨-, hfd', i, rfl⟩ := (h.entry fd e).mp he
    exact ⟨i, hfd'⟩

theorem Represents.keys (h : Represents fds m) : m.map.keys =
    ((Finset.range MAX_NUM_OF_FDS).filter fun i => 0 ≤ (slot fds i).fd).image fun i => (slot fds i).fd := by
  ext fd
  rw [Finmap.mem_keys, ← Finmap.lookup_isSome, Finset.mem_image]
  constructor
  · intro hsome
    obtain ⟨e, he⟩ := Option.isSome_iff_exists.mp hsome
    obtain ⟨hfd, hefd, i, rfl⟩ := (h.entry fd e).mp he
    refine ⟨i, ?_, hefd⟩
    have hi : i < fds.length := by
      by_contra hi
      rw [slot, List.getD_eq_default _ _ (by omega)] at hefd
      rw [← hefd] at hfd
      exact absurd hfd free_fd
    rw [Finset.mem_filter, Finset.mem_range, hefd, ← h.length]
    exact ⟨hi, hfd⟩
  · rintro ⟨i, hi, rfl⟩
    obtain ⟨-, hfd⟩ := Finset.mem_filter.mp hi
    have hentry := (h.entry _ (slot fds i)).mpr ⟨hfd, rfl, i, rfl⟩
    exact Option.isSome_iff_exists.mpr ⟨_, hentry⟩

theorem Represents.room (h : Represents fds m) :
    m.map.keys.card < MAX_NUM_OF_FDS ↔ ∃ x ∈ fds, x.fd < 0 := by
  have hinj : Set.InjOn (fun i => (slot fds i).fd)
      ((Finset.range MAX_NUM_OF_FDS).filter fun i => 0 ≤ (slot fds i).fd) := by
    intro i hi j _ hij
    exact h.unique i j (Finset.mem_filter.mp hi).2 hij
  have hcard : m.map.keys.card =
      ((Finset.range MAX_NUM_OF_FDS).filter fun i => 0 ≤ (slot fds i).fd).card := by
    rw [h.keys, Finset.card_image_of_injOn hinj]
  have hall := Finset.card_filter_eq_iff (s := Finset.range MAX_NUM_OF_FDS)
    (p := fun i => 0 ≤ (slot fds i).fd)
  rw [← hcard, Finset.card_range] at hall
  have hle := m.card_le
  have hslots : (∀ i ∈ Finset.range MAX_NUM_OF_FDS, 0 ≤ (slot fds i).fd) ↔ ∀ x ∈ fds, 0 ≤ x.fd := by
    constructor
    · intro hslot x hx
      obtain ⟨i, hi, rfl⟩ := List.getElem_of_mem hx
      have hi' := hslot i (Finset.mem_range.mpr (h.length ▸ hi))
      rwa [slot, List.getD_eq_getElem _ _ hi] at hi'
    · intro hmem i hi
      have hi' : i < fds.length := h.length ▸ Finset.mem_range.mp hi
      rw [slot, List.getD_eq_getElem _ _ hi']
      exact hmem _ (List.getElem_mem hi')
  rw [hslots] at hall
  constructor
  · intro hlt
    by_contra hnone
    have hfull := hall.mpr fun x hx => not_lt.mp fun hneg => hnone ⟨x, hx, hneg⟩
    omega
  · rintro ⟨x, hx, hneg⟩
    refine lt_of_le_of_ne hle fun hfull => ?_
    have hnonneg := hall.mp hfull x hx
    omega

/-- The slot `k` is filled with `x`, whose descriptor no other slot has: the descriptor that was there has no
entry any more, and that of `x`, if it is one, has the entry `x`. -/
theorem Represents.replace (h : Represents fds m) {k : ℕ} (hk : k < fds.length) {x : FdEvent δ}
    (hother : ∀ i, i ≠ k → 0 ≤ x.fd → (slot fds i).fd ≠ x.fd) {m' : FdMap δ}
    (hneg : ∀ fd, fd < 0 → lookup m' fd = none) (hat : 0 ≤ x.fd → lookup m' x.fd = some x)
    (hold : ∀ fd, fd ≠ x.fd → (slot fds k).fd = fd → lookup m' fd = none)
    (hoff : ∀ fd, fd ≠ x.fd → (slot fds k).fd ≠ fd → lookup m' fd = lookup m fd) :
    Represents (fds.set k x) m' := by
  refine ⟨by rw [List.length_set]; exact h.length, fun i j hi hij => ?_, fun fd y => ?_⟩
  · rw [slot_set hk] at hi
    rw [slot_set hk, slot_set hk] at hij
    split_ifs at hi hij with hik hjk hjk
    · rw [hik, hjk]
    · exact absurd hij.symm (hother j hjk hi)
    · exact absurd hij (hother i hik (hij ▸ hi))
    · exact h.unique i j hi hij
  · by_cases hfd : 0 ≤ fd
    · by_cases hown : fd = x.fd
      · subst hown
        rw [hat hfd]
        constructor
        · intro hy
          obtain rfl := Option.some.inj hy
          exact ⟨hfd, rfl, k, by rw [slot_set hk, if_pos rfl]⟩
        · rintro ⟨-, hyfd, i, rfl⟩
          rw [slot_set hk] at hyfd ⊢
          split_ifs at hyfd ⊢ with hik
          · rfl
          · exact absurd hyfd (hother i hik hfd)
      · -- the slot `k` had another descriptor, or this one has no slot now
        have hslots : (∃ i, slot (fds.set k x) i = y) ∧ y.fd = fd ↔
            ((∃ i, slot fds i = y) ∧ y.fd = fd) ∧ (slot fds k).fd ≠ fd := by
          constructor
          · rintro ⟨⟨i, hi⟩, hyfd⟩
            rw [slot_set hk] at hi
            split_ifs at hi with hik
            · rw [← hi] at hyfd
              exact absurd hyfd.symm hown
            · refine ⟨⟨⟨i, hi⟩, hyfd⟩, fun hkfd => hik ?_⟩
              have hifd : (slot fds i).fd = fd := by rw [hi, hyfd]
              exact h.unique i k (hifd ▸ hfd) (hifd.trans hkfd.symm)
          · rintro ⟨⟨⟨i, hi⟩, hyfd⟩, hkfd⟩
            refine ⟨⟨i, ?_⟩, hyfd⟩
            rw [slot_set hk, if_neg]
            · exact hi
            · rintro rfl
              exact hkfd (by rw [hi, hyfd])
        have hentry := h.entry fd y
        by_cases hkfd : (slot fds k).fd = fd
        · rw [hold fd hown hkfd]
          refine ⟨fun hy => absurd hy (by simp), fun ⟨_, hyfd, hi⟩ => ?_⟩
          exact absurd hkfd (hslots.mp ⟨hi, hyfd⟩).2
        · rw [hoff fd hown hkfd, hentry]
          constructor
          · rintro ⟨-, hyfd, hi⟩
            exact ⟨hfd, hyfd, (hslots.mpr ⟨⟨hi, hyfd⟩, hkfd⟩).1⟩
          · rintro ⟨-, hyfd, hi⟩
            exact ⟨hfd, hyfd, (hslots.mp ⟨hi, hyfd⟩).1.1⟩
    · rw [hneg fd (by omega)]
      exact ⟨fun hy => absurd hy (by simp), fun hy => absurd hy.1 hfd⟩

theorem Represents.lookup_neg (h : Represents fds m) {fd : ℤ} (hfd : fd < 0) : lookup m fd = none := by
  by_contra hne
  obtain ⟨e, he⟩ := Option.ne_none_iff_exists'.mp hne
  have hnonneg := ((h.entry fd e).mp he).1
  omega

/-- **`set_fd_event`** does what the map does. -/
theorem represents_set (h : Represents fds m) {e : FdEvent δ} (he : 0 ≤ e.fd) :
    ((setFdEvent e fds).isSome ↔ (exec m (.set e.fd e)).isSome) ∧
      Represents ((setFdEvent e fds).getD fds) (next m (.set e.fd e)) := by
  have hfails : setFdEvent e fds = none ↔ ¬ ((lookup m e.fd).isSome ∨ m.map.keys.card < MAX_NUM_OF_FDS) := by
    rw [setFdEvent_eq_none_iff, ← h.registered he, h.room]
    constructor
    · rintro hall (⟨x, hx, hfd⟩ | ⟨x, hx, hneg⟩)
      · exact (hall x hx).1 hfd
      · have hnonneg := (hall x hx).2
        omega
    · intro hnone x hx
      refine ⟨fun hfd => hnone (.inl ⟨x, hx, hfd⟩), ?_⟩
      by_contra hneg
      exact hnone (.inr ⟨x, hx, by omega⟩)
  unfold next
  rw [exec]
  split_ifs with hroom
  · obtain ⟨fds', hset⟩ := Option.ne_none_iff_exists'.mp fun hnone => hfails.mp hnone hroom
    obtain ⟨k, hk, rfl, hfd⟩ := setFdEvent_eq_some hset
    rw [hset]
    have hoff : ∀ fd, fd ≠ e.fd → lookup (⟨m.map.insert e.fd e, card_insert_le e hroom⟩ : FdMap δ) fd =
        lookup m fd := fun fd hne => Finmap.lookup_insert_of_ne m.map hne
    refine ⟨Iff.rfl, h.replace hk (fun i hik _ hi => ?_) (fun fd hneg => ?_) (fun _ => ?_)
      (fun fd hne hkfd => ?_) fun fd hne _ => hoff fd hne⟩
    · rcases hfd with hfd | ⟨-, hnone⟩
      · exact hik (h.unique i k (hi ▸ he) (hi.trans hfd.symm))
      · obtain ⟨x, hx, hxfd⟩ := (registered_iff_slot he).mpr ⟨i, hi⟩
        exact hnone x hx hxfd
    · exact (hoff fd (by omega)).trans (h.lookup_neg hneg)
    · exact Finmap.lookup_insert m.map
    · rcases hfd with hfd | ⟨hfd, -⟩
      · exact absurd (hkfd.symm.trans hfd) hne
      · exact (hoff fd hne).trans (h.lookup_neg (hkfd ▸ hfd))
  · rw [hfails.mpr hroom]
    exact ⟨Iff.rfl, h⟩

theorem clearFdEvent_eq_none_iff {fd : ℤ} : clearFdEvent fd fds = none ↔ ¬ Registered fds fd := by
  constructor
  · rintro hnone ⟨x, hx, hfd⟩
    have hp := replaceFirst_eq_none hnone x hx
    simp [hfd] at hp
  · intro habsent
    by_contra hne
    obtain ⟨fds', hsome⟩ := Option.ne_none_iff_exists'.mp hne
    obtain ⟨k, hk, hfd, -⟩ := replaceFirst_eq_some hsome
    refine absurd ⟨slot fds k, ?_, by simpa using hfd⟩ habsent
    rw [slot, List.getD_eq_getElem _ _ hk]
    exact List.getElem_mem hk

/-- **`clear_fd_event`** does what the map does. -/
theorem represents_clear (h : Represents fds m) {fd : ℤ} (hfd : 0 ≤ fd) :
    ((clearFdEvent fd fds).isSome ↔ (exec m (.clear fd)).isSome) ∧
      Represents ((clearFdEvent fd fds).getD fds) (next m (.clear fd)) := by
  unfold next
  rw [exec]
  have hreg := h.registered hfd
  cases hclear : clearFdEvent fd fds with
  | none =>
    have habsent := clearFdEvent_eq_none_iff.mp hclear
    rw [if_neg fun hsome => habsent (hreg.mpr hsome)]
    exact ⟨Iff.rfl, h⟩
  | some fds' =>
    obtain ⟨k, hk, hkfd, rfl⟩ := replaceFirst_eq_some hclear
    have hkfd : (slot fds k).fd = fd := by simpa using hkfd
    have hsome := hreg.mp ((registered_iff_slot hfd).mpr ⟨k, hkfd⟩)
    rw [if_pos hsome]
    have hoff : ∀ j, j ≠ fd → lookup (⟨m.map.erase fd, card_erase_le m fd⟩ : FdMap δ) j = lookup m j :=
      fun j hne => Finmap.lookup_erase_ne hne
    refine ⟨Iff.rfl, h.replace hk (fun _ _ hfree => absurd hfree free_fd) (fun j hneg => ?_)
      (fun hfree => absurd hfree free_fd) (fun j _ hj => ?_) fun j _ hj => ?_⟩
    · exact (hoff j (by omega)).trans (h.lookup_neg hneg)
    · rw [← hj, hkfd]
      exact Finmap.lookup_erase fd m.map
    · exact hoff j fun heq => hj (hkfd.trans heq.symm)

end

/-! ### Sequences of calls -/

theorem Call.key_cmd (c : Call δ) : c.cmd.key = c.fd := by
  cases c <;> rfl

theorem Call.cmd_eq_set {c : Call δ} {e : FdEvent δ} (h : c.cmd = .set e.fd e) : c = .set e := by
  cases c with
  | set e' =>
    injection h with _ he
    rw [he]
  | clear fd => cases h

/-- **One call** does what the map does. -/
theorem represents_next {fds : List (FdEvent δ)} {m : FdMap δ} (h : Represents fds m) {c : Call δ}
    (hc : 0 ≤ c.fd) :
    ((c.exec fds).isSome ↔ (exec m c.cmd).isSome) ∧ Represents (c.next fds) (next m c.cmd) := by
  cases c with
  | set e => exact represents_set h hc
  | clear fd => exact represents_clear h hc

/-- **All calls.** -/
theorem represents_after {calls : List (Call δ)} (hcalls : ∀ c ∈ calls, 0 ≤ c.fd) :
    Represents (tableAfter calls) (after empty (calls.map Call.cmd)) := by
  induction calls using List.reverseRecOn with
  | nil => exact represents_empty
  | append_singleton calls c ih =>
    have hinit := ih fun d hd => hcalls d (List.mem_append_left _ hd)
    have hlast := (represents_next hinit (hcalls c (by simp))).2
    unfold tableAfter after at hlast ⊢
    rw [List.foldl_append, List.map_append, List.foldl_append]
    exact hlast

/-- What the map says of the table after the calls. -/
structure MapLike (calls : List (Call δ)) (fds : List (FdEvent δ)) : Prop where
  unique : ∀ i j, 0 ≤ (slot fds i).fd → (slot fds i).fd = (slot fds j).fd → i = j
  latest : ∀ x ∈ fds, 0 ≤ x.fd → ∃ pre post, calls = pre ++ .set x :: post ∧ ∀ c ∈ post, c.fd ≠ x.fd
  setFails : ∀ e, 0 ≤ e.fd → (setFdEvent e fds = none ↔ ¬ Registered fds e.fd ∧
    ∃ others : Finset ℤ, others.card = MAX_NUM_OF_FDS ∧
      ∀ fd ∈ others, 0 ≤ fd ∧ fd ≠ e.fd ∧ Registered fds fd)
  clearFails : ∀ fd, 0 ≤ fd → (clearFdEvent fd fds = none ↔ ¬ Registered fds fd)
  unchanged : ∀ c : Call δ, c.exec fds = none → c.next fds = fds

section

variable {fds : List (FdEvent δ)} {m : FdMap δ}

theorem Represents.latest {calls : List (Call δ)} (h : Represents fds m)
    (hm : m = after empty (calls.map Call.cmd)) {x : FdEvent δ} (hx : x ∈ fds) (hfd : 0 ≤ x.fd) :
    ∃ pre post, calls = pre ++ .set x :: post ∧ ∀ c ∈ post, c.fd ≠ x.fd := by
  obtain ⟨i, hi, rfl⟩ := List.getElem_of_mem hx
  have hslot : slot fds i = fds[i] := by rw [slot, List.getD_eq_getElem _ _ hi]
  have hlookup := (h.entry fds[i].fd fds[i]).mpr ⟨hfd, rfl, i, hslot⟩
  rw [hm] at hlookup
  obtain ⟨pre, post, hsplit, hpost⟩ := lookup_after hlookup
  obtain ⟨calls₁, rest, rfl, rfl, hrest⟩ := List.map_eq_append_iff.mp hsplit
  obtain ⟨c, calls₂, rfl, hc, rfl⟩ := List.map_eq_cons_iff.mp hrest
  obtain rfl := Call.cmd_eq_set hc
  refine ⟨calls₁, calls₂, rfl, fun d hd => ?_⟩
  rw [← d.key_cmd]
  exact hpost _ (List.mem_map_of_mem hd)

theorem Represents.setFails (h : Represents fds m) (e : FdEvent δ) :
    setFdEvent e fds = none ↔ ¬ Registered fds e.fd ∧ ∃ others : Finset ℤ, others.card = MAX_NUM_OF_FDS ∧
      ∀ fd ∈ others, 0 ≤ fd ∧ fd ≠ e.fd ∧ Registered fds fd := by
  have hmem : ∀ fd, fd ∈ m.map.keys ↔ (lookup m fd).isSome := fun fd => by
    rw [Finmap.mem_keys, ← Finmap.lookup_isSome]
    rfl
  have hkeys : ∀ fd, fd ∈ m.map.keys ↔ 0 ≤ fd ∧ Registered fds fd := by
    intro fd
    rw [hmem]
    by_cases hfd : 0 ≤ fd
    · rw [← h.registered hfd, and_iff_right hfd]
    · rw [h.lookup_neg (by omega)]
      exact ⟨fun hsome => absurd hsome (by simp), fun hall => absurd hall.1 hfd⟩
  rw [setFdEvent_eq_none_iff]
  constructor
  · intro hall
    have habsent : ¬ Registered fds e.fd := fun ⟨x, hx, hfd⟩ => (hall x hx).1 hfd
    have hfull : ¬ m.map.keys.card < MAX_NUM_OF_FDS := by
      rw [h.room]
      rintro ⟨x, hx, hneg⟩
      have hnonneg := (hall x hx).2
      omega
    have hle := m.card_le
    refine ⟨habsent, m.map.keys, by omega, fun fd hfd => ?_⟩
    obtain ⟨hnonneg, hreg⟩ := (hkeys fd).mp hfd
    exact ⟨hnonneg, fun heq => habsent (heq ▸ hreg), hreg⟩
  · rintro ⟨habsent, others, hcard, hothers⟩ x hx
    refine ⟨fun hfd => habsent ⟨x, hx, hfd⟩, ?_⟩
    by_contra hneg
    have hroom := h.room.mpr ⟨x, hx, by omega⟩
    have hsubset : others ⊆ m.map.keys := fun fd hfd =>
      (hkeys fd).mpr ⟨(hothers fd hfd).1, (hothers fd hfd).2.2⟩
    have hle := Finset.card_le_card hsubset
    omega

end

/-- **The event table refines a bounded map**: after any calls with descriptors it represents the map after
the commands, and has what the map has. -/
theorem eventTable_boundedMap {calls : List (Call δ)} (hcalls : ∀ c ∈ calls, 0 ≤ c.fd) :
    Represents (tableAfter calls) (after empty (calls.map Call.cmd)) ∧ MapLike calls (tableAfter calls) := by
  have h := represents_after hcalls
  refine ⟨h, h.unique, fun x hx hfd => h.latest rfl hx hfd, fun e _ => h.setFails e,
    fun fd _ => clearFdEvent_eq_none_iff, fun c hnone => ?_⟩
  rw [Call.next, hnone]
  rfl

/-- Two descriptors, one of which is set again after the other is taken out. -/
def someCalls : List (Call Unit) :=
  [.set { fd := 3, read := true }, .set { fd := 5, read := true }, .clear 3,
    .set { fd := 5, read := true, write := true }]

theorem eventTable_someCalls :
    Represents (tableAfter someCalls) (after empty (someCalls.map Call.cmd)) ∧
      MapLike someCalls (tableAfter someCalls) :=
  eventTable_boundedMap (by simp [someCalls, Call.fd])

end Waveplay.RaopPlay.EventMap
