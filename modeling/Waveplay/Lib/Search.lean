import Mathlib.Data.Int.Notation
import Mathlib.Data.List.Infix
import Mathlib.Tactic.Common

/-! # Searching a list

The first and the last place of a pattern in a list, and parts of a list between two places, with `-1`
for a pattern that does not occur and `none` for places that do not lie in the list in their order. -/

namespace Waveplay.Lib.Search

variable {α : Type*} [DecidableEq α]

/-- The first place where `pat` stands in a list. -/
def indexOf (pat : List α) : List α → ℤ
  | [] => if pat = [] then 0 else -1
  | c :: t => if pat <+: c :: t then 0 else if indexOf pat t < 0 then -1 else indexOf pat t + 1

/-- The first place from `start` on. -/
def indexOfFrom (pat t : List α) (start : ℤ) : ℤ :=
  if indexOf pat (t.drop start.toNat) < 0 then -1 else start + indexOf pat (t.drop start.toNat)

/-- The last place where `pat` stands in a list. -/
def lastIndexOf (pat : List α) : List α → ℤ
  | [] => if pat = [] then 0 else -1
  | c :: t => if 0 ≤ lastIndexOf pat t then lastIndexOf pat t + 1 else if pat <+: c :: t then 0 else -1

/-- The part of a list from `start` to before `stop`. -/
def substring (t : List α) (start stop : ℤ) : Option (List α) :=
  if 0 ≤ start ∧ start ≤ stop ∧ stop ≤ t.length then some ((t.take stop.toNat).drop start.toNat) else none

variable {pat a b : List α}

theorem indexOf_neg_iff (t : List α) : indexOf pat t < 0 ↔ ¬ pat <:+: t := by
  induction t with
  | nil =>
    rw [indexOf, List.infix_nil]
    split <;> simp_all
  | cons c t ih =>
    rw [indexOf, List.infix_cons_iff]
    split_ifs with hpre hneg
    · simp [hpre]
    · simp [hpre, ih.mp hneg]
    · have : pat <:+: t := by
        by_contra h
        exact hneg (ih.mpr h)
      simp only [this, or_true, not_true, iff_false]
      omega

/-- The pattern is found after a part where it does not begin. -/
theorem indexOf_append (h : ∀ i < a.length, ¬ pat <+: (a ++ (pat ++ b)).drop i) :
    indexOf pat (a ++ (pat ++ b)) = a.length := by
  induction a with
  | nil =>
    rw [List.nil_append, List.length_nil]
    cases hl : pat ++ b with
    | nil =>
      rw [indexOf, if_pos (List.append_eq_nil_iff.mp hl).1]
      rfl
    | cons c t =>
      rw [indexOf, if_pos (hl ▸ List.prefix_append pat b)]
      rfl
  | cons c a ih =>
    have h0 : ¬ pat <+: c :: (a ++ (pat ++ b)) := h 0 (by simp)
    have ih := ih fun i hi => h (i + 1) (by simpa using hi)
    rw [List.cons_append, indexOf, if_neg h0, ih, if_neg (by omega), List.length_cons]
    omega

theorem indexOf_singleton {c : α} (h : c ∉ a) : indexOf [c] (a ++ c :: b) = a.length := by
  have hfound : indexOf [c] (a ++ ([c] ++ b)) = a.length := indexOf_append fun i hi hpre => h ?_
  · exact hfound
  rw [List.drop_append_of_le_length (by omega), List.drop_eq_getElem_cons hi, List.cons_append,
    List.cons_prefix_cons] at hpre
  exact hpre.1 ▸ List.getElem_mem hi

theorem lastIndexOf_append (hne : pat ≠ [])
    (h : ∀ i, 0 < i → ¬ pat <+: (pat ++ b).drop i) : lastIndexOf pat (a ++ (pat ++ b)) = a.length := by
  have hlast : ∀ t : List α, (∀ i, ¬ pat <+: t.drop i) → lastIndexOf pat t = -1 := by
    intro t ht
    induction t with
    | nil => rw [lastIndexOf, if_neg hne]
    | cons c t ih =>
      have h0 : ¬ pat <+: c :: t := ht 0
      rw [lastIndexOf, ih fun i => ht (i + 1), if_neg (by omega), if_neg h0]
  induction a with
  | nil =>
    rw [List.nil_append]
    cases hl : pat ++ b with
    | nil => exact absurd (List.append_eq_nil_iff.mp hl).1 hne
    | cons c t =>
      have ht : lastIndexOf pat t = -1 := hlast t fun i => by
        have := h (i + 1) (by omega)
        rwa [hl, List.drop_succ_cons] at this
      rw [lastIndexOf, ht, if_neg (by omega), if_pos (hl ▸ List.prefix_append pat b)]
      rfl
  | cons c a ih =>
    rw [List.cons_append, lastIndexOf, ih, if_pos (by omega), List.length_cons]
    omega

theorem lastIndexOf_singleton {c : α} (h : c ∉ b) : lastIndexOf [c] (a ++ c :: b) = a.length := by
  have hfound : lastIndexOf [c] (a ++ ([c] ++ b)) = a.length :=
    lastIndexOf_append (List.cons_ne_nil c []) fun i hi hpre => h ?_
  · exact hfound
  obtain ⟨j, rfl⟩ := Nat.exists_eq_succ_of_ne_zero hi.ne'
  exact List.mem_of_mem_drop (hpre.subset List.mem_cons_self)

theorem lastIndexOf_of_notMem {c : α} {t : List α} (h : c ∉ t) : lastIndexOf [c] t = -1 := by
  induction t with
  | nil => rfl
  | cons d t ih =>
    obtain ⟨hd, ht⟩ := not_or.mp (List.mem_cons.not.mp h)
    have hpre : ¬ [c] <+: d :: t := fun hpre => hd (List.cons_prefix_cons.mp hpre).1
    rw [lastIndexOf, ih ht, if_neg (by decide), if_neg hpre]

omit [DecidableEq α] in
theorem exists_eq_append_cons_notMem {c : α} {t : List α} (h : c ∈ t) : ∃ a b, t = a ++ c :: b ∧ c ∉ b := by
  obtain ⟨a, b, hsplit, ha⟩ := List.eq_append_cons_of_mem (List.mem_reverse.mpr h)
  refine ⟨b.reverse, a.reverse, ?_, List.mem_reverse.not.mpr ha⟩
  rw [← List.reverse_reverse t, hsplit]
  simp

omit [DecidableEq α] in
theorem isPrefix_of_notMem {c : α} (hpat : c ∉ pat) (h : pat <+: a ++ c :: b) : pat <+: a := by
  rcases Nat.lt_or_ge a.length pat.length with hlt | hle
  · have hpre : a ++ [c] <+: pat :=
      List.prefix_of_prefix_length_le ⟨b, by simp⟩ h (by rw [List.length_append]; exact hlt)
    exact absurd (hpre.subset (by simp)) hpat
  · exact List.prefix_of_prefix_length_le h (List.prefix_append a _) hle

omit [DecidableEq α] in
theorem substring_append (a b c : List α) :
    substring (a ++ (b ++ c)) a.length (a.length + b.length : ℕ) = some b := by
  have htake : (a ++ (b ++ c)).take (a.length + b.length) = a ++ b := by
    rw [← List.append_assoc, ← List.length_append, List.take_left]
  have hlen : (a ++ (b ++ c)).length = a.length + (b.length + c.length) := by
    rw [List.length_append, List.length_append]
  rw [substring, if_pos (by omega), Int.toNat_natCast, Int.toNat_natCast, htake, List.drop_left]

end Waveplay.Lib.Search
