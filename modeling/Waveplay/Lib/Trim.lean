import Mathlib.Data.List.DropRight

/-! # Trimming a list

A list without the blanks at its two ends, for any notion of a blank. -/

namespace Waveplay.Lib.Trim

variable {α : Type*}

/-- A list without the blanks at both ends. -/
def trim (blank : α → Bool) (t : List α) : List α := (t.dropWhile blank).rdropWhile blank

variable {blank : α → Bool} {a b t : List α}

theorem trim_eq_self (hhead : ∀ c ∈ t.head?, blank c = false) (hlast : ∀ c ∈ t.getLast?, blank c = false) :
    trim blank t = t := by
  have hdrop : t.dropWhile blank = t := by
    cases t with
    | nil => rfl
    | cons c t => rw [List.dropWhile_cons_of_neg (by rw [hhead c rfl]; exact Bool.false_ne_true)]
  rw [trim, hdrop, List.rdropWhile_eq_self_iff]
  intro hne
  rw [hlast _ (List.getLast?_eq_some_getLast hne)]
  exact Bool.false_ne_true

theorem trim_append (ha : ∀ c ∈ a, blank c = true) (hb : ∀ c ∈ b, blank c = true) (hne : t ≠ [])
    (hhead : ∀ c ∈ t.head?, blank c = false) (hlast : ∀ c ∈ t.getLast?, blank c = false) :
    trim blank (a ++ (t ++ b)) = t := by
  obtain ⟨c, u, rfl⟩ := List.exists_cons_of_ne_nil hne
  have hleft : (a ++ (c :: u ++ b)).dropWhile blank = c :: u ++ b := by
    rw [List.dropWhile_append_of_pos ha, List.cons_append,
      List.dropWhile_cons_of_neg (by rw [hhead c rfl]; exact Bool.false_ne_true)]
  have hright : (c :: u ++ b).rdropWhile blank = (c :: u).rdropWhile blank := by
    rw [List.rdropWhile, List.rdropWhile, List.reverse_append,
      List.dropWhile_append_of_pos fun d hd => hb d (List.mem_reverse.mp hd)]
  have hself := trim_eq_self hhead hlast
  rw [trim, List.dropWhile_cons_of_neg (by rw [hhead c rfl]; exact Bool.false_ne_true)] at hself
  rw [trim, hleft, hright, hself]

theorem trim_replicate {s : α} (hs : blank s = true) (hne : t ≠ []) (hhead : ∀ c ∈ t.head?, blank c = false)
    (hlast : ∀ c ∈ t.getLast?, blank c = false) (n k : ℕ) :
    trim blank (List.replicate n s ++ (t ++ List.replicate k s)) = t := by
  have hall : ∀ m, ∀ c ∈ List.replicate m s, blank c = true := by
    intro m c hc
    rw [List.eq_of_mem_replicate hc, hs]
  exact trim_append (hall n) (hall k) hne hhead hlast

end Waveplay.Lib.Trim
