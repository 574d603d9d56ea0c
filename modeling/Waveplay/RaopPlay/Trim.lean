import Waveplay.Lib.Accesses
import Waveplay.RaopPlay.RtspSetup

/-! # The spaces around a string: `trim`

`rtspcl_setup` passes the value of the header `Session` to `trim`, which moves the start of the string up
behind the leading spaces, and then walks down from its end. Nothing stops the second walk but a character
that is not a space.

* **`trims_iff`**: `trim` stays inside the string, and returns it without the spaces around it, if and only
  if there is such a character in the string.
* **`trim_string`**: wherever the walk ends, the string returned is the one without these spaces. -/

namespace Waveplay.RaopPlay.Trim

open Waveplay.Lib.Accesses Waveplay.RaopPlay.AexclLib
open Waveplay.RaopPlay.RtspSetup (isspace)

/-! ### The functions -/

/-- `ltrim` -/
def ltrim (h : Heap UInt8) (s : ℕ) : Option (ℕ × Heap UInt8) := walk isspace (h.cells.length - s) h s

/-- `strlen` -/
def strlen (h : Heap UInt8) (s : ℕ) : Option (ℕ × Heap UInt8) :=
  (walk (· != 0) (h.cells.length - s) h s).map fun r => (r.1 - s, r.2)

/-- `rtrim` -/
def rtrim (h : Heap UInt8) (s : ℕ) : Option (ℕ × Heap UInt8) :=
  (strlen h s).bind fun r =>
    (walkBack isspace (s + r.1) r.2).bind fun back =>
      (back.2.store (back.1 + 1) 0).map fun h => (s, h)

/-- `trim` -/
def trim (h : Heap UInt8) (s : ℕ) : Option (ℕ × Heap UInt8) := (ltrim h s).bind fun r => rtrim r.2 r.1

/-- Memory with a string, after `pre` and before `post`. -/
def around (pre str post : Bytes) : Heap UInt8 := ⟨pre ++ (str ++ 0 :: post), []⟩

/-- The string at an address, with its terminator. -/
def StringAt (cells : Bytes) (s : ℕ) (str : Bytes) : Prop := ∃ rest, cells.drop s = str ++ 0 :: rest

/-- **The string is trimmed**: `trim` returns, has accessed the string and its terminator only, and returns
the string without the spaces around it. -/
def Trims (pre str post : Bytes) : Prop :=
  ∃ s h, trim (around pre str post) pre.length = some (s, h) ∧
    (∀ a ∈ h.accessed, pre.length ≤ a ∧ a ≤ pre.length + str.length) ∧
    StringAt h.cells s (RtspSetup.trim str)

/-! ### The two walks -/

section

variable {str : Bytes} (pre post : Bytes)

theorem ltrim_append {sp : Bytes} (hsp : ∀ ch ∈ sp, isspace ch = true) {ch : UInt8} (hch : isspace ch = false)
    (r : Bytes) (log : List ℕ) :
    ltrim ⟨pre ++ (sp ++ ch :: r), log⟩ pre.length = some (pre.length + sp.length,
      ⟨pre ++ (sp ++ ch :: r), log ++ List.range' pre.length (sp.length + 1)⟩) := by
  refine walk_eq hch r sp pre _ log hsp ?_
  simp only [List.length_append, List.length_cons]
  omega

theorem strlen_append (hstr : 0 ∉ str) (log : List ℕ) :
    strlen ⟨pre ++ (str ++ 0 :: post), log⟩ pre.length = some (str.length,
      ⟨pre ++ (str ++ 0 :: post), log ++ List.range' pre.length (str.length + 1)⟩) := by
  have hne : ∀ ch ∈ str, (ch != 0) = true := by
    intro ch hch
    exact bne_iff_ne.mpr fun h0 => hstr (h0 ▸ hch)
  have hlen : str.length < (pre ++ (str ++ 0 :: post)).length - pre.length := by
    simp only [List.length_append, List.length_cons]
    omega
  rw [strlen, walk_eq (p := (· != 0)) (by decide) post str pre _ log hne hlen, Option.map_some,
    Nat.add_sub_cancel_left]

/-! ### A string of spaces -/

/-- `rtrim` starts at the terminator, and walks through all the spaces. -/
theorem trim_blank (hstr : ∀ ch ∈ str, isspace ch = true) :
    ∃ log, trim (around pre str post) pre.length =
      (walkBack isspace pre.length ⟨pre ++ (str ++ 0 :: post), log⟩).bind fun back =>
        (back.2.store (back.1 + 1) 0).map fun h => (pre.length + str.length, h) := by
  have hzero : isspace 0 = false := by decide
  have hlen := @strlen_append [] (pre ++ str) post List.not_mem_nil
    ([] ++ List.range' pre.length (str.length + 1))
  rw [List.length_append, List.append_assoc, List.nil_append] at hlen
  rw [trim, around, ltrim_append pre hstr hzero post [], Option.bind_some, rtrim]
  dsimp only
  rw [hlen, Option.bind_some]
  dsimp only
  rw [List.length_nil, Nat.add_zero, walkBack_append pre str (0 :: post) _ hstr]
  exact ⟨_, rfl⟩

theorem trim_eq_nil (hstr : ∀ ch ∈ str, isspace ch = true) : RtspSetup.trim str = [] := by
  rw [RtspSetup.trim, RtspSetup.ltrim, List.dropWhile_eq_nil_iff.mpr hstr]
  rfl

/-- **Below the string**: what `trim` does to a string of spaces. -/
theorem trim_blank_eq_some (hstr : ∀ ch ∈ str, isspace ch = true) {r : ℕ × Heap UInt8}
    (h : trim (around pre str post) pre.length = some r) :
    (∃ a ∈ r.2.accessed, a < pre.length) ∧ StringAt r.2.cells r.1 [] := by
  obtain ⟨log, hblank⟩ := trim_blank pre post hstr
  rw [hblank] at h
  obtain ⟨back, hback, h⟩ := Option.bind_eq_some_iff.mp h
  obtain ⟨h', hstore, rfl⟩ := Option.map_eq_some_iff.mp h
  obtain ⟨hpos, hcells, hsub⟩ := walkBack_eq_some hback
  obtain ⟨hset, hsub'⟩ := store_eq_some hstore
  refine ⟨⟨pre.length - 1, ?_, by omega⟩, ?_⟩
  · exact hsub' (hsub (List.mem_append_right log (List.mem_singleton_self _)))
  · -- the terminator stays, since what is written is a zero too
    have hget : h'.cells[pre.length + str.length]? = some 0 := by
      rw [hset, hcells, List.getElem?_set]
      split_ifs with heq hlt
      · rfl
      · simp only [List.length_append, List.length_cons] at hlt
        omega
      · simp
    obtain ⟨hlt, hzero⟩ := List.getElem?_eq_some_iff.mp hget
    exact ⟨_, by rw [List.drop_eq_getElem_cons hlt, hzero]; rfl⟩

/-! ### A string with another character -/

theorem exists_first (hch : ∃ ch ∈ str, isspace ch = false) :
    ∃ sp ch r, str = sp ++ ch :: r ∧ (∀ x ∈ sp, isspace x = true) ∧ isspace ch = false ∧
      RtspSetup.ltrim str = ch :: r := by
  have hne : str.dropWhile isspace ≠ [] := by
    obtain ⟨ch, hmem, hch⟩ := hch
    rw [Ne, List.dropWhile_eq_nil_iff]
    intro hall
    rw [hall ch hmem] at hch
    exact Bool.noConfusion hch
  obtain ⟨ch, r, hr⟩ := List.exists_cons_of_ne_nil hne
  have hhead := List.head_dropWhile_not isspace hne
  simp only [hr, List.head_cons] at hhead
  refine ⟨str.takeWhile isspace, ch, r, ?_, fun x hx => List.mem_takeWhile_imp hx, hhead, hr⟩
  rw [← hr, List.takeWhile_append_dropWhile]

theorem exists_last (hch : ∃ ch ∈ str, isspace ch = false) :
    ∃ l ch sp, str = l ++ ch :: sp ∧ (∀ x ∈ sp, isspace x = true) ∧ isspace ch = false ∧
      RtspSetup.rtrim str = l ++ [ch] := by
  have hrev : ∃ ch ∈ str.reverse, isspace ch = false := by
    obtain ⟨ch, hmem, hch⟩ := hch
    exact ⟨ch, List.mem_reverse.mpr hmem, hch⟩
  obtain ⟨sp, ch, r, hstr, hsp, hch, hltrim⟩ := exists_first hrev
  refine ⟨r.reverse, ch, sp.reverse, ?_, fun x hx => hsp x (List.mem_reverse.mp hx), hch, ?_⟩
  · rw [← List.reverse_reverse str, hstr, List.reverse_append, List.reverse_cons, List.append_assoc,
      List.singleton_append]
  · rw [RtspSetup.ltrim] at hltrim
    rw [RtspSetup.rtrim, List.rdropWhile, hltrim, List.reverse_cons]

theorem rtrim_append (hstr : 0 ∉ str) (hch : ∃ ch ∈ str, isspace ch = false) (log : List ℕ) :
    ∃ h, rtrim ⟨pre ++ (str ++ 0 :: post), log⟩ pre.length = some (pre.length, h) ∧
      StringAt h.cells pre.length (RtspSetup.rtrim str) ∧
      ∀ a ∈ h.accessed, a ∈ log ∨ pre.length ≤ a ∧ a ≤ pre.length + str.length := by
  have hlen := strlen_append pre post hstr log
  obtain ⟨l, ch, sp, rfl, hsp, hch, hrtrim⟩ := exists_last hch
  obtain ⟨x, r, hx⟩ : ∃ x r, sp ++ 0 :: post = x :: r := List.exists_cons_of_ne_nil (by simp)
  have hcells : pre ++ (l ++ ch :: sp ++ 0 :: post) = (pre ++ l) ++ ch :: (sp ++ 0 :: post) := by simp
  have hend : pre.length + (l ++ ch :: sp).length = (pre ++ l).length + 1 + sp.length := by
    simp only [List.length_append, List.length_cons]
    omega
  have hback := walkBack_eq hch (pre ++ l) sp (0 :: post)
    (log ++ List.range' pre.length ((l ++ ch :: sp).length + 1)) hsp
  have hfront : (pre ++ l ++ [ch]).length = (pre ++ l).length + 1 := List.length_append
  have hstore := fun log => store_append (pre ++ l ++ [ch]) r x 0 log
  simp only [hfront, List.append_assoc (pre ++ l), List.singleton_append, ← hx] at hstore
  rw [rtrim, hlen, Option.bind_some]
  dsimp only
  rw [hend, hcells, hback, Option.bind_some]
  dsimp only
  rw [hstore, Option.map_some]
  refine ⟨_, rfl, ⟨r, ?_⟩, fun a ha => ?_⟩
  · rw [List.append_assoc, List.drop_left, hrtrim, List.append_assoc, List.singleton_append]
  · simp only [List.mem_append, List.mem_reverse, List.mem_range'_1, List.mem_singleton, List.length_append,
      List.length_cons] at ha ⊢
    rcases ha with (((ha | ha) | ha) | ha) | ha
    · exact .inl ha
    all_goals
      right
      omega

theorem trims_of_exists (hstr : 0 ∉ str) (hch : ∃ ch ∈ str, isspace ch = false) : Trims pre str post := by
  obtain ⟨sp, ch, r, rfl, hsp, hch, hltrim⟩ := exists_first hch
  have hfirst := ltrim_append pre hsp hch (r ++ 0 :: post) []
  have hr : 0 ∉ ch :: r := fun h0 => hstr (List.mem_append_right sp h0)
  obtain ⟨h, hrtrim, hat, hacc⟩ := rtrim_append (pre ++ sp) post hr ⟨ch, List.mem_cons_self, hch⟩
    ([] ++ List.range' pre.length (sp.length + 1))
  rw [List.length_append, List.append_assoc] at hrtrim
  refine ⟨pre.length + sp.length, h, ?_, fun a ha => ?_, ?_⟩
  · rw [trim, around, List.append_assoc, List.cons_append, hfirst, Option.bind_some]
    exact hrtrim
  · have hmem := hacc a ha
    simp only [List.nil_append, List.mem_range'_1, List.length_append, List.length_cons] at hmem ⊢
    omega
  · rw [RtspSetup.trim, hltrim]
    rwa [List.length_append] at hat

/-! ### Every string -/

theorem blank_or_exists (str : Bytes) :
    (∀ ch ∈ str, isspace ch = true) ∨ ∃ ch ∈ str, isspace ch = false := by
  by_cases hch : ∃ ch ∈ str, isspace ch = false
  · exact .inr hch
  · exact .inl fun ch hmem => eq_true_of_ne_false fun hfalse => hch ⟨ch, hmem, hfalse⟩

/-- **What `trim` returns**, wherever it has walked: the string without the spaces around it. -/
theorem trim_string (hstr : 0 ∉ str) {r : ℕ × Heap UInt8}
    (h : trim (around pre str post) pre.length = some r) : StringAt r.2.cells r.1 (RtspSetup.trim str) := by
  rcases blank_or_exists str with hblank | hch
  · rw [trim_eq_nil hblank]
    exact (trim_blank_eq_some pre post hblank h).2
  · obtain ⟨s, h', htrim, -, hat⟩ := trims_of_exists pre post hstr hch
    obtain rfl := Option.some.inj (h.symm.trans htrim)
    exact hat

/-- **When a string is trimmed**: if and only if it has a character that is not a space. -/
theorem trims_iff (hstr : 0 ∉ str) : Trims pre str post ↔ ∃ ch ∈ str, isspace ch = false := by
  refine ⟨fun ⟨s, h, htrim, hacc, _⟩ => ?_, trims_of_exists pre post hstr⟩
  rcases blank_or_exists str with hblank | hch
  · obtain ⟨⟨a, ha, hlt⟩, -⟩ := trim_blank_eq_some pre post hblank htrim
    have hle := (hacc a ha).1
    omega
  · exact hch

end

/-- A session with a space on both sides. -/
theorem trims_iff_session : Trims [0] (ascii " 1 ") [] :=
  (trims_iff [0] [] (by decide)).mpr ⟨49, by decide, by decide⟩

/-- For an empty value the byte before it is read. -/
theorem not_trims_empty : ¬ Trims [0] [] [] := by
  rintro ⟨s, h, htrim, hacc, -⟩
  have hrun : trim (around [0] [] []) 1 = some (1, ⟨[0, 0], [1, 1, 0, 1]⟩) := rfl
  obtain ⟨rfl, rfl⟩ := Prod.mk.inj (Option.some.inj (hrun.symm.trans htrim))
  have hle := (hacc 0 (by decide)).1
  exact absurd hle (by decide)

end Waveplay.RaopPlay.Trim
