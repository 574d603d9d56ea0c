import Mathlib.Data.List.Induction
import Waveplay.Lib.LinkedMap
import Waveplay.Lib.Runs
import Waveplay.Properties.Line

/-! # `ServiceProperties`: the properties of a service

The lines of a service are objects that are in the list `lines`, and, but for the header, in the map `props`.
Each has its own position in the list, so that taking a line out changes the numbers of those after it. The
objects are in a heap, where a reference is a number.

* `put`, `get`, `write`: the methods.
* `Represents`: a store with the properties of a map in order of insertion; each call of `put` keeps it
  (`put_represents`).
* `store_correct`: a store after any calls. -/

namespace Waveplay.Properties.Store

open Waveplay.Lib Waveplay.Lib.Runs Waveplay.Properties.Line

/-! ### The store -/

/-- A `Prop`. -/
structure PropObject extends Property where
  line : ℤ := 0

abbrev Ref := ℕ

/-- A key of the map, which can be `null`. -/
abbrev Key := Option Text

structure ServiceProperties where
  servicename : Option Text
  classname : Text
  permanent : Bool
  lines : List Ref := []
  props : LinkedMap Key Ref := .empty
  heap : Ref → PropObject := fun _ => {}
  /-- the references from this one on are not in use -/
  fresh : Ref := 0

/-- The line before the properties. -/
def header (servicename classname : Text) : PropObject :=
  { comment := unit '[' :: (servicename ++ SPACE :: (classname ++ [unit ']'])), readonly := true }

/-- The constructor. -/
def ServiceProperties.new (servicename : Option Text) (classname : Text) (permanent : Bool) : ServiceProperties :=
  match servicename with
  | none => { servicename := none, classname, permanent }
  | some name =>
    { servicename := some name, classname, permanent, lines := [0], heap := fun _ => header name classname,
      fresh := 1 }

/-- The loop that changes the numbers of lines. -/
def renumber (heap : Ref → PropObject) (lines : List Ref) : Ref → PropObject :=
  lines.foldl (fun heap r => Function.update heap r { heap r with line := (heap r).line - 1 }) heap

/-- **`put`**, `none` for an exception. -/
def ServiceProperties.put (s : ServiceProperties) (key : Key) (value : Option Text) :
    Option (Bool × ServiceProperties) :=
  match value, s.props.get key with
  | none, none => some (false, s)
  | none, some r =>
    let line := (s.heap r).line
    if 0 ≤ line ∧ line < s.lines.length then
      let lines := s.lines.eraseIdx line.toNat
      some (s.permanent, { s with
        props := s.props.remove key
        lines
        heap := renumber s.heap (lines.drop line.toNat) })
    else none
  | some value, none =>
    some (s.permanent, { s with
      props := s.props.put key s.fresh
      lines := s.lines ++ [s.fresh]
      heap := Function.update s.heap s.fresh { key, value, line := s.lines.length }
      fresh := s.fresh + 1 })
  | some value, some r =>
    if (s.heap r).readonly then some (false, s)
    else
      (s.heap r).value.map fun old =>
        if old = value then (false, s)
        else (s.permanent, { s with heap := Function.update s.heap r { s.heap r with value } })

def nameKey : Text := ['n', 'a', 'm', 'e'].map unit
def classKey : Text := ['c', 'l', 'a', 's', 's'].map unit

/-- **`get`**. -/
def ServiceProperties.get (s : ServiceProperties) (key : Text) : Option Text :=
  if s.servicename.isSome ∧ key = nameKey then s.servicename
  else if s.servicename.isSome ∧ key = classKey then some s.classname
  else (s.props.get (some key)).bind fun r => (s.heap r).value

/-- **`write`**: the lines written, `none` for an exception. -/
def ServiceProperties.write (ch : Characters) (s : ServiceProperties) : Option (List Text) :=
  s.lines.mapM fun r => toText ch (s.heap r).toProperty

/-! ### What it is for -/

/-- A call of `put`. -/
abbrev Call := Key × Option Text

/-- The value of the last call for a key. -/
def lastPut (calls : List Call) (k : Key) : Option Text := (calls.reverse.find? fun c => c.1 = k).bind Prod.snd

/-- A call on a map in order of insertion. -/
def putMap (m : LinkedMap Key Text) (c : Call) : LinkedMap Key Text :=
  match c.2 with
  | none => m.remove c.1
  | some value => m.put c.1 value

/-- The properties that are there after the calls, in order of insertion. -/
def live (calls : List Call) : LinkedMap Key Text := calls.foldl putMap .empty

theorem get_putMap (m : LinkedMap Key Text) (c : Call) (k : Key) :
    (putMap m c).get k = if c.1 = k then c.2 else m.get k := by
  obtain ⟨j, value⟩ := c
  cases value with
  | none => exact m.get_remove j k
  | some value => exact m.get_put j k value

theorem lastPut_append (calls : List Call) (c : Call) (k : Key) :
    lastPut (calls ++ [c]) k = if c.1 = k then c.2 else lastPut calls k := by
  rw [lastPut, List.reverse_append, List.reverse_singleton, List.singleton_append, List.find?_cons]
  by_cases h : c.1 = k
  · simp [h]
  · simp [h, lastPut]

theorem get_live (calls : List Call) (k : Key) : (live calls).get k = lastPut calls k := by
  induction calls using List.reverseRecOn with
  | nil => rfl
  | append_singleton calls c ih =>
    rw [live, List.foldl_append, List.foldl_cons, List.foldl_nil, ← live, get_putMap, ih, lastPut_append]

/-! ### Stores and maps -/

/-- A property made by `put`. -/
def property (k : Key) (value : Text) : Property := { key := k, value }

/-- The references before those of the properties. -/
def ServiceProperties.headerLines (s : ServiceProperties) : List Ref := if s.servicename.isSome then [0] else []

/-- A store with the properties of a map. -/
structure Represents (s : ServiceProperties) (m : LinkedMap Key Text) : Prop where
  lines : s.lines = s.headerLines ++ s.props.entries.map Prod.snd
  numbered : ∀ (i : ℕ) (r : Ref), s.lines[i]? = some r → (s.heap r).line = i
  fresh : ∀ r ∈ s.lines, r < s.fresh
  entries : s.props.entries.map (fun e => (e.1, (s.heap e.2).toProperty)) =
    m.entries.map (fun e => (e.1, property e.1 e.2))
  header : ∀ name, s.servicename = some name → (s.heap 0).toProperty = (header name s.classname).toProperty

section

variable {s : ServiceProperties} {m : LinkedMap Key Text}

theorem Represents.nodup (h : Represents s m) : s.lines.Nodup := by
  rw [List.nodup_iff_getElem?_ne_getElem?]
  intro i j hij hj heq
  have hj := List.getElem?_eq_getElem hj
  have hline_j := h.numbered j _ hj
  have hline_i := h.numbered i _ (heq.trans hj)
  omega

theorem Represents.get_eq_some (h : Represents s m) {k : Key} {r : Ref} (hr : s.props.get k = some r) :
    ∃ value, m.get k = some value ∧ (s.heap r).toProperty = property k value := by
  have hmem : (k, (s.heap r).toProperty) ∈ s.props.entries.map (fun e => (e.1, (s.heap e.2).toProperty)) :=
    List.mem_map.mpr ⟨(k, r), LinkedMap.get_eq_some_iff.mp hr, rfl⟩
  rw [h.entries] at hmem
  obtain ⟨⟨j, value⟩, he, heq⟩ := List.mem_map.mp hmem
  obtain ⟨rfl, hproperty⟩ := Prod.mk.inj heq
  exact ⟨value, LinkedMap.get_eq_some_iff.mpr he, hproperty.symm⟩

theorem Represents.keys (h : Represents s m) : s.props.entries.map Prod.fst = m.entries.map Prod.fst := by
  have hkeys := congrArg (List.map Prod.fst) h.entries
  simpa only [List.map_map, Function.comp_def] using hkeys

theorem Represents.get_eq_none (h : Represents s m) {k : Key} : s.props.get k = none ↔ m.get k = none := by
  rw [LinkedMap.get_eq_none_iff, LinkedMap.get_eq_none_iff, h.keys]

theorem Represents.line_eq (h : Represents s m) {k : Key} {r : Ref} (hr : s.props.get k = some r) :
    ∃ i : ℕ, (s.heap r).line = i ∧ s.lines[i]? = some r := by
  have hmem : r ∈ s.lines := by
    rw [h.lines]
    exact List.mem_append_right _ (List.mem_map.mpr ⟨(k, r), LinkedMap.get_eq_some_iff.mp hr, rfl⟩)
  obtain ⟨i, hi⟩ := List.getElem?_of_mem hmem
  exact ⟨i, h.numbered i r hi, hi⟩

theorem Represents.entry_unique (h : Represents s m) {e e' : Key × Ref} (he : e ∈ s.props.entries)
    (he' : e' ∈ s.props.entries) (heq : e.2 = e'.2) : e = e' := by
  have hnodup := h.nodup
  rw [h.lines] at hnodup
  exact List.inj_on_of_nodup_map hnodup.of_append_right he he' heq

end

/-! ### The calls -/

theorem represents_new (servicename : Option Text) (classname : Text) (permanent : Bool) :
    Represents (.new servicename classname permanent) .empty := by
  cases servicename with
  | none =>
    refine ⟨rfl, fun i r h => ?_, fun r h => ?_, rfl, fun name h => ?_⟩
    · cases h
    · cases h
    · cases h
  | some name =>
    refine ⟨rfl, fun i r h => ?_, fun r h => ?_, rfl, fun name' h => ?_⟩
    · obtain rfl : i = 0 := by
        by_contra hi
        rw [ServiceProperties.new, List.getElem?_eq_none (by simp; omega)] at h
        cases h
      rfl
    · obtain rfl := List.mem_singleton.mp h
      exact Nat.zero_lt_one
    · obtain rfl := Option.some.inj h
      rfl

theorem renumber_eq : ∀ {lines : List Ref}, lines.Nodup → ∀ (heap : Ref → PropObject) (r : Ref),
    renumber heap lines r = if r ∈ lines then { heap r with line := (heap r).line - 1 } else heap r
  | [], _, _, _ => rfl
  | l :: lines, hnodup, heap, r => by
    obtain ⟨hl, hlines⟩ := List.nodup_cons.mp hnodup
    have hstep : renumber heap (l :: lines) r =
        renumber (Function.update heap l { heap l with line := (heap l).line - 1 }) lines r := rfl
    rw [hstep, renumber_eq hlines]
    by_cases hrl : r = l
    · subst hrl
      rw [if_neg hl, if_pos List.mem_cons_self, Function.update_self]
    · rw [Function.update_of_ne hrl]
      simp only [List.mem_cons, hrl, false_or]

theorem toProperty_renumber {lines : List Ref} (hnodup : lines.Nodup) (heap : Ref → PropObject) (r : Ref) :
    (renumber heap lines r).toProperty = (heap r).toProperty := by
  rw [renumber_eq hnodup]
  split_ifs <;> rfl

section

variable {s : ServiceProperties} {m : LinkedMap Key Text} {k : Key} {r : Ref}

/-- The entries with another key are those with another reference. -/
theorem Represents.ref_eq_iff (h : Represents s m) (hr : s.props.get k = some r) {e : Key × Ref}
    (he : e ∈ s.props.entries) : e.2 = r ↔ e.1 = k := by
  have hmem := LinkedMap.get_eq_some_iff.mp hr
  constructor
  · intro heq
    rw [h.entry_unique he hmem heq]
  · rintro rfl
    have hget := LinkedMap.get_eq_some_iff.mpr he
    exact Option.some.inj (hget.symm.trans hr)

theorem Represents.not_mem_header (h : Represents s m) (hr : s.props.get k = some r) : r ∉ s.headerLines := by
  have hnodup := h.nodup
  rw [h.lines] at hnodup
  have hmem : r ∈ s.props.entries.map Prod.snd :=
    List.mem_map.mpr ⟨(k, r), LinkedMap.get_eq_some_iff.mp hr, rfl⟩
  exact fun hheader => List.disjoint_of_nodup_append hnodup hheader hmem

theorem mem_drop_iff {l : List Ref} (hl : l.Nodup) {i j : ℕ} (hj : l[j]? = some r) : r ∈ l.drop i ↔ i ≤ j := by
  obtain ⟨hlt, -⟩ := List.getElem?_eq_some_iff.mp hj
  constructor
  · intro hmem
    obtain ⟨n, hn⟩ := List.getElem?_of_mem hmem
    rw [List.getElem?_drop] at hn
    have heq := (List.getElem?_inj hlt hl).mp (hj.trans hn.symm)
    omega
  · intro hle
    refine List.mem_of_getElem? (i := j - i) ?_
    rw [List.getElem?_drop, Nat.add_sub_cancel' hle, hj]

theorem Represents.eraseIdx_eq (h : Represents s m) (hr : s.props.get k = some r) {i : ℕ}
    (hi : s.lines[i]? = some r) :
    s.lines.eraseIdx i = s.headerLines ++ (s.props.remove k).entries.map Prod.snd := by
  obtain ⟨hlt, hget⟩ := List.getElem?_eq_some_iff.mp hi
  have hheader : s.headerLines.filter (· != r) = s.headerLines := by
    refine List.filter_eq_self.mpr fun l hl => ?_
    exact bne_iff_ne.mpr fun heq => h.not_mem_header hr (heq ▸ hl)
  have hprops : (s.props.entries.map Prod.snd).filter (· != r) =
      (s.props.entries.filter fun e => e.1 ≠ k).map Prod.snd := by
    rw [List.filter_map]
    congr 1
    refine List.filter_congr fun e he => ?_
    have hiff := h.ref_eq_iff hr he
    simp only [Function.comp_apply, bne, beq_eq_decide, hiff, decide_not]
  rw [← h.nodup.erase_getElem i hlt, hget, h.nodup.erase_eq_filter, h.lines, List.filter_append, hheader, hprops]
  rfl

/-- **Removal**: the lines after the one that is taken out get the number before. -/
theorem represents_remove (h : Represents s m) (hr : s.props.get k = some r) {i : ℕ}
    (hi : s.lines[i]? = some r) : Represents { s with
      props := s.props.remove k
      lines := s.lines.eraseIdx i
      heap := renumber s.heap ((s.lines.eraseIdx i).drop i) } (m.remove k) := by
  have hnodup : (s.lines.eraseIdx i).Nodup := h.nodup.eraseIdx i
  have hdrop : ((s.lines.eraseIdx i).drop i).Nodup := hnodup.sublist (List.drop_sublist i _)
  constructor
  · exact h.eraseIdx_eq hr hi
  · intro j l hj
    dsimp only at hj ⊢
    rw [renumber_eq hdrop, if_congr (mem_drop_iff hnodup hj) rfl rfl]
    split_ifs with hle
    · rw [List.getElem?_eraseIdx_of_ge hle] at hj
      have hline := h.numbered (j + 1) l hj
      dsimp only
      omega
    · rw [List.getElem?_eraseIdx_of_lt (by omega)] at hj
      exact h.numbered j l hj
  · intro l hl
    exact h.fresh l (List.mem_of_mem_eraseIdx hl)
  · have hfilter := congrArg (List.filter fun e => e.1 ≠ k) h.entries
    rw [List.filter_map, List.filter_map] at hfilter
    simp only [toProperty_renumber hdrop]
    exact hfilter
  · intro name hname
    rw [toProperty_renumber hdrop]
    exact h.header name hname

theorem mem_headerLines {name : Text} (hname : s.servicename = some name) : 0 ∈ s.headerLines := by
  rw [ServiceProperties.headerLines, hname]
  exact List.mem_cons_self

/-- **Insertion**: the new line is the last one. -/
theorem represents_append (h : Represents s m) (hk : s.props.get k = none) (value : Text) : Represents { s with
      props := s.props.put k s.fresh
      lines := s.lines ++ [s.fresh]
      heap := Function.update s.heap s.fresh { key := k, value, line := s.lines.length }
      fresh := s.fresh + 1 } (m.put k value) := by
  have hkeep (object : PropObject) {l : Ref} (hl : l ∈ s.lines) :
      Function.update s.heap s.fresh object l = s.heap l :=
    Function.update_of_ne (Nat.ne_of_lt (h.fresh l hl)) object s.heap
  constructor
  · dsimp only
    rw [LinkedMap.entries_put_of_none hk, List.map_append, ← List.append_assoc, h.lines]
    rfl
  · intro j l hj
    dsimp only at hj ⊢
    by_cases hlt : j < s.lines.length
    · rw [List.getElem?_append_left hlt] at hj
      rw [hkeep _ (List.mem_of_getElem? hj)]
      exact h.numbered j l hj
    · rw [List.getElem?_append_right (by omega)] at hj
      have hzero : j - s.lines.length = 0 := Nat.lt_one_iff.mp (List.getElem?_eq_some_iff.mp hj).1
      rw [hzero] at hj
      obtain rfl : s.fresh = l := Option.some.inj hj
      rw [Function.update_self]
      dsimp only
      omega
  · intro l hl
    dsimp only at hl ⊢
    rcases List.mem_append.mp hl with hl | hl
    · exact Nat.lt_succ_of_lt (h.fresh l hl)
    · rw [List.mem_singleton.mp hl]
      exact Nat.lt_succ_self s.fresh
  · dsimp only
    rw [LinkedMap.entries_put_of_none hk, LinkedMap.entries_put_of_none (h.get_eq_none.mp hk), List.map_append,
      List.map_append, ← h.entries]
    congr 1
    · refine List.map_congr_left fun e he => ?_
      have hl : e.2 ∈ s.lines := by
        rw [h.lines]
        exact List.mem_append_right _ (List.mem_map_of_mem he)
      rw [hkeep _ hl]
    · simp only [List.map_cons, List.map_nil, Function.update_self]
      rfl
  · intro name hname
    have hl : 0 ∈ s.lines := by
      rw [h.lines]
      exact List.mem_append_left _ (mem_headerLines hname)
    dsimp only
    rw [hkeep _ hl]
    exact h.header name hname

/-- **Another value**: the line stays where it is. -/
theorem represents_replace (h : Represents s m) (hr : s.props.get k = some r) (value : Text) :
    Represents { s with heap := Function.update s.heap r { s.heap r with value } } (m.put k value) := by
  constructor
  · exact h.lines
  · intro j l hj
    have hline := h.numbered j l hj
    dsimp only
    by_cases hl : l = r
    · subst hl
      rwa [Function.update_self]
    · rwa [Function.update_of_ne hl]
  · exact h.fresh
  · obtain ⟨old, hold, -⟩ := h.get_eq_some hr
    -- both sides change the value of the entry of `k`
    have hmap := congrArg (List.map fun e : Key × Property =>
      (e.1, if e.1 = k then { e.2 with value := some value } else e.2)) h.entries
    rw [List.map_map, List.map_map] at hmap
    dsimp only
    rw [LinkedMap.entries_put_of_some hold, List.map_map]
    refine (List.map_congr_left fun e he => ?_).trans (hmap.trans (List.map_congr_left fun e _ => ?_))
    · have hiff := h.ref_eq_iff hr he
      rw [Function.comp_apply]
      by_cases hk : e.1 = k
      · rw [if_pos hk, hiff.mpr hk, Function.update_self]
      · rw [if_neg hk, Function.update_of_ne fun heq => hk (hiff.mp heq)]
    · rw [Function.comp_apply, Function.comp_apply]
      dsimp only
      split_ifs <;> rfl
  · intro name hname
    have hne : 0 ≠ r := fun heq => h.not_mem_header hr (heq ▸ mem_headerLines hname)
    dsimp only
    rw [Function.update_of_ne hne]
    exact h.header name hname

/-- What a call does not change. -/
structure SameService (s s' : ServiceProperties) : Prop where
  servicename : s'.servicename = s.servicename
  classname : s'.classname = s.classname
  permanent : s'.permanent = s.permanent

/-- **One call of `put`**: it is the call on the map, and returns whether the store is permanent and the
value another one. -/
theorem put_represents (h : Represents s m) (c : Call) :
    ∃ s', s.put c.1 c.2 = some (s.permanent && decide (m.get c.1 ≠ c.2), s') ∧ Represents s' (putMap m c) ∧
      SameService s s' := by
  obtain ⟨k, value⟩ := c
  unfold ServiceProperties.put putMap
  cases hk : s.props.get k with
  | none =>
    have hm := h.get_eq_none.mp hk
    cases value with
    | none =>
      refine ⟨s, by simp [hm], ?_, rfl, rfl, rfl⟩
      rwa [LinkedMap.remove_of_none hm]
    | some value => exact ⟨_, by simp [hm], represents_append h hk value, rfl, rfl, rfl⟩
  | some r =>
    obtain ⟨old, hold, hproperty⟩ := h.get_eq_some hk
    have hreadonly : (s.heap r).readonly = false := congrArg Property.readonly hproperty
    have hvalue : (s.heap r).value = some old := congrArg Property.value hproperty
    cases value with
    | none =>
      obtain ⟨i, hline, hi⟩ := h.line_eq hk
      have hlt := (List.getElem?_eq_some_iff.mp hi).1
      refine ⟨_, ?_, represents_remove h hk hi, rfl, rfl, rfl⟩
      simp only [hline, Int.toNat_natCast]
      rw [if_pos (by omega)]
      simp [hold]
    | some value =>
      by_cases heq : old = value
      · subst heq
        refine ⟨s, by simp [hreadonly, hvalue, hold], ?_, rfl, rfl, rfl⟩
        dsimp only
        rwa [LinkedMap.put_of_some hold]
      · refine ⟨_, ?_, represents_replace h hk value, rfl, rfl, rfl⟩
        simp [hreadonly, hvalue, hold, heq]

theorem changed_iff (m : LinkedMap Key Text) (c : Call) :
    (∃ k, (putMap m c).get k ≠ m.get k) ↔ m.get c.1 ≠ c.2 := by
  constructor
  · rintro ⟨k, hk⟩ heq
    rw [get_putMap] at hk
    split_ifs at hk with hkey
    · exact hk (hkey ▸ heq.symm)
    · exact hk rfl
  · intro hne
    refine ⟨c.1, ?_⟩
    rw [get_putMap, if_pos rfl]
    exact hne.symm

end

/-! ### Any calls -/

/-- A call of `put`. -/
def putStep (s : ServiceProperties) (c : Call) : Option ServiceProperties := (s.put c.1 c.2).map Prod.snd

/-- The text of a line. -/
def textOf (ch : Characters) (p : Property) : Text := (toText ch p).getD []

/-- The properties of the header, if there is one. -/
def headerProperty (servicename : Option Text) (classname : Text) : List Property :=
  (servicename.map fun name => (header name classname).toProperty).toList

theorem mapM_toText {ch : Characters} {heap : Ref → PropObject} : ∀ {lines : List Ref},
    (∀ r ∈ lines, (toText ch (heap r).toProperty).isSome) →
    lines.mapM (fun r => toText ch (heap r).toProperty) = some (lines.map fun r => textOf ch (heap r).toProperty)
  | [], _ => rfl
  | r :: lines, h => by
    have hlines := mapM_toText fun l hl => h l (List.mem_cons_of_mem r hl)
    obtain ⟨t, ht⟩ := Option.isSome_iff_exists.mp (h r List.mem_cons_self)
    rw [List.mapM_cons, ht, hlines, List.map_cons, textOf, ht]
    rfl

section

variable {s : ServiceProperties} {m : LinkedMap Key Text}

/-- The lines: the header, and the properties in order of insertion. -/
theorem Represents.map_lines (h : Represents s m) : s.lines.map (fun r => (s.heap r).toProperty) =
    headerProperty s.servicename s.classname ++ m.entries.map fun e => property e.1 e.2 := by
  have hentries := congrArg (List.map Prod.snd) h.entries
  rw [List.map_map, List.map_map] at hentries
  rw [h.lines, List.map_append, List.map_map]
  congr 1
  cases hname : s.servicename with
  | none =>
    rw [ServiceProperties.headerLines, hname]
    rfl
  | some name =>
    rw [ServiceProperties.headerLines, hname]
    exact congrArg (· :: []) (h.header name hname)

theorem isSome_toText {ch : Characters} {servicename : Option Text} {classname : Text} {p : Property}
    (hp : p ∈ headerProperty servicename classname ++ m.entries.map fun e => property e.1 e.2) :
    (toText ch p).isSome := by
  rcases List.mem_append.mp hp with hp | hp
  · obtain ⟨name, -, rfl⟩ := Option.map_eq_some_iff.mp (Option.mem_toList.mp hp)
    rfl
  · obtain ⟨⟨k, value⟩, -, rfl⟩ := List.mem_map.mp hp
    cases k <;> rfl

theorem Represents.write_eq (h : Represents s m) (ch : Characters) : s.write ch =
    some ((headerProperty s.servicename s.classname ++ m.entries.map fun e => property e.1 e.2).map (textOf ch)) := by
  have hsome : ∀ r ∈ s.lines, (toText ch (s.heap r).toProperty).isSome := by
    intro r hr
    have hmem : (s.heap r).toProperty ∈ s.lines.map fun r => (s.heap r).toProperty := List.mem_map_of_mem hr
    rw [h.map_lines] at hmem
    exact isSome_toText hmem
  rw [ServiceProperties.write, mapM_toText hsome, ← h.map_lines, List.map_map]
  rfl

theorem Represents.get_eq (h : Represents s m) {k : Text} (hname : k ≠ nameKey) (hclass : k ≠ classKey) :
    s.get k = m.get (some k) := by
  rw [ServiceProperties.get, if_neg fun hk => hname hk.2, if_neg fun hk => hclass hk.2]
  cases hr : s.props.get (some k) with
  | none => exact (h.get_eq_none.mp hr).symm
  | some r =>
    obtain ⟨value, hvalue, hproperty⟩ := h.get_eq_some hr
    rw [hvalue]
    exact congrArg Property.value hproperty

end

/-- **A store after calls**: what `get` gives, what the lines are, what `write` writes and what `put`
returns. A null key has a line too, which is written as an empty one. -/
structure Stored (ch : Characters) (servicename : Option Text) (classname : Text) (permanent : Bool)
    (calls : List Call) (s : ServiceProperties) : Prop where
  get : ∀ k : Text, k ≠ nameKey → k ≠ classKey → s.get k = lastPut calls (some k)
  refs : s.lines = s.headerLines ++ s.props.entries.map Prod.snd
  once : s.lines.Nodup
  numbered : ∀ k r, s.props.get k = some r → ∃ i : ℕ, (s.heap r).line = i ∧ s.lines[i]? = some r
  lines : s.lines.map (fun r => (s.heap r).toProperty) =
    headerProperty servicename classname ++ (live calls).entries.map fun e => property e.1 e.2
  live : ∀ k value, (k, value) ∈ (live calls).entries ↔ lastPut calls k = some value
  write : s.write ch = some ((headerProperty servicename classname ++
    (Store.live calls).entries.map fun e => property e.1 e.2).map (textOf ch))
  put : ∀ c : Call, ∃ result s', s.put c.1 c.2 = some (result, s') ∧
    (result = true ↔ permanent = true ∧ ∃ k, lastPut (calls ++ [c]) k ≠ lastPut calls k)

/-- The store has what the calls have put, and the service it was made for. -/
structure After (servicename : Option Text) (classname : Text) (permanent : Bool) (s : ServiceProperties)
    (m : LinkedMap Key Text) : Prop extends Represents s m where
  servicename_eq : s.servicename = servicename
  classname_eq : s.classname = classname
  permanent_eq : s.permanent = permanent

section

variable {servicename : Option Text} {classname : Text} {permanent : Bool} {s : ServiceProperties}

theorem putStep_after {m : LinkedMap Key Text} (h : After servicename classname permanent s m) (c : Call) :
    ∃ s', putStep s c = some s' ∧ After servicename classname permanent s' (putMap m c) := by
  obtain ⟨s', hput, hs', hsame⟩ := put_represents h.toRepresents c
  refine ⟨s', by rw [putStep, hput]; rfl, hs', ?_, ?_, ?_⟩
  · exact hsame.servicename.trans h.servicename_eq
  · exact hsame.classname.trans h.classname_eq
  · exact hsame.permanent.trans h.permanent_eq

theorem After.stored {calls : List Call} (h : After servicename classname permanent s (live calls))
    (ch : Characters) : Stored ch servicename classname permanent calls s := by
  have hlines := h.map_lines
  have hwrite := h.write_eq ch
  rw [h.servicename_eq, h.classname_eq] at hlines hwrite
  refine ⟨?_, h.lines, h.nodup, fun k r => h.line_eq, hlines, ?_, hwrite, ?_⟩
  · intro k hname hclass
    rw [h.get_eq hname hclass, get_live]
  · intro k value
    rw [← get_live, LinkedMap.get_eq_some_iff]
  · intro c
    obtain ⟨s', hput, -, -⟩ := put_represents h.toRepresents c
    refine ⟨_, s', hput, ?_⟩
    have hchanged := changed_iff (live calls) c
    have hnext : ∀ k, (putMap (live calls) c).get k = lastPut (calls ++ [c]) k := by
      intro k
      rw [get_putMap, get_live, lastPut_append]
    simp only [hnext, get_live] at hchanged
    rw [Bool.and_eq_true, h.permanent_eq, decide_eq_true_iff, get_live, hchanged]

end

/-- **The store is correct** after any calls of `put`, none of which ends with an exception. -/
theorem store_correct (ch : Characters) (servicename : Option Text) (classname : Text) (permanent : Bool)
    (calls : List Call) : ∃ s, run putStep (.new servicename classname permanent) calls = some s ∧
      Stored ch servicename classname permanent calls s := by
  have hnew : After servicename classname permanent (.new servicename classname permanent) .empty := by
    refine ⟨represents_new servicename classname permanent, ?_, ?_, ?_⟩ <;> cases servicename <;> rfl
  obtain ⟨s, hrun, hs⟩ := run_refines_total (R := After servicename classname permanent)
    (C := fun _ _ => True) (fun s c m h _ => putStep_after h c) hnew allSteps_trivial
  exact ⟨s, hrun, hs.stored ch⟩

end Waveplay.Properties.Store
