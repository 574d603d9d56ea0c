import Waveplay.Lib.Runs
import Waveplay.RaopPlay.AexclLib

/-! # The extra headers of `rtsp_client.c`

The table `exthds` ends with a `NULL` key. A deleted header has `0xff` for the first byte of its key,
and its slot is used again; `rtspcl_add_exthds` writes the terminator after the slot it has filled,
and so loses the headers behind a slot it uses again. It also reads the first byte of the key of
the terminator when sixteen slots are full, and asks for one byte less than it copies.

`AddCond` says when an addition meets none of this; then the headers are those added and not deleted,
in order (`emitted_eq_expected`). -/

namespace Waveplay.RaopPlay.ExtraHeaders

open Waveplay.Lib.Runs Waveplay.RaopPlay.AexclLib

/-! ### The model -/

/-- A `strcpy`: the size of the block it writes to, and the number of bytes it writes. -/
structure Copy where
  size : ℕ
  bytes : ℕ
  deriving DecidableEq, Repr

/-- The table, `none` for `NULL`, and a record of the copies. `crashed` is set by a read from `NULL` or
past the table. -/
structure ExtHds where
  exthds : Option (List KeyData) := none
  copies : List Copy := []
  crashed : Bool := false
  deriving DecidableEq, Repr

/-- What `realloc_memory` does in one call of `rtspcl_add_exthds`: the contents of a new table, and
whether there is memory for the table, the key and the data. -/
structure Memory where
  fresh : ℕ → KeyData
  table : Bool := true
  key : Bool := true
  data : Bool := true

/-- A key whose first byte is the mark. -/
def marked (k : Bytes) : Bool := k.head? = some 0xff

theorem marked_cons (k : Bytes) : marked (0xff :: k) = true := rfl

/-- The first slot that is marked or ends the table; `none` past the end of the block. -/
def findSlot : List KeyData → Option ℕ
  | [] => none
  | e :: t =>
    match e.key with
    | none => some 0
    | some k => if marked k then some 0 else (findSlot t).map (· + 1)

/-- The number of entries in the first block. -/
def tableSize : ℕ := reallocSize (17 * sizeofKeyData * 2) / sizeofKeyData

/-- Fill slot `i`, and put the terminator after it; `false` is a return of `-1`. -/
def fillSlot (s : ExtHds) (t : List KeyData) (i : ℕ) (key data : Bytes) (m : Memory) : Bool × ExtHds :=
  let old := (t.getD i ⟨none, none⟩).data
  if !m.key then (false, { s with exthds := some (t.set i ⟨none, old⟩) })
  else
    let copies := ⟨reallocSize key.length, key.length + 1⟩ :: s.copies
    if !m.data then (false, { s with exthds := some (t.set i ⟨some key, none⟩), copies })
    else
      let t := t.set i ⟨some key, some data⟩
      (true, { s with
        exthds := some (t.set (i + 1) ⟨none, (t.getD (i + 1) ⟨none, none⟩).data⟩)
        copies := ⟨reallocSize data.length, data.length + 1⟩ :: copies })

/-- **`rtspcl_add_exthds`**; `false` is a return of `-1`, or no return. After the search the code tests
the key of the slot it found, if the slot is a multiple of sixteen: that key is marked, or it is `NULL`
and cannot be read. The table is never made larger. -/
def rtspclAddExthds (s : ExtHds) (key data : Bytes) (m : Memory) : Bool × ExtHds :=
  match s.exthds with
  | none =>
    if m.table then fillSlot s ((List.range tableSize).map m.fresh) 0 key data m else (false, s)
  | some t =>
    match findSlot t with
    | none => (false, { s with crashed := true })
    | some i =>
      if i ≠ 0 ∧ i % 16 = 0 ∧ (t.getD i ⟨none, none⟩).key = none then
        (false, { s with crashed := true })
      else fillSlot s t i key data m

/-- Mark the first header with the key; `none` if there is none. -/
def markFirst (key : Bytes) : List KeyData → Option (List KeyData)
  | [] => none
  | e :: t =>
    match e.key with
    | none => none
    | some k =>
      if k = key then some ({ e with key := some (0xff :: k.tail) } :: t)
      else (markFirst key t).map (e :: ·)

/-- **`rtspcl_mark_del_exthds`**; `none` for a return of `-1`. -/
def rtspclMarkDelExthds (s : ExtHds) (key : Bytes) : Option ExtHds :=
  s.exthds.bind fun t => (markFirst key t).map fun t => { s with exthds := some t }

/-- The headers that `exec_request` writes from the table. -/
def emit : List KeyData → List (Bytes × Option Bytes)
  | [] => []
  | e :: t =>
    match e.key with
    | none => []
    | some k => if marked k then emit t else (k, e.data) :: emit t

def ExtHds.emitted (s : ExtHds) : List (Bytes × Option Bytes) := emit (s.exthds.getD [])

/-! ### Sequences of calls -/

/-- A call that adds a header, or one that deletes a header and succeeds. -/
inductive Op
  | add (key data : Bytes) (m : Memory)
  | del (key : Bytes)

def step (s : ExtHds) : Op → Option ExtHds
  | .add key data m => if s.crashed then none else some (rtspclAddExthds s key data m).2
  | .del key => if s.crashed then none else rtspclMarkDelExthds s key

/-- The keys do not start with the mark. -/
def Op.KeyOk : Op → Prop
  | .add key _ _ => marked key = false
  | .del key => marked key = false

instance : DecidablePred Op.KeyOk
  | .add key _ _ => inferInstanceAs (Decidable (marked key = false))
  | .del key => inferInstanceAs (Decidable (marked key = false))

/-- The headers added and not deleted: a header goes to the end, and is taken out by its key. -/
def expectedStep (hs : List (Bytes × Bytes)) : Op → List (Bytes × Bytes)
  | .add key data _ => hs ++ [(key, data)]
  | .del key => hs.eraseP (·.1 = key)

def expected (ops : List Op) : List (Bytes × Bytes) := ops.foldl expectedStep []

/-- The slots before the terminator. -/
def slots (t : List KeyData) : List KeyData := t.takeWhile (·.key.isSome)

/-- A string that `strcpy` can write into the block allocated for it. -/
def Fits (b : Bytes) : Prop := b.length + 1 ≤ reallocSize b.length

instance (b : Bytes) : Decidable (Fits b) := inferInstanceAs (Decidable (_ ≤ _))

/-- An addition that does no harm: there is memory, the strings fit, the slot found is one of the first
sixteen, and only deleted headers are behind it. -/
def AddCond (s : ExtHds) : Op → Prop
  | .add key data m => m.table = true ∧ m.key = true ∧ m.data = true ∧ Fits key ∧ Fits data ∧
    ∀ t i, s.exthds = some t → findSlot t = some i → i < 16 ∧ emit ((slots t).drop (i + 1)) = []
  | .del _ => True

/-! ### Tables -/

/-- A table whose live headers are `hs`. -/
def Holds (t : List KeyData) (hs : List (Bytes × Bytes)) : Prop :=
  ∃ (sl : List KeyData) (d : Option Bytes) (rest : List KeyData), t = sl ++ ⟨none, d⟩ :: rest ∧
    (∀ e ∈ sl, e.key.isSome) ∧ sl.length ≤ 16 ∧ t.length = tableSize ∧
    emit sl = hs.map fun h => (h.1, some h.2)

theorem emit_append : ∀ {sl : List KeyData} (t : List KeyData), (∀ e ∈ sl, e.key.isSome) →
    emit (sl ++ t) = emit sl ++ emit t
  | [], _, _ => rfl
  | e :: sl, t, h => by
    obtain ⟨k, hk⟩ := Option.isSome_iff_exists.mp (h e List.mem_cons_self)
    have ih := emit_append t fun x hx => h x (List.mem_cons_of_mem e hx)
    simp only [List.cons_append, emit, hk, ih]
    split_ifs <;> rfl

theorem slots_append {sl : List KeyData} (h : ∀ e ∈ sl, e.key.isSome) (d : Option Bytes)
    (rest : List KeyData) : slots (sl ++ ⟨none, d⟩ :: rest) = sl := by
  rw [slots, List.takeWhile_append_of_pos h]
  simp

/-- The search finds a slot up to the terminator; there is no live header in it. -/
theorem findSlot_append (d : Option Bytes) (rest : List KeyData) :
    ∀ {sl : List KeyData}, (∀ e ∈ sl, e.key.isSome) →
    ∃ i, findSlot (sl ++ ⟨none, d⟩ :: rest) = some i ∧ i ≤ sl.length ∧
      emit sl = emit (sl.take i) ++ emit (sl.drop (i + 1))
  | [], _ => ⟨0, rfl, Nat.le_refl 0, rfl⟩
  | e :: sl, h => by
    obtain ⟨k, hk⟩ := Option.isSome_iff_exists.mp (h e List.mem_cons_self)
    obtain ⟨i, hi, hle, hemit⟩ :=
      findSlot_append d rest fun x hx => h x (List.mem_cons_of_mem e hx)
    by_cases hm : marked k = true
    · exact ⟨0, by simp [findSlot, hk, hm], Nat.zero_le _, by simp [emit, hk, hm]⟩
    · exact ⟨i + 1, by simp [findSlot, hk, hm, hi], by simpa using hle, by simp [emit, hk, hm, hemit]⟩

theorem set_set_succ {t : List KeyData} {i : ℕ} (h : i + 1 < t.length) (a b : KeyData) :
    (t.set i a).set (i + 1) b = t.take i ++ a :: b :: t.drop (i + 2) := by
  have htake : (t.take i).length = i := by rw [List.length_take]; omega
  rw [List.set_eq_take_append_cons_drop, if_pos (by simpa using h),
    List.set_eq_take_append_cons_drop, if_pos (by omega), List.take_append, List.drop_append, htake]
  simp [List.take_take, htake, show i + 1 - i = 1 by omega, show i + 1 + 1 - i = 2 by omega]
  omega

/-- **An addition** that does no harm appends its header. -/
theorem Holds.fill {t : List KeyData} {hs : List (Bytes × Bytes)} (h : Holds t hs) {i : ℕ}
    (hi : findSlot t = some i) (hi16 : i < 16) (hbehind : emit ((slots t).drop (i + 1)) = [])
    (d : Option Bytes) {key : Bytes} (hkey : marked key = false) (data : Bytes) :
    Holds ((t.set i ⟨some key, some data⟩).set (i + 1) ⟨none, d⟩) (hs ++ [(key, data)]) := by
  obtain ⟨sl, d', rest, rfl, hsome, hlen, hsize, hemit⟩ := h
  obtain ⟨j, hj, hjle, hsplit⟩ := findSlot_append d' rest hsome
  obtain rfl : j = i := Option.some.inj (hj.symm.trans hi)
  rw [slots_append hsome] at hbehind
  have h64 : tableSize = 64 := rfl
  have htake : (sl ++ ⟨none, d'⟩ :: rest).take j = sl.take j := List.take_append_of_le_length hjle
  have hsome' : ∀ e ∈ sl.take j, e.key.isSome := fun e he => hsome e (List.mem_of_mem_take he)
  refine ⟨sl.take j ++ [⟨some key, some data⟩], d, (sl ++ ⟨none, d'⟩ :: rest).drop (j + 2), ?_, ?_, ?_,
    ?_, ?_⟩
  · rw [set_set_succ (by omega), htake]
    simp
  · intro e he
    rcases List.mem_append.mp he with he | he
    · exact hsome' e he
    · rw [List.mem_singleton.mp he]; rfl
  · rw [List.length_append, List.length_take, List.length_singleton]
    omega
  · rw [List.length_set, List.length_set, hsize]
  · rw [emit_append _ hsome', List.map_append, ← hemit, hsplit, hbehind]
    simp [emit, hkey]

theorem holds_first (t : List KeyData) (ht : t.length = tableSize) (d : Option Bytes) {key : Bytes}
    (hkey : marked key = false) (data : Bytes) :
    Holds ((t.set 0 ⟨some key, some data⟩).set 1 ⟨none, d⟩) [(key, data)] := by
  have h64 : tableSize = 64 := rfl
  refine ⟨[⟨some key, some data⟩], d, t.drop 2, ?_, by simp, by simp, by simpa using ht, ?_⟩
  · rw [set_set_succ (by omega)]
    simp
  · simp [emit, hkey]

/-- **A deletion** takes out the first header with the key. -/
theorem markFirst_emit {key : Bytes} (hkey : marked key = false) (d : Option Bytes)
    (rest : List KeyData) : ∀ {sl t' : List KeyData}, (∀ e ∈ sl, e.key.isSome) →
    markFirst key (sl ++ ⟨none, d⟩ :: rest) = some t' →
    ∃ sl', t' = sl' ++ ⟨none, d⟩ :: rest ∧ (∀ e ∈ sl', e.key.isSome) ∧ sl'.length = sl.length ∧
      emit sl' = (emit sl).eraseP (·.1 = key)
  | [], t', _, h => by simp [markFirst] at h
  | e :: sl, t', hsome, h => by
    obtain ⟨k, hk⟩ := Option.isSome_iff_exists.mp (hsome e List.mem_cons_self)
    have hsome' : ∀ x ∈ sl, x.key.isSome := fun x hx => hsome x (List.mem_cons_of_mem e hx)
    simp only [List.cons_append, markFirst, hk] at h
    split_ifs at h with heq
    · subst heq
      refine ⟨{ e with key := some (0xff :: k.tail) } :: sl, (Option.some.inj h).symm, ?_, by simp, ?_⟩
      · intro x hx
        rcases List.mem_cons.mp hx with rfl | hx
        · rfl
        · exact hsome' x hx
      · simp [emit, hk, hkey, marked_cons]
    · obtain ⟨t'', ht'', rfl⟩ := Option.map_eq_some_iff.mp h
      obtain ⟨sl', rfl, hs', hl', he'⟩ := markFirst_emit hkey d rest hsome' ht''
      refine ⟨e :: sl', rfl, ?_, by simp [hl'], ?_⟩
      · intro x hx
        rcases List.mem_cons.mp hx with rfl | hx
        · exact hsome x List.mem_cons_self
        · exact hs' x hx
      · by_cases hm : marked k = true
        · simp [emit, hk, hm, he']
        · simp [emit, hk, hm, he', heq]

theorem Holds.mark {t t' : List KeyData} {hs : List (Bytes × Bytes)} (h : Holds t hs) {key : Bytes}
    (hkey : marked key = false) (ht : markFirst key t = some t') :
    Holds t' (hs.eraseP (·.1 = key)) := by
  obtain ⟨sl, d, rest, rfl, hsome, hlen, hsize, hemit⟩ := h
  obtain ⟨sl', rfl, hsome', hlen', hemit'⟩ := markFirst_emit hkey d rest hsome ht
  refine ⟨sl', d, rest, rfl, hsome', by omega, ?_, ?_⟩
  · simpa [hlen'] using hsize
  · rw [hemit', hemit, List.eraseP_map]
    rfl

/-! ### Runs -/

/-- The table holds the headers, and every copy fitted. -/
structure Refines (s : ExtHds) (hs : List (Bytes × Bytes)) : Prop where
  running : s.crashed = false
  fits : ∀ c ∈ s.copies, c.bytes ≤ c.size
  table : match s.exthds with
    | none => hs = []
    | some t => Holds t hs

/-- **One call** does to the table what it should do to the headers. -/
theorem refines_step {s s' : ExtHds} {hs : List (Bytes × Bytes)} {op : Op} (h : Refines s hs)
    (hC : op.KeyOk ∧ AddCond s op) (hstep : step s op = some s') :
    Refines s' (expectedStep hs op) := by
  obtain ⟨hrun, hfits, htable⟩ := h
  obtain ⟨hkey, hC⟩ := hC
  cases op with
  | add key data m =>
    obtain ⟨hmt, hmk, hmd, hfk, hfd, hslot⟩ := hC
    have hcopies : ∀ c ∈ (⟨reallocSize data.length, data.length + 1⟩ : Copy) ::
        ⟨reallocSize key.length, key.length + 1⟩ :: s.copies, c.bytes ≤ c.size := by
      simp only [List.forall_mem_cons]
      exact ⟨hfd, hfk, hfits⟩
    simp only [step, hrun, Bool.false_eq_true, if_false, Option.some.injEq] at hstep
    subst hstep
    unfold rtspclAddExthds
    cases hext : s.exthds with
    | none =>
      rw [hext] at htable
      obtain rfl := htable
      simp only [hmt, if_true, fillSlot, hmk, hmd, Bool.not_true, Bool.false_eq_true, if_false]
      exact ⟨hrun, hcopies, holds_first _ (by simp) _ hkey data⟩
    | some t =>
      rw [hext] at htable
      have hholds : Holds t hs := htable
      obtain ⟨sl, d, rest, ht, hsome, -⟩ := htable
      obtain ⟨i, hi, -, -⟩ := findSlot_append d rest hsome
      rw [← ht] at hi
      obtain ⟨hi16, hbehind⟩ := hslot t i hext hi
      simp only [hi]
      rw [if_neg (by omega)]
      simp only [fillSlot, hmk, hmd, Bool.not_true, Bool.false_eq_true, if_false]
      exact ⟨hrun, hcopies, hholds.fill hi hi16 hbehind _ hkey data⟩
  | del key =>
    simp only [step, hrun, Bool.false_eq_true, if_false, rtspclMarkDelExthds] at hstep
    obtain ⟨t, hext, hmap⟩ := Option.bind_eq_some_iff.mp hstep
    obtain ⟨t', ht', rfl⟩ := Option.map_eq_some_iff.mp hmap
    rw [hext] at htable
    exact ⟨rfl, hfits, htable.mark hkey ht'⟩

theorem Holds.emit {t : List KeyData} {hs : List (Bytes × Bytes)} (h : Holds t hs) :
    emit t = hs.map fun h => (h.1, some h.2) := by
  obtain ⟨sl, d, rest, rfl, hsome, -, -, hemit⟩ := h
  rw [emit_append _ hsome, hemit]
  simp [ExtraHeaders.emit]

/-- **The extra headers.** After every sequence of calls that keeps to `AddCond` the headers that
`exec_request` writes are those added and not deleted, with their data and in order, and every string
fitted into its block. -/
theorem emitted_eq_expected {ops : List Op} {s : ExtHds} (hkeys : ∀ op ∈ ops, op.KeyOk)
    (hC : AllSteps step AddCond {} ops) (h : run step {} ops = some s) :
    s.crashed = false ∧ s.emitted = (expected ops).map (fun h => (h.1, some h.2)) ∧
      ∀ c ∈ s.copies, c.bytes ≤ c.size := by
  have h₀ : Refines {} [] := ⟨rfl, by simp, rfl⟩
  obtain ⟨hrun, hfits, htable⟩ := run_refines (fun _ _ _ _ => refines_step) h₀ (hC.and hkeys) h
  refine ⟨hrun, ?_, hfits⟩
  rw [ExtHds.emitted]
  cases hext : s.exthds with
  | none =>
    rw [hext] at htable
    rw [expected, htable]
    rfl
  | some t =>
    rw [hext] at htable
    exact htable.emit

/-- Memory that is there, and was clear. -/
def memory : Memory := { fresh := fun _ => ⟨none, none⟩ }

def add (key data : String) : Op := .add (ascii key) (ascii data) memory

/-- The last header is deleted, and its slot used again. -/
def reuseLast : List Op := [add "A" "1", add "B" "2", .del (ascii "B"), add "C" "3"]

/-- The state after the first calls. -/
def after (ops : List Op) : ExtHds := (run step {} ops).getD {}

theorem addCond_table {s : ExtHds} {t : List KeyData} {i : ℕ} {key data : String}
    (ht : s.exthds = some t) (hi : findSlot t = some i)
    (h : i < 16 ∧ emit ((slots t).drop (i + 1)) = []) (hk : Fits (ascii key)) (hd : Fits (ascii data)) :
    AddCond s (add key data) := by
  refine ⟨rfl, rfl, rfl, hk, hd, fun t' i' ht' hi' => ?_⟩
  obtain rfl := Option.some.inj (ht.symm.trans ht')
  obtain rfl := Option.some.inj (hi.symm.trans hi')
  exact h

theorem emitted_eq_expected_reuseLast :
    (after reuseLast).emitted = [(ascii "A", some (ascii "1")), (ascii "C", some (ascii "3"))] := by
  have hrun : run step {} reuseLast = some (after reuseLast) := rfl
  have h₁ : step {} (add "A" "1") = some (after (reuseLast.take 1)) := rfl
  have h₂ : step (after (reuseLast.take 1)) (add "B" "2") = some (after (reuseLast.take 2)) := rfl
  have h₃ : step (after (reuseLast.take 2)) (.del (ascii "B")) = some (after (reuseLast.take 3)) := rfl
  have hC₁ : AddCond {} (add "A" "1") :=
    ⟨rfl, rfl, rfl, by decide, by decide, fun t i ht => by cases ht⟩
  have hC₂ : AddCond (after (reuseLast.take 1)) (add "B" "2") :=
    addCond_table rfl rfl (by decide) (by decide) (by decide)
  have hC₄ : AddCond (after (reuseLast.take 3)) (add "C" "3") :=
    addCond_table rfl rfl (by decide) (by decide) (by decide)
  have hC : AllSteps step AddCond {} reuseLast :=
    allSteps_cons hC₁ h₁ <| allSteps_cons hC₂ h₂ <| allSteps_cons trivial h₃ <|
      allSteps_cons hC₄ hrun trivial
  exact (emitted_eq_expected (by decide) hC hrun).2.1

/-- The first of two headers is deleted, and its slot used again. -/
def reuseFirst : List Op := [add "A" "1", add "B" "2", .del (ascii "A"), add "C" "3"]

/-- The header `B` is lost. -/
theorem emitted_reuseFirst :
    run step {} reuseFirst = some (after reuseFirst) ∧
      (after reuseFirst).emitted = [(ascii "C", some (ascii "3"))] ∧
      expected reuseFirst = [(ascii "B", ascii "2"), (ascii "C", ascii "3")] :=
  ⟨rfl, by decide, by decide⟩

end Waveplay.RaopPlay.ExtraHeaders
