import Waveplay.RaopPlay.RtspClient

/-! # The header table of a response

`exec_request` makes a new table for every sixteen headers, and `realloc_memory` forgets the old one:
with a seventeenth header the first sixteen entries are unspecified. A response without headers makes no
table at all, and the terminator is written to the one that is there. A line that fills the buffer ends
the header loop, since the end of that line is then read as an empty one.

With at most sixteen headers, a table to write to and shorter lines before the last one, and only then,
the table is right for every contents of memory (`tableOk_iff`). -/

namespace Waveplay.RaopPlay.HeaderTable

open Waveplay.RaopPlay.AexclLib Waveplay.RaopPlay.RtspClient

/-- An entry that was cleared. -/
def cleared : KeyData := ⟨none, none⟩

/-- What the call should leave: it returns 0, and the table has the headers in order and a terminator,
so that `kd_lookup` finds the first header of a name. -/
def TableOk (x : Executed) (hs : List (Bytes × Bytes)) : Prop :=
  x.outcome = .ret 0 ∧ ∃ t d rest, x.kd = some t ∧ t = entriesOf hs ++ ⟨none, d⟩ :: rest ∧
    ∀ key, kdLookup t key = (hs.find? (·.1 = key)).map Prod.snd

/-! ### Up to sixteen headers -/

/-- The first table with the headers `hs`. -/
def firstTable (m : Memory) (hs : List (Bytes × Bytes)) : List KeyData :=
  entriesOf hs ++ List.replicate (17 - hs.length) cleared ++ (List.range' 17 15).map (m.fresh 0)

theorem newTable_zero (m : Memory) : newTable m 0 = firstTable m [] := rfl

theorem firstTable_set (m : Memory) {hs : List (Bytes × Bytes)} (hlen : hs.length ≤ 16)
    (c : KeyData) :
    (firstTable m hs).set hs.length c = entriesOf hs ++
      c :: (List.replicate (16 - hs.length) cleared ++ (List.range' 17 15).map (m.fresh 0)) := by
  have hentries : (entriesOf hs).length = hs.length := List.length_map ..
  rw [firstTable, show 17 - hs.length = 16 - hs.length + 1 by omega, List.append_assoc,
    List.set_append_right _ _ (by omega), hentries, Nat.sub_self, List.replicate_succ,
    List.cons_append, List.set_cons_zero]

theorem firstTable_header (m : Memory) {hs : List (Bytes × Bytes)} (hlen : hs.length ≤ 16)
    (h : Bytes × Bytes) :
    (firstTable m hs).set hs.length ⟨some h.1, some h.2⟩ = firstTable m (hs ++ [h]) := by
  rw [firstTable_set m hlen, firstTable, List.length_append, List.length_singleton,
    show 17 - (hs.length + 1) = 16 - hs.length by omega]
  simp [entriesOf]

theorem foldl_addHeader (m : Memory) : ∀ {hs pre : List (Bytes × Bytes)}, pre ≠ [] →
    pre.length + hs.length ≤ 16 →
    hs.foldl (addHeader m) (pre.length, some (firstTable m pre)) =
      ((pre ++ hs).length, some (firstTable m (pre ++ hs)))
  | [], pre, _, _ => by simp
  | h :: hs, pre, hne, hlen => by
    rw [List.length_cons] at hlen
    have hpos : 0 < pre.length := List.length_pos_iff.mpr hne
    have hstep : addHeader m (pre.length, some (firstTable m pre)) h =
        ((pre ++ [h]).length, some (firstTable m (pre ++ [h]))) := by
      rw [addHeader, if_neg (show ¬ pre.length % 16 = 0 by omega), Option.map_some,
        firstTable_header m (by omega), List.length_append, List.length_singleton]
    rw [List.foldl_cons, hstep, foldl_addHeader m (by simp) (by simp; omega), List.append_assoc]
    rfl

theorem foldl_addHeader_first (m : Memory) (kd : Option (List KeyData)) {hs : List (Bytes × Bytes)}
    (hne : hs ≠ []) (hlen : hs.length ≤ 16) :
    hs.foldl (addHeader m) (0, kd) = (hs.length, some (firstTable m hs)) := by
  obtain ⟨h, hs, rfl⟩ := List.exists_cons_of_ne_nil hne
  have hstep : addHeader m (0, kd) h = ([h].length, some (firstTable m [h])) := by
    have hnil : ([] : List (Bytes × Bytes)).length ≤ 16 := Nat.zero_le 16
    have hset := firstTable_header m hnil h
    rw [← newTable_zero] at hset
    exact congrArg (fun t => (1, some t)) hset
  rw [List.length_cons] at hlen
  rw [List.foldl_cons, hstep, foldl_addHeader m (by simp) (by simp; omega)]
  rfl

/-- **The table** after at most sixteen headers, if there is one. -/
theorem finish_foldl (m : Memory) {kd : Option (List KeyData)} {hs : List (Bytes × Bytes)}
    (hlen : hs.length ≤ 16) (hkd : hs = [] → ∃ c t, kd = some (c :: t)) (udp : Bool) (timeout : ℕ)
    (sock : Socket) :
    let s := hs.foldl (addHeader m) (0, kd)
    let out := finish udp ⟨s.1, s.2, timeout, sock⟩
    out.1 = .ret 0 ∧ ∃ d rest, out.2.1 = some (entriesOf hs ++ ⟨none, d⟩ :: rest) := by
  by_cases hne : hs = []
  · obtain ⟨c, t, rfl⟩ := hkd hne
    obtain rfl := hne
    exact ⟨rfl, c.data, t, rfl⟩
  · rw [foldl_addHeader_first m kd hne hlen]
    exact ⟨rfl, _, _, congrArg some (firstTable_set m hlen _)⟩

/-! ### More than sixteen headers -/

/-- Memory that happens to be clear. -/
def clearMemory : Memory := ⟨fun _ _ => cleared, fun _ => []⟩

/-- After the sixteenth header the first entry has no key. -/
def Lost (s : ℕ × Option (List KeyData)) : Prop := 16 < s.1 → ∃ t, s.2 = some (cleared :: t)

theorem newTable_clearMemory (i : ℕ) : ∃ t, newTable clearMemory i = cleared :: t := by
  have hsize : 0 < reallocSize ((16 * (i / 16 + 1) + 1) * sizeofKeyData) / sizeofKeyData := by
    refine Nat.div_pos (Nat.le_trans ?_ (le_roundUp _ 8 16)) (by decide)
    exact Nat.le_mul_of_pos_left _ (by omega)
  obtain ⟨k, hk⟩ := Nat.exists_eq_succ_of_ne_zero (Nat.ne_of_gt hsize)
  refine ⟨List.replicate k cleared, ?_⟩
  rw [newTable, hk, ← List.replicate_succ, List.eq_replicate_iff]
  refine ⟨by simp, fun c hc => ?_⟩
  obtain ⟨j, -, rfl⟩ := List.mem_map.mp hc
  split_ifs <;> rfl

theorem lost_addHeader {s : ℕ × Option (List KeyData)} (hs : Lost s) (h : Bytes × Bytes) :
    Lost (addHeader clearMemory s h) := by
  obtain ⟨i, kd⟩ := s
  intro hi
  have hi : 16 ≤ i := Nat.le_of_lt_succ hi
  obtain ⟨j, rfl⟩ : ∃ j, i = j + 1 := ⟨i - 1, by omega⟩
  have htable : ∃ t, (if (j + 1) % 16 = 0 then some (newTable clearMemory (j + 1)) else kd) =
      some (cleared :: t) := by
    split_ifs with h16
    · obtain ⟨t, ht⟩ := newTable_clearMemory (j + 1)
      exact ⟨t, congrArg some ht⟩
    · exact hs (show 16 < j + 1 by omega)
  obtain ⟨t, ht⟩ := htable
  simp only [addHeader]
  rw [ht]
  exact ⟨_, rfl⟩

theorem lost_foldl : ∀ (hs : List (Bytes × Bytes)) {s : ℕ × Option (List KeyData)}, Lost s →
    Lost (hs.foldl (addHeader clearMemory) s)
  | [], _, h => h
  | _ :: hs, _, h => lost_foldl hs (lost_addHeader h _)

theorem foldl_addHeader_fst (m : Memory) : ∀ (hs : List (Bytes × Bytes))
    (s : ℕ × Option (List KeyData)), (hs.foldl (addHeader m) s).1 = s.1 + hs.length
  | [], _ => rfl
  | h :: hs, s => by
    rw [List.foldl_cons, foldl_addHeader_fst m hs, List.length_cons, addHeader]
    omega

/-- With a seventeenth header the table can be empty. -/
theorem finish_foldl_lost (kd : Option (List KeyData)) {hs : List (Bytes × Bytes)}
    (hlen : 16 < hs.length) (udp : Bool) (timeout : ℕ) (sock : Socket) :
    let s := hs.foldl (addHeader clearMemory) (0, kd)
    ∃ t, (finish udp ⟨s.1, s.2, timeout, sock⟩).2.1 = some (cleared :: t) := by
  have hlost : Lost (hs.foldl (addHeader clearMemory) (0, kd)) :=
    lost_foldl hs fun h => absurd h (by simp)
  rw [Lost, foldl_addHeader_fst, Nat.zero_add] at hlost
  obtain ⟨t, ht⟩ := hlost hlen
  obtain ⟨j, hj⟩ : ∃ j, hs.length = j + 1 := ⟨hs.length - 1, by omega⟩
  simp only [foldl_addHeader_fst, ht, Nat.zero_add, hj]
  exact ⟨_, rfl⟩

/-! ### The table -/

/-- The terminator says how many entries there are. -/
theorem entriesOf_inj {d d' : Option Bytes} {rest rest' : List KeyData} :
    ∀ {hs hs' : List (Bytes × Bytes)},
    entriesOf hs ++ ⟨none, d⟩ :: rest = entriesOf hs' ++ ⟨none, d'⟩ :: rest' → hs = hs'
  | [], [], _ => rfl
  | [], h' :: hs', h => by simp [entriesOf] at h
  | h :: hs, [], heq => by simp [entriesOf] at heq
  | h :: hs, h' :: hs', heq => by
    simp only [entriesOf, List.map_cons, List.cons_append, List.cons.injEq, KeyData.mk.injEq,
      Option.some.injEq] at heq
    rw [Prod.ext heq.1.1 heq.1.2, entriesOf_inj heq.2]

theorem seenAfter_nil (status : Bytes) : seenAfter status [] = [] := by
  rw [seenAfter, seen, ite_self]

theorem exists_cons {kd : Option (List KeyData)} (hkd : kd ≠ some []) (hne : kd ≠ none) :
    ∃ c t, kd = some (c :: t) := by
  match kd with
  | none => exact absurd rfl hne
  | some [] => exact absurd rfl hkd
  | some (c :: t) => exact ⟨c, t, rfl⟩

/-- **The header table** of a `200` response, for every contents of memory. -/
theorem tableOk_iff {status : Bytes} {hs : List (Bytes × Bytes)} {arr : List (ℕ × UInt8)}
    {q : Request} {kd : Option (List KeyData)} (hq : q.getResponse ≠ 0) (hr : OkResponse status hs)
    (hp : InTime arr status hs) (hkd : kd ≠ some []) (r : Rtspcl)
    (rest : List (ℕ × UInt8)) (e : End) :
    (∀ m, TableOk (execRequest r q kd ⟨arr ++ rest, e⟩ m) hs) ↔
      hs.length ≤ 16 ∧ (hs = [] → kd ≠ none) ∧
        ∀ l ∈ (status :: hs.map headerLine).dropLast, l.length < 2047 := by
  rw [← seenAfter_eq_self_iff]
  constructor
  · intro hall
    obtain ⟨timeout, sock, -, -, hx⟩ := execRequest_ok hq hr hp r clearMemory kd rest e
    obtain ⟨hret, t, d, rest', htable, rfl, -⟩ := hall clearMemory
    rw [hx] at hret htable
    have hlen : (seenAfter status hs).length ≤ 16 := by
      by_contra hlen
      obtain ⟨t, ht⟩ := finish_foldl_lost kd (Nat.lt_of_not_le hlen) r.udp timeout sock
      obtain rfl : [] = hs := entriesOf_inj (Option.some.inj (ht.symm.trans htable))
      exact hlen (by rw [seenAfter_nil]; exact Nat.zero_le 16)
    have hnone : seenAfter status hs = [] → kd ≠ none := by
      rintro hnil rfl
      rw [hnil] at hret
      cases hret
    obtain ⟨-, d', rest'', htable'⟩ :=
      finish_foldl clearMemory hlen (exists_cons hkd ∘ hnone) r.udp timeout sock
    have hself := entriesOf_inj (Option.some.inj (htable'.symm.trans htable))
    rw [hself] at hlen hnone
    exact ⟨hlen, hnone, hself⟩
  · rintro ⟨hlen, hnone, hself⟩ m
    obtain ⟨timeout, sock, -, -, hx⟩ := execRequest_ok hq hr hp r m kd rest e
    rw [hself] at hx
    obtain ⟨hret, d, rest', htable⟩ :=
      finish_foldl m hlen (exists_cons hkd ∘ hnone) r.udp timeout sock
    rw [hx]
    exact ⟨hret, _, d, rest', htable, rfl, fun key => kdLookup_entriesOf d rest' key hs⟩

/-- A client, and the request it makes. -/
def client : Rtspcl := { url := ascii "rtsp://10.0.0.2/1", useragent := ascii "RTSPClient", udp := true }

def options : Request := { cmd := ascii "OPTIONS", url := some (ascii "*") }

def success : Bytes := ascii "RTSP/1.0 200 OK"

/-- A `200` response that comes at once. -/
def respond (hs : List (Bytes × Bytes)) : List (ℕ × UInt8) :=
  (responseText success hs).map fun ch => (0, ch)

/-- Two headers of one name. -/
def twoHeaders : List (Bytes × Bytes) := [(ascii "Session", ascii " 1"), (ascii "Session", ascii " 2")]

theorem tableOk_iff_twoHeaders :
    TableOk (execRequest client options none ⟨respond twoHeaders ++ [], .idle⟩ clearMemory)
      twoHeaders := by
  have hr : OkResponse success twoHeaders := by decide +kernel
  have hp : Prompt 1000 (respond twoHeaders) (responseText success twoHeaders) := by decide +kernel
  exact (tableOk_iff (by decide) hr (inTime_of_prompt hp) (by decide) client [] .idle).mpr
    ⟨by decide, by decide, by decide⟩ clearMemory

def seventeen : List (Bytes × Bytes) := List.replicate 17 (ascii "A", ascii "1")

/-- The first of seventeen headers is not found, if memory was clear. -/
theorem tableOk_seventeen :
    OkResponse success seventeen ∧ InTime (respond seventeen) success seventeen ∧
      ¬ TableOk (execRequest client options none ⟨respond seventeen, .idle⟩ clearMemory) seventeen := by
  refine ⟨by decide +kernel, inTime_of_prompt (by decide +kernel), ?_⟩
  rintro ⟨-, t, d, rest, hkd, -, hlookup⟩
  have hnone : (execRequest client options none ⟨respond seventeen, .idle⟩ clearMemory).kd.map
      (kdLookup · (ascii "A")) = some none := by decide +kernel
  rw [hkd, Option.map_some, hlookup] at hnone
  revert hnone
  decide

end Waveplay.RaopPlay.HeaderTable
