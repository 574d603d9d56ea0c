import Waveplay.Jmdns.Message
import Waveplay.Lib.Dictionary

/-! # The size of messages

A name is written in full once and referred to after that. What a name costs depends on the names before
it, but what all names of a message cost does not depend on their order: every suffix is written once.

* `weighs_name`: a name costs its new suffixes, and two bytes more;
* `weighs_question`, `weighs_record`: so do questions and records. -/

namespace Waveplay.Jmdns.MessageSize

open Waveplay.Lib.Codec Waveplay.Lib.Dictionary Waveplay.Jmdns.Stream Waveplay.Jmdns.QualifiedName
open Waveplay.Jmdns.Message

/-! ### Suffixes -/

/-- The length of the first label. -/
def labelLength (t : Text) : ℕ := t.findIdx (· == dot)

/-- What is left of a name after its first label. -/
def tail (t : Text) : Text :=
  let rest := t.drop (labelLength t)
  if rest.head? = some dot then rest.drop 1 else rest

theorem length_tail_lt {t : Text} (h : labelLength t ≠ 0) : (tail t).length < t.length := by
  have hpos : 0 < t.length := by
    rw [List.length_pos_iff]
    rintro rfl
    exact h rfl
  rw [tail]
  split <;> simp only [List.length_drop] <;> omega

/-- The suffixes of a name that `writeName` comes by. -/
def suffixes (t : Text) : List Text :=
  if _h : labelLength t = 0 then [] else t :: suffixes (tail t)
termination_by t.length
decreasing_by exact length_tail_lt _h

theorem suffixes_of_eq {t : Text} (h : labelLength t = 0) : suffixes t = [] := by
  rw [suffixes, dif_pos h]

theorem suffixes_of_ne {t : Text} (h : labelLength t ≠ 0) : suffixes t = t :: suffixes (tail t) := by
  rw [suffixes, dif_neg h]

theorem suffixes_subset {t u : Text} (h : u ∈ suffixes t) : suffixes u ⊆ suffixes t := by
  by_cases h0 : labelLength t = 0
  · rw [suffixes_of_eq h0] at h
    exact absurd h List.not_mem_nil
  · rw [suffixes_of_ne h0] at h ⊢
    rcases List.mem_cons.mp h with rfl | h
    · rw [suffixes_of_ne h0]
      exact List.Subset.refl _
    · exact fun v hv => List.mem_cons_of_mem _ (suffixes_subset h hv)
termination_by t.length
decreasing_by exact length_tail_lt h0

theorem length_le_of_mem_suffixes {t u : Text} (h : u ∈ suffixes t) : u.length ≤ t.length := by
  by_cases h0 : labelLength t = 0
  · rw [suffixes_of_eq h0] at h
    exact absurd h List.not_mem_nil
  · rw [suffixes_of_ne h0] at h
    rcases List.mem_cons.mp h with rfl | h
    · exact Nat.le_refl _
    · exact (length_le_of_mem_suffixes h).trans (length_tail_lt h0).le
termination_by t.length
decreasing_by exact length_tail_lt h0

/-- What a suffix costs: its first label with its length, less the byte at the end of a name. -/
def weight (t : Text) : ℕ := utfLength (t.take (labelLength t)) + if suffixes (tail t) = [] then 0 else 1

/-- What a name costs beyond its suffixes. -/
def nameCost (t : Text) : ℕ := if suffixes t = [] then 1 else 2

/-- The names that were written are the ones of `K`, with their suffixes. -/
structure Knows (names : Names) (K : Finset Text) : Prop where
  known : ∀ t, (names t).isSome ↔ t ∈ K
  closed : ∀ t ∈ K, ∀ u ∈ suffixes t, u ∈ K

theorem writeName_eq (t : Text) (names : Names) (pos : ℕ) : writeName t names pos =
    if labelLength t = 0 then ([0], names)
    else
      match names t with
      | some val => ([UInt8.ofNat ((val >>> 8) ||| 0xC0), UInt8.ofNat (val &&& 0xFF)], names)
      | none =>
        let out := writeName (tail t) (Function.update names t (some pos))
          (pos + (writeUTF (t.take (labelLength t))).length)
        (writeUTF (t.take (labelLength t)) ++ out.1, out.2) := by
  rw [writeName]
  rfl

/-- The size of a name, by induction on its length: `K` need only be closed below `t`. -/
theorem writeName_size {t : Text} {names : Names} (pos : ℕ) {K : Finset Text}
    (hknown : ∀ u, (names u).isSome ↔ u ∈ K) (hclosed : ∀ u ∈ suffixes t, u ∈ K → ∀ v ∈ suffixes u, v ∈ K) :
    (writeName t names pos).1.length + ∑ u ∈ K, weight u =
        ∑ u ∈ K ∪ (suffixes t).toFinset, weight u + nameCost t ∧
      ∀ u, ((writeName t names pos).2 u).isSome ↔ u ∈ K ∪ (suffixes t).toFinset := by
  rw [writeName_eq]
  by_cases h0 : labelLength t = 0
  · rw [if_pos h0, nameCost, suffixes_of_eq h0, if_pos rfl, List.toFinset_nil, Finset.union_empty]
    exact ⟨Nat.add_comm _ _, hknown⟩
  · rw [if_neg h0]
    have hmem : t ∈ suffixes t := by
      rw [suffixes_of_ne h0]
      exact List.mem_cons_self
    have hcost : nameCost t = 2 := by rw [nameCost, suffixes_of_ne h0, if_neg (List.cons_ne_nil _ _)]
    cases ht : names t with
    | some val =>
      have hK : K ∪ (suffixes t).toFinset = K := by
        refine Finset.union_eq_left.mpr fun u hu => ?_
        exact hclosed t hmem ((hknown t).mp (ht ▸ rfl)) u (List.mem_toFinset.mp hu)
      rw [hK, hcost]
      exact ⟨Nat.add_comm _ _, hknown⟩
    | none =>
      have hnot : t ∉ K := fun h => by
        have := (hknown t).mpr h
        rw [ht] at this
        exact absurd this (by decide)
      have hlt := length_tail_lt h0
      have hinsert : ∀ u, (Function.update names t (some pos) u).isSome ↔ u ∈ insert t K := fun u => by
        by_cases hu : u = t
        · simp [hu]
        · rw [Function.update_of_ne hu, Finset.mem_insert, hknown u]
          simp [hu]
      have hbelow : ∀ u ∈ suffixes (tail t), u ∈ insert t K → ∀ v ∈ suffixes u, v ∈ insert t K := by
        intro u hu hin v hv
        have hne : u ≠ t := by
          rintro rfl
          exact absurd (length_le_of_mem_suffixes hu) (by omega)
        refine Finset.mem_insert_of_mem (hclosed u ?_ (Finset.mem_of_mem_insert_of_ne hin hne) v hv)
        rw [suffixes_of_ne h0]
        exact List.mem_cons_of_mem t hu
      obtain ⟨hlen, hknown'⟩ :=
        writeName_size (pos + (writeUTF (t.take (labelLength t))).length) hinsert hbelow
      have hunion : insert t K ∪ (suffixes (tail t)).toFinset = K ∪ (suffixes t).toFinset := by
        rw [suffixes_of_ne h0, List.toFinset_cons, Finset.insert_union, Finset.union_insert]
      rw [hunion] at hlen hknown'
      rw [Finset.sum_insert hnot, weight, nameCost] at hlen
      refine ⟨?_, hknown'⟩
      have hutf := length_writeUTF (t.take (labelLength t))
      simp only [List.length_append, hcost]
      by_cases hlast : suffixes (tail t) = []
      · rw [if_pos hlast, if_pos hlast] at hlen
        omega
      · rw [if_neg hlast, if_neg hlast] at hlen
        omega
termination_by t.length

/-- **A name costs its new suffixes**, and one byte more if it is empty, two if not. -/
theorem weighs_name (t : Text) : Weighs Knows weight (writeName t) (suffixes t).toFinset (nameCost t) := by
  intro names pos K hK
  obtain ⟨hlen, hknown⟩ := writeName_size pos hK.known fun u _ hu v hv => hK.closed u hu v hv
  refine ⟨hlen, hknown, fun u hu v hv => ?_⟩
  rcases Finset.mem_union.mp hu with hu | hu
  · exact Finset.mem_union_left _ (hK.closed u hu v hv)
  · exact Finset.mem_union_right _ (List.mem_toFinset.mpr (suffixes_subset (List.mem_toFinset.mp hu) hv))

/-! ### Questions and records -/

variable {lower : Text → Text}

/-- The names in the data of a record. -/
def dataNames : Data → List Text
  | .pointer target => [target]
  | .service _ _ _ server => [server]
  | _ => []

/-- What the data of a record cost beyond suffixes. -/
def dataCost : Data → ℕ
  | .ipv4Address (some _) => 4
  | .ipv6Address (some _) => 16
  | .ipv4Address none | .ipv6Address none => 0
  | .pointer target => nameCost target
  | .text bytes => bytes.val.length
  | .service _ _ _ server => 6 + nameCost server
  | .hostInformation cpu os => (writeUTF (cpu ++ [blank] ++ os)).length

theorem length_writeShort (v : ℤ) : (writeShort v).length = 2 := rfl

/-- All suffixes of some names. -/
def allSuffixes (names : List Text) : Finset Text := entries (fun t => (suffixes t).toFinset) names

theorem allSuffixes_singleton (t : Text) : allSuffixes [t] = (suffixes t).toFinset := Finset.union_empty _

theorem weighs_data {data : Data} {w : Emitter UInt8 Names} (hw : data.write = some w) :
    Weighs Knows weight w (allSuffixes (dataNames data)) (dataCost data) := by
  have hconst : ∀ {bs : List UInt8} {c : ℕ}, some (Emitter.const bs) = some w → bs.length = c →
      Weighs Knows weight w (allSuffixes []) c := by
    intro bs c hw hc
    obtain rfl := Option.some.inj hw
    exact (weighs_const bs).of_eq rfl hc
  cases data with
  | ipv4Address addr =>
    rcases addr with _ | address | address
    · exact hconst hw rfl
    · exact hconst hw address.property
    · exact hconst hw (by rw [List.length_drop, address.property]; rfl)
  | ipv6Address addr =>
    rcases addr with _ | address | address
    · exact hconst hw rfl
    · exact absurd hw (by simp [Data.write])
    · exact hconst hw address.property
  | pointer target =>
    obtain rfl : writeName target = w := Option.some.inj hw
    exact (weighs_name target).of_eq (allSuffixes_singleton target).symm rfl
  | text bytes => exact hconst hw rfl
  | service priority weight port server =>
    obtain rfl := Option.some.inj hw
    have h := (weighs_const (writeShort priority)).andThen ((weighs_const (writeShort weight)).andThen
      ((weighs_const (writeShort port)).andThen (weighs_name server)))
    refine h.of_eq ?_ ?_
    · rw [dataNames, allSuffixes_singleton, Finset.empty_union, Finset.empty_union, Finset.empty_union]
    · simp only [dataCost, length_writeShort]
      omega
  | hostInformation cpu os => exact hconst hw rfl

theorem weighs_sized {w : Emitter UInt8 Names} {S : Finset Text} {c : ℕ} (h : Weighs Knows weight w S c) :
    Weighs Knows weight (sized w) S (2 + c) := by
  intro names pos K hK
  obtain ⟨hlen, hknows⟩ := h names (pos + 2) K hK
  refine ⟨?_, hknows⟩
  simp only [sized, List.length_append, length_writeShort]
  omega

/-- The names of a question or a record. -/
def recordNames (r : Record lower) : List Text := r.name :: dataNames r.data

/-- What a question costs beyond suffixes. -/
def questionCost (q : Question lower) : ℕ := nameCost q.name + 4

/-- What a record costs beyond suffixes. -/
def recordCost (r : Record lower) : ℕ := nameCost r.name + (10 + dataCost r.data)

theorem weighs_question (q : Question lower) :
    Weighs Knows weight (writeQuestion q) (suffixes q.name).toFinset (questionCost q) := by
  have h := (weighs_name q.name).andThen ((weighs_const (writeShort q.recordType.indexValue)).andThen
    (weighs_const (writeShort q.recordClass.indexValue)))
  refine h.of_eq ?_ rfl
  rw [Finset.union_empty, Finset.union_empty]

theorem weighs_record {multicast : Bool} {now : ℤ} {r : Record lower} {w : Emitter UInt8 Names}
    (hw : writeRecord multicast now r = some w) :
    Weighs Knows weight w (allSuffixes (recordNames r)) (recordCost r) := by
  obtain ⟨w', hw', rfl⟩ := Option.map_eq_some_iff.mp hw
  have h := (weighs_name r.name).andThen ((weighs_const (writeShort r.data.recordType.indexValue)).andThen
    ((weighs_const (writeShort (r.recordClass.indexValue + if r.unique && multicast then 0x8000 else 0))).andThen
      ((weighs_const (writeInt (if now = 0 then r.ttl else r.getRemainingTTL now))).andThen
        (weighs_sized (weighs_data hw')))))
  refine h.of_eq ?_ ?_
  · rw [Finset.empty_union, Finset.empty_union, Finset.empty_union]
    rfl
  · have hint : ∀ v, (writeInt v).length = 4 := fun _ => rfl
    simp only [recordCost, length_writeShort, hint]
    omega

/-! ### Messages -/

/-- The suffixes of the names of records. -/
def recordSuffixes (rs : List (Record lower)) : Finset Text := entries (fun r => allSuffixes (recordNames r)) rs

/-- The suffixes of all names of a message. -/
def messageSuffixes (out : Outgoing lower) : Finset Text :=
  entries (fun q => (suffixes q.name).toFinset) out.questions ∪ (recordSuffixes out.answers ∪
    (recordSuffixes out.authoritativeAnswers ∪ recordSuffixes out.additionals))

/-- What a message costs beyond its suffixes and its header. -/
def messageCost (out : Outgoing lower) : ℕ :=
  (out.questions.map questionCost).sum + ((out.answers.map recordCost).sum +
    ((out.authoritativeAnswers.map recordCost).sum + (out.additionals.map recordCost).sum))

/-- The length of a message. -/
def messageLength (out : Outgoing lower) : ℕ := 12 + (∑ t ∈ messageSuffixes out, weight t + messageCost out)

theorem knows_empty : Knows (fun _ => none) ∅ :=
  ⟨fun t => by simp, fun t ht => absurd ht (Finset.notMem_empty t)⟩

/-- **The length of a message does not depend on the order of its names.** -/
theorem length_data {out : Outgoing lower} {now : ℤ} {packet : List UInt8} (h : out.data now = some packet) :
    packet.length = messageLength out := by
  simp only [Outgoing.data, Option.bind_eq_bind, Option.bind_eq_some_iff] at h
  obtain ⟨ws₁, hws₁, ws₂, hws₂, ws₃, hws₃, hpacket⟩ := h
  obtain rfl := Option.some.inj hpacket
  have hquestions : Weighs Knows weight (.all (out.questions.map writeQuestion))
      (entries (fun q => (suffixes q.name).toFinset) out.questions) (out.questions.map questionCost).sum := by
    have hws : out.questions.mapM (fun q => some (writeQuestion q)) = some (out.questions.map writeQuestion) :=
      List.mapM_pure
    refine Weighs.mapM hws fun q _ w hw => ?_
    obtain rfl := Option.some.inj hw
    exact weighs_question q
  have hheader : Weighs Knows weight (.all out.header) ∅ 12 :=
    weighs_const (out.header.flatMap fun w => (w (fun _ => none) 0).1)
  have hmessage := hheader.andThen (hquestions.andThen
    ((Weighs.mapM hws₁ fun r _ w hw => weighs_record hw).andThen
      ((Weighs.mapM hws₂ fun r _ w hw => weighs_record hw).andThen
        (Weighs.mapM hws₃ fun r _ w hw => weighs_record hw))))
  obtain ⟨hlen, -⟩ := hmessage (fun _ => none) 0 ∅ knows_empty
  rw [Finset.sum_empty, Finset.empty_union, Finset.empty_union, Nat.add_zero] at hlen
  rw [hlen, messageLength, messageCost, messageSuffixes]
  exact Nat.add_left_comm _ _ _

end Waveplay.Jmdns.MessageSize
