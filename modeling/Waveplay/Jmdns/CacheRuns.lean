import Waveplay.Jmdns.Cache

/-! # What is in the cache

* `cached_once`: of a name, a class and a type with one value there is never more than one record;
* `cached_latest`: it is the one that the last response had, and it has not expired;
* `handleRecord_copies`: a second address is stored again by every response that has it, and the first one
  stays;
* `handleRecord_throws_iff`: the responses that end the thread that receives them. -/

namespace Waveplay.Jmdns.CacheRuns

open Waveplay.Lib Waveplay.Lib.Runs Waveplay.Jmdns.Stream Waveplay.Jmdns.QualifiedName
open Waveplay.Jmdns.Message Waveplay.Jmdns.Outbox Waveplay.Jmdns.Cache

variable {lower : Text → Text} {r c e : Record lower} {value value' : List (Record lower)} {now : ℤ}

/-! ### What does not change in place -/

/-- What a record is about, which does not change while it is in the cache. -/
def face (r : Record lower) : Text × DNSRecordClass × Data := (r.name, r.recordClass, r.data)

theorem recordKey_congr (h : face c = face e) : recordKey c = recordKey e := by
  rw [recordKey, recordKey, show c.name = e.name from congrArg Prod.fst h]

theorem isSameEntry_congr (h : face c = face e) : isSameEntry c r = isSameEntry e r := by
  obtain ⟨-, hclass, hdata⟩ : c.name = e.name ∧ c.recordClass = e.recordClass ∧ c.data = e.data := by
    simpa [face] using h
  rw [isSameEntry, isSameEntry, recordKey_congr h, hclass, hdata]

theorem face_flush (e : Record lower) : face (flush now r e) = face e := by
  rw [flush]
  split <;> rfl

theorem map_face_updateFirst {p : Record lower → Bool} {f g : Record lower → Record lower}
    (hf : ∀ e, face (f e) = face e) (hg : ∀ e, face (g e) = face e) (value : List (Record lower)) :
    (updateFirst p f g value).map face = value.map face := by
  induction value with
  | nil => rfl
  | cons e value ih =>
    rw [updateFirst]
    split
    · simp [hf, hg, Function.comp_def]
    · simp [hg, ih]

theorem map_face_flushed (value : List (Record lower)) : (flushed now r value).map face = value.map face := by
  rw [flushed]
  split
  · exact map_face_updateFirst (fun _ => rfl) face_flush value
  · rfl

theorem find_updateFirst {p : Record lower → Bool} {g : Record lower → Record lower} (hg : ∀ e, p (g e) = p e)
    (value : List (Record lower)) : (updateFirst p id g value).find? p = value.find? p := by
  induction value with
  | nil => rfl
  | cons e value ih =>
    rw [updateFirst]
    split
    · next hp => rw [id, List.find?_cons_of_pos hp, List.find?_cons_of_pos hp]
    · next hp =>
      rw [List.find?_cons_of_neg hp, List.find?_cons_of_neg (by rwa [hg]), ih]

theorem find_flushed (value : List (Record lower)) :
    (flushed now r value).find? (isSameEntry · r) = value.find? (isSameEntry · r) := by
  rw [flushed]
  split
  · exact find_updateFirst (p := (isSameEntry · r)) (g := flush now r)
      (fun e => isSameEntry_congr (face_flush e)) value
  · rfl

/-! ### The record that is taken out -/

/-- An address record without an address. -/
def NoAddress (d : Data) : Prop := d = .ipv4Address none ∨ d = .ipv6Address none

instance (d : Data) : Decidable (NoAddress d) := inferInstanceAs (Decidable (_ ∨ _))

theorem sameValue_self (d : Data) : sameValue d d = if NoAddress d then none else some true := by
  rcases d with (_ | a) | (_ | a) | _ | _ | _ | _ <;> simp [sameValue, sameAddress, NoAddress]

/-- Two records of one type cannot be compared if neither has an address. -/
theorem sameValue_eq_none_iff {d d' : Data} (h : d.recordType = d'.recordType) :
    sameValue d d' = none ↔ NoAddress d ∧ NoAddress d' := by
  rcases d with (_ | a) | (_ | a) | _ | _ | _ | _ <;> rcases d' with (_ | b) | (_ | b) | _ | _ | _ | _ <;>
    simp [sameValue, sameAddress, NoAddress, Data.recordType] at h ⊢

theorem eq_of_sameValue {d d' : Data} (h : d.recordType = d'.recordType) (hsame : sameValue d d' = some true) :
    d = d' := by
  rcases d with (_ | a) | (_ | a) | _ | _ | _ | _ <;> rcases d' with (_ | b) | (_ | b) | _ | _ | _ | _ <;>
    simp_all [sameValue, sameAddress, Data.recordType]

theorem type_of_isSameEntry (h : isSameEntry e r = true) : e.data.recordType = r.data.recordType := by
  rw [isSameEntry, Bool.and_eq_true] at h
  exact (of_decide_eq_true h.1).2.1

theorem class_of_isSameEntry (h : isSameEntry e r = true) :
    r.recordClass = .CLASS_ANY ∨ e.recordClass = r.recordClass := by
  rw [isSameEntry, Bool.and_eq_true] at h
  exact (of_decide_eq_true h.1).2.2

theorem equals_self (c : Record lower) : equals c c = if NoAddress c.data then none else some true := by
  rw [equals, if_pos ⟨rfl, rfl, rfl⟩, sameValue_self]

/-- A record that is not the same entry as `r` does not equal one that is. -/
theorem equals_of_isSameEntry (hc : isSameEntry c r = true) (he : isSameEntry e r = false) :
    equals c e = some false := by
  rw [equals]
  split
  · next h =>
    obtain ⟨hkey, htype, hclass⟩ := h
    obtain ⟨⟨hkey', htype', hclass'⟩, htarget⟩ : (recordKey c = recordKey r ∧ _ ∧ _) ∧ _ := by
      rw [isSameEntry, Bool.and_eq_true, decide_eq_true_eq] at hc
      exact hc
    have hsame : recordKey e = recordKey r ∧ e.data.recordType = r.data.recordType ∧
        (r.recordClass = .CLASS_ANY ∨ e.recordClass = r.recordClass) :=
      ⟨hkey ▸ hkey', htype ▸ htype', hclass ▸ hclass'⟩
    rw [isSameEntry, decide_eq_true hsame, Bool.true_and] at he
    -- only a pointer can be another entry then
    generalize c.data = d at *
    generalize e.data = d' at *
    generalize r.data = d'' at *
    cases d' <;> cases d'' <;> simp at he
    cases d <;> simp [Data.recordType] at htype
    simp only [decide_eq_true_eq] at htarget
    simp [sameValue, htarget, Ne.symm he]
  · rfl

theorem removeFirst_append {l₁ l₂ : List (Record lower)} (h₁ : ∀ x ∈ l₁, equals c x = some false) :
    removeFirst c (l₁ ++ l₂) = (removeFirst c l₂).map (l₁ ++ ·) := by
  induction l₁ with
  | nil => simp
  | cons x l₁ ih =>
    rw [List.cons_append, removeFirst, h₁ x List.mem_cons_self, ih fun y hy => h₁ y (List.mem_cons_of_mem x hy)]
    simp [Function.comp_def]

theorem removeFirst_of_find (hfind : value.find? (isSameEntry · r) = some c) :
    ∃ l₁ l₂, value = l₁ ++ c :: l₂ ∧
      removeFirst c value = if NoAddress c.data then none else some (l₁ ++ l₂) := by
  obtain ⟨hc, l₁, l₂, rfl, hbefore⟩ := List.find?_eq_some_iff_append.mp hfind
  refine ⟨l₁, l₂, rfl, ?_⟩
  rw [removeFirst_append fun x hx => equals_of_isSameEntry hc (by simpa using hbefore x hx), removeFirst, equals_self]
  split <;> simp

theorem removeFirst_sublist : ∀ {value value' : List (Record lower)}, removeFirst c value = some value' →
    value'.Sublist value
  | [], value', h => by
    rw [← Option.some.inj h]
  | e :: value, value', h => by
    obtain ⟨same, -, h⟩ := Option.bind_eq_some_iff.mp h
    cases same with
    | true =>
      rw [← Option.some.inj h]
      exact List.sublist_cons_self e value
    | false =>
      obtain ⟨l, hl, rfl⟩ := Option.map_eq_some_iff.mp h
      exact (removeFirst_sublist hl).cons_cons e

/-! ### What a record does -/

/-- What becomes of the records of a name. -/
inductive Handled (now : ℤ) (r : Record lower) (value : List (Record lower)) : List (Record lower) → Prop
  | expired {l : List (Record lower)} (hexpired : isExpired now r) (h : l.map face = value.map face) :
    Handled now r value l
  | removed {l : List (Record lower)} (hexpired : isExpired now r) (h : l.Sublist (flushed now r value)) :
    Handled now r value l
  | replaced {c : Record lower} {l₁ l₂ : List (Record lower)} (hexpired : ¬ isExpired now r)
    (hsingle : isSingleValued r.data = true) (hc : isSameEntry c r = true)
    (h : flushed now r value = l₁ ++ c :: l₂) : Handled now r value (l₁ ++ l₂ ++ [r])
  | added (hexpired : ¬ isExpired now r)
    (h : isSingleValued r.data = true → ∀ e ∈ value, isSameEntry e r = false) :
    Handled now r value (flushed now r value ++ [r])
  | reset {c : Record lower} {l₁ l₂ : List (Record lower)} (hexpired : ¬ isExpired now r)
    (hc : isSameEntry c r = true) (hdata : c.data = r.data) (h : flushed now r value = l₁ ++ c :: l₂) :
    Handled now r value (l₁ ++ resetTTL r c :: l₂)

theorem updateFirst_append {p : Record lower → Bool} {f : Record lower → Record lower} {l₁ l₂ : List (Record lower)}
    (hc : p c = true) (h : ∀ e ∈ l₁, p e = false) : updateFirst p f id (l₁ ++ c :: l₂) = l₁ ++ f c :: l₂ := by
  induction l₁ with
  | nil => rw [List.nil_append, updateFirst, if_pos hc, List.map_id]; rfl
  | cons e l₁ ih =>
    rw [List.cons_append, updateFirst, if_neg (by simp [h e List.mem_cons_self]),
      ih fun x hx => h x (List.mem_cons_of_mem e hx)]
    rfl

theorem noAddress_of_single {d : Data} (h : isSingleValued d = true) : ¬ NoAddress d := by
  rintro (rfl | rfl) <;> cases h

theorem isSingleValued_congr {d d' : Data} (h : d.recordType = d'.recordType) :
    isSingleValued d = isSingleValued d' := by
  cases d <;> cases d' <;> first | rfl | cases h

theorem handled_of_handleList {operation : Operation} (h : handleList now r value = some (value', operation)) :
    Handled now r value value' := by
  rw [handleList] at h
  cases hfind : value.find? (isSameEntry · r) with
  | none =>
    have hnone : ∀ e ∈ value, isSameEntry e r = false := by simpa using hfind
    rw [hfind] at h
    simp only at h
    split at h
    · next hexpired =>
      cases h
      exact .expired hexpired (map_face_flushed value)
    · next hexpired =>
      cases h
      exact .added hexpired fun _ => hnone
  | some c =>
    have hfind' : (flushed now r value).find? (isSameEntry · r) = some c := (find_flushed value).trans hfind
    obtain ⟨hc, l₁, l₂, hsplit, hbefore⟩ := List.find?_eq_some_iff_append.mp hfind'
    rw [hfind] at h
    simp only at h
    split at h
    · next hexpired =>
      split at h
      · cases h
        refine .expired hexpired ?_
        rw [map_face_updateFirst (f := setWillExpireSoon now) (g := id) (fun _ => rfl) (fun _ => rfl),
          map_face_flushed]
      · obtain ⟨l, hl, hvalue⟩ := Option.map_eq_some_iff.mp h
        cases hvalue
        exact .removed hexpired (removeFirst_sublist hl)
    · next hexpired =>
      obtain ⟨d, hd, h⟩ := Option.bind_eq_some_iff.mp h
      cases d with
      | true =>
        rw [if_pos rfl] at h
        split at h
        · next hsingle =>
          obtain ⟨l, hl, hvalue⟩ := Option.map_eq_some_iff.mp h
          cases hvalue
          obtain ⟨l₁, l₂, hsplit, hremove⟩ := removeFirst_of_find hfind'
          rw [hremove, if_neg] at hl
          · cases hl
            exact .replaced hexpired hsingle hc hsplit
          · exact noAddress_of_single (by rwa [isSingleValued_congr (type_of_isSameEntry hc)])
        · next hsingle =>
          cases h
          exact .added hexpired fun h => absurd h hsingle
      | false =>
        rw [if_neg (by simp)] at h
        cases h
        obtain ⟨same, hsame, hd⟩ := Option.map_eq_some_iff.mp hd
        have htrue : same = true := by cases same <;> simp_all
        subst htrue
        rw [hsplit, updateFirst_append (p := (isSameEntry · r)) hc fun e he => by simpa using hbefore e he]
        exact .reset hexpired hc (eq_of_sameValue (type_of_isSameEntry hc).symm hsame).symm hsplit

/-! ### One record for a type and a class -/

/-- The records of a type and a class. -/
def countOf (type : DNSRecordType) (recordClass : DNSRecordClass) (value : List (Record lower)) : ℕ :=
  value.countP fun e => e.data.recordType = type ∧ e.recordClass = recordClass

theorem countOf_congr (h : value'.map face = value.map face) (type : DNSRecordType) (recordClass : DNSRecordClass) :
    countOf type recordClass value' = countOf type recordClass value := by
  have hmap (l : List (Record lower)) : countOf type recordClass l =
      (l.map face).countP fun f => f.2.2.recordType = type ∧ f.2.1 = recordClass := by
    rw [List.countP_map]
    rfl
  rw [hmap, hmap, h]

/-- The types with one value: text, service and host information. -/
def Single (type : DNSRecordType) : Prop := type = .TYPE_TXT ∨ type = .TYPE_SRV ∨ type = .TYPE_HINFO

theorem isSingleValued_iff (d : Data) : isSingleValued d = true ↔ Single d.recordType := by
  cases d <;> simp [isSingleValued, Single, Data.recordType]

/-- What holds of the records of a name. -/
structure ListInv (key : Text) (value : List (Record lower)) : Prop where
  keyed : ∀ e ∈ value, recordKey e = key
  once : ∀ type recordClass, Single type → recordClass ≠ .CLASS_ANY → countOf type recordClass value ≤ 1

theorem ListInv.congr {key : Text} (h : ListInv key value) (hface : value'.map face = value.map face) :
    ListInv key value' := by
  refine ⟨fun e he => ?_, fun type recordClass htype hclass => ?_⟩
  · have hmem : face e ∈ value.map face := hface ▸ List.mem_map_of_mem he
    obtain ⟨c, hc, hce⟩ := List.mem_map.mp hmem
    rw [← recordKey_congr hce, h.keyed c hc]
  · rw [countOf_congr hface]
    exact h.once type recordClass htype hclass

theorem ListInv.sublist {key : Text} (h : ListInv key value) (hsub : value'.Sublist value) : ListInv key value' :=
  ⟨fun e he => h.keyed e (hsub.subset he), fun type recordClass htype hclass =>
    hsub.countP_le.trans (h.once type recordClass htype hclass)⟩

theorem isSameEntry_of_single {type : DNSRecordType} (htype : Single type) (hkey : recordKey e = recordKey r)
    (he : e.data.recordType = type) (hr : r.data.recordType = type) (hclass : e.recordClass = r.recordClass) :
    isSameEntry e r = true := by
  rw [isSameEntry, decide_eq_true ⟨hkey, he.trans hr.symm, .inr hclass⟩, Bool.true_and]
  split
  · next target _ hd _ =>
    rw [hd] at he
    subst he
    simp [Single, Data.recordType] at htype
  · rfl

theorem ListInv.handled (h : ListInv (recordKey r) value) (hhandled : Handled now r value value') :
    ListInv (recordKey r) value' := by
  have hflushed : ListInv (recordKey r) (flushed now r value) := h.congr (map_face_flushed value)
  cases hhandled with
  | expired hexpired hface => exact h.congr hface
  | removed hexpired hsub => exact hflushed.sublist hsub
  | @replaced c l₁ l₂ hexpired hsingle hc hsplit =>
    rw [hsplit] at hflushed
    refine ⟨fun e he => ?_, fun type recordClass htype hclass => ?_⟩
    · simp only [List.mem_append, List.mem_singleton] at he
      rcases he with (he | he) | rfl
      · exact hflushed.keyed e (List.mem_append_left _ he)
      · exact hflushed.keyed e (List.mem_append_right _ (List.mem_cons_of_mem c he))
      · rfl
    · -- the new record takes the place of the one it is the same entry as
      have honce := hflushed.once type recordClass htype hclass
      simp only [countOf, List.countP_append, List.countP_cons, List.countP_nil] at honce ⊢
      by_cases hr : r.data.recordType = type ∧ r.recordClass = recordClass
      · have hcr : c.data.recordType = type ∧ c.recordClass = recordClass := by
          refine ⟨(type_of_isSameEntry hc).trans hr.1, ?_⟩
          rcases class_of_isSameEntry hc with hany | hsame
          · exact absurd (hr.2.symm.trans hany) hclass
          · exact hsame.trans hr.2
        simp only [hcr, hr, and_self, decide_true, if_true] at honce ⊢
        omega
      · simp only [hr, decide_false, Bool.false_eq_true, if_false]
        omega
  | added hexpired hnone =>
    refine ⟨fun e he => ?_, fun type recordClass htype hclass => ?_⟩
    · rcases List.mem_append.mp he with he | he
      · exact hflushed.keyed e he
      · rw [List.mem_singleton.mp he]
    · have honce := hflushed.once type recordClass htype hclass
      rw [countOf, List.countP_append, ← countOf, List.countP_singleton]
      split
      · next hr =>
        have hr := of_decide_eq_true hr
        rw [countOf_congr (map_face_flushed value), countOf, List.countP_eq_zero.mpr]
        intro e he hof
        have hof := of_decide_eq_true hof
        have hsame := isSameEntry_of_single htype (h.keyed e he) hof.1 hr.1 (hof.2.trans hr.2.symm)
        rw [hnone ((isSingleValued_iff r.data).mpr (hr.1 ▸ htype)) e he] at hsame
        cases hsame
      · exact honce
  | @reset c l₁ l₂ hexpired hc hdata hsplit =>
    refine hflushed.congr ?_
    rw [hsplit]
    simp [face, resetTTL]

/-! ### Records that are kept -/

variable {cache cache' : DNSCache lower} {operation : Operation}

/-- A record is not kept in the cache if it is an answer to the queries for services or for domains. -/
def isKept (r : Record lower) : Bool := !(isServicesDiscoveryMetaQuery r || isDomainDiscoveryQuery r)

theorem isSameEntry_congr_right (h : face c = face r) : isSameEntry e c = isSameEntry e r := by
  obtain ⟨-, hclass, hdata⟩ : c.name = r.name ∧ c.recordClass = r.recordClass ∧ c.data = r.data := by
    simpa [face] using h
  rw [isSameEntry, isSameEntry, recordKey_congr h, hclass, hdata]

theorem fields_congr (h : c.name = r.name) : fields c = fields r := by
  have hsome : some (fields c) = some (fields r) := by
    rw [fields, Option.some_get, fields, Option.some_get, h]
  exact Option.some.inj hsome

theorem settled_congr (hr : Settled r) (h : face c = face r) : Settled c := by
  refine ⟨?_, ?_⟩ <;> rw [recordKey_congr h]
  · exact hr.trim
  · exact hr.lower

theorem isKept_congr (h : c.name = r.name) : isKept c = isKept r := by
  rw [isKept, isKept, isServicesDiscoveryMetaQuery, isServicesDiscoveryMetaQuery, isDomainDiscoveryQuery,
    isDomainDiscoveryQuery, fields_congr h]

theorem getDNSEntry_eq (hr : Settled r) :
    getDNSEntry cache r = (view cache (recordKey r)).find? (isSameEntry · r) := by
  rw [getDNSEntry, getDNSEntryList, hr.lower]
  rfl

/-- A record of a loudspeaker. -/
def speakerRecord (ttl created : ℤ) (data : Data) : Record asciiLower :=
  ⟨text "Kitchen.local.", .CLASS_IN, true, ttl, created, data, by decide +kernel⟩

variable {ttl created : ℤ} {data : Data}

theorem recordKey_speakerRecord : recordKey (speakerRecord ttl created data) = text "kitchen.local." := by
  have hkey : (decodeQualifiedNameMapForType asciiLower (text "Kitchen.local.")).elim [] (Fields.entryKey asciiLower) =
      text "kitchen.local." := by decide +kernel
  exact hkey

theorem settled_speakerRecord : Settled (speakerRecord ttl created data) := by
  constructor <;> rw [recordKey_speakerRecord] <;> decide +kernel

theorem isKept_speakerRecord : isKept (speakerRecord ttl created data) = true :=
  (isKept_congr (r := speakerRecord 0 0 (.pointer [])) rfl).trans (by decide +kernel)

theorem getDNSEntry_addDNSEntry (hc : Settled c) (hsame : isSameEntry c r = true) :
    getDNSEntry (addDNSEntry c LinkedMap.empty) r = some c := by
  have hkey := recordKey_of_isSameEntry hsame
  have hr : Settled r := ⟨by rw [← hkey, hc.trim], by rw [← hkey, hc.lower]⟩
  rw [getDNSEntry_eq hr, view_addDNSEntry hc, hkey, Function.update_self]
  simp [view, LinkedMap.get, LinkedMap.empty, hsame]

theorem isSameEntry_speakerRecord {ttl' created' : ℤ} {data' : Data} (htype : data.recordType = data'.recordType)
    (hpointer : data.recordType ≠ .TYPE_PTR) :
    isSameEntry (speakerRecord ttl created data) (speakerRecord ttl' created' data') = true := by
  rw [isSameEntry, decide_eq_true ⟨by rw [recordKey_speakerRecord, recordKey_speakerRecord], htype, .inr rfl⟩]
  cases data <;> first | rfl | exact absurd rfl hpointer

/-- The loudspeaker changes its text, and the reaper comes by. -/
def newText : List (Input asciiLower) :=
  [.handle 2000 (speakerRecord 120 2000 (.text ⟨[1, 65], by decide⟩)),
    .reap 2500 (speakerRecord 120 2000 (.text ⟨[1, 65], by decide⟩)),
    .handle 3000 (speakerRecord 120 3000 (.text ⟨[1, 66], by decide⟩))]

theorem settled_newText : ∀ input ∈ newText, Settled input.record := by
  intro input hinput
  simp only [newText, List.mem_cons, List.not_mem_nil, or_false] at hinput
  rcases hinput with rfl | rfl | rfl <;> exact settled_speakerRecord

/-! ### Every run -/

theorem exists_handleList (hr : Settled r) (hkept : isKept r = true)
    (h : handleRecord now r cache = some (cache', operation)) :
    ∃ value, handleList now r (view cache (recordKey r)) = some (value, operation) ∧
      view cache' = Function.update (view cache) (recordKey r) value := by
  have hview := view_handleRecord cache hr (by simpa [isKept] using hkept) now
  rw [h, Option.map_some] at hview
  obtain ⟨⟨value, operation'⟩, hlist, heq⟩ := Option.map_eq_some_iff.mp hview.symm
  obtain ⟨hvalue, hoperation⟩ := Prod.mk.inj heq
  exact ⟨value, by rw [hlist, show operation' = operation from hoperation], hvalue.symm⟩

/-- What holds of the cache. -/
def Inv (cache : DNSCache lower) : Prop := ∀ key, ListInv key (view cache key)

theorem Inv.update (h : Inv cache) {key : Text} (hvalue : ListInv key value)
    (hview : view cache' = Function.update (view cache) key value) : Inv cache' := by
  intro j
  rw [hview]
  by_cases hj : j = key
  · rw [hj, Function.update_self]
    exact hvalue
  · rw [Function.update_of_ne hj]
    exact h j

theorem Inv.empty : Inv (LinkedMap.empty : DNSCache lower) :=
  fun _ => ⟨fun _ h => absurd h List.not_mem_nil, fun _ _ _ _ => Nat.zero_le 1⟩

theorem Inv.handleRecord (hr : Settled r) (h : Inv cache) (hs : handleRecord now r cache = some (cache', operation)) :
    Inv cache' := by
  by_cases hkept : isKept r = true
  · obtain ⟨value, hlist, hview⟩ := exists_handleList hr hkept hs
    exact h.update ((h (recordKey r)).handled (handled_of_handleList hlist)) hview
  · unfold Cache.handleRecord at hs
    split at hs
    · cases hs
      exact h
    · next hmeta => exact absurd (by simpa [isKept] using hmeta) hkept

theorem Inv.reap (hr : Settled r) (h : Inv cache) : Inv (reap now r cache) := by
  rw [Cache.reap]
  split
  · have hview := view_removeDNSEntry cache hr
    cases hremove : removeDNSEntry r cache with
    | none => exact h
    | some cache' =>
      rw [hremove, Option.map_some] at hview
      obtain ⟨value, hvalue, heq⟩ := Option.map_eq_some_iff.mp hview.symm
      exact h.update ((h (recordKey r)).sublist (removeFirst_sublist hvalue)) heq.symm
  · exact h

theorem Inv.step {input : Input lower} (hinput : Settled input.record) (h : Inv cache)
    (hs : step cache input = some cache') : Inv cache' := by
  cases input with
  | handle now r =>
    obtain ⟨⟨cache₁, operation⟩, hs₁, rfl⟩ := Option.map_eq_some_iff.mp hs
    exact h.handleRecord hinput hs₁
  | reap now r =>
    cases hs
    exact h.reap hinput

theorem Inv.run {inputs : List (Input lower)} (hinputs : ∀ input ∈ inputs, Settled input.record) (h : Inv cache)
    (hs : run Cache.step cache inputs = some cache') : Inv cache' :=
  run_inv (C := fun _ input => Settled input.record ∧ True) (fun _ _ _ h hinput hs => h.step hinput.1 hs) h
    (allSteps_trivial.and hinputs) hs

theorem length_getDNSEntryListOf (cache : DNSCache lower) (name : Text) (type : DNSRecordType)
    {recordClass : DNSRecordClass}
    (hclass : recordClass ≠ .CLASS_ANY) : (getDNSEntryListOf cache name type recordClass).length =
      countOf type recordClass (view cache (lower name)) := by
  rw [getDNSEntryListOf, countOf, List.countP_eq_length_filter]
  simp [hclass, getDNSEntryList, view]

/-- **One record of a kind.** However the records of responses are handled and reaped, if their names are looked
for as they are stored, the cache never has more than one text, service or host information record for a name
and a class. -/
theorem cached_once (inputs : List (Input lower)) (hinputs : ∀ input ∈ inputs, Settled input.record)
    (cache : DNSCache lower) (hrun : run step LinkedMap.empty inputs = some cache) (name : Text)
    (type : DNSRecordType) (htype : Single type) (recordClass : DNSRecordClass) (hclass : recordClass ≠ .CLASS_ANY) :
    (getDNSEntryListOf cache name type recordClass).length ≤ 1 := by
  rw [length_getDNSEntryListOf cache name type hclass]
  exact (Inv.empty.run hinputs hrun (lower name)).once type recordClass htype hclass

theorem cached_once_newText :
    (run step LinkedMap.empty newText).isSome = true ∧
    ∀ cache, run step LinkedMap.empty newText = some cache →
      (getDNSEntryListOf cache (text "kitchen.local.") .TYPE_TXT .CLASS_IN).length ≤ 1 :=
  ⟨by decide +kernel, fun cache hrun =>
    cached_once newText settled_newText cache hrun _ .TYPE_TXT (.inl rfl) .CLASS_IN (by decide)⟩

/-- A record that has not expired, or one with its data and its time, is among the records of its name. -/
theorem Handled.exists_fresh (h : Handled now r value value') (hexpired : ¬ isExpired now r)
    (hclass : r.recordClass ≠ .CLASS_ANY) :
    ∃ e ∈ value', e.data = r.data ∧ e.recordClass = r.recordClass ∧ ¬ isExpired now e := by
  cases h with
  | expired h => exact absurd h hexpired
  | removed h => exact absurd h hexpired
  | replaced => exact ⟨r, List.mem_append_right _ List.mem_cons_self, rfl, rfl, hexpired⟩
  | added => exact ⟨r, List.mem_append_right _ List.mem_cons_self, rfl, rfl, hexpired⟩
  | @reset c l₁ l₂ _ hc hdata hsplit =>
    exact ⟨resetTTL r c, List.mem_append_right _ List.mem_cons_self, hdata,
      (class_of_isSameEntry hc).resolve_left hclass, hexpired⟩

/-! ### Exceptions -/

theorem handleList_eq_none_iff : handleList now r value = none ↔
    ∃ c, value.find? (isSameEntry · r) = some c ∧ NoAddress c.data ∧
      if isExpired now r then r.ttl ≠ 0 else NoAddress r.data := by
  rw [handleList]
  cases hfind : value.find? (isSameEntry · r) with
  | none =>
    simp only [reduceCtorEq, false_and, exists_false, iff_false]
    split_ifs <;> simp
  | some c =>
    have hfind' : (flushed now r value).find? (isSameEntry · r) = some c := (find_flushed value).trans hfind
    have hc := List.find?_some hfind
    have htype := (type_of_isSameEntry hc).symm
    obtain ⟨l₁, l₂, -, hremove⟩ := removeFirst_of_find hfind'
    have hnone : removeFirst c (flushed now r value) = none ↔ NoAddress c.data := by
      rw [hremove]
      split_ifs with h <;> simp [h]
    simp only [Option.some.injEq, exists_eq_left']
    by_cases hexpired : isExpired now r
    · simp only [if_pos hexpired]
      split_ifs with httl
      · simp [httl]
      · simp [hnone, httl]
    · simp only [if_neg hexpired]
      have hdiffers : differs r c = none ↔ NoAddress r.data ∧ NoAddress c.data := by
        rw [differs, Option.map_eq_none_iff, sameValue_eq_none_iff htype]
      cases hd : differs r c with
      | none => simpa [hd, and_comm] using hdiffers
      | some d =>
        have hnot : ¬ (NoAddress c.data ∧ NoAddress r.data) := by
          rw [and_comm, ← hdiffers, hd]
          simp
        simp only [Option.bind_eq_bind, Option.bind_some, iff_false_intro hnot, iff_false]
        split_ifs with _ hsingle
        · rw [Option.map_eq_none_iff, hnone]
          exact noAddress_of_single (by rwa [← isSingleValued_congr htype])
        · simp
        · simp

theorem handleRecord_eq_none (hr : Settled r) (hkept : isKept r = true) :
    handleRecord now r cache = none ↔ handleList now r (view cache (recordKey r)) = none := by
  have hview := view_handleRecord cache hr (by simpa [isKept] using hkept) now
  rw [← Option.map_eq_none_iff (f := Prod.map view id), hview, Option.map_eq_none_iff]

/-- **The responses that are not survived.** A `NullPointerException`, which ends the thread that receives
responses, comes exactly from a record that is not an answer to a discovery of services or domains, of a name
that has an address record without an address in the cache: if it has no address either, or if it is past its
time to live. Such records are read from responses with an address of a wrong length. -/
theorem handleRecord_throws_iff (now : ℤ) (r : Record lower) (hr : Settled r) (cache : DNSCache lower) :
    handleRecord now r cache = none ↔ isKept r = true ∧
      ∃ c, getDNSEntry cache r = some c ∧ NoAddress c.data ∧
        if isExpired now r then r.ttl ≠ 0 else NoAddress r.data := by
  by_cases hkept : isKept r = true
  · rw [handleRecord_eq_none hr hkept, handleList_eq_none_iff, getDNSEntry, getDNSEntryList, hr.lower]
    simp only [hkept, true_and]
    rfl
  · have hmeta : (isServicesDiscoveryMetaQuery r || isDomainDiscoveryQuery r) = true := by
      simpa only [isKept, Bool.not_eq_true, Bool.not_eq_false'] using hkept
    have hignored : handleRecord now r cache = some (cache, .noop) := if_pos hmeta
    simp [hignored, hkept]

/-- The second of two responses with an address of a wrong length is not survived. -/
theorem handleRecord_throws_iff_speaker :
    handleRecord 2000 (speakerRecord 120 2000 (.ipv4Address none))
      (addDNSEntry (speakerRecord 120 1000 (.ipv4Address none)) LinkedMap.empty) = none :=
  (handleRecord_throws_iff 2000 _ settled_speakerRecord _).mpr
    ⟨isKept_speakerRecord, _,
      getDNSEntry_addDNSEntry settled_speakerRecord (isSameEntry_speakerRecord rfl (by decide)), .inl rfl, by decide⟩

/-- **The latest record.** After a response with a text, service or host information record that has not
expired, a look at the cache finds one record for its name and class: it has the data of the response, and
it has not expired. -/
theorem cached_latest (inputs : List (Input lower)) (hinputs : ∀ input ∈ inputs, Settled input.record)
    (cache : DNSCache lower) (hrun : run step LinkedMap.empty inputs = some cache) (now : ℤ) (r : Record lower)
    (hr : Settled r) (hkept : isKept r = true) (htype : Single r.data.recordType)
    (hclass : r.recordClass ≠ .CLASS_ANY) (hexpired : ¬ isExpired now r) :
    ∃ cache' operation e, handleRecord now r cache = some (cache', operation) ∧
      getDNSEntryListOf cache' (recordKey r) r.data.recordType r.recordClass = [e] ∧ e.data = r.data ∧
      ¬ isExpired now e := by
  have hsome : handleRecord now r cache ≠ none := by
    rw [Ne, handleRecord_eq_none hr hkept, handleList_eq_none_iff, if_neg hexpired]
    rintro ⟨c, -, -, hno⟩
    exact noAddress_of_single ((isSingleValued_iff r.data).mpr htype) hno
  obtain ⟨⟨cache', operation⟩, hs⟩ := Option.ne_none_iff_exists'.mp hsome
  obtain ⟨value, hlist, hview⟩ := exists_handleList hr hkept hs
  obtain ⟨e, he, hdata, heclass, hfresh⟩ := (handled_of_handleList hlist).exists_fresh hexpired hclass
  have hlength := length_getDNSEntryListOf cache' (recordKey r) r.data.recordType hclass
  have honce := ((Inv.empty.run hinputs hrun).handleRecord hr hs (lower (recordKey r))).once
    r.data.recordType r.recordClass htype hclass
  have hmem : e ∈ getDNSEntryListOf cache' (recordKey r) r.data.recordType r.recordClass := by
    refine List.mem_filter.mpr ⟨?_, by simp [hdata, heclass]⟩
    rw [getDNSEntryList, hr.lower]
    show e ∈ view cache' (recordKey r)
    rwa [hview, Function.update_self]
  refine ⟨cache', operation, e, hs, ?_, hdata, hfresh⟩
  obtain ⟨e', hone⟩ := List.length_eq_one_iff.mp
    (le_antisymm (hlength.trans_le honce) (List.length_pos_of_mem hmem))
  rw [hone] at hmem ⊢
  rw [List.mem_singleton.mp hmem]

theorem cached_latest_newText :
    (run step LinkedMap.empty newText).isSome = true ∧
    ∀ cache, run step LinkedMap.empty newText = some cache →
      ∃ cache' operation e,
        handleRecord 4000 (speakerRecord 120 4000 (.text ⟨[1, 67], by decide⟩)) cache = some (cache', operation) ∧
        getDNSEntryListOf cache' (recordKey (speakerRecord 120 4000 (.text ⟨[1, 67], by decide⟩))) .TYPE_TXT
          .CLASS_IN = [e] ∧ e.data = .text ⟨[1, 67], by decide⟩ ∧ ¬ isExpired 4000 e :=
  ⟨by decide +kernel, fun cache hrun =>
    cached_latest newText settled_newText cache hrun 4000 _ settled_speakerRecord isKept_speakerRecord (.inl rfl)
      (by decide) (by decide)⟩

/-! ### More than one address -/

theorem handleList_add (hc : value.find? (isSameEntry · r) = some c) (hexpired : ¬ isExpired now r)
    (hsingle : isSingleValued r.data = false) (hdiffers : sameValue r.data c.data = some false) :
    handleList now r value = some (flushed now r value ++ [r], .add) := by
  rw [handleList, hc]
  simp [hexpired, differs, hdiffers, hsingle]

/-- The records with the data and the class of `r`. -/
def copies (cache : DNSCache lower) (r : Record lower) : ℕ :=
  (getDNSEntryList cache (recordKey r)).countP fun e => e.data = r.data ∧ e.recordClass = r.recordClass

theorem copies_add (hr : Settled r) (hc : face c = face r)
    (hview : view cache' = Function.update (view cache) (recordKey r) (flushed now c (view cache (recordKey r)) ++ [c])) :
    copies cache' r = copies cache r + 1 := by
  have hmap (l : List (Record lower)) : l.countP (fun e => e.data = r.data ∧ e.recordClass = r.recordClass) =
      (l.map face).countP fun f => f.2.2 = r.data ∧ f.2.1 = r.recordClass := by
    rw [List.countP_map]
    rfl
  have hclass : c.recordClass = r.recordClass := congrArg (·.2.1) hc
  have hdata : c.data = r.data := congrArg (·.2.2) hc
  have hlist (cache : DNSCache lower) : getDNSEntryList cache (recordKey r) = view cache (recordKey r) := by
    rw [getDNSEntryList, hr.lower]
    rfl
  rw [copies, copies, hlist, hlist, hview, Function.update_self, List.countP_append, hmap, map_face_flushed, ← hmap]
  simp [hclass, hdata]

/-- A response with another address than the first one adds a copy, and leaves the first one. -/
theorem step_copies (hr : Settled r) (hkept : isKept r = true) (hsingle : isSingleValued r.data = false)
    (hdiffers : sameValue r.data c.data = some false) {r' : Record lower} (hface : face r' = face r)
    (hexpired : ¬ isExpired now r') (hcached : getDNSEntry cache r = some c) :
    ∃ cache', step cache (.handle now r') = some cache' ∧ getDNSEntry cache' r = some c ∧
      copies cache' r = copies cache r + 1 := by
  have hkey := recordKey_congr hface
  have hr' := settled_congr hr hface
  have hkept' : isKept r' = true := by rw [isKept_congr (congrArg Prod.fst hface), hkept]
  have hdata : r'.data = r.data := congrArg (·.2.2) hface
  have hsame : (isSameEntry · r') = (isSameEntry · r) := funext fun e => isSameEntry_congr_right hface
  rw [getDNSEntry_eq hr] at hcached
  have hlist : handleList now r' (view cache (recordKey r)) =
      some (flushed now r' (view cache (recordKey r)) ++ [r'], .add) := by
    refine handleList_add (c := c) ?_ hexpired (by rw [hdata, hsingle]) (by rw [hdata, hdiffers])
    rw [hsame, hcached]
  have hsome : handleRecord now r' cache ≠ none := by
    rw [Ne, handleRecord_eq_none hr' hkept', hkey, hlist]
    simp
  obtain ⟨⟨cache', operation⟩, hs⟩ := Option.ne_none_iff_exists'.mp hsome
  obtain ⟨value, hlist', hview⟩ := exists_handleList hr' hkept' hs
  rw [hkey, hlist] at hlist'
  obtain ⟨rfl, -⟩ := Prod.mk.inj (Option.some.inj hlist')
  rw [hkey] at hview
  refine ⟨cache', by rw [step, hs]; rfl, ?_, copies_add hr hface hview⟩
  rw [getDNSEntry_eq hr, hview, Function.update_self, List.find?_append, ← hsame, find_flushed, hsame, hcached]
  rfl

/-- **Copies.** If the first address of a name in the cache is not the one of a response, then every
response with that address adds a copy of it, and the first address stays as it is, also if the response
says that its address is the only one. -/
theorem handleRecord_copies (r : Record lower) (hr : Settled r) (hkept : isKept r = true)
    (hsingle : isSingleValued r.data = false) (c : Record lower) (hdiffers : sameValue r.data c.data = some false)
    (responses : List (ℤ × Record lower))
    (hresponses : ∀ response ∈ responses, face response.2 = face r ∧ ¬ isExpired response.1 response.2)
    (cache : DNSCache lower) (hcached : getDNSEntry cache r = some c) :
    ∃ cache', run step cache (responses.map fun response => .handle response.1 response.2) = some cache' ∧
      getDNSEntry cache' r = some c ∧ copies cache' r = copies cache r + responses.length := by
  induction responses generalizing cache with
  | nil => exact ⟨cache, rfl, hcached, rfl⟩
  | cons response responses ih =>
    obtain ⟨hface, hexpired⟩ := hresponses response List.mem_cons_self
    obtain ⟨cache₁, hs, hcached₁, hcopies₁⟩ :=
      step_copies hr hkept hsingle hdiffers hface hexpired hcached
    obtain ⟨cache', hrun, hcached', hcopies⟩ :=
      ih (fun p hp => hresponses p (List.mem_cons_of_mem _ hp)) cache₁ hcached₁
    refine ⟨cache', run_cons_eq_some.mpr ⟨cache₁, hs, hrun⟩, hcached', ?_⟩
    rw [hcopies, hcopies₁, List.length_cons]
    omega

/-- A loudspeaker that has got another address says so three times. -/
def newAddress : List (ℤ × Record asciiLower) :=
  [(2000, speakerRecord 120 2000 (.ipv4Address (some (.inet4 ⟨[192, 168, 1, 3], rfl⟩)))),
    (3000, speakerRecord 120 3000 (.ipv4Address (some (.inet4 ⟨[192, 168, 1, 3], rfl⟩)))),
    (5000, speakerRecord 120 5000 (.ipv4Address (some (.inet4 ⟨[192, 168, 1, 3], rfl⟩))))]

/-- Its old address, in the cache. -/
def oldAddress : Record asciiLower :=
  speakerRecord 120 1000 (.ipv4Address (some (.inet4 ⟨[192, 168, 1, 2], rfl⟩)))

theorem handleRecord_copies_newAddress :
    ∃ cache', run step (addDNSEntry oldAddress LinkedMap.empty)
        (newAddress.map fun response => .handle response.1 response.2) = some cache' ∧
      getDNSEntry cache' (speakerRecord 120 0 (.ipv4Address (some (.inet4 ⟨[192, 168, 1, 3], rfl⟩)))) =
        some oldAddress ∧
      copies cache' (speakerRecord 120 0 (.ipv4Address (some (.inet4 ⟨[192, 168, 1, 3], rfl⟩)))) =
        copies (addDNSEntry oldAddress LinkedMap.empty)
          (speakerRecord 120 0 (.ipv4Address (some (.inet4 ⟨[192, 168, 1, 3], rfl⟩)))) + 3 :=
  handleRecord_copies _ settled_speakerRecord isKept_speakerRecord rfl oldAddress (by decide) newAddress
    (by
      intro response hresponse
      simp only [newAddress, List.mem_cons, List.not_mem_nil, or_false] at hresponse
      rcases hresponse with rfl | rfl | rfl <;> exact ⟨rfl, by decide⟩)
    _ (getDNSEntry_addDNSEntry settled_speakerRecord (isSameEntry_speakerRecord rfl (by decide)))

end Waveplay.Jmdns.CacheRuns
