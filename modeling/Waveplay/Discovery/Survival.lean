import Mathlib.Data.List.Nodup
import Mathlib.Data.List.Perm.Basic
import Waveplay.Discovery.Services

/-! # Discovery survives a scan

Names go unescaped into filters, are looked up under another name than the one registered, and the name
registered must be new. A host that is null breaks the sets at the second scan. So the thread survives as
long as hosts are given, names have no quotes and backslashes, no address is listed twice, and the names of
new speakers are new.

* `Harmless`: these conditions on a scan, in the state before it.
* `discovery_runs`: a run of such scans has no exception. -/

namespace Waveplay.Discovery.Survival

open Waveplay.Lib.Runs
open Waveplay.Discovery.Matcher Waveplay.Discovery.Services

def refAddress (r : SpeakerRef) : Option Text × ℤ := (r.host, r.port)

def address (s : Service) : Option Text × ℤ := (s.host, s.port)

/-- A text that can stand between quotes. -/
def Plain (t : Text) : Prop := ∀ c ∈ t, c ≠ '\'' ∧ c ≠ '"' ∧ c ≠ '\\'

/-- A name that is not taken for that of a service. -/
def Ordinary (t : Text) : Prop := t ≠ [] ∧ ∀ n, t ≠ speakerName n

/-- A service with a host that is found and a name that does no harm. -/
structure Good (jdk : Jdk) (s : Service) : Prop where
  host : s.host.isSome = true
  resolves : jdk.resolves s.host = true
  plain : Plain (s.ref jdk).name
  ordinary : Ordinary (s.ref jdk).name

/-- The condition on a scan: services with hosts and harmless names, no address twice, and those whose
address is not known have names of their own that are not registered. -/
structure Harmless (jdk : Jdk) (m : Finder) (services : Option (List Service)) : Prop where
  good : ∀ s ∈ services.getD [], Good jdk s
  distinct : ((services.getD []).map address).Nodup
  fresh : ∀ s ∈ services.getD [], address s ∉ m.all.map refAddress →
    speakerName (s.ref jdk).name ∉ m.props.map (·.1)
  names : (((services.getD []).filter fun s => address s ∉ m.all.map refAddress).map
    fun s => (s.ref jdk).name).Nodup

/-- What harmless scans keep. -/
structure Sound (m : Finder) : Prop where
  hosts : ∀ r ∈ m.all, r.host.isSome = true
  plain : ∀ r ∈ m.all, Plain r.name
  distinct : (m.all.map refAddress).Nodup
  named : ∀ c ∈ m.contexts, c.2.kind = .speaker → ∃ n, c.2.servicename = speakerName n

/-! ### Sets of speakers -/

theorem ref_address (jdk : Jdk) (s : Service) : refAddress (s.ref jdk) = address s := by
  simp only [Service.ref]
  split <;> rfl

theorem ref_host (jdk : Jdk) (s : Service) : (s.ref jdk).host = s.host :=
  congrArg Prod.fst (ref_address jdk s)

section

variable {jdk : Jdk} {set : List SpeakerRef}

theorem contains_eq (own : Bool) : ∀ {set : List SpeakerRef} (ref : SpeakerRef),
    (∀ r ∈ set, r.host.isSome = true) →
    contains jdk own ref set = .ok (decide (refAddress ref ∈ set.map refAddress))
  | [], _, _ => rfl
  | r :: set, ref, h => by
    have ih := contains_eq own ref fun u hu => h u (List.mem_cons_of_mem r hu)
    obtain ⟨host, hhost⟩ := Option.isSome_iff_exists.mp (h r List.mem_cons_self)
    unfold contains
    by_cases heq : refAddress r = refAddress ref
    · obtain ⟨h1, h2⟩ := Prod.mk.inj heq
      have hhash : r.hash jdk = ref.hash jdk := by
        unfold SpeakerRef.hash
        rw [h1, h2]
      rw [if_pos hhash, hhost]
      simp [← h1, hhost, h2, ← heq]
    · have hne : ¬ (some host = ref.host ∧ r.port = ref.port) := by
        rintro ⟨h1, h2⟩
        exact heq (Prod.ext (hhost.trans h1) h2)
      have hmem : (refAddress ref ∈ (r :: set).map refAddress) ↔
          refAddress ref ∈ set.map refAddress := by
        rw [List.map_cons, List.mem_cons]
        exact ⟨fun h => h.resolve_left fun h' => heq h'.symm, .inr⟩
      have hother : ¬ (own ∧ r = ref) := fun h => heq (congrArg refAddress h.2)
      by_cases hhash : r.hash jdk = ref.hash jdk
      · rw [if_pos hhash, if_neg hother, hhost]
        simp only [if_neg hne, ih, hmem]
      · rw [if_neg hhash, ih]
        simp only [hmem]

theorem eraseP_eq_filter : ∀ {set : List SpeakerRef} (ref : SpeakerRef),
    (set.map refAddress).Nodup →
    set.eraseP (fun r => r.host = ref.host && r.port = ref.port) =
      set.filter fun r => refAddress r ≠ refAddress ref
  | [], _, _ => rfl
  | r :: set, ref, h => by
    rw [List.map_cons, List.nodup_cons] at h
    by_cases heq : refAddress r = refAddress ref
    · obtain ⟨h1, h2⟩ := Prod.mk.inj heq
      rw [List.eraseP_cons_of_pos (by simp [h1, h2]), List.filter_cons_of_neg (by simpa using heq)]
      refine (List.filter_eq_self.mpr fun u hu => ?_).symm
      have hne : refAddress u ≠ refAddress ref := by
        intro hu'
        exact h.1 (by rw [heq, ← hu']; exact List.mem_map_of_mem hu)
      simpa using hne
    · have hne : ¬ (r.host = ref.host ∧ r.port = ref.port) := fun h' => heq (Prod.ext h'.1 h'.2)
      rw [List.eraseP_cons_of_neg (by simpa using hne), List.filter_cons_of_pos (by simpa using heq),
        eraseP_eq_filter ref h.2]

theorem remove_eq (own : Bool) (hhosts : ∀ r ∈ set, r.host.isSome = true) (hset : (set.map refAddress).Nodup)
    (ref : SpeakerRef) : remove jdk own set ref =
      .ok (set.filter fun r => refAddress r ≠ refAddress ref,
        decide (refAddress ref ∈ set.map refAddress)) := by
  unfold remove
  rw [contains_eq own ref hhosts]
  by_cases hmem : refAddress ref ∈ set.map refAddress
  · simp only [hmem, decide_true]
    rw [← eraseP_eq_filter ref hset]
    rfl
  · have hself : set.filter (fun r => refAddress r ≠ refAddress ref) = set := by
      refine List.filter_eq_self.mpr fun u hu => ?_
      have hne : refAddress u ≠ refAddress ref := fun h => hmem (h ▸ List.mem_map_of_mem hu)
      simpa using hne
    simp only [hmem, decide_false, hself]
    rfl

theorem foldlM_add (jdk : Jdk) : ∀ (all pre : List SpeakerRef),
    (∀ r ∈ pre ++ all, r.host.isSome = true) → ((pre ++ all).map refAddress).Nodup →
    all.foldlM (add jdk) pre = .ok (pre ++ all)
  | [], pre, _, _ => by rw [List.append_nil]; rfl
  | r :: all, pre, hhosts, hnodup => by
    have hnot : refAddress r ∉ pre.map refAddress := by
      rw [List.map_append, List.map_cons] at hnodup
      have hdisj := List.disjoint_of_nodup_append hnodup
      exact fun h => hdisj h List.mem_cons_self
    have hadd : add jdk pre r = .ok (pre ++ [r]) := by
      unfold add
      rw [contains_eq false r fun u hu => hhosts u (List.mem_append_left _ hu)]
      simp only [hnot, decide_false]
      rfl
    rw [List.foldlM_cons, hadd]
    have happend : pre ++ r :: all = pre ++ [r] ++ all := by rw [List.append_assoc]; rfl
    rw [happend] at hhosts hnodup ⊢
    exact foldlM_add jdk all (pre ++ [r]) hhosts hnodup

end

/-! ### Filters by name -/

/-- The property `name` of a service, empty if it has been stopped. -/
def nameOf (m : Finder) (c : Context) : Text := (m.get c.servicename ['n', 'a', 'm', 'e']).getD []

section

variable {jdk : Jdk} {m : Finder} {t : Text}

theorem nameOf_cases (m : Finder) (c : Context) : nameOf m c = [] ∨ nameOf m c = c.servicename := by
  unfold nameOf Finder.get
  cases m.props.find? (·.1 = c.servicename) with
  | none => exact .inl rfl
  | some e => exact .inr rfl

theorem numbers_name {c : Context} (hc : ∃ n, c.servicename = speakerName n) (t : Text) :
    numbers jdk t (nameOf m c) = none := by
  obtain ⟨n, hn⟩ := hc
  have hs : jdk.isDigit 's' = false := (jdk.letter 's' (by decide)).2
  rcases nameOf_cases m c with h | h
  · rw [h]
    rfl
  · rw [h, hn]
    cases t with
    | nil => rfl
    | cons d t => simp [numbers, speakerName, hs]

theorem serviceTest_name {property : Text → Property} {name : Text}
    (hproperty : (property ['n', 'a', 'm', 'e']).toText jdk = name)
    (hnumbers : numbers jdk t name = none) :
    serviceTest jdk property ['n', 'a', 'm', 'e'] ['='] t = .ok (decide (t = name)) := by
  rw [serviceTest, if_neg (by simp), hproperty, compareTest]
  simp only [hnumbers, if_true]

theorem matchesAll_name {property : Text → Property} {name : Text}
    (hproperty : (property ['n', 'a', 'm', 'e']).toText jdk = name)
    (hnumbers : numbers jdk t name = none) :
    matchesAll (serviceTest jdk property) (some [.test ['n', 'a', 'm', 'e'] ['='] t]) =
      .ok (decide (t = name)) := by
  rw [matchesAll, evaluate, serviceTest_name hproperty hnumbers]
  rfl

theorem property_name (m : Finder) (c : Context) :
    (m.property c ['n', 'a', 'm', 'e']).toText jdk = nameOf m c := by
  rw [Finder.property, if_neg (by decide), if_neg (by decide), nameOf]
  cases m.get c.servicename ['n', 'a', 'm', 'e'] with
  | none => rfl
  | some t => rfl

theorem firstMatch_name : ∀ {cs : List (Text × Context)},
    (∀ c ∈ cs, ∃ n, c.2.servicename = speakerName n) →
    firstMatch jdk m (some [.test ['n', 'a', 'm', 'e'] ['='] t]) cs =
      .ok (cs.find? fun c => t = nameOf m c.2)
  | [], _ => rfl
  | c :: cs, h => by
    have ih := firstMatch_name fun u hu => h u (List.mem_cons_of_mem c hu)
    rw [firstMatch, matchesAll_name (property_name m c.2) (numbers_name (h c List.mem_cons_self) t),
      List.find?_cons]
    by_cases heq : t = nameOf m c.2
    · simp only [heq, decide_true]
      rfl
    · simp only [heq, decide_false]
      exact ih

theorem mem_speakers {c : Text × Context} :
    c ∈ m.speakers jdk ↔ c ∈ m.contexts ∧ c.2.kind = .speaker := by
  unfold Finder.speakers
  rw [List.mem_filter, (jdk.order_perm m.contexts).mem_iff, decide_eq_true_iff]

/-- **`getService`** with a quoted name finds the speaker of that name. -/
theorem getService_name (hm : Sound m) {q : Char} (hq : isQuote q = true) (ht : Plain t) :
    m.getService jdk (nameFilter q t) =
      .ok ((m.speakers jdk).find? fun c => t = nameOf m c.2) := by
  have hplain : ∀ c ∈ t, c ≠ q ∧ c ≠ '\\' := by
    intro c hc
    obtain ⟨h1, h2, h3⟩ := ht c hc
    have hquote : q = '\'' ∨ q = '"' := by simpa [isQuote] using hq
    rcases hquote with rfl | rfl
    · exact ⟨h1, h3⟩
    · exact ⟨h2, h3⟩
  have hnamed : ∀ c ∈ m.speakers jdk, ∃ n, c.2.servicename = speakerName n := by
    intro c hc
    obtain ⟨hmem, hkind⟩ := mem_speakers.mp hc
    exact hm.named c hmem hkind
  have hdummy : matchesAll (serviceTest jdk noContext)
      (some [.test ['n', 'a', 'm', 'e'] ['='] t]) = .ok (decide (t = [])) :=
    matchesAll_name rfl rfl
  unfold Finder.getService nameFilter
  rw [parse_name jdk hq hplain]
  simp only [bind, Except.bind]
  rw [firstMatch_name hnamed]
  cases (m.speakers jdk).find? fun c => t = nameOf m c.2 with
  | some c => rfl
  | none =>
    simp only [hdummy]
    split_ifs
    · rfl
    · rfl

end

/-! ### New speakers -/

/-- A new speaker in the three stores. -/
def enter (m : Finder) (r : SpeakerRef) : Finder := { m with all := m.all ++ [r] }.register r

section

variable {jdk : Jdk} {m : Finder}

theorem addSpeaker_eq (hm : Sound m) {s : Service} (hs : Good jdk s)
    (haddress : address s ∉ m.all.map refAddress)
    (hname : speakerName (s.ref jdk).name ∉ m.props.map (·.1)) :
    m.addSpeaker jdk (s.ref jdk) = .ok (enter m (s.ref jdk)) := by
  have hnone : (m.speakers jdk).find? (fun c => (s.ref jdk).name = nameOf m c.2) = none := by
    rw [List.find?_eq_none]
    intro c hc heq
    obtain ⟨hmem, hkind⟩ := mem_speakers.mp hc
    obtain ⟨n, hn⟩ := hm.named c hmem hkind
    rw [decide_eq_true_iff] at heq
    rcases nameOf_cases m c.2 with h | h
    · exact hs.ordinary.1 (heq.trans h)
    · exact hs.ordinary.2 n (heq.trans (h.trans hn))
  have hprops : (m.props.any fun e => e.1 = speakerName (s.ref jdk).name) = false := by
    rw [List.any_eq_false]
    intro e he heq
    exact hname (by rw [← decide_eq_true_iff.mp heq]; exact List.mem_map_of_mem he)
  unfold Finder.addSpeaker
  rw [contains_eq false _ hm.hosts, getService_name hm (by decide) hs.plain, hnone, ref_address]
  simp only [bind, Except.bind, Option.isSome_none, Bool.false_eq_true, if_false, hprops,
    ref_host, hs.resolves, if_true, haddress, decide_false]
  rfl

theorem putContext_mem {key : Text} {c : Context} : ∀ {es : List (Text × Context)}
    {e : Text × Context}, e ∈ putContext key c es → e = (key, c) ∨ e ∈ es
  | [], e, h => .inl (List.mem_singleton.mp h)
  | d :: es, e, h => by
    unfold putContext at h
    split_ifs at h
    · rcases List.mem_cons.mp h with h | h
      · exact .inl h
      · exact .inr (List.mem_cons_of_mem d h)
    · rcases List.mem_cons.mp h with h | h
      · exact .inr (h ▸ List.mem_cons_self)
      · exact (putContext_mem h).imp_right (List.mem_cons_of_mem d)

theorem mem_enter_all {r : SpeakerRef} {a : Option Text × ℤ} :
    a ∈ (enter m r).all.map refAddress ↔ a ∈ m.all.map refAddress ∨ a = refAddress r := by
  show a ∈ (m.all ++ [r]).map refAddress ↔ _
  rw [List.map_append, List.mem_append, List.map_singleton, List.mem_singleton]

theorem mem_enter_props {r : SpeakerRef} {n : Text} : speakerName n ∈ (enter m r).props.map (·.1) ↔
    speakerName n ∈ m.props.map (·.1) ∨ n = r.name := by
  show _ ∈ (m.props ++ [(speakerName r.name, m.properties r)]).map Prod.fst ↔ _
  rw [List.map_append, List.mem_append, List.map_singleton, List.mem_singleton]
  exact or_congr_right ⟨List.append_cancel_left, congrArg speakerName⟩

theorem enter_sound (hm : Sound m) {r : SpeakerRef} (hhost : r.host.isSome = true)
    (hplain : Plain r.name) (haddress : refAddress r ∉ m.all.map refAddress) : Sound (enter m r) := by
  constructor
  · intro u hu
    rcases List.mem_append.mp hu with hu | hu
    · exact hm.hosts u hu
    · exact List.mem_singleton.mp hu ▸ hhost
  · intro u hu
    rcases List.mem_append.mp hu with hu | hu
    · exact hm.plain u hu
    · exact List.mem_singleton.mp hu ▸ hplain
  · show ((m.all ++ [r]).map refAddress).Nodup
    rw [List.map_append, List.map_singleton]
    exact hm.distinct.append (List.nodup_singleton _) (List.disjoint_singleton.mpr haddress)
  · intro c hc hkind
    rcases putContext_mem hc with rfl | hc
    · exact ⟨r.name, rfl⟩
    · exact hm.named c hc hkind

end

/-! ### The loop over the services -/

/-- The services that are left: their conditions relative to what is left of the copy. -/
structure Ready (jdk : Jdk) (m : Finder) (copy : List SpeakerRef) (services : List Service) :
    Prop where
  good : ∀ s ∈ services, Good jdk s
  distinct : (services.map address).Nodup
  hosts : ∀ r ∈ copy, r.host.isSome = true
  copied : (copy.map refAddress).Nodup
  added : ∀ s ∈ services, address s ∉ copy.map refAddress → address s ∉ m.all.map refAddress
  fresh : ∀ s ∈ services, address s ∉ copy.map refAddress →
    speakerName (s.ref jdk).name ∉ m.props.map (·.1)
  names : ((services.filter fun s => address s ∉ copy.map refAddress).map
    fun s => (s.ref jdk).name).Nodup

/-- The new services of a scan, as speakers. -/
def newRefs (jdk : Jdk) (copy : List SpeakerRef) (services : List Service) : List SpeakerRef :=
  (services.filter fun s => address s ∉ copy.map refAddress).map (·.ref jdk)

section

variable {jdk : Jdk} {m m' : Finder} {copy : List SpeakerRef} {s : Service} {services : List Service}

/-- What is left of the copy after a service. -/
def without (copy : List SpeakerRef) (s : Service) : List SpeakerRef :=
  copy.filter fun r => refAddress r ≠ address s

theorem mem_without {t : Service} (hne : address t ≠ address s) :
    address t ∈ (without copy s).map refAddress ↔ address t ∈ copy.map refAddress := by
  simp only [without, List.mem_map, List.mem_filter, decide_eq_true_eq]
  constructor
  · rintro ⟨r, ⟨hr, -⟩, h⟩
    exact ⟨r, hr, h⟩
  · rintro ⟨r, hr, h⟩
    exact ⟨r, ⟨hr, fun h' => hne (h.symm.trans h')⟩, h⟩

theorem Ready.ne (h : Ready jdk m copy (s :: services)) {t : Service} (ht : t ∈ services) :
    address t ≠ address s := by
  have hnodup := h.distinct
  rw [List.map_cons, List.nodup_cons] at hnodup
  intro heq
  exact hnodup.1 (heq ▸ List.mem_map_of_mem ht)

theorem Ready.filter_eq (h : Ready jdk m copy (s :: services)) :
    (services.filter fun t => address t ∉ (without copy s).map refAddress) =
      services.filter fun t => address t ∉ copy.map refAddress := by
  refine List.filter_congr fun t ht => ?_
  rw [decide_eq_decide, not_iff_not]
  exact mem_without (h.ne ht)

theorem Ready.rest (h : Ready jdk m copy (s :: services))
    (hadded : ∀ t ∈ services, address t ∉ copy.map refAddress → address t ∉ m'.all.map refAddress)
    (hfresh : ∀ t ∈ services, address t ∉ copy.map refAddress →
      speakerName (t.ref jdk).name ∉ m'.props.map (·.1)) :
    Ready jdk m' (without copy s) services := by
  have hsub : (without copy s).Sublist copy := List.filter_sublist
  have hdistinct := h.distinct
  rw [List.map_cons, List.nodup_cons] at hdistinct
  refine ⟨fun t ht => h.good t (List.mem_cons_of_mem s ht), hdistinct.2,
    fun r hr => h.hosts r (hsub.subset hr), (hsub.map refAddress).nodup h.copied, ?_, ?_, ?_⟩
  · intro t ht hnot
    rw [mem_without (h.ne ht)] at hnot
    exact hadded t ht hnot
  · intro t ht hnot
    rw [mem_without (h.ne ht)] at hnot
    exact hfresh t ht hnot
  · rw [h.filter_eq]
    refine (List.Sublist.map _ ?_).nodup h.names
    exact (List.sublist_cons_self s services).filter _

theorem Ready.known (h : Ready jdk m copy (s :: services)) : Ready jdk m (without copy s) services :=
  h.rest (fun t ht => h.added t (List.mem_cons_of_mem s ht))
    fun t ht => h.fresh t (List.mem_cons_of_mem s ht)

theorem Ready.entered (h : Ready jdk m copy (s :: services)) (hs : address s ∉ copy.map refAddress) :
    Ready jdk (enter m (s.ref jdk)) (without copy s) services := by
  refine h.rest ?_ ?_
  · intro t ht hnot hmem
    rcases mem_enter_all.mp hmem with hmem | hmem
    · exact h.added t (List.mem_cons_of_mem s ht) hnot hmem
    · exact h.ne ht (hmem.trans (ref_address jdk s))
  · intro t ht hnot hmem
    rcases mem_enter_props.mp hmem with hmem | hname
    · exact h.fresh t (List.mem_cons_of_mem s ht) hnot hmem
    · have hnames := h.names
      rw [List.filter_cons_of_pos (by simpa using hs), List.map_cons, List.nodup_cons] at hnames
      refine hnames.1 (List.mem_map.mpr ⟨t, List.mem_filter.mpr ⟨ht, by simpa using hnot⟩, hname⟩)

theorem newRefs_cons_known (hs : address s ∈ copy.map refAddress) :
    newRefs jdk copy (s :: services) = newRefs jdk copy services := by
  rw [newRefs, List.filter_cons_of_neg (by simpa using hs), newRefs]

theorem newRefs_cons_new (hs : address s ∉ copy.map refAddress) :
    newRefs jdk copy (s :: services) = s.ref jdk :: newRefs jdk copy services := by
  rw [newRefs, List.filter_cons_of_pos (by simpa using hs), List.map_cons, newRefs]

theorem without_filter : (without copy s).filter (fun r => refAddress r ∉ services.map address) =
    copy.filter fun r => refAddress r ∉ (s :: services).map address := by
  rw [without, List.filter_filter]
  refine List.filter_congr fun r _ => ?_
  simp [Bool.and_comm]

/-- **The loop over the services** enters the new ones and leaves the copy without the listed. -/
theorem scanLoop_eq : ∀ {services : List Service} {m : Finder} {copy : List SpeakerRef}, Sound m →
    Ready jdk m copy services → scanLoop jdk services m copy =
      .ok ((newRefs jdk copy services).foldl enter m,
        copy.filter fun r => refAddress r ∉ services.map address) ∧
      Sound ((newRefs jdk copy services).foldl enter m)
  | [], m, copy, hm, _ => ⟨by simp [scanLoop, newRefs], hm⟩
  | s :: services, m, copy, hm, h => by
    have hremove : remove jdk false copy (s.ref jdk) =
        .ok (without copy s, decide (address s ∈ copy.map refAddress)) := by
      rw [remove_eq false h.hosts h.copied, ref_address, without]
    have hnew : newRefs jdk (without copy s) services = newRefs jdk copy services := by
      rw [newRefs, h.filter_eq, newRefs]
    rw [scanLoop, hremove]
    by_cases hs : address s ∈ copy.map refAddress
    · have ih := scanLoop_eq hm h.known
      rw [without_filter, hnew] at ih
      rw [newRefs_cons_known hs]
      simp only [hs, decide_true]
      exact ih
    · have hgood := h.good s List.mem_cons_self
      have hadded := h.added s List.mem_cons_self hs
      have hadd := addSpeaker_eq hm hgood hadded (h.fresh s List.mem_cons_self hs)
      have henter : Sound (enter m (s.ref jdk)) :=
        enter_sound hm (by rw [ref_host]; exact hgood.host) hgood.plain
          (by rw [ref_address]; exact hadded)
      have ih := scanLoop_eq henter (h.entered hs)
      rw [without_filter, hnew] at ih
      rw [newRefs_cons_new hs, List.foldl_cons]
      simp only [hs, decide_false, hadd]
      exact ih

theorem Harmless.ready (hm : Sound m) {scan : Option (List Service)} (h : Harmless jdk m scan) :
    Ready jdk m m.all (scan.getD []) :=
  ⟨h.good, h.distinct, hm.hosts, hm.distinct, fun _ _ hnot => hnot, h.fresh, h.names⟩

theorem iteration_eq (hm : Sound m) {scan : Option (List Service)} (h : Harmless jdk m scan) :
    m.iteration jdk scan = removeLoop jdk
      (jdk.order (m.all.filter fun r => refAddress r ∉ (scan.getD []).map address))
      ((newRefs jdk m.all (scan.getD [])).foldl enter m) := by
  have hcopy : m.all.foldlM (add jdk) [] = .ok m.all := by
    have h := foldlM_add jdk m.all [] (by simpa using hm.hosts) (by simpa using hm.distinct)
    simpa using h
  unfold Finder.iteration
  rw [hcopy]
  simp only [bind, Except.bind, (scanLoop_eq hm (h.ready hm)).1]

end

/-! ### Speakers that are gone -/

section

variable {jdk : Jdk} {m : Finder}

theorem plain_speakerName {n : Text} (h : Plain n) : Plain (speakerName n) := by
  have hempty : Plain (speakerName []) := by simp [Plain, speakerName]
  intro c hc
  rcases List.mem_append.mp hc with hmem | hmem
  · exact hempty c (List.mem_append_left _ hmem)
  · exact h c hmem

theorem removeSpeaker_sound (jdk : Jdk) (hm : Sound m) {ref : SpeakerRef} (hplain : Plain ref.name) :
    ∃ m', m.removeSpeaker jdk ref = .ok m' ∧ Sound m' := by
  unfold Finder.removeSpeaker
  rw [getService_name hm (by decide) (plain_speakerName hplain)]
  cases (m.speakers jdk).find? fun c => speakerName ref.name = nameOf m c.2 with
  | none => exact ⟨m, rfl, hm⟩
  | some e =>
    obtain ⟨key, c⟩ := e
    simp only [bind, Except.bind, remove_eq true hm.hosts hm.distinct]
    refine ⟨_, rfl, ?_, ?_, ?_, ?_⟩
    · exact fun r hr => hm.hosts r (List.mem_of_mem_filter hr)
    · exact fun r hr => hm.plain r (List.mem_of_mem_filter hr)
    · exact (List.filter_sublist.map refAddress).nodup hm.distinct
    · intro e' he' hkind
      obtain ⟨e, he, rfl⟩ := List.mem_map.mp he'
      split_ifs at hkind ⊢
      · exact hm.named e he hkind
      · exact hm.named e he hkind

theorem removeLoop_sound (jdk : Jdk) : ∀ {refs : List SpeakerRef} {m : Finder}, Sound m →
    (∀ r ∈ refs, Plain r.name) → ∃ m', removeLoop jdk refs m = .ok m' ∧ Sound m'
  | [], m, hm, _ => ⟨m, rfl, hm⟩
  | r :: refs, m, hm, h => by
    obtain ⟨m₁, hremove, hm₁⟩ := removeSpeaker_sound jdk hm (h r List.mem_cons_self)
    obtain ⟨m', hloop, hm'⟩ := removeLoop_sound jdk hm₁
      fun u hu => h u (List.mem_cons_of_mem r hu)
    refine ⟨m', ?_, hm'⟩
    rw [removeLoop, hremove]
    exact hloop

/-! ### Runs -/

/-- **One iteration.** -/
theorem iterate_sound (hm : Sound m) {scan : Option (List Service)} (h : Harmless jdk m scan) :
    ∃ m', iterate jdk m scan = some m' ∧ Sound m' := by
  have hplain : ∀ r ∈ jdk.order (m.all.filter fun r => refAddress r ∉ (scan.getD []).map address),
      Plain r.name := by
    intro r hr
    rw [(jdk.order_perm _).mem_iff] at hr
    exact hm.plain r (List.mem_of_mem_filter hr)
  obtain ⟨m', hloop, hm'⟩ := removeLoop_sound jdk (scanLoop_eq hm (h.ready hm)).2 hplain
  refine ⟨m', ?_, hm'⟩
  rw [iterate, iteration_eq hm h, hloop]
  rfl

end

theorem initial_sound : Sound initial := by
  refine ⟨fun r hr => absurd hr List.not_mem_nil, fun r hr => absurd hr List.not_mem_nil,
    List.nodup_nil, fun c hc hkind => ?_⟩
  simp only [initial, List.mem_cons, List.not_mem_nil, or_false] at hc
  rcases hc with rfl | rfl | rfl | rfl <;> exact absurd hkind (by decide)

/-- **Discovery survives** every run of scans whose services have hosts that are found and names without
quotes and backslashes, with no address twice and new names for new speakers. -/
theorem discovery_runs (jdk : Jdk) {scans : List (Option (List Service))}
    (h : AllSteps (iterate jdk) (Harmless jdk) initial scans) :
    ∃ m, run (iterate jdk) initial scans = some m := by
  have hstep : ∀ m scan, Sound m → Harmless jdk m scan →
      ∃ m', iterate jdk m scan = some m' ∧ Sound m' ∧ True := by
    intro m scan hm hC
    obtain ⟨m', h', hm'⟩ := iterate_sound hm hC
    exact ⟨m', h', hm', trivial⟩
  obtain ⟨m, hrun, -⟩ := run_total_last (L := fun _ _ => True) hstep initial_sound h
  exact ⟨m, hrun⟩

theorem good_listed {name host : String} {port : ℤ} {c : Char} {t : Text} (hc : c ≠ 's')
    (hname : ((listed name (some host) port).ref ascii).name = c :: t) (hplain : Plain (c :: t)) :
    Good ascii (listed name (some host) port) := by
  refine ⟨rfl, rfl, hname ▸ hplain, ?_⟩
  rw [hname]
  exact ⟨List.cons_ne_nil c t, fun n h => hc (List.cons.inj h).1⟩

theorem good_kitchen : Good ascii kitchen :=
  good_listed (c := 'k') (t := ['i', 't', 'c', 'h', 'e', 'n']) (by decide) (by decide +kernel)
    (by simp [Plain])

theorem good_bath : Good ascii bath :=
  good_listed (c := 'b') (t := ['a', 't', 'h']) (by decide) (by decide +kernel)
    (by simp [Plain])

/-- Two speakers, and then none. -/
theorem discovery_runs_two :
    ∃ m, run (iterate ascii) initial [some [kitchen, bath], none] = some m := by
  have hfirst : Harmless ascii initial (some [kitchen, bath]) := by
    refine ⟨?_, by decide +kernel, by decide +kernel, by decide +kernel⟩
    simpa using ⟨good_kitchen, good_bath⟩
  have hnone : ∀ m, Harmless ascii m none := fun m => ⟨by simp, by simp, by simp, by simp⟩
  exact discovery_runs ascii ⟨hfirst, fun m _ => ⟨hnone m, fun _ _ => trivial⟩⟩

/-- A quote in a name, two speakers of one name, a service listed twice, and a service without host in
two scans. -/
theorem discovery_dies :
    iterate ascii initial (some [listed "Bob's" (some "10.0.0.1") 5000]) = none ∧
    iterate ascii initial (some [kitchen, { bath with name := kitchen.name }]) = none ∧
    iterate ascii initial (some [kitchen, kitchen]) = none ∧
    run (iterate ascii) initial [some [{ kitchen with host := none }],
      some [{ kitchen with host := none }]] = none := by
  decide +kernel

end Waveplay.Discovery.Survival
