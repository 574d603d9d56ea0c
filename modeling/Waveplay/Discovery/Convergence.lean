import Waveplay.Discovery.Survival

/-! # Discovery and the latest scan

A context is never removed, and there is one for each host. So the speakers are those of the latest scan
only as long as no host goes away, each host has one service, and a service that is known has not lost
its context to another of its host.

* `Stays`: these conditions on a scan, in the state before it.
* `speakers_converge`: in a run of such scans, one speaker for each service of the latest. -/

namespace Waveplay.Discovery.Convergence

open Waveplay.Lib.Runs
open Waveplay.Discovery.Matcher Waveplay.Discovery.Services Waveplay.Discovery.Survival

/-- Host and port of a speaker, as its properties have them. -/
def speakerAddress (m : Finder) (c : Context) : Option Text × Option Text :=
  (m.get c.servicename ['h', 'o', 's', 't'], m.get c.servicename ['p', 'o', 'r', 't'])

/-- Host and port of a service, as texts. -/
def serviceAddress (s : Service) : Option Text × Option Text :=
  (s.host, some (toString s.port).toList)

/-- One speaker for each service, at its host and port. -/
def Converged (jdk : Jdk) (m : Finder) (services : List Service) : Prop :=
  ((m.speakers jdk).map fun e => speakerAddress m e.2).Perm (services.map serviceAddress)

instance (jdk : Jdk) (m : Finder) (services : List Service) : Decidable (Converged jdk m services) :=
  inferInstanceAs (Decidable (List.Perm _ _))

/-- A known service whose speaker is among the services. -/
def Shown (m : Finder) (s : Service) : Prop :=
  ∃ r ∈ m.all, refAddress r = address s ∧
    ∃ e ∈ m.contexts, e.2.kind = .speaker ∧ e.2.servicename = speakerName r.name

instance (m : Finder) (s : Service) : Decidable (Shown m s) :=
  inferInstanceAs (Decidable (∃ r ∈ m.all, _ ∧ ∃ e ∈ m.contexts, _ ∧ _))

/-- The condition on a scan: a harmless one with one service for each host, that lists every known host, and
whose known services are shown. -/
structure Stays (jdk : Jdk) (m : Finder) (services : Option (List Service)) : Prop where
  harmless : Harmless jdk m services
  hosts : ((services.getD []).map (·.host)).Nodup
  kept : ∀ r ∈ m.all, r.host ∈ (services.getD []).map (·.host)
  shown : ∀ s ∈ services.getD [], address s ∈ m.all.map refAddress → Shown m s

/-- The context of a speaker. -/
structure Serves (m : Finder) (e : Text × Context) (r : SpeakerRef) : Prop where
  host : r.host = some e.1
  name : e.2.servicename = speakerName r.name
  address : speakerAddress m e.2 = (r.host, some (toString r.port).toList)

/-- What such scans keep. -/
structure Mirrors (m : Finder) : Prop where
  sound : Sound m
  keys : (m.contexts.map (·.1)).Nodup
  names : (m.all.map (·.name)).Nodup
  registered : ∀ r ∈ m.all, speakerName r.name ∈ m.props.map (·.1)
  served : ∀ e ∈ m.contexts, e.2.kind = .speaker → ∃ r ∈ m.all, Serves m e r

/-- A speaker that can be entered. -/
structure New (m : Finder) (r : SpeakerRef) : Prop where
  host : r.host.isSome = true
  plain : Plain r.name
  address : refAddress r ∉ m.all.map refAddress
  name : speakerName r.name ∉ m.props.map (·.1)

section

variable {m : Finder} {r : SpeakerRef} {e : Text × Context}

theorem host_eq {s : Service} (h : refAddress r = address s) : r.host = s.host := congrArg Prod.fst h

/-! ### The stores as maps -/

theorem mem_putContext {key : Text} {c : Context} : ∀ {es : List (Text × Context)}
    {e : Text × Context}, (es.map (·.1)).Nodup →
    (e ∈ putContext key c es ↔ e = (key, c) ∨ e ∈ es ∧ e.1 ≠ key)
  | [], e, _ => by simp [putContext]
  | d :: es, e, h => by
    rw [List.map_cons, List.nodup_cons] at h
    have hd : ∀ u ∈ es, u.1 ≠ d.1 := fun u hu heq => h.1 (heq ▸ List.mem_map_of_mem hu)
    unfold putContext
    split_ifs with hkey
    · rw [List.mem_cons, List.mem_cons]
      subst hkey
      constructor
      · rintro (rfl | hmem)
        · exact .inl rfl
        · exact .inr ⟨.inr hmem, hd e hmem⟩
      · rintro (rfl | ⟨rfl | hmem, hne⟩)
        · exact .inl rfl
        · exact absurd rfl hne
        · exact .inr hmem
    · rw [List.mem_cons, mem_putContext h.2, List.mem_cons]
      constructor
      · rintro (rfl | rfl | ⟨hmem, hne⟩)
        · exact .inr ⟨.inl rfl, hkey⟩
        · exact .inl rfl
        · exact .inr ⟨.inr hmem, hne⟩
      · rintro (rfl | ⟨rfl | hmem, hne⟩)
        · exact .inr (.inl rfl)
        · exact .inl rfl
        · exact .inr (.inr ⟨hmem, hne⟩)

theorem putContext_keys {key : Text} {c : Context} : ∀ {es : List (Text × Context)},
    (es.map (·.1)).Nodup → ((putContext key c es).map (·.1)).Nodup
  | [], _ => List.nodup_singleton key
  | d :: es, h => by
    rw [List.map_cons, List.nodup_cons] at h
    unfold putContext
    split_ifs with hkey
    · rw [List.map_cons, List.nodup_cons, ← hkey]
      exact h
    · rw [List.map_cons, List.nodup_cons]
      refine ⟨fun hmem => ?_, putContext_keys h.2⟩
      obtain ⟨u, hu, heq⟩ := List.mem_map.mp hmem
      rcases (mem_putContext h.2).mp hu with rfl | ⟨hu, -⟩
      · exact hkey heq.symm
      · exact h.1 (heq ▸ List.mem_map_of_mem hu)

theorem get_enter_old {name : Text} (hr : New m r) (hname : name ∈ m.props.map (·.1)) (key : Text) :
    (enter m r).get name key = m.get name key := by
  have hne : speakerName r.name ≠ name := fun h => hr.name (h ▸ hname)
  show ((m.props ++ [_]).find? _).bind _ = _
  rw [List.find?_append, List.find?_singleton, if_neg (by simpa using hne), Option.or_none]
  rfl

theorem speakerAddress_enter (hr : New m r) {c : Context} (hc : c.servicename = speakerName r.name) :
    speakerAddress (enter m r) c = (r.host, some (toString r.port).toList) := by
  obtain ⟨host, hhost⟩ := Option.isSome_iff_exists.mp hr.host
  have hfind : (enter m r).props.find? (·.1 = speakerName r.name) =
      some (speakerName r.name, m.properties r) := by
    have hnone : m.props.find? (fun e => e.1 = speakerName r.name) = none := by
      rw [List.find?_eq_none]
      intro e he heq
      exact hr.name (by rw [← decide_eq_true_iff.mp heq]; exact List.mem_map_of_mem he)
    show (m.props ++ [_]).find? _ = _
    rw [List.find?_append, hnone, List.find?_singleton, if_pos (by simp)]
    rfl
  unfold speakerAddress Finder.get
  rw [hc, hfind]
  simp [Finder.properties, hhost]

/-! ### A new speaker -/

theorem Serves.enter (hm : Mirrors m) (hr : New m r) {u : SpeakerRef} (hu : u ∈ m.all)
    (h : Serves m e u) : Serves (enter m r) e u := by
  have hname : e.2.servicename ∈ m.props.map (·.1) := h.name ▸ hm.registered u hu
  refine ⟨h.host, h.name, ?_⟩
  rw [← h.address]
  unfold speakerAddress
  rw [get_enter_old hr hname, get_enter_old hr hname]

theorem mem_contexts_enter (hm : Mirrors m) {host : Text} (hhost : r.host = some host) :
    e ∈ (enter m r).contexts ↔
      e = (host, ⟨speakerName r.name, .speaker, true⟩) ∨ e ∈ m.contexts ∧ e.1 ≠ host := by
  show e ∈ putContext (r.host.getD _) _ m.contexts ↔ _
  rw [mem_putContext hm.keys, hhost]
  rfl

theorem Mirrors.name_ne (hm : Mirrors m) (hr : New m r) : ∀ u ∈ m.all, u.name ≠ r.name :=
  fun u hu h => hr.name (h ▸ hm.registered u hu)

theorem enter_mirrors (hm : Mirrors m) (hr : New m r) : Mirrors (enter m r) := by
  obtain ⟨host, hhost⟩ := Option.isSome_iff_exists.mp hr.host
  refine ⟨enter_sound hm.sound hr.host hr.plain hr.address, putContext_keys hm.keys, ?_, ?_, ?_⟩
  · show ((m.all ++ [r]).map (·.name)).Nodup
    rw [List.map_append, List.map_singleton]
    refine hm.names.append (List.nodup_singleton _) (List.disjoint_singleton.mpr fun hmem => ?_)
    obtain ⟨u, hu, heq⟩ := List.mem_map.mp hmem
    exact hm.name_ne hr u hu heq
  · intro u hu
    rw [mem_enter_props]
    rcases List.mem_append.mp hu with hu | hu
    · exact .inl (hm.registered u hu)
    · exact .inr (congrArg SpeakerRef.name (List.mem_singleton.mp hu))
  · intro e he hkind
    rcases (mem_contexts_enter hm hhost).mp he with rfl | ⟨he, -⟩
    · exact ⟨r, List.mem_append_right _ (List.mem_singleton_self r), hhost, rfl,
        speakerAddress_enter hr rfl⟩
    · obtain ⟨u, hu, hserves⟩ := hm.served e he hkind
      exact ⟨u, List.mem_append_left _ hu, hserves.enter hm hr hu⟩

theorem New.enter {u : SpeakerRef} (hu : New m u) (hhost : r.host ≠ u.host)
    (hname : r.name ≠ u.name) : New (enter m r) u := by
  refine ⟨hu.host, hu.plain, fun hmem => ?_, fun hmem => ?_⟩
  · rcases mem_enter_all.mp hmem with hmem | heq
    · exact hu.address hmem
    · exact hhost (congrArg Prod.fst heq).symm
  · rcases mem_enter_props.mp hmem with hmem | heq
    · exact hu.name hmem
    · exact hname heq.symm

theorem shown_enter_new (hm : Mirrors m) (hr : New m r) {s : Service} (hs : refAddress r = address s) :
    Shown (enter m r) s := by
  obtain ⟨host, hhost⟩ := Option.isSome_iff_exists.mp hr.host
  exact ⟨r, List.mem_append_right _ (List.mem_singleton_self r), hs, _,
    (mem_contexts_enter hm hhost).mpr (.inl rfl), rfl, rfl⟩

theorem Mirrors.name_inj (hm : Mirrors m) {r u : SpeakerRef} (hr : r ∈ m.all) (hu : u ∈ m.all)
    (h : speakerName r.name = speakerName u.name) : r = u :=
  List.inj_on_of_nodup_map hm.names hr hu (List.append_cancel_left h)

theorem Mirrors.serves (hm : Mirrors m) (hr : r ∈ m.all) (he : e ∈ m.contexts)
    (hkind : e.2.kind = .speaker) (hname : e.2.servicename = speakerName r.name) : Serves m e r := by
  obtain ⟨u, hu, hserves⟩ := hm.served e he hkind
  obtain rfl : u = r := hm.name_inj hu hr (hserves.name.symm.trans hname)
  exact hserves

theorem Shown.enter (hm : Mirrors m) (hr : New m r) {s : Service} (hs : Shown m s)
    (hne : r.host ≠ s.host) : Shown (enter m r) s := by
  obtain ⟨host, hhost⟩ := Option.isSome_iff_exists.mp hr.host
  obtain ⟨u, hu, haddress, e, he, hkind, hname⟩ := hs
  have hserves := hm.serves hu he hkind hname
  have hkey : e.1 ≠ host := by
    rintro rfl
    exact hne (hhost.trans (hserves.host.symm.trans (host_eq haddress)))
  exact ⟨u, List.mem_append_left _ hu, haddress, e,
    (mem_contexts_enter hm hhost).mpr (.inr ⟨he, hkey⟩), hkind, hname⟩

/-! ### The new speakers of a scan -/

/-- **The loop over the services**, which shows every new one and leaves the others that are shown. -/
theorem foldl_enter : ∀ {refs : List SpeakerRef} {m : Finder}, Mirrors m → (∀ r ∈ refs, New m r) →
    refs.Pairwise (fun r u => r.host ≠ u.host ∧ r.name ≠ u.name) →
    Mirrors (refs.foldl enter m) ∧ (refs.foldl enter m).all = m.all ++ refs ∧
    (∀ s, (∃ r ∈ refs, refAddress r = address s) → Shown (refs.foldl enter m) s) ∧
    ∀ s, Shown m s → (∀ r ∈ refs, r.host ≠ s.host) → Shown (refs.foldl enter m) s
  | [], m, hm, _, _ => ⟨hm, by simp, by simp, fun s hs _ => hs⟩
  | r :: refs, m, hm, hnew, hpair => by
    have hr := hnew r List.mem_cons_self
    obtain ⟨hne, hpair⟩ := List.pairwise_cons.mp hpair
    have hnew' : ∀ u ∈ refs, New (enter m r) u := fun u hu =>
      (hnew u (List.mem_cons_of_mem r hu)).enter (hne u hu).1 (hne u hu).2
    obtain ⟨hm', hall, hfirst, hrest⟩ := foldl_enter (enter_mirrors hm hr) hnew' hpair
    refine ⟨hm', ?_, ?_, ?_⟩
    · rw [List.foldl_cons, hall]
      show m.all ++ [r] ++ refs = m.all ++ r :: refs
      rw [List.append_assoc, List.singleton_append]
    · rintro s ⟨u, hu, haddress⟩
      rcases List.mem_cons.mp hu with rfl | hu
      · refine hrest s (shown_enter_new hm hr haddress) fun v hv => ?_
        rw [← host_eq haddress]
        exact (hne v hv).1.symm
      · exact hfirst s ⟨u, hu, haddress⟩
    · intro s hs hhosts
      exact hrest s (hs.enter hm hr (hhosts r List.mem_cons_self))
        fun u hu => hhosts u (List.mem_cons_of_mem r hu)

end

section

variable {jdk : Jdk} {m : Finder} {scan : Option (List Service)}

theorem Stays.new (h : Stays jdk m scan) : ∀ r ∈ newRefs jdk m.all (scan.getD []), New m r := by
  intro r hr
  obtain ⟨s, hs, rfl⟩ := List.mem_map.mp hr
  rw [List.mem_filter, decide_eq_true_iff] at hs
  have hgood := h.harmless.good s hs.1
  refine ⟨?_, hgood.plain, ?_, h.harmless.fresh s hs.1 hs.2⟩
  · rw [ref_host]
    exact hgood.host
  · rw [ref_address]
    exact hs.2

theorem Stays.pairwise (h : Stays jdk m scan) : (newRefs jdk m.all (scan.getD [])).Pairwise
    fun r u => r.host ≠ u.host ∧ r.name ≠ u.name := by
  have hhosts := (List.pairwise_map.mp h.hosts).filter fun s => decide (address s ∉ m.all.map refAddress)
  have hnames := List.pairwise_map.mp h.harmless.names
  refine List.pairwise_map.mpr ((hhosts.and hnames).imp ?_)
  rintro s t ⟨hhost, hname⟩
  rw [ref_host, ref_host]
  exact ⟨hhost, hname⟩

/-- What the loop leaves: the listed services are shown and every host is listed. -/
theorem scan_shown (hm : Mirrors m) (h : Stays jdk m scan) {m' : Finder}
    (hm' : m' = (newRefs jdk m.all (scan.getD [])).foldl enter m) :
    Mirrors m' ∧ (∀ s ∈ scan.getD [], Shown m' s) ∧
    ∀ r ∈ m'.all, r.host ∈ (scan.getD []).map (·.host) := by
  obtain ⟨hmirrors, hall, hnew, hold⟩ := foldl_enter hm h.new h.pairwise
  rw [← hm'] at hmirrors hall hnew hold
  refine ⟨hmirrors, fun s hs => ?_, fun r hr => ?_⟩
  · by_cases hknown : address s ∈ m.all.map refAddress
    · refine hold s (h.shown s hs hknown) fun r hr heq => ?_
      obtain ⟨t, ht, rfl⟩ := List.mem_map.mp hr
      rw [List.mem_filter, decide_eq_true_iff] at ht
      rw [ref_host] at heq
      obtain rfl : t = s := List.inj_on_of_nodup_map h.hosts ht.1 hs heq
      exact ht.2 hknown
    · refine hnew s ⟨s.ref jdk, List.mem_map_of_mem (List.mem_filter.mpr ⟨hs, ?_⟩), ref_address jdk s⟩
      simpa using hknown
  · rw [hall] at hr
    rcases List.mem_append.mp hr with hr | hr
    · exact h.kept r hr
    · obtain ⟨t, ht, rfl⟩ := List.mem_map.mp hr
      rw [ref_host]
      exact List.mem_map_of_mem (List.mem_of_mem_filter ht)

/-! ### Where every service is shown -/

theorem serves_service (hm : Mirrors m) {services : List Service} (hshown : ∀ s ∈ services, Shown m s)
    (hhosts : ∀ r ∈ m.all, r.host ∈ services.map (·.host)) {e : Text × Context}
    (he : e ∈ m.contexts) (hkind : e.2.kind = .speaker) :
    ∃ s ∈ services, ∃ r ∈ m.all, refAddress r = address s ∧ Serves m e r := by
  obtain ⟨u, hu, hserves⟩ := hm.served e he hkind
  obtain ⟨s, hs, hhost⟩ := List.mem_map.mp (hhosts u hu)
  obtain ⟨r, hr, haddress, d, hd, hdkind, hdname⟩ := hshown s hs
  have hdserves := hm.serves hr hd hdkind hdname
  have hkey : some d.1 = some e.1 := by
    rw [← hdserves.host, ← hserves.host, ← hhost]
    exact host_eq haddress
  obtain rfl : d = e := List.inj_on_of_nodup_map hm.keys hd he (Option.some.inj hkey)
  exact ⟨s, hs, r, hr, haddress, hdserves⟩

theorem removeSpeaker_unlisted (hm : Mirrors m) {services : List Service}
    (hshown : ∀ s ∈ services, Shown m s) (hhosts : ∀ r ∈ m.all, r.host ∈ services.map (·.host))
    {ref : SpeakerRef} (href : ref ∈ m.all) (hnot : refAddress ref ∉ services.map address) :
    m.removeSpeaker jdk ref = .ok m := by
  have hnone : (m.speakers jdk).find? (fun c => speakerName ref.name = nameOf m c.2) = none := by
    rw [List.find?_eq_none]
    intro e he heq
    obtain ⟨hmem, hkind⟩ := mem_speakers.mp he
    rw [decide_eq_true_iff] at heq
    rcases nameOf_cases m e.2 with h | h
    · exact absurd (heq.trans h) (List.cons_ne_nil _ _)
    · obtain ⟨s, hs, r, hr, haddress, hserves⟩ := serves_service hm hshown hhosts hmem hkind
      obtain rfl : ref = r := hm.name_inj href hr (heq.trans (h.trans hserves.name))
      exact hnot (haddress ▸ List.mem_map_of_mem hs)
  unfold Finder.removeSpeaker
  rw [getService_name hm.sound (by decide) (plain_speakerName (hm.sound.plain ref href)), hnone]
  rfl

theorem removeLoop_unlisted (hm : Mirrors m) {services : List Service}
    (hshown : ∀ s ∈ services, Shown m s) (hhosts : ∀ r ∈ m.all, r.host ∈ services.map (·.host)) :
    ∀ {refs : List SpeakerRef}, (∀ r ∈ refs, r ∈ m.all ∧ refAddress r ∉ services.map address) →
    removeLoop jdk refs m = .ok m
  | [], _ => rfl
  | r :: refs, h => by
    obtain ⟨hr, hnot⟩ := h r List.mem_cons_self
    rw [removeLoop, removeSpeaker_unlisted hm hshown hhosts hr hnot]
    exact removeLoop_unlisted hm hshown hhosts fun u hu => h u (List.mem_cons_of_mem r hu)

theorem speakerAddress_nodup (jdk : Jdk) (hm : Mirrors m) :
    ((m.speakers jdk).map fun e => speakerAddress m e.2).Nodup := by
  have hkeys : ((m.speakers jdk).map (·.1)).Nodup := by
    have hperm := (jdk.order_perm m.contexts).map (·.1)
    exact (List.filter_sublist.map _).nodup (hperm.nodup_iff.mpr hm.keys)
  refine (List.nodup_map_iff_inj_on hkeys.of_map).mpr fun e he d hd heq => ?_
  obtain ⟨hmem, hkind⟩ := mem_speakers.mp he
  obtain ⟨hmem', hkind'⟩ := mem_speakers.mp hd
  obtain ⟨r, -, hr⟩ := hm.served e hmem hkind
  obtain ⟨u, -, hu⟩ := hm.served d hmem' hkind'
  have hhost : r.host = u.host := by
    have h := congrArg Prod.fst heq
    rwa [hr.address, hu.address] at h
  rw [hr.host, hu.host, Option.some.injEq] at hhost
  exact List.inj_on_of_nodup_map hkeys he hd hhost

theorem speakerAddress_eq {e : Text × Context} {r : SpeakerRef} (h : Serves m e r) {s : Service}
    (hs : refAddress r = address s) : speakerAddress m e.2 = serviceAddress s := by
  obtain ⟨hhost, hport⟩ := Prod.mk.inj hs
  rw [h.address, hhost, hport]
  rfl

theorem converged_of_shown (jdk : Jdk) (hm : Mirrors m) {services : List Service}
    (hnodup : (services.map (·.host)).Nodup) (hshown : ∀ s ∈ services, Shown m s)
    (hhosts : ∀ r ∈ m.all, r.host ∈ services.map (·.host)) : Converged jdk m services := by
  have hservices : (services.map serviceAddress).Nodup := by
    refine List.Nodup.of_map Prod.fst ?_
    rw [List.map_map]
    exact hnodup
  -- both sides have no host twice, so the members decide
  refine (List.perm_ext_iff_of_nodup (speakerAddress_nodup jdk hm) hservices).mpr fun a => ?_
  rw [List.mem_map, List.mem_map]
  constructor
  · rintro ⟨e, he, rfl⟩
    obtain ⟨hmem, hkind⟩ := mem_speakers.mp he
    obtain ⟨s, hs, r, -, haddress, hserves⟩ := serves_service hm hshown hhosts hmem hkind
    exact ⟨s, hs, (speakerAddress_eq hserves haddress).symm⟩
  · rintro ⟨s, hs, rfl⟩
    obtain ⟨r, hr, haddress, e, he, hkind, hname⟩ := hshown s hs
    have hserves := hm.serves hr he hkind hname
    exact ⟨e, mem_speakers.mpr ⟨he, hkind⟩, speakerAddress_eq hserves haddress⟩

/-! ### Runs -/

/-- **One iteration.** -/
theorem iterate_converged (hm : Mirrors m) (h : Stays jdk m scan) :
    ∃ m', iterate jdk m scan = some m' ∧ Mirrors m' ∧ Converged jdk m' (scan.getD []) := by
  obtain ⟨m', hm'⟩ : ∃ m', m' = (newRefs jdk m.all (scan.getD [])).foldl enter m := ⟨_, rfl⟩
  obtain ⟨hmirrors, hshown, hhosts⟩ := scan_shown hm h hm'
  have hall : m'.all = m.all ++ newRefs jdk m.all (scan.getD []) := by
    rw [hm']
    exact (foldl_enter hm h.new h.pairwise).2.1
  have hgone : ∀ r ∈ jdk.order (m.all.filter fun r => refAddress r ∉ (scan.getD []).map address),
      r ∈ m'.all ∧ refAddress r ∉ (scan.getD []).map address := by
    intro r hr
    rw [(jdk.order_perm _).mem_iff, List.mem_filter, decide_eq_true_iff] at hr
    exact ⟨hall ▸ List.mem_append_left _ hr.1, hr.2⟩
  refine ⟨m', ?_, hmirrors, converged_of_shown jdk hmirrors h.hosts hshown hhosts⟩
  rw [iterate, iteration_eq hm.sound h.harmless, ← hm',
    removeLoop_unlisted hmirrors hshown hhosts hgone]
  rfl

end

theorem initial_mirrors : Mirrors initial := by
  refine ⟨initial_sound, by decide +kernel, List.nodup_nil, fun r hr => absurd hr List.not_mem_nil,
    fun e he hkind => ?_⟩
  simp only [initial, List.mem_cons, List.not_mem_nil, or_false] at he
  rcases he with rfl | rfl | rfl | rfl <;> exact absurd hkind (by decide)

/-- **The speakers are those of the latest scan** in every run of harmless scans with one service for each
host, that list every known host and whose known services are shown. -/
theorem speakers_converge (jdk : Jdk) {scans : List (Option (List Service))}
    (h : AllSteps (iterate jdk) (Stays jdk) initial scans) :
    ∃ m, run (iterate jdk) initial scans = some m ∧
      ∀ scan, scans.getLast? = some scan → Converged jdk m (scan.getD []) := by
  have hstep : ∀ m scan, Mirrors m → Stays jdk m scan →
      ∃ m', iterate jdk m scan = some m' ∧ Mirrors m' ∧ Converged jdk m' (scan.getD []) :=
    fun _ _ hm hC => iterate_converged hm hC
  obtain ⟨m, hrun, -, hlast⟩ := run_total_last hstep initial_mirrors h
  exact ⟨m, hrun, hlast⟩

/-- A speaker, and then a second. -/
theorem speakers_converge_two :
    ∃ m, run (iterate ascii) initial [some [kitchen], some [bath, kitchen]] = some m ∧
      ∀ scan, [some [kitchen], some [bath, kitchen]].getLast? = some scan →
        Converged ascii m (scan.getD []) := by
  have hfirst : Stays ascii initial (some [kitchen]) := by
    refine ⟨⟨?_, by decide +kernel, by decide +kernel, by decide +kernel⟩,
      by decide +kernel, by decide +kernel, by decide +kernel⟩
    simpa using good_kitchen
  have hstep : iterate ascii initial (some [kitchen]) = some (enter initial (kitchen.ref ascii)) := by
    decide +kernel
  have hsecond : Stays ascii (enter initial (kitchen.ref ascii)) (some [bath, kitchen]) := by
    refine ⟨⟨?_, by decide +kernel, by decide +kernel, by decide +kernel⟩,
      by decide +kernel, by decide +kernel, by decide +kernel⟩
    simpa using ⟨good_bath, good_kitchen⟩
  refine speakers_converge ascii ⟨hfirst, fun m hm => ?_⟩
  obtain rfl := Option.some.inj (hstep.symm.trans hm)
  exact ⟨hsecond, fun _ _ => trivial⟩

/-- A speaker that has vanished is kept, and the first of two on a host is hidden. -/
theorem speaker_kept_or_hidden :
    (run (iterate ascii) initial [some [kitchen], some []]).map
      (fun m => decide (Converged ascii m [])) = some false ∧
    (run (iterate ascii) initial [some [kitchen, { bath with host := kitchen.host, port := 5001 }]]).map
      (fun m => decide (Converged ascii m
        [kitchen, { bath with host := kitchen.host, port := 5001 }])) = some false := by
  decide +kernel

end Waveplay.Discovery.Convergence
