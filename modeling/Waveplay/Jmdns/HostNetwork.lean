import Waveplay.Jmdns.HostName
import Waveplay.Jmdns.Withdrawal

/-! # Hosts on one network

Every host runs its own tasks, in any order with those of the others. A message comes to all hosts before any
of them takes another step: none is lost, and none is late. A host ignores what comes from an address of
another kind than its own (`SameKind`), if that is link-local or a loopback.

* `Inv`: what a host knows of the message it has built, and that no two hosts of one kind claim one name;
* `announced_apart`: no two hosts of one kind announce one name. -/

namespace Waveplay.Jmdns.HostNetwork

open Waveplay.Lib.Runs Waveplay.Jmdns.Stream Waveplay.Jmdns.QualifiedName Waveplay.Jmdns.Message
open Waveplay.Jmdns.Outbox Waveplay.Jmdns.StateMachine Waveplay.Jmdns.Withdrawal Waveplay.Jmdns.HostName

/-- A host on the network, with the records of the host in the message that each of its tasks has built. -/
structure Node (ι : Type*) extends Dns ι where
  built : ℕ → List Address := fun _ => []

/-- What happens next on the network: a host takes a step, its services change, or a record of some other
device comes to it from the address `source`. -/
inductive Event (N ι : Type*)
  | act (n : N) (action : Action ι)
  | services (n : N) (services : List ι)
  | foreign (n : N) (source : Option InetAddress) (query : Bool) (r : Address)

section Network

variable {N ι : Type*} [DecidableEq N] [DecidableEq ι] (getBytes : Text → List UInt8) (fold : UInt16 → UInt16)
  (host : ι)

namespace Node

/-- A record of a query or of a response comes to a host. -/
def receive (query : Bool) (r : Address) (x : Node ι) : Node ι :=
  if query then (handleQuery getBytes fold host r x.toDns).elim x fun d => { x with toDns := d.1 }
  else { x with toDns := (handleResponse fold host r x.toDns).1 }

/-- The records of a message come to a host. -/
def receiveAll (query : Bool) (rs : List Address) (x : Node ι) : Node ι :=
  rs.foldl (fun x r => x.receive getBytes fold host query r) x

/-- A packet with these records comes to a host. -/
def deliver (source : Option InetAddress) (query : Bool) (rs : List Address) (x : Node ι) : Node ι :=
  if x.localHost.shouldIgnorePacket source then x else x.receiveAll getBytes fold host query rs

/-- `createOugoing` and `buildOutgoingForDNS`. -/
def build (action : Action ι) (x : Node ι) : ℕ → List Address :=
  match action with
  | .task t .run => Function.update x.built t []
  | .task t (.collect o) => if o = host then Function.update x.built t x.localHost.answers else x.built
  | _ => x.built

/-- The message that goes out in a step, and whether it is a query. -/
def packet (action : Action ι) (x : Node ι) : Option (Bool × List Address) :=
  match action with
  | .task t .send => x.system.tasks[t]?.map fun task => (decide (task.kind = .prober), x.built t)
  | _ => none

end Node

/-- A packet comes to all hosts, its sender included. -/
def broadcast (source : Option InetAddress) (query : Bool) (rs : List Address) (net : N → Node ι) : N → Node ι :=
  fun m => (net m).deliver getBytes fold host source query rs

/-- A step on the network. `close` does not advance a host that is probing: it has closed it before. There is
no step for a query whose record makes `handleQuery` throw, with the name of the host and no address: it ends
the thread that listens. -/
def step (net : N → Node ι) : Event N ι → Option (N → Node ι)
  | .act n action =>
    if action = .closed ∧ (net n).isProbing host then none
    else (StateMachine.step host (net n).system action).map fun s =>
      let net' := Function.update net n { net n with system := s, built := (net n).build host action }
      match (net n).packet action with
      | some (query, rs) => broadcast getBytes fold host (net n).localHost.address query rs net'
      | none => net'
  | .services n services => some (Function.update net n { net n with services })
  | .foreign n source query r =>
    if (net n).localHost.shouldIgnorePacket source then some net
    else if query ∧ (handleQuery getBytes fold host r (net n).toDns).isNone then none
    else some (Function.update net n ((net n).receive getBytes fold host query r))

end Network

/-! ### A name that is claimed -/

/-- The states of a host whose name is announced. -/
def Announced (state : DNSState) : Prop := state.stateClass = .announcing ∨ state.stateClass = .announced

section Claims

variable {ι : Type*} {host o : ι} {s s' : System ι} {t : ℕ} {task : StateMachine.Task ι} {x : StatefulObject}

/-- The host announces its name, or has sent its last probe. -/
def Claimed (host : ι) (s : System ι) : Prop :=
  Announced (s.objects host).state ∨
  ∃ t task objects last, s.tasks[t]? = some task ∧ task.phase = .advancing objects last ∧ host ∈ objects ∧
    task.taskState = .PROBING_3 ∧ (s.objects host).task = some t

/-- The task `t` is about to send the last probe of the host. -/
structure LastProbe (host : ι) (s : System ι) (t : ℕ) (task : StateMachine.Task ι) : Prop where
  found : s.tasks[t]? = some task
  inHand : host ∈ task.phase.stateObjects
  taskState : task.taskState = .PROBING_3
  own : (s.objects host).task = some t

theorem Announced.of_setTask {u : Option ℕ} (h : Announced (x.setTask u).state) : Announced x.state := by
  rw [StatefulObject.setTask] at h
  split at h
  · simp only at h
    split at h
    · next hclass => exact .inr hclass
    · exact h
  · exact h

theorem not_announced_revert (state : DNSState) : ¬ Announced state.revert := by
  cases state <;> simp [Announced, DNSState.revert, DNSState.stateClass]

theorem Claimed.of_setTask {P : Prop} (h : Claimed host (s.setTask t task))
    (hnew : ∀ objects last, task.phase = .advancing objects last → host ∈ objects → task.taskState = .PROBING_3 →
      (s.objects host).task = some t → P) : Claimed host s ∨ P := by
  rcases h with h | ⟨u, task', objects, last, hu, hphase, hhost, hstate, hown⟩
  · exact .inl (.inl h)
  · rw [System.setTask, List.getElem?_set] at hu
    split at hu
    · next htu =>
      subst htu
      split at hu
      · obtain rfl := Option.some.inj hu
        exact .inr (hnew objects last hphase hhost hstate hown)
      · cases hu
    · exact .inl (.inr ⟨u, task', objects, last, hu, hphase, hhost, hstate, hown⟩)

theorem Claimed.of_setTask_nil (h : Claimed host (s.setTask t task)) (hnil : task.phase.stateObjects = []) :
    Claimed host s := by
  refine (h.of_setTask (P := False) fun objects last hphase hhost _ _ => ?_).resolve_right id
  rw [hphase] at hnil
  rw [show objects = [] from hnil] at hhost
  exact absurd hhost List.not_mem_nil

variable [DecidableEq ι]

/-- One object changes, and nothing else: it does not come to be announced, and it is taken by no task that
has it in hand. -/
theorem Claimed.of_put (h : Claimed host (s.put o x)) (hstate : o = host → Announced x.state → Claimed host s)
    (htask : o = host → ∀ t task, x.task = some t → s.tasks[t]? = some task →
      (s.objects host).task = some t ∨ task.phase = .associating) : Claimed host s := by
  by_cases ho : o = host
  · subst ho
    rcases h with h | ⟨t, task, objects, last, ht, hphase, hhost, htaskState, hown⟩
    · rw [objects_put_self] at h
      exact hstate rfl h
    · rw [objects_put_self] at hown
      rcases htask rfl t task hown ht with hown | hassociating
      · exact .inr ⟨t, task, objects, last, ht, hphase, hhost, htaskState, hown⟩
      · rw [hassociating] at hphase
        cases hphase
  · rw [Claimed, objects_put_of_ne (Ne.symm ho)] at h
    exact h

theorem Claimed.of_put_none (h : Claimed host (s.put o x))
    (hstate : Announced x.state → Announced (s.objects o).state)
    (htask : x.task = none ∨ x.task = (s.objects o).task) : Claimed host s := by
  refine h.of_put (fun ho hx => ?_) fun ho t task hx _ => ?_
  · subst ho
    exact .inl (hstate hx)
  · subst ho
    rcases htask with hnone | heq
    · rw [hnone] at hx
      cases hx
    · exact .inl (heq ▸ hx)

theorem Claimed.of_put_setTask {state : DNSState} (h : Claimed host (s.put o ((x.setState state).setTask none)))
    (hstate : ¬ Announced state) : Claimed host s :=
  h.of_put_none (fun hann => absurd hann.of_setTask hstate) (.inl (task_setTask none))

theorem Claimed.of_associate (h : Claimed host (s.put o ((s.objects o).associateWithTask t task.taskState)))
    (ht : s.tasks[t]? = some task) (hphase : task.phase = .associating) : Claimed host s := by
  rw [StatefulObject.associateWithTask] at h
  split at h
  · refine h.of_put (fun ho hx => ?_) fun ho u task' hx hu => ?_
    · subst ho
      exact .inl hx.of_setTask
    · rw [task_setTask] at hx
      obtain rfl := Option.some.inj hx
      obtain rfl := Option.some.inj (ht.symm.trans hu)
      exact .inr hphase
  · exact h.of_put_none id (.inr rfl)

theorem Claimed.of_remove (h : Claimed host (s.put o ((s.objects o).removeAssociationWithTask t))) :
    Claimed host s := by
  rw [StatefulObject.removeAssociationWithTask] at h
  split at h
  · exact h.of_put_none Announced.of_setTask (.inl (task_setTask none))
  · exact h.of_put_none id (.inr rfl)

theorem Claimed.of_announceText (h : Claimed host (s.put o (s.objects o).announceText)) : Claimed host s := by
  rw [StatefulObject.announceText] at h
  split at h
  · exact h.of_put_none Announced.of_setTask (.inl (task_setTask none))
  · exact h.of_put_none id (.inr rfl)

/-- A task advances an object: it has sent its last probe before. -/
theorem Claimed.of_advance (hinv : StateMachine.Inv host s) (ht : s.tasks[t]? = some task) {objects : List ι}
    {last : Bool} (hphase : task.phase = .advancing (o :: objects) last)
    (h : Claimed host ((s.setTask t { task with phase := .advancing objects last }).put o
      ((s.objects o).advanceState (some t)))) : Claimed host s := by
  have hset : Claimed host (s.setTask t { task with phase := .advancing objects last }) → Claimed host s := by
    intro h
    refine (h.of_setTask (P := Claimed host s) fun objects' last' hphase' hhost hstate hown => ?_).elim id id
    obtain ⟨rfl, rfl⟩ : objects = objects' ∧ last = last' := by simpa using hphase'
    exact .inr ⟨t, task, o :: objects, last, ht, hphase, List.mem_cons_of_mem o hhost, hstate, hown⟩
  rw [StatefulObject.advanceState] at h
  split at h
  · next hown =>
    by_cases hthird : o = host ∧ (s.objects o).state = .PROBING_3
    · obtain ⟨rfl, hthird⟩ := hthird
      have hheld := (hinv.tasks t task ht).held o (by rw [hphase]; exact List.mem_cons_self) hown
      exact .inr ⟨t, task, o :: objects, last, ht, hphase, List.mem_cons_self, hheld ▸ hthird, hown⟩
    · refine hset (h.of_put (fun ho hx => .inl ?_) fun ho u task' hx _ => .inl (ho ▸ hx))
      subst ho
      have hadvance : Announced (s.objects o).state.advance := hx
      have hne : (s.objects o).state ≠ .PROBING_3 := fun h => hthird ⟨rfl, h⟩
      show Announced (s.objects o).state
      revert hne hadvance
      cases (s.objects o).state <;> simp [Announced, DNSState.advance, DNSState.stateClass]
  · exact hset (h.of_put_none id (.inr rfl))

theorem claimed_taskStep (hinv : StateMachine.Inv host s) (ht : s.tasks[t]? = some task) {action : TaskAction ι}
    (hs : taskStep host s t task action = some s') (h : Claimed host s') :
    Claimed host s ∨ action = .send ∧ LastProbe host s t task := by
  have hrunning := (hinv.tasks t task ht).running
  unfold taskStep at hs
  split at hs
  · next hphase =>
    cases hs
    exact .inl (h.of_associate ht hphase)
  · cases hs
    exact .inl (h.of_setTask_nil rfl)
  · split at hs <;> cases hs <;> exact .inl (h.of_setTask_nil rfl)
  · split at hs <;> cases hs
    exact .inl ((h.of_setTask (P := False) nofun).resolve_right id)
  · next hphase =>
    split at hs <;> cases hs
    -- the message of the task counts, but is nothing that the host claims by
    refine Claimed.of_setTask (s := s) (t := t) h fun objects last hphase' hhost hstate hown => ?_
    obtain ⟨rfl, -⟩ : _ = objects ∧ false = last := by simpa using hphase'
    exact ⟨rfl, ht, by rw [hphase]; exact hhost, hstate, hown⟩
  · next hphase =>
    split at hs <;> cases hs
    next hcond =>
    refine .inl ((h.of_setTask (P := False) fun objects last hphase' hhost hstate _ => ?_).resolve_right id)
    obtain ⟨rfl, -⟩ : _ = objects ∧ true = last := by simpa using hphase'
    rcases hcond with rfl | ⟨hkind, -⟩
    · exact absurd hhost List.not_mem_nil
    · have hclass := hrunning.resolve_left (by simp [hphase])
      rw [show task.taskState = .PROBING_3 from hstate] at hclass
      cases hk : task.kind <;> rw [hk] at hclass hkind <;> first | exact hkind rfl | cases hclass
  · cases hs
    exact .inl (h.of_setTask_nil rfl)
  · next hphase =>
    cases hs
    exact .inl (h.of_advance hinv ht hphase)
  · cases hs
    exact .inl (h.of_setTask_nil rfl)
  · split at hs <;> cases hs <;> exact .inl (h.of_setTask_nil rfl)
  · cases hs
    exact .inl h.of_remove
  · cases hs

/-- **A host comes to claim its name only by its last probe.** -/
theorem claimed_step (hinv : StateMachine.Inv host s) {action : Action ι}
    (hs : StateMachine.step host s action = some s')
    (hclosed : action = .closed → (s.objects host).state.stateClass ≠ .probing) (h : Claimed host s') :
    Claimed host s ∨ ∃ t task, action = .task t .send ∧ LastProbe host s t task := by
  cases action with
  | create kind =>
    cases hs
    refine .inl ?_
    rcases h with h | ⟨t, task, objects, last, ht, hphase, hhost⟩
    · exact .inl h
    · rcases getElem?_create ht with ht | rfl
      · exact .inr ⟨t, task, objects, last, ht, hphase, hhost⟩
      · cases hphase
  | task t action =>
    obtain ⟨task, ht, hs⟩ := Option.bind_eq_some_iff.mp hs
    rcases claimed_taskStep hinv ht hs h with h | ⟨rfl, h⟩
    · exact .inl h
    · exact .inr ⟨t, task, rfl, h⟩
  | revert o =>
    cases hs
    refine .inl ?_
    rw [revertState] at h
    split at h
    · exact h
    · next hwill =>
      rw [StatefulObject.revertState, if_neg hwill] at h
      have h : Claimed host (s.put o (((s.objects o).setState (s.objects o).state.revert).setTask none)) := h
      exact h.of_put_setTask (not_announced_revert _)
  | cancel o =>
    cases hs
    rw [StatefulObject.cancelState] at h
    split at h
    · exact .inl (h.of_put_none id (.inr rfl))
    · exact .inl (h.of_put_setTask (by simp [Announced, DNSState.stateClass]))
  | recover o =>
    cases hs
    have h : Claimed host (s.put o (s.objects o).recoverState) := h
    exact .inl (h.of_put_setTask (by simp [Announced, DNSState.stateClass]))
  | setText o =>
    rw [StateMachine.step] at hs
    split at hs <;> cases hs
    exact .inl (h.of_put_none id (.inr rfl))
  | leaveTask o =>
    rw [StateMachine.step] at hs
    split at hs <;> cases hs
    exact .inl (h.of_put_none id (.inl rfl))
  | announceText o =>
    rw [StateMachine.step] at hs
    split at hs <;> cases hs
    exact .inl h.of_announceText
  | close =>
    cases hs
    rw [StatefulObject.closeState] at h
    split at h
    · exact .inl (h.of_put_none id (.inr rfl))
    · exact .inl (h.of_put_setTask (by simp [Announced, DNSState.stateClass]))
  | closed =>
    cases hs
    rw [StatefulObject.advanceState] at h
    have hclass := hclosed rfl
    split at h
    · refine .inl (h.of_put_none (fun hann => ?_) (.inr rfl))
      have hadvance : Announced (s.objects host).state.advance := hann
      revert hclass hadvance
      cases (s.objects host).state <;> simp [Announced, DNSState.advance, DNSState.stateClass]
    · exact .inl (h.of_put_none id (.inr rfl))

/-! ### A conflict -/

theorem inv_revertState (h : StateMachine.Inv host s) : StateMachine.Inv host (revertState o s) :=
  h.step (show StateMachine.step host s (.revert o) = some (revertState o s) from rfl)

theorem inv_foldl_revertState (h : StateMachine.Inv host s) (services : List ι) :
    StateMachine.Inv host (services.foldl (fun s o => revertState o s) s) := by
  induction services generalizing s with
  | nil => exact h
  | cons o services ih => exact ih (inv_revertState h)

theorem tasks_revertState : (revertState o s).tasks = s.tasks := by
  rw [revertState]
  split <;> rfl

theorem willCancel_revertState : x.revertState.state.willCancel = x.state.willCancel := by
  rw [StatefulObject.revertState]
  split
  · rfl
  · have hclass : ((x.setState x.state.revert).setTask none).state = x.state.revert := by
      refine state_setTask (fun h => ?_) none
      exact not_announced_revert x.state (.inr h)
    rw [hclass]
    cases x.state <;> rfl

theorem willCancel_foldl_revertState (host : ι) (s : System ι) (services : List ι) :
    ((services.foldl (fun s o => revertState o s) s).objects host).state.willCancel =
      (s.objects host).state.willCancel := by
  induction services generalizing s with
  | nil => rfl
  | cons o services ih =>
    rw [List.foldl_cons, ih]
    by_cases ho : host = o
    · subst ho
      rw [objects_revertState_self, willCancel_revertState]
    · rw [revertState]
      split
      · rfl
      · rw [objects_restart, objects_put_of_ne ho]

theorem task_revertState (h : (s.objects host).state.willCancel = false) :
    ((revertState host s).objects host).task = none := by
  rw [objects_revertState_self, StatefulObject.revertState, if_neg (by simp [h]), task_setTask]

theorem not_claimed_revertState (h : StateMachine.Inv host s) : ¬ Claimed host (revertState host s) := by
  by_cases hwill : (s.objects host).state.willCancel = true
  · have hclass : ∀ state : DNSState, state.willCancel = true → ¬ Announced state ∧ state ≠ .PROBING_3 := by
      intro state
      cases state <;> simp [DNSState.willCancel, DNSState.stateClass, Announced]
    rw [revertState, if_pos hwill]
    rintro (hann | ⟨t, task, objects, last, ht, hphase, hhost, hstate, hown⟩)
    · exact (hclass _ hwill).1 hann
    · have hheld := (h.tasks t task ht).held host (by rw [hphase]; exact hhost) hown
      exact (hclass _ hwill).2 (hheld.trans hstate)
  · rintro (hann | ⟨t, task, objects, last, ht, hphase, hhost, hstate, hown⟩)
    · rw [objects_revertState_self, StatefulObject.revertState, if_neg hwill] at hann
      exact not_announced_revert _ hann.of_setTask
    · rw [task_revertState (Bool.eq_false_iff.mpr hwill)] at hown
      cases hown

end Claims

/-! ### One host -/

section Hosts

variable {ι : Type*} {getBytes : Text → List UInt8} {fold : UInt16 → UInt16} {host : ι} {x x' : Node ι}

/-- What holds of a host: the message that a task has in hand for it has its records. -/
structure NodeInv (host : ι) (x : Node ι) : Prop where
  system : StateMachine.Inv host x.system
  built : ∀ t task, x.system.tasks[t]? = some task → host ∈ task.phase.stateObjects →
    (x.system.objects host).task = some t → x.built t = x.localHost.answers

variable [DecidableEq ι]

/-- What a record does to a host. -/
inductive Received (host : ι) (x : Node ι) : Node ι → Prop
  | ignored : Received host x x
  | reverted : Received host x { x with toDns := x.toDns.revert host }
  | renamed (h : x.isProbing host = true) : Received host x { x with toDns := x.toDns.giveUpName.revert host }

theorem received_receive (getBytes : Text → List UInt8) (fold : UInt16 → UInt16) (host : ι) (query : Bool)
    (r : Address) (x : Node ι) :
    Received host x (x.receive getBytes fold host query r) := by
  rw [Node.receive]
  split
  · rw [handleQuery]
    split
    · cases x.localHost.getDNSAddressRecord r.recordType with
      | none => exact .ignored
      | some localAddress =>
        rw [Option.bind_some]
        cases compareTo getBytes r localAddress with
        | none => exact .ignored
        | some comparison =>
          rw [Option.bind_some]
          split_ifs with hzero hlost
          · exact .ignored
          · exact .renamed hlost.1
          · exact .reverted
    · exact .ignored
  · rw [handleResponse]
    split_ifs with hconflict hprobing
    · exact .renamed hprobing
    · exact .reverted
    · exact .ignored

theorem Received.address (h : Received host x x') : x'.localHost.address = x.localHost.address := by
  cases h <;> rfl

/-- A record that changes a host takes its claim from it. -/
theorem Received.not_claimed (h : Received host x x') (hx : NodeInv host x) :
    x' = x ∨ ¬ Claimed host x'.system := by
  cases h with
  | ignored => exact .inl rfl
  | reverted => exact .inr (not_claimed_revertState hx.system)
  | renamed => exact .inr (not_claimed_revertState (inv_foldl_revertState hx.system x.services))

theorem Received.nodeInv (h : Received host x x') (hx : NodeInv host x) : NodeInv host x' := by
  cases h with
  | ignored => exact hx
  | reverted =>
    refine ⟨inv_revertState hx.system, fun t task ht hhost hown => ?_⟩
    have ht : (revertState host x.system).tasks[t]? = some task := ht
    rw [tasks_revertState] at ht
    refine hx.built t task ht hhost ?_
    have hown : ((revertState host x.system).objects host).task = some t := hown
    cases hwill : (x.system.objects host).state.willCancel with
    | true => rwa [revertState, if_pos hwill] at hown
    | false =>
      rw [task_revertState hwill] at hown
      cases hown
  | renamed hprobing =>
    refine ⟨inv_revertState (inv_foldl_revertState hx.system x.services), fun t task _ _ hown => ?_⟩
    have hwill : (x.system.objects host).state.willCancel = false := by
      have hclass : (x.system.objects host).state.stateClass = .probing := of_decide_eq_true hprobing
      simp [DNSState.willCancel, hclass]
    have hnone := task_revertState ((willCancel_foldl_revertState host x.system x.services).trans hwill)
    exact absurd (hown.symm.trans hnone) (Option.some_ne_none t)

/-- The task `t` has the host in hand, and the host is its own. -/
def InHand (host : ι) (s : System ι) (t : ℕ) : Prop :=
  ∃ task, s.tasks[t]? = some task ∧ host ∈ task.phase.stateObjects ∧ (s.objects host).task = some t

section InHand

variable {s s' : System ι} {t u : ℕ} {o : ι} {task : StateMachine.Task ι} {y : StatefulObject}

omit [DecidableEq ι] in
theorem InHand.of_setTask (h : InHand host (s.setTask u task) t) :
    InHand host s t ∧ t ≠ u ∨ t = u ∧ host ∈ task.phase.stateObjects ∧ (s.objects host).task = some u := by
  obtain ⟨task', ht, hhost, hown⟩ := h
  rw [System.setTask, List.getElem?_set] at ht
  split at ht
  · next htu =>
    subst htu
    split at ht
    · obtain rfl := Option.some.inj ht
      exact .inr ⟨rfl, hhost, hown⟩
    · cases ht
  · next htu => exact .inl ⟨⟨task', ht, hhost, hown⟩, Ne.symm htu⟩

omit [DecidableEq ι] in
theorem InHand.of_setTask_nil (h : InHand host (s.setTask u task) t) (hnil : task.phase.stateObjects = []) :
    InHand host s t ∧ t ≠ u := by
  rcases h.of_setTask with h | ⟨-, hhost, -⟩
  · exact h
  · rw [hnil] at hhost
    exact absurd hhost List.not_mem_nil

omit [DecidableEq ι] in
theorem InHand.of_setTask_subset (h : InHand host (s.setTask u task) t) {task₀ : StateMachine.Task ι}
    (hu : s.tasks[u]? = some task₀) (hsub : host ∈ task.phase.stateObjects → host ∈ task₀.phase.stateObjects) :
    InHand host s t := by
  rcases h.of_setTask with h | ⟨rfl, hhost, hown⟩
  · exact h.1
  · exact ⟨task₀, hu, hsub hhost, hown⟩

theorem InHand.of_put (h : InHand host (s.put o y) t) (htask : y.task = none ∨ y.task = (s.objects o).task) :
    InHand host s t := by
  obtain ⟨task', ht, hhost, hown⟩ := h
  refine ⟨task', ht, hhost, ?_⟩
  by_cases ho : host = o
  · subst ho
    rw [objects_put_self] at hown
    rcases htask with hnone | hsame
    · rw [hnone] at hown
      cases hown
    · rwa [← hsame]
  · rwa [objects_put_of_ne ho] at hown

theorem InHand.of_associate (h : InHand host (s.put o ((s.objects o).associateWithTask u task.taskState)) t)
    (hu : s.tasks[u]? = some task) (hphase : task.phase = .associating) : InHand host s t := by
  rw [StatefulObject.associateWithTask] at h
  split at h
  · obtain ⟨task', ht, hhost, hown⟩ := h
    refine ⟨task', ht, hhost, ?_⟩
    by_cases ho : host = o
    · subst ho
      rw [objects_put_self, task_setTask] at hown
      obtain rfl := Option.some.inj hown
      obtain rfl := Option.some.inj (hu.symm.trans ht)
      rw [hphase] at hhost
      exact absurd hhost List.not_mem_nil
    · rwa [objects_put_of_ne ho] at hown
  · exact h.of_put (.inr rfl)

theorem inHand_taskStep (hu : s.tasks[u]? = some task) {action : TaskAction ι}
    (hs : taskStep host s u task action = some s') (h : InHand host s' t) :
    InHand host s t ∧ (t = u → action ≠ .run) ∨ t = u ∧ action = .collect host := by
  unfold taskStep at hs
  split at hs
  · next hphase =>
    cases hs
    exact .inl ⟨h.of_associate hu hphase, fun _ h => by cases h⟩
  · cases hs
    obtain ⟨h, hne⟩ := h.of_setTask_nil rfl
    exact .inl ⟨h, fun heq => absurd heq hne⟩
  · split at hs <;> cases hs <;>
    · obtain ⟨h, hne⟩ := h.of_setTask_nil rfl
      exact .inl ⟨h, fun heq => absurd heq hne⟩
  · next o hphase =>
    split at hs <;> cases hs
    rcases h.of_setTask with h | ⟨rfl, hhost, hown⟩
    · exact .inl ⟨h.1, fun _ h => by cases h⟩
    · rcases List.mem_append.mp hhost with hhost | hhost
      · exact .inl ⟨⟨task, hu, by rw [hphase]; exact hhost, hown⟩, fun _ h => by cases h⟩
      · exact .inr ⟨rfl, by rw [List.mem_singleton.mp hhost]⟩
  · next hphase =>
    split at hs <;> cases hs
    exact .inl ⟨InHand.of_setTask_subset (s := s) h hu (by rw [hphase]; exact id), fun _ h => by cases h⟩
  · next hphase =>
    split at hs <;> cases hs
    exact .inl ⟨h.of_setTask_subset hu (by rw [hphase]; exact id), fun _ h => by cases h⟩
  · cases hs
    exact .inl ⟨(h.of_setTask_nil rfl).1, fun _ h => by cases h⟩
  · next hphase =>
    cases hs
    have hput := h.of_put (s := s.setTask u _) (.inr (by rw [StatefulObject.advanceState]; split <;> rfl))
    exact .inl ⟨hput.of_setTask_subset hu (by rw [hphase]; exact List.mem_cons_of_mem _), fun _ h => by cases h⟩
  · cases hs
    exact .inl ⟨(h.of_setTask_nil rfl).1, fun _ h => by cases h⟩
  · split at hs <;> cases hs <;> exact .inl ⟨(h.of_setTask_nil rfl).1, fun _ h => by cases h⟩
  · cases hs
    refine .inl ⟨h.of_put ?_, fun _ h => by cases h⟩
    rw [StatefulObject.removeAssociationWithTask]
    split
    · exact .inl (task_setTask none)
    · exact .inr rfl
  · cases hs

/-- **A task gets the host in hand only by collecting it.** -/
theorem inHand_step {action : Action ι} (hs : StateMachine.step host s action = some s') (h : InHand host s' t) :
    InHand host s t ∧ action ≠ .task t .run ∨ action = .task t (.collect host) := by
  cases action with
  | create kind =>
    cases hs
    obtain ⟨task, ht, hhost, hown⟩ := h
    rcases getElem?_create ht with ht | rfl
    · exact .inl ⟨⟨task, ht, hhost, hown⟩, fun h => by cases h⟩
    · exact absurd hhost List.not_mem_nil
  | task u action =>
    obtain ⟨task, hu, hs⟩ := Option.bind_eq_some_iff.mp hs
    rcases inHand_taskStep hu hs h with ⟨h, hrun⟩ | ⟨rfl, rfl⟩
    · refine .inl ⟨h, fun heq => ?_⟩
      obtain ⟨rfl, rfl⟩ : u = t ∧ action = .run := by simpa using heq
      exact hrun rfl rfl
    · exact .inr rfl
  | revert o =>
    cases hs
    refine .inl ⟨?_, fun h => by cases h⟩
    rw [revertState] at h
    split at h
    · exact h
    · next hwill =>
      rw [StatefulObject.revertState, if_neg hwill] at h
      have h : InHand host (s.put o (((s.objects o).setState (s.objects o).state.revert).setTask none)) t := h
      exact h.of_put (.inl (task_setTask none))
  | cancel o =>
    cases hs
    refine .inl ⟨h.of_put ?_, fun h => by cases h⟩
    rw [StatefulObject.cancelState]
    split
    · exact .inr rfl
    · exact .inl (task_setTask none)
  | recover o =>
    cases hs
    have h : InHand host (s.put o (s.objects o).recoverState) t := h
    exact .inl ⟨h.of_put (.inl (task_setTask none)), fun h => by cases h⟩
  | setText o =>
    rw [StateMachine.step] at hs
    split at hs <;> cases hs
    exact .inl ⟨h.of_put (.inr rfl), fun h => by cases h⟩
  | leaveTask o =>
    rw [StateMachine.step] at hs
    split at hs <;> cases hs
    exact .inl ⟨h.of_put (.inl rfl), fun h => by cases h⟩
  | announceText o =>
    rw [StateMachine.step] at hs
    split at hs <;> cases hs
    refine .inl ⟨h.of_put ?_, fun h => by cases h⟩
    rw [StatefulObject.announceText]
    split
    · exact .inl (task_setTask none)
    · exact .inr rfl
  | close =>
    cases hs
    refine .inl ⟨h.of_put ?_, fun h => by cases h⟩
    rw [StatefulObject.closeState]
    split
    · exact .inr rfl
    · exact .inl (task_setTask none)
  | closed =>
    cases hs
    refine .inl ⟨h.of_put (.inr ?_), fun h => by cases h⟩
    rw [StatefulObject.advanceState]
    split <;> rfl

end InHand

/-- The message of a task is made anew when it runs, and has the records of the host when it is collected. -/
theorem build_eq {action : Action ι} {t : ℕ} (hrun : action ≠ .task t .run)
    (hbuilt : x.built t = x.localHost.answers) :
    x.build host action t = x.localHost.answers := by
  unfold Node.build
  split
  · next u =>
    have hne : t ≠ u := by
      rintro rfl
      exact hrun rfl
    rw [Function.update_of_ne hne, hbuilt]
  · next u o =>
    split
    · by_cases htu : t = u
      · rw [htu, Function.update_self]
      · rw [Function.update_of_ne htu, hbuilt]
    · exact hbuilt
  · exact hbuilt

theorem NodeInv.act (hx : NodeInv host x) {action : Action ι} {s : System ι}
    (hs : StateMachine.step host x.system action = some s) :
    NodeInv host { x with system := s, built := x.build host action } := by
  refine ⟨hx.system.step hs, fun t task ht hhost hown => ?_⟩
  rcases inHand_step hs ⟨task, ht, hhost, hown⟩ with ⟨⟨task₀, ht₀, hhost₀, hown₀⟩, hrun⟩ | rfl
  · exact build_eq hrun (hx.built t task₀ ht₀ hhost₀ hown₀)
  · simp [Node.build]

theorem receiveAll_spec (getBytes : Text → List UInt8) (fold : UInt16 → UInt16) (query : Bool) (rs : List Address)
    (hx : NodeInv host x) :
    NodeInv host (x.receiveAll getBytes fold host query rs) ∧
      (x.receiveAll getBytes fold host query rs).localHost.address = x.localHost.address ∧
      (x.receiveAll getBytes fold host query rs = x ∨
        ¬ Claimed host (x.receiveAll getBytes fold host query rs).system) := by
  induction rs generalizing x with
  | nil => exact ⟨hx, rfl, .inl rfl⟩
  | cons r rs ih =>
    have hreceived := received_receive getBytes fold host query r x
    obtain ⟨hinv, haddress, hclaim⟩ := ih (hreceived.nodeInv hx)
    refine ⟨hinv, haddress.trans hreceived.address, ?_⟩
    rw [Node.receiveAll, List.foldl_cons]
    rcases hclaim with hsame | hclaim
    · rw [← Node.receiveAll, hsame]
      exact hreceived.not_claimed hx
    · exact .inr hclaim

theorem deliver_spec (getBytes : Text → List UInt8) (fold : UInt16 → UInt16) (source : Option InetAddress)
    (query : Bool) (rs : List Address) (hx : NodeInv host x) :
    NodeInv host (x.deliver getBytes fold host source query rs) ∧
      (x.deliver getBytes fold host source query rs).localHost.address = x.localHost.address ∧
      (x.deliver getBytes fold host source query rs = x ∨
        ¬ Claimed host (x.deliver getBytes fold host source query rs).system) := by
  rw [Node.deliver]
  split
  · exact ⟨hx, rfl, .inl rfl⟩
  · exact receiveAll_spec getBytes fold query rs hx

/-! ### The last probe -/

/-- Two addresses of which neither is ignored by a host with the other one. -/
def SameKind (a b : InetAddress) : Prop :=
  isLinkLocalAddress a = isLinkLocalAddress b ∧ isLoopbackAddress a = isLoopbackAddress b

instance (a b : InetAddress) : Decidable (SameKind a b) := inferInstanceAs (Decidable (_ ∧ _))

theorem shouldIgnorePacket_of_sameKind {h : HostInfo} {a b : InetAddress} (hb : h.address = some b)
    (hkind : SameKind a b) : h.shouldIgnorePacket (some a) = false := by
  simp [HostInfo.shouldIgnorePacket, hb, hkind.1, hkind.2]

variable {a b : {b : List UInt8 // b.length = 4}} {name : Text}

theorem receive_own (ha : x.localHost.address = some (.inet4 a)) :
    x.receive getBytes fold host true ⟨name, .TYPE_A, .CLASS_IN, some (.inet4 a)⟩ = x := by
  have hconflict : x.localHost.conflictWithRecord fold ⟨name, .TYPE_A, .CLASS_IN, some (.inet4 a)⟩ = false := by
    rw [HostInfo.conflictWithRecord, getDNSAddressRecord_inet4 ha]
    simp [sameAddress]
  rw [Node.receive, if_pos rfl, handleQuery, if_neg (by simp [hconflict])]
  rfl

/-- A host that gets a probe for its name from another address has no claim to it. -/
theorem not_claimed_receive (hx : NodeInv host x) (hb : x.localHost.address = some (.inet4 b)) (hne : a ≠ b)
    (hname : equalsIgnoreCase fold x.localHost.name name = true) :
    ¬ Claimed host (x.receive getBytes fold host true ⟨name, .TYPE_A, .CLASS_IN, some (.inet4 a)⟩).system := by
  obtain ⟨c, hc, hcompare⟩ := compareTo_ne_zero getBytes name x.localHost.name hne
  have hquery := handleQuery_eq host ((conflictWithRecord_inet4 hb hne).trans hname) (getDNSAddressRecord_inet4 hb)
    hcompare hc
  rw [Node.receive, if_pos rfl, hquery]
  refine not_claimed_revertState ?_
  split
  · exact inv_foldl_revertState hx.system x.services
  · exact hx.system

omit [DecidableEq ι] in
/-- The message with the last probe is a query with the record of the host. -/
theorem packet_lastProbe (hx : NodeInv host x) (ha : x.localHost.address = some (.inet4 a)) {t : ℕ}
    {task : StateMachine.Task ι} (h : LastProbe host x.system t task) :
    x.packet (.task t .send) = some (true, [⟨x.localHost.name, .TYPE_A, .CLASS_IN, some (.inet4 a)⟩]) := by
  have hkind : task.kind = .prober := by
    have hphase : task.phase ≠ .removing := by
      intro hphase
      have hhost := h.inHand
      rw [hphase] at hhost
      exact absurd hhost List.not_mem_nil
    have hclass := ((hx.system.tasks t task h.found).running).resolve_left hphase
    rw [h.taskState] at hclass
    cases hk : task.kind <;> rw [hk] at hclass <;> first | rfl | cases hclass
  rw [Node.packet, h.found, Option.map_some, hkind, hx.built t task h.found h.inHand h.own, answers_inet4 ha]
  rfl

end Hosts

/-! ### The network -/

section Runs

variable {N ι : Type*} [DecidableEq N] [DecidableEq ι] {getBytes : Text → List UInt8} {fold : UInt16 → UInt16}
  {host : ι} {net net' : N → Node ι} {addr : N → {b : List UInt8 // b.length = 4}}

/-- What holds of the network: no two hosts of one kind claim one name. -/
structure Inv (fold : UInt16 → UInt16) (host : ι) (addr : N → {b : List UInt8 // b.length = 4})
    (net : N → Node ι) : Prop where
  node : ∀ n, NodeInv host (net n)
  address : ∀ n, (net n).localHost.address = some (.inet4 (addr n))
  apart : ∀ m n, m ≠ n → SameKind (.inet4 (addr m)) (.inet4 (addr n)) → Claimed host (net m).system →
    Claimed host (net n).system → equalsIgnoreCase fold (net m).localHost.name (net n).localHost.name = false

omit [DecidableEq N] [DecidableEq ι] in
theorem Inv.of_claimed (h : Inv fold host addr net) (hnode : ∀ n, NodeInv host (net' n))
    (haddress : ∀ n, (net' n).localHost.address = (net n).localHost.address)
    (hclaimed : ∀ n, Claimed host (net' n).system →
      Claimed host (net n).system ∧ (net' n).localHost.name = (net n).localHost.name) :
    Inv fold host addr net' := by
  refine ⟨hnode, fun n => (haddress n).trans (h.address n), fun m n hmn hkind hm hn => ?_⟩
  obtain ⟨hm, hmname⟩ := hclaimed m hm
  obtain ⟨hn, hnname⟩ := hclaimed n hn
  rw [hmname, hnname]
  exact h.apart m n hmn hkind hm hn

theorem equalsIgnoreCase_comm (a b : Text) : equalsIgnoreCase fold a b = equalsIgnoreCase fold b a := by
  rw [equalsIgnoreCase, equalsIgnoreCase]
  exact decide_eq_decide.mpr eq_comm

/-- The network after a step of the host `n`, before its message comes to the others. -/
def acted (host : ι) (net : N → Node ι) (n : N) (action : Action ι) (s : System ι) : N → Node ι :=
  Function.update net n { net n with system := s, built := (net n).build host action }

section Acts

variable {n : N} {action : Action ι} {s : System ι}

theorem acted_spec (h : Inv fold host addr net) (hs : StateMachine.step host (net n).system action = some s)
    (m : N) :
    NodeInv host (acted host net n action s m) ∧ (acted host net n action s m).localHost = (net m).localHost := by
  by_cases hm : m = n
  · subst hm
    rw [acted, Function.update_self]
    exact ⟨(h.node m).act hs, rfl⟩
  · rw [acted, Function.update_of_ne hm]
    exact ⟨h.node m, rfl⟩

/-- A host claims its name after a step only if it did before, or by its last probe. -/
theorem claimed_acted (h : Inv fold host addr net) (hs : StateMachine.step host (net n).system action = some s)
    (hguard : ¬ (action = .closed ∧ (net n).isProbing host = true)) {m : N}
    (hm : Claimed host (acted host net n action s m).system) : Claimed host (net m).system ∨
      m = n ∧ ∃ t task, action = .task t .send ∧ LastProbe host (net n).system t task := by
  by_cases hmn : m = n
  · subst hmn
    rw [acted, Function.update_self] at hm
    refine (claimed_step (h.node m).system hs (fun hclosed hprobing => ?_) hm).imp id fun hlast => ⟨rfl, hlast⟩
    exact hguard ⟨hclosed, decide_eq_true hprobing⟩
  · rw [acted, Function.update_of_ne hmn] at hm
    exact .inl hm

theorem Inv.act_of_not_lastProbe (h : Inv fold host addr net)
    (hs : StateMachine.step host (net n).system action = some s)
    (hguard : ¬ (action = .closed ∧ (net n).isProbing host = true))
    (hlast : ¬ ∃ t task, action = .task t .send ∧ LastProbe host (net n).system t task)
    (source : Option InetAddress) (query : Bool) (rs : List Address) :
    Inv fold host addr (broadcast getBytes fold host source query rs (acted host net n action s)) := by
  have hspec (m : N) := deliver_spec getBytes fold source query rs (acted_spec h hs m).1
  refine h.of_claimed (fun m => (hspec m).1) (fun m => ?_) fun m hm => ?_
  · exact (hspec m).2.1.trans (by rw [(acted_spec h hs m).2])
  · rcases (hspec m).2.2 with hsame | hnot
    · rw [broadcast, hsame] at hm ⊢
      rw [(acted_spec h hs m).2]
      exact ⟨(claimed_acted h hs hguard hm).resolve_right fun hlast' => hlast hlast'.2, rfl⟩
    · exact absurd hm hnot

theorem Inv.act_of_lastProbe (hinj : Function.Injective addr) (h : Inv fold host addr net) {t : ℕ}
    (hs : StateMachine.step host (net n).system (.task t .send) = some s) :
    Inv fold host addr (broadcast getBytes fold host (some (.inet4 (addr n))) true
      [⟨(net n).localHost.name, .TYPE_A, .CLASS_IN, some (.inet4 (addr n))⟩]
      (acted host net n (.task t .send) s)) := by
  set r : Address := ⟨(net n).localHost.name, .TYPE_A, .CLASS_IN, some (.inet4 (addr n))⟩
  set after := broadcast getBytes fold host (some (.inet4 (addr n))) true [r] (acted host net n (.task t .send) s)
  have hspec (m : N) := deliver_spec getBytes fold (some (.inet4 (addr n))) true [r] (acted_spec h hs m).1
  have hheard (m : N) (hkind : SameKind (.inet4 (addr n)) (.inet4 (addr m))) :
      after m = (acted host net n (.task t .send) s m).receive getBytes fold host true r := by
    have haddress : (acted host net n (.task t .send) s m).localHost.address = some (.inet4 (addr m)) := by
      rw [(acted_spec h hs m).2, h.address m]
    show Node.deliver getBytes fold host _ true [r] _ = _
    rw [Node.deliver, shouldIgnorePacket_of_sameKind haddress hkind, if_neg Bool.false_ne_true]
    rfl
  -- another host that still claims its name has not changed
  have hother (m : N) (hmn : m ≠ n) (hm : Claimed host (after m).system) : after m = net m :=
    ((hspec m).2.2.resolve_right (not_not.mpr hm)).trans (Function.update_of_ne hmn _ _)
  -- and has another name, if it does not ignore the probe
  have hname (m : N) (hmn : m ≠ n) (hkind : SameKind (.inet4 (addr n)) (.inet4 (addr m)))
      (hm : Claimed host (after m).system) :
      equalsIgnoreCase fold (net m).localHost.name (net n).localHost.name = false := by
    have hacted : acted host net n (.task t .send) s m = net m := Function.update_of_ne hmn _ _
    rw [hheard m hkind, hacted] at hm
    refine Bool.eq_false_iff.mpr fun hname => ?_
    exact not_claimed_receive (h.node m) (h.address m) (fun heq => hmn (hinj heq).symm) hname hm
  have hself : (after n).localHost = (net n).localHost := by
    rw [hheard n ⟨rfl, rfl⟩, receive_own (by rw [(acted_spec h hs n).2, h.address n]), (acted_spec h hs n).2]
  refine ⟨fun m => (hspec m).1, fun m => ?_, fun m k hmk hkind hm hk => ?_⟩
  · exact (hspec m).2.1.trans (by rw [(acted_spec h hs m).2, h.address m])
  · by_cases hmn : m = n
    · subst hmn
      rw [hself, hother k (Ne.symm hmk) hk, equalsIgnoreCase_comm]
      exact hname k (Ne.symm hmk) hkind hk
    · have hsame := hother m hmn hm
      by_cases hkn : k = n
      · subst hkn
        rw [hself, hsame]
        exact hname m hmn ⟨hkind.1.symm, hkind.2.symm⟩ hm
      · have hsame' := hother k hkn hk
        rw [hsame] at hm ⊢
        rw [hsame'] at hk ⊢
        exact h.apart m k hmk hkind hm hk

theorem Inv.act (hinj : Function.Injective addr) (h : Inv fold host addr net)
    (hs : StateMachine.step host (net n).system action = some s)
    (hguard : ¬ (action = .closed ∧ (net n).isProbing host = true)) :
    Inv fold host addr (match (net n).packet action with
      | some (query, rs) =>
        broadcast getBytes fold host (net n).localHost.address query rs (acted host net n action s)
      | none => acted host net n action s) := by
  by_cases hlast : ∃ t task, action = .task t .send ∧ LastProbe host (net n).system t task
  · obtain ⟨t, task, rfl, hlast⟩ := hlast
    rw [packet_lastProbe (h.node n) (h.address n) hlast, h.address n]
    exact h.act_of_lastProbe hinj hs
  · split
    · exact h.act_of_not_lastProbe hs hguard hlast _ _ _
    · -- no message is a message without a record
      have hnone : Inv fold host addr (broadcast getBytes fold host none true [] (acted host net n action s)) :=
        h.act_of_not_lastProbe hs hguard hlast none true []
      have hsame : broadcast getBytes fold host none true [] (acted host net n action s) = acted host net n action s :=
        funext fun m => ite_self _
      rwa [hsame] at hnone

end Acts

theorem Inv.receive (h : Inv fold host addr net) (n : N) (query : Bool) (r : Address) :
    Inv fold host addr (Function.update net n ((net n).receive getBytes fold host query r)) := by
  have hreceived := received_receive getBytes fold host query r (net n)
  refine h.of_claimed (fun m => ?_) (fun m => ?_) fun m hm => ?_
  · by_cases hmn : m = n
    · subst hmn
      rw [Function.update_self]
      exact hreceived.nodeInv (h.node m)
    · rw [Function.update_of_ne hmn]
      exact h.node m
  · by_cases hmn : m = n
    · subst hmn
      rw [Function.update_self, hreceived.address]
    · rw [Function.update_of_ne hmn]
  · by_cases hmn : m = n
    · subst hmn
      rw [Function.update_self] at hm ⊢
      have hsame := (hreceived.not_claimed (h.node m)).resolve_right (not_not.mpr hm)
      rw [hsame] at hm ⊢
      exact ⟨hm, rfl⟩
    · rw [Function.update_of_ne hmn] at hm ⊢
      exact ⟨hm, rfl⟩

omit [DecidableEq ι] in
theorem Inv.services (h : Inv fold host addr net) (n : N) (services : List ι) :
    Inv fold host addr (Function.update net n { net n with services }) := by
  have hsame (m : N) : (Function.update net n { net n with services } m).system = (net m).system ∧
      (Function.update net n { net n with services } m).localHost = (net m).localHost ∧
      (Function.update net n { net n with services } m).built = (net m).built := by
    by_cases hmn : m = n
    · subst hmn
      rw [Function.update_self]
      exact ⟨rfl, rfl, rfl⟩
    · rw [Function.update_of_ne hmn]
      exact ⟨rfl, rfl, rfl⟩
  refine h.of_claimed (fun m => ?_) (fun m => by rw [(hsame m).2.1]) fun m hm => ?_
  · have hnode := h.node m
    refine ⟨(hsame m).1 ▸ hnode.system, fun t task ht hhost hown => ?_⟩
    rw [(hsame m).1] at ht hown
    rw [(hsame m).2.1, (hsame m).2.2]
    exact hnode.built t task ht hhost hown
  · rw [(hsame m).1] at hm
    rw [(hsame m).2.1]
    exact ⟨hm, rfl⟩

theorem Inv.step (hinj : Function.Injective addr) (h : Inv fold host addr net) {event : Event N ι}
    (hs : step getBytes fold host net event = some net') : Inv fold host addr net' := by
  cases event with
  | act n action =>
    rw [HostNetwork.step] at hs
    split at hs
    · cases hs
    · next hguard =>
      obtain ⟨s, hstep, rfl⟩ := Option.map_eq_some_iff.mp hs
      exact h.act hinj hstep hguard
  | services n services =>
    cases hs
    exact h.services n services
  | foreign n source query r =>
    rw [HostNetwork.step] at hs
    split_ifs at hs <;> cases hs
    · exact h
    · exact h.receive n query r

end Runs

end Waveplay.Jmdns.HostNetwork
