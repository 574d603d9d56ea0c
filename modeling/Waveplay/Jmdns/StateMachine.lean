import Waveplay.Lib.Runs
import Mathlib.Data.List.Nodup
import Mathlib.Data.Nat.Notation
import Mathlib.Logic.Function.Basic
import Mathlib.Order.Nat

/-! # The state machine of the host and the services

The host and every service are stateful objects. Timer tasks (`Prober`, `Announcer`, `Renewer`,
`Canceler`) take the objects that are in their first state, send messages for them and advance them;
conflicts, registrations and cancellations change the same objects from other threads. A method of
`DNSStatefulObject` holds the lock of its object, so one call is one step here, and the steps of all
threads come in any order.

* `Inv`: the messages that went out for a service, and what a task knows of the objects it has in hand;
* `announced_after_probes`: a service is announced after three probes and two announcements, and canceled
  after three goodbyes. -/

namespace Waveplay.Jmdns.StateMachine

open Waveplay.Lib.Runs

/-! ### `DNSState` -/

/-- `DNSState`. -/
inductive DNSState
  | PROBING_1 | PROBING_2 | PROBING_3 | ANNOUNCING_1 | ANNOUNCING_2 | ANNOUNCED
  | CANCELING_1 | CANCELING_2 | CANCELING_3 | CANCELED | CLOSING | CLOSED
  deriving DecidableEq, Repr

/-- `StateClass`. -/
inductive StateClass
  | probing | announcing | announced | canceling | canceled | closing | closed
  deriving DecidableEq, Repr

/-- The class that the constructor of a state is given. -/
def DNSState.stateClass : DNSState → StateClass
  | PROBING_1 | PROBING_2 | PROBING_3 => .probing
  | ANNOUNCING_1 | ANNOUNCING_2 => .announcing
  | ANNOUNCED => .announced
  | CANCELING_1 | CANCELING_2 | CANCELING_3 => .canceling
  | CANCELED => .canceled
  | CLOSING => .closing
  | CLOSED => .closed

/-- `advance`. -/
def DNSState.advance : DNSState → DNSState
  | PROBING_1 => PROBING_2
  | PROBING_2 => PROBING_3
  | PROBING_3 => ANNOUNCING_1
  | ANNOUNCING_1 => ANNOUNCING_2
  | ANNOUNCING_2 => ANNOUNCED
  | ANNOUNCED => ANNOUNCED
  | CANCELING_1 => CANCELING_2
  | CANCELING_2 => CANCELING_3
  | CANCELING_3 => CANCELED
  | CANCELED => CANCELED
  | CLOSING => CLOSED
  | CLOSED => CLOSED

/-- `revert`. -/
def DNSState.revert : DNSState → DNSState
  | PROBING_1 | PROBING_2 | PROBING_3 | ANNOUNCING_1 | ANNOUNCING_2 | ANNOUNCED => PROBING_1
  | CANCELING_1 | CANCELING_2 | CANCELING_3 => CANCELING_1
  | CANCELED => CANCELED
  | CLOSING => CLOSING
  | CLOSED => CLOSED

/-- `willCancel`: canceled, or about to be. -/
def DNSState.willCancel (s : DNSState) : Bool := s.stateClass = .canceled || s.stateClass = .canceling

/-- `willClose`. -/
def DNSState.willClose (s : DNSState) : Bool := s.stateClass = .closed || s.stateClass = .closing

/-! ### `DNSStatefulObject.DefaultImplementation` -/

/-- How far a call of `setText` is. It is `synchronized` on the service, so there is one at a time, but it
does not hold the lock of the stateful object: it sets `needTextAnnouncing`, takes the task from the object,
and enters the rest of `setTask`, each in a step of its own. -/
inductive TextCall
  | none | flagged | left
  deriving DecidableEq, Repr

/-- `DefaultImplementation`: the task is named by its number. `needTextAnnouncing` is read by the
`ServiceInfoState` of a service; it is never set for the host. -/
structure StatefulObject where
  task : Option ℕ := none
  state : DNSState := .PROBING_1
  needTextAnnouncing : Bool := false
  textCall : TextCall := .none
  deriving DecidableEq, Repr

namespace StatefulObject

/-- `setTask` of `ServiceInfoState`: a service that is left by its task with a new text is announced
again. -/
def setTask (task : Option ℕ) (x : StatefulObject) : StatefulObject :=
  if task = none ∧ x.needTextAnnouncing then
    { x with
      task, needTextAnnouncing := false
      state := if x.state.stateClass = .announced then .ANNOUNCING_1 else x.state }
  else { x with task }

/-- `setState`, without the semaphores of the threads that wait for it. -/
def setState (state : DNSState) (x : StatefulObject) : StatefulObject := { x with state }

/-- `associateWithTask`. -/
def associateWithTask (task : ℕ) (state : DNSState) (x : StatefulObject) : StatefulObject :=
  if x.task = none ∧ x.state = state then x.setTask (some task) else x

/-- `removeAssociationWithTask`. -/
def removeAssociationWithTask (task : ℕ) (x : StatefulObject) : StatefulObject :=
  if x.task = some task then x.setTask none else x

/-- `isAssociatedWithTask`. -/
def isAssociatedWithTask (task : ℕ) (state : DNSState) (x : StatefulObject) : Bool :=
  x.task = some task && x.state = state

/-- `advanceState`; `close` calls it without a task. -/
def advanceState (task : Option ℕ) (x : StatefulObject) : StatefulObject :=
  if x.task = task then x.setState x.state.advance else x

/-- `revertState`. -/
def revertState (x : StatefulObject) : StatefulObject :=
  if x.state.willCancel then x else (x.setState x.state.revert).setTask none

/-- `cancelState`. -/
def cancelState (x : StatefulObject) : StatefulObject :=
  if x.state.willCancel then x else (x.setState .CANCELING_1).setTask none

/-- `closeState`. -/
def closeState (x : StatefulObject) : StatefulObject :=
  if x.state.willClose then x else (x.setState .CLOSING).setTask none

/-- `recoverState`. -/
def recoverState (x : StatefulObject) : StatefulObject := (x.setState .PROBING_1).setTask none

/-- `setText`, up to `setTask(null)`. -/
def setText (x : StatefulObject) : StatefulObject := { x with needTextAnnouncing := true, textCall := .flagged }

/-- The `setTask` of the superclass, called by `setText` without the lock. -/
def leaveTask (x : StatefulObject) : StatefulObject := { x with task := none, textCall := .left }

/-- The rest of `setTask(null)` in `setText`, under the lock: another task may have taken the object. -/
def announceText (x : StatefulObject) : StatefulObject :=
  { if x.task = none then x.setTask none else x with textCall := .none }

end StatefulObject

/-! ### `DNSStateTask` -/

/-- The subclasses of `DNSStateTask`. -/
inductive Kind
  | prober | announcer | renewer | canceler
  deriving DecidableEq, Repr

/-- The state that the constructor of the task sets and associates objects in. -/
def Kind.first : Kind → DNSState
  | prober => .PROBING_1
  | announcer => .ANNOUNCING_1
  | renewer => .ANNOUNCED
  | canceler => .CANCELING_1

/-- The class of the states in which `advanceTask` lets the task go on. -/
def Kind.stateClass : Kind → StateClass
  | prober => .probing
  | announcer => .announcing
  | renewer => .announced
  | canceler => .canceling

/-- `checkRunCondition`: the class of the state of the host is given. -/
def Kind.checkRunCondition : Kind → StateClass → Bool
  | canceler, _ => true
  | _, host => host ≠ .canceling && host ≠ .canceled

/-- Where a task is: in its constructor, between two runs, in `run` with the objects it has found or
with those it still has to advance, or in `cancel`. A run with nothing to send is the `last` one. -/
inductive Phase (ι : Type*)
  | associating
  | idle
  | collecting (objects : List ι)
  | advancing (objects : List ι) (last : Bool)
  | removing
  deriving DecidableEq, Repr

/-- `stateObjects`. -/
def Phase.stateObjects {ι : Type*} : Phase ι → List ι
  | collecting objects | advancing objects _ => objects
  | _ => []

/-- A `DNSStateTask`. -/
structure Task (ι : Type*) where
  kind : Kind
  taskState : DNSState
  phase : Phase ι
  deriving DecidableEq, Repr

/-- The host and the services, the tasks made so far, and for every object the number of messages of each
kind that its task has sent for it since it came to the first state of that kind. -/
structure System (ι : Type*) where
  objects : ι → StatefulObject
  tasks : List (Task ι)
  sent : ι → Kind → ℕ

/-- The system at its start: every object is to be probed, and no task is made. -/
def start (ι : Type*) : System ι := ⟨fun _ => {}, [], fun _ _ => 0⟩

/-! ### The steps of the threads -/

/-- What a task does next: `associate` and `schedule` in its constructor and `start`; `run`, `collect`,
one of `send`, `skip` (the message is empty) and `fail` (an exception), `advance` and `finish` in `run`;
`remove` in `cancel`. -/
inductive TaskAction (ι : Type*)
  | associate (o : ι)
  | schedule
  | run
  | collect (o : ι)
  | send
  | skip
  | fail
  | advance
  | finish
  | remove (o : ι)
  deriving DecidableEq, Repr

/-- What happens next: a task is made or goes on, a conflict reverts an object, it is canceled, registered
or recovered, its text is set (in three steps), or the host is closed. -/
inductive Action (ι : Type*)
  | create (kind : Kind)
  | task (t : ℕ) (action : TaskAction ι)
  | revert (o : ι)
  | cancel (o : ι)
  | recover (o : ι)
  | setText (o : ι)
  | leaveTask (o : ι)
  | announceText (o : ι)
  | close
  | closed
  deriving DecidableEq, Repr

section Steps

variable {ι : Type*} [DecidableEq ι]

/-- The object `o` becomes `x`. -/
def System.put (s : System ι) (o : ι) (x : StatefulObject) : System ι :=
  { s with
    objects := Function.update s.objects o x
    sent := Function.update s.sent o fun k =>
      if x.state = k.first ∧ (s.objects o).state ≠ k.first then 0 else s.sent o k }

/-- The probes of `o` begin again. -/
def System.restart (s : System ι) (o : ι) : System ι :=
  { s with sent := Function.update s.sent o (Function.update (s.sent o) .prober 0) }

/-- `revertState` of the object `o`, whose probes then begin again. -/
def revertState (o : ι) (s : System ι) : System ι :=
  if (s.objects o).state.willCancel then s else (s.put o (s.objects o).revertState).restart o

/-- The task `t` becomes `task`. -/
def System.setTask (s : System ι) (t : ℕ) (task : Task ι) : System ι := { s with tasks := s.tasks.set t task }

/-- A message of the task `t` went out. It counts for the objects that are still its own. -/
def System.count (s : System ι) (t : ℕ) (kind : Kind) (objects : List ι) : System ι :=
  { s with sent := fun o k =>
      if k = kind ∧ o ∈ objects ∧ (s.objects o).task = some t then s.sent o k + 1 else s.sent o k }

/-- A step of the task `t`. A probe asks for each of its objects, and the other messages have records of
each service: only for the host, which may have no address, there can be nothing to send. -/
def taskStep (host : ι) (s : System ι) (t : ℕ) (task : Task ι) (action : TaskAction ι) : Option (System ι) :=
  match task.phase, action with
  | .associating, .associate o => some (s.put o ((s.objects o).associateWithTask t task.taskState))
  | .associating, .schedule => some (s.setTask t { task with phase := .idle })
  | .idle, .run =>
    if task.kind.checkRunCondition (s.objects host).state.stateClass then
      some (s.setTask t { task with phase := .collecting [] })
    else some (s.setTask t { task with phase := .removing })
  | .collecting objects, .collect o =>
    if o ∉ objects ∧ (s.objects o).isAssociatedWithTask t task.taskState then
      some (s.setTask t { task with phase := .collecting (objects ++ [o]) })
    else none
  | .collecting objects, .send =>
    if objects ≠ [] then
      some ((s.count t task.kind objects).setTask t { task with phase := .advancing objects false })
    else none
  | .collecting objects, .skip =>
    if objects = [] ∨ task.kind ≠ .prober ∧ ∀ o ∈ objects, o = host then
      some (s.setTask t { task with phase := .advancing objects true })
    else none
  | .collecting _, .fail => some (s.setTask t { task with phase := .advancing [] false })
  | .advancing (o :: objects) last, .advance =>
    some ((s.setTask t { task with phase := .advancing objects last }).put o
      ((s.objects o).advanceState (some t)))
  | .advancing [] true, .finish => some (s.setTask t { task with phase := .removing })
  | .advancing [] false, .finish =>
    -- `advanceTask`
    if task.taskState.advance.stateClass = task.kind.stateClass then
      some (s.setTask t { task with taskState := task.taskState.advance, phase := .idle })
    else some (s.setTask t { task with taskState := task.taskState.advance, phase := .removing })
  | .removing, .remove o => some (s.put o ((s.objects o).removeAssociationWithTask t))
  | _, _ => none

/-- A step of some thread. -/
def step (host : ι) (s : System ι) : Action ι → Option (System ι)
  | .create kind => some { s with tasks := s.tasks ++ [⟨kind, kind.first, .associating⟩] }
  | .task t action => s.tasks[t]?.bind fun task => taskStep host s t task action
  | .revert o => some (revertState o s)
  | .cancel o => some (s.put o (s.objects o).cancelState)
  | .recover o => some ((s.put o (s.objects o).recoverState).restart o)
  | .setText o =>
    if o ≠ host ∧ (s.objects o).textCall = .none then some (s.put o (s.objects o).setText) else none
  | .leaveTask o => if (s.objects o).textCall = .flagged then some (s.put o (s.objects o).leaveTask) else none
  | .announceText o =>
    if (s.objects o).textCall = .left then some (s.put o (s.objects o).announceText) else none
  | .close => some (s.put host (s.objects host).closeState)
  | .closed => some (s.put host ((s.objects host).advanceState none))

end Steps

/-! ### What every run keeps -/

/-- The messages of a kind that an object needs to come to a state. -/
def due : Kind → DNSState → ℕ
  | .prober, .PROBING_2 => 1
  | .prober, .PROBING_3 => 2
  | .prober, .ANNOUNCING_1 | .prober, .ANNOUNCING_2 | .prober, .ANNOUNCED => 3
  | .announcer, .ANNOUNCING_2 => 1
  | .announcer, .ANNOUNCED => 2
  | .canceler, .CANCELING_2 => 1
  | .canceler, .CANCELING_3 => 2
  | .canceler, .CANCELED => 3
  | _, _ => 0

theorem due_first (k : Kind) : due k k.first = 0 := by
  cases k <;> rfl

theorem due_advance (k k' : Kind) (s : DNSState) (h : s.stateClass = k.stateClass) :
    due k' s.advance ≤ due k' s ∨ k' = k ∧ due k' s.advance ≤ due k s + 1 := by
  revert h
  cases k <;> cases k' <;> cases s <;> decide

theorem due_advance_le {k : Kind} {s : DNSState} (h : s.stateClass = k.stateClass) {n : Kind → ℕ}
    (hn : ∀ k, due k s ≤ n k) (hk : due k s < n k) (k' : Kind) : due k' s.advance ≤ n k' := by
  rcases due_advance k k' s h with h | ⟨rfl, h⟩
  · have := hn k'
    omega
  · omega

section Invariant

variable {ι : Type*} {host : ι} {s : System ι} {t : ℕ} {task : Task ι}

/-- What holds of a task: its objects are in its state as long as they are its own, and when it advances
them a message went out for each of them. -/
structure TaskInv (host : ι) (s : System ι) (t : ℕ) (task : Task ι) : Prop where
  fresh : task.phase = .associating → task.taskState = task.kind.first
  running : task.phase = .removing ∨ task.taskState.stateClass = task.kind.stateClass
  nodup : task.phase.stateObjects.Nodup
  held : ∀ o ∈ task.phase.stateObjects, (s.objects o).task = some t → (s.objects o).state = task.taskState
  counted : ∀ objects last, task.phase = .advancing objects last → ∀ o ∈ objects, o ≠ host →
    (s.objects o).task = some t → due task.kind task.taskState < s.sent o task.kind

/-- What holds of the system: every service was sent the messages that its state needs. -/
structure Inv (host : ι) (s : System ι) : Prop where
  counts : ∀ o ≠ host, ∀ k, due k (s.objects o).state ≤ s.sent o k
  tasks : ∀ t task, s.tasks[t]? = some task → TaskInv host s t task

theorem Inv.start : Inv host (start ι) :=
  ⟨fun _ _ k => by cases k <;> rfl, fun t task h => by simp [StateMachine.start] at h⟩

theorem TaskInv.of_nil (hfresh : task.phase = .associating → task.taskState = task.kind.first)
    (hrunning : task.phase = .removing ∨ task.taskState.stateClass = task.kind.stateClass)
    (h : task.phase.stateObjects = []) : TaskInv host s t task := by
  refine ⟨hfresh, hrunning, by simp [h], by simp [h], ?_⟩
  intro objects last hphase o ho
  rw [hphase] at h
  rw [show objects = [] from h] at ho
  exact absurd ho List.not_mem_nil

theorem Inv.setTask (h : Inv host s) (ht : TaskInv host s t task) : Inv host (s.setTask t task) := by
  refine ⟨h.counts, fun u task' hu => ?_⟩
  suffices TaskInv host s u task' from ⟨this.fresh, this.running, this.nodup, this.held, this.counted⟩
  rw [System.setTask, List.getElem?_set] at hu
  split at hu
  · next htu =>
    subst htu
    split at hu
    · rw [← Option.some.inj hu]
      exact ht
    · cases hu
  · exact h.tasks u task' hu

theorem getElem?_create {tasks : List (Task ι)} {kind : Kind} {u : ℕ} {task : Task ι}
    (hu : (tasks ++ [⟨kind, kind.first, .associating⟩])[u]? = some task) :
    tasks[u]? = some task ∨ task = ⟨kind, kind.first, .associating⟩ := by
  rw [List.getElem?_append] at hu
  split at hu
  · exact .inl hu
  · exact .inr (List.mem_singleton.mp (List.mem_of_getElem? hu))

theorem Inv.create (h : Inv host s) (kind : Kind) :
    Inv host { s with tasks := s.tasks ++ [⟨kind, kind.first, .associating⟩] } := by
  refine ⟨h.counts, fun u task' hu => ?_⟩
  suffices TaskInv host s u task' from ⟨this.fresh, this.running, this.nodup, this.held, this.counted⟩
  rcases getElem?_create hu with hu | rfl
  · exact h.tasks u task' hu
  · exact .of_nil (fun _ => rfl) (.inr (by cases kind <;> rfl)) rfl

theorem Inv.collect (h : Inv host s) (ht : s.tasks[t]? = some task) {o : ι} {objects : List ι}
    (hphase : task.phase = .collecting objects) (ho : o ∉ objects)
    (hown : (s.objects o).isAssociatedWithTask t task.taskState) :
    Inv host (s.setTask t { task with phase := .collecting (objects ++ [o]) }) := by
  have hinv := h.tasks t task ht
  have hnodup := hinv.nodup
  have hheld := hinv.held
  rw [hphase] at hnodup hheld
  have hstate : (s.objects o).state = task.taskState := by
    rw [StatefulObject.isAssociatedWithTask, Bool.and_eq_true] at hown
    exact of_decide_eq_true hown.2
  refine h.setTask ⟨nofun, .inr (hinv.running.resolve_left (by simp [hphase])), ?_,
    fun o' ho' => ?_, fun _ _ h => by cases h⟩
  · refine List.nodup_append.mpr ⟨hnodup, List.nodup_singleton o, fun a ha b hb hab => ho ?_⟩
    rwa [← List.mem_singleton.mp hb, ← hab]
  · rcases List.mem_append.mp ho' with ho' | ho'
    · exact hheld o' ho'
    · rw [List.mem_singleton.mp ho']
      exact fun _ => hstate

theorem Inv.skip (h : Inv host s) (ht : s.tasks[t]? = some task) {objects : List ι}
    (hphase : task.phase = .collecting objects) (hhost : ∀ o ∈ objects, o = host) :
    Inv host (s.setTask t { task with phase := .advancing objects true }) := by
  have hinv := h.tasks t task ht
  have hnodup := hinv.nodup
  have hheld := hinv.held
  rw [hphase] at hnodup hheld
  refine h.setTask ⟨nofun, .inr (hinv.running.resolve_left (by simp [hphase])), hnodup, hheld, ?_⟩
  rintro objects' last hphase' o ho hne -
  obtain ⟨rfl, -⟩ : objects = objects' ∧ true = last := by simpa using hphase'
  exact absurd (hhost o ho) hne

variable [DecidableEq ι] {o : ι} {x : StatefulObject}

theorem objects_put_self : (s.put o x).objects o = x := by
  simp only [System.put, Function.update_self]

theorem objects_put_of_ne {o' : ι} (h : o' ≠ o) : (s.put o x).objects o' = s.objects o' := by
  simp only [System.put, Function.update_of_ne h]

theorem sent_put_self (k : Kind) : (s.put o x).sent o k =
    if x.state = k.first ∧ (s.objects o).state ≠ k.first then 0 else s.sent o k := by
  simp only [System.put, Function.update_self]

theorem sent_put_of_ne {o' : ι} (h : o' ≠ o) : (s.put o x).sent o' = s.sent o' := by
  simp only [System.put, Function.update_of_ne h]

/-- A new value of an object keeps what holds of a task, if the object is none of those that the task has
in hand, or is the same to it. -/
theorem TaskInv.put (ht : TaskInv host s t task) (hx : o ∈ task.phase.stateObjects → x.task = some t →
    (s.objects o).task = some t ∧ x.state = (s.objects o).state) : TaskInv host (s.put o x) t task := by
  refine ⟨ht.fresh, ht.running, ht.nodup, fun o' ho' htask => ?_,
    fun objects last hphase o' ho' hne htask => ?_⟩
  · by_cases ho : o' = o
    · subst ho
      rw [objects_put_self] at htask ⊢
      obtain ⟨htask', hstate⟩ := hx ho' htask
      rw [hstate, ht.held o' ho' htask']
    · rw [objects_put_of_ne ho] at htask ⊢
      exact ht.held o' ho' htask
  · by_cases ho : o' = o
    · subst ho
      rw [objects_put_self] at htask
      obtain ⟨htask', hstate⟩ := hx (by rw [hphase]; exact ho') htask
      rw [sent_put_self, if_neg (by rintro ⟨h, h'⟩; exact h' (hstate ▸ h))]
      exact ht.counted objects last hphase o' ho' hne htask'
    · rw [objects_put_of_ne ho] at htask
      rw [sent_put_of_ne ho]
      exact ht.counted objects last hphase o' ho' hne htask

theorem Inv.put (h : Inv host s) (hdue : o ≠ host → ∀ k, due k x.state ≤ s.sent o k)
    (hx : ∀ t task, s.tasks[t]? = some task → o ∈ task.phase.stateObjects → x.task = some t →
      (s.objects o).task = some t ∧ x.state = (s.objects o).state) : Inv host (s.put o x) := by
  refine ⟨fun o' ho' k => ?_, fun t task ht => (h.tasks t task ht).put (hx t task ht)⟩
  by_cases ho : o' = o
  · subst ho
    rw [objects_put_self, sent_put_self]
    split
    · next hfirst => rw [hfirst.1, due_first]
    · exact hdue ho' k
  · rw [objects_put_of_ne ho, sent_put_of_ne ho]
    exact h.counts o' ho' k

theorem objects_restart : (s.restart o).objects = s.objects := rfl

theorem sent_restart_of_ne {o' : ι} (h : o' ≠ o) : (s.restart o).sent o' = s.sent o' := by
  simp only [System.restart, Function.update_of_ne h]

theorem sent_restart_self (k : Kind) : (s.restart o).sent o k = if k = .prober then 0 else s.sent o k := by
  simp only [System.restart, Function.update_self, Function.update_apply]

/-- The probes of an object that has no task and needs none can begin again. -/
theorem Inv.restart (h : Inv host s) (hdue : due .prober (s.objects o).state = 0)
    (htask : (s.objects o).task = none) : Inv host (s.restart o) := by
  refine ⟨fun o' ho' k => ?_, fun t task ht => ?_⟩
  · rw [objects_restart]
    by_cases ho : o' = o
    · subst ho
      rw [sent_restart_self]
      split
      · next hk => rw [hk, hdue]
      · exact h.counts o' ho' k
    · rw [sent_restart_of_ne ho]
      exact h.counts o' ho' k
  · have hinv := h.tasks t task ht
    refine ⟨hinv.fresh, hinv.running, hinv.nodup, hinv.held, fun objects last hphase o' ho' hne htask' => ?_⟩
    rw [objects_restart] at htask'
    have ho : o' ≠ o := by
      rintro rfl
      simp [htask] at htask'
    rw [sent_restart_of_ne ho]
    exact hinv.counted objects last hphase o' ho' hne htask'

theorem sent_count {objects : List ι} (ho : o ∈ objects) (htask : (s.objects o).task = some t) (k : Kind) :
    (s.count t k objects).sent o k = s.sent o k + 1 := if_pos ⟨rfl, ho, htask⟩

theorem sent_le_count {objects : List ι} (k k' : Kind) : s.sent o k' ≤ (s.count t k objects).sent o k' := by
  simp only [System.count]
  split <;> omega

theorem Inv.count (h : Inv host s) (kind : Kind) (objects : List ι) : Inv host (s.count t kind objects) := by
  refine ⟨fun o ho k => (h.counts o ho k).trans (sent_le_count kind k), fun u task hu => ?_⟩
  have hinv := h.tasks u task hu
  exact ⟨hinv.fresh, hinv.running, hinv.nodup, hinv.held, fun objects' last hphase o ho hne htask =>
    (hinv.counted objects' last hphase o ho hne htask).trans_le (sent_le_count kind task.kind)⟩

/-! ### The methods of an object -/

theorem task_setTask (u : Option ℕ) : (x.setTask u).task = u := by
  rw [StatefulObject.setTask]
  split <;> rfl

theorem state_setTask_some (u : ℕ) : (x.setTask (some u)).state = x.state := by
  rw [StatefulObject.setTask, if_neg (by simp)]

theorem eq_announced {state : DNSState} (h : state.stateClass = .announced) : state = .ANNOUNCED := by
  cases state <;> first | rfl | cases h

theorem due_setTask_none (k : Kind) : due k (x.setTask none).state ≤ due k x.state := by
  rw [StatefulObject.setTask]
  split
  · simp only
    split
    · next h =>
      rw [eq_announced h]
      cases k <;> decide
    · exact le_rfl
  · exact le_rfl

/-- An object that is put to a state at the start of its way and left by its task. -/
theorem due_setState_setTask {state : DNSState} {k : Kind} (h : due k state = 0) :
    due k ((x.setState state).setTask none).state = 0 :=
  Nat.eq_zero_of_le_zero ((due_setTask_none k).trans h.le)

theorem due_revert {k : Kind} {state : DNSState} (h : state.willCancel = false) : due k state.revert = 0 := by
  cases state <;> cases k <;> first | rfl | cases h

/-- A new value of an object that no task has, or that is the same to its task. -/
theorem Inv.put_of_le (h : Inv host s)
    (hdue : o ≠ host → ∀ k, due k x.state ≤ due k (s.objects o).state)
    (hx : x.task = none ∨ x.task = (s.objects o).task ∧ x.state = (s.objects o).state) :
    Inv host (s.put o x) := by
  refine h.put (fun ho k => (hdue ho k).trans (h.counts o ho k)) fun t task _ _ htask => ?_
  rcases hx with hnone | ⟨htask', hstate⟩
  · rw [hnone] at htask
    cases htask
  · exact ⟨htask' ▸ htask, hstate⟩

theorem Inv.associate (h : Inv host s) (ht : s.tasks[t]? = some task) (hphase : task.phase = .associating) :
    Inv host (s.put o ((s.objects o).associateWithTask t task.taskState)) := by
  rw [StatefulObject.associateWithTask]
  split
  · refine h.put (fun ho k => ?_) fun u task' hu ho htask => ?_
    · rw [state_setTask_some]
      exact h.counts o ho k
    · rw [task_setTask] at htask
      obtain rfl : t = u := Option.some.inj htask
      obtain rfl : task = task' := Option.some.inj (ht.symm.trans hu)
      rw [hphase] at ho
      exact absurd ho List.not_mem_nil
  · exact h.put_of_le (fun _ _ => le_rfl) (.inr ⟨rfl, rfl⟩)

theorem Inv.remove (h : Inv host s) : Inv host (s.put o ((s.objects o).removeAssociationWithTask t)) := by
  rw [StatefulObject.removeAssociationWithTask]
  split
  · exact h.put_of_le (fun _ k => due_setTask_none k) (.inl (task_setTask none))
  · exact h.put_of_le (fun _ _ => le_rfl) (.inr ⟨rfl, rfl⟩)

theorem Inv.announceText (h : Inv host s) : Inv host (s.put o (s.objects o).announceText) := by
  rw [StatefulObject.announceText]
  split
  · exact h.put_of_le (fun _ k => due_setTask_none k) (.inl (task_setTask none))
  · exact h.put_of_le (fun _ _ => le_rfl) (.inr ⟨rfl, rfl⟩)

theorem Inv.advance (h : Inv host s) (ht : s.tasks[t]? = some task) {objects : List ι} {last : Bool}
    (hphase : task.phase = .advancing (o :: objects) last) :
    Inv host ((s.setTask t { task with phase := .advancing objects last }).put o
      ((s.objects o).advanceState (some t))) := by
  have hinv := h.tasks t task ht
  have hnodup : (o :: objects).Nodup := by simpa [hphase, Phase.stateObjects] using hinv.nodup
  have hheld : ∀ o' ∈ o :: objects, (s.objects o').task = some t → (s.objects o').state = task.taskState := by
    have := hinv.held
    rwa [hphase] at this
  have hrunning : task.taskState.stateClass = task.kind.stateClass := by
    rcases hinv.running with hremoving | hrunning
    · rw [hphase] at hremoving
      cases hremoving
    · exact hrunning
  have hset : Inv host (s.setTask t { task with phase := .advancing objects last }) := by
    refine h.setTask ⟨nofun, .inr hrunning, hnodup.of_cons,
      fun o' ho' => hheld o' (List.mem_cons_of_mem o ho'), ?_⟩
    rintro objects' last' hphase' o' ho'
    obtain ⟨rfl, rfl⟩ : objects = objects' ∧ last = last' := by simpa using hphase'
    exact hinv.counted _ _ hphase o' (List.mem_cons_of_mem o ho')
  rw [StatefulObject.advanceState]
  split
  · next htask =>
    have hstate := hheld o List.mem_cons_self htask
    refine hset.put (fun ho k => ?_) fun u task' hu ho htask' => ?_
    · refine due_advance_le (k := task.kind) (hstate ▸ hrunning) (h.counts o ho) ?_ k
      rw [hstate]
      exact hinv.counted _ _ hphase o List.mem_cons_self ho htask
    · -- the object has no other task, and its own has just let go of it
      obtain rfl : t = u := Option.some.inj (htask.symm.trans htask')
      rw [System.setTask, List.getElem?_set_self (List.getElem?_eq_some_iff.mp ht).1] at hu
      rw [← Option.some.inj hu] at ho
      exact absurd ho hnodup.notMem
  · exact hset.put_of_le (fun _ _ => le_rfl) (.inr ⟨rfl, rfl⟩)

theorem Inv.send (h : Inv host s) (ht : s.tasks[t]? = some task) {objects : List ι}
    (hphase : task.phase = .collecting objects) :
    Inv host ((s.count t task.kind objects).setTask t { task with phase := .advancing objects false }) := by
  have hinv := h.tasks t task ht
  have hnodup := hinv.nodup
  have hheld := hinv.held
  rw [hphase] at hnodup hheld
  refine (h.count task.kind objects).setTask
    ⟨nofun, .inr (hinv.running.resolve_left (by simp [hphase])), hnodup, hheld, ?_⟩
  rintro objects' last hphase' o ho hne htask
  obtain ⟨rfl, -⟩ : objects = objects' ∧ false = last := by simpa using hphase'
  have hstate : (s.objects o).state = task.taskState := hheld o ho htask
  have hcounts := h.counts o hne task.kind
  rw [hstate] at hcounts
  exact (Nat.lt_succ_of_le hcounts).trans_eq (sent_count (s := s) ho htask task.kind).symm

theorem Inv.taskStep (h : Inv host s) (ht : s.tasks[t]? = some task) {action : TaskAction ι} {s' : System ι}
    (hs : taskStep host s t task action = some s') : Inv host s' := by
  have hrunning := (h.tasks t task ht).running
  unfold StateMachine.taskStep at hs
  split at hs
  · next hphase =>
    cases hs
    exact h.associate ht hphase
  · next hphase =>
    cases hs
    exact h.setTask (.of_nil nofun (.inr (hrunning.resolve_left (by simp [hphase]))) rfl)
  · next hphase =>
    split at hs <;> cases hs
    · exact h.setTask (.of_nil nofun (.inr (hrunning.resolve_left (by simp [hphase]))) rfl)
    · exact h.setTask (.of_nil nofun (.inl rfl) rfl)
  · next hphase =>
    split at hs <;> cases hs
    next hcond => exact h.collect ht hphase hcond.1 hcond.2
  · next hphase =>
    split at hs <;> cases hs
    exact h.send ht hphase
  · next hphase =>
    split at hs <;> cases hs
    next hcond =>
    refine h.skip ht hphase fun o ho => ?_
    rcases hcond with rfl | ⟨-, hhost⟩
    · exact absurd ho List.not_mem_nil
    · exact hhost o ho
  · next hphase =>
    cases hs
    exact h.setTask (.of_nil nofun (.inr (hrunning.resolve_left (by simp [hphase]))) rfl)
  · next hphase =>
    cases hs
    exact h.advance ht hphase
  · cases hs
    exact h.setTask (.of_nil nofun (.inl rfl) rfl)
  · split at hs <;> cases hs
    · next hclass => exact h.setTask (.of_nil nofun (.inr hclass) rfl)
    · exact h.setTask (.of_nil nofun (.inl rfl) rfl)
  · cases hs
    exact h.remove
  · cases hs

theorem Inv.step (h : Inv host s) {action : Action ι} {s' : System ι} (hs : step host s action = some s') :
    Inv host s' := by
  cases action with
  | create kind =>
    cases hs
    exact h.create kind
  | task t action =>
    obtain ⟨task, ht, hs⟩ := Option.bind_eq_some_iff.mp hs
    exact h.taskStep ht hs
  | revert o =>
    cases hs
    rw [revertState, StatefulObject.revertState]
    split
    · exact h
    · next hwill =>
      have hdue : ∀ k, due k (((s.objects o).setState (s.objects o).state.revert).setTask none).state = 0 :=
        fun k => due_setState_setTask (due_revert (Bool.eq_false_iff.mpr hwill))
      refine (h.put_of_le (fun _ k => (hdue k).trans_le (Nat.zero_le _)) (.inl (task_setTask none))).restart ?_ ?_
      · rw [objects_put_self, hdue]
      · rw [objects_put_self, task_setTask]
  | cancel o =>
    cases hs
    rw [StatefulObject.cancelState]
    split
    · exact h.put_of_le (fun _ _ => le_rfl) (.inr ⟨rfl, rfl⟩)
    · refine h.put_of_le (fun _ k => ?_) (.inl (task_setTask none))
      exact (due_setState_setTask (by cases k <;> rfl)).trans_le (Nat.zero_le _)
  | recover o =>
    cases hs
    have hdue : ∀ k, due k (s.objects o).recoverState.state = 0 :=
      fun k => due_setState_setTask (by cases k <;> rfl)
    refine (h.put_of_le (fun _ k => (hdue k).trans_le (Nat.zero_le _)) (.inl (task_setTask none))).restart ?_ ?_
    · rw [objects_put_self, hdue]
    · rw [objects_put_self, StatefulObject.recoverState, task_setTask]
  | setText o =>
    rw [StateMachine.step] at hs
    split at hs <;> cases hs
    exact h.put_of_le (fun _ _ => le_rfl) (.inr ⟨rfl, rfl⟩)
  | leaveTask o =>
    rw [StateMachine.step] at hs
    split at hs <;> cases hs
    exact h.put_of_le (fun _ _ => le_rfl) (.inl rfl)
  | announceText o =>
    rw [StateMachine.step] at hs
    split at hs <;> cases hs
    exact h.announceText
  | close =>
    cases hs
    refine h.put_of_le (fun ho => absurd rfl ho) ?_
    rw [StatefulObject.closeState]
    split
    · exact .inr ⟨rfl, rfl⟩
    · exact .inl (task_setTask none)
  | closed =>
    cases hs
    refine h.put_of_le (fun ho => absurd rfl ho) ?_
    rw [StatefulObject.advanceState]
    split
    · next htask => exact .inl htask
    · exact .inr ⟨rfl, rfl⟩

theorem Inv.run (h : Inv host s) {actions : List (Action ι)} {s' : System ι}
    (hs : run (StateMachine.step host) s actions = some s') : Inv host s' :=
  run_inv (C := fun _ _ => True) (fun _ _ _ h _ hs => h.step hs) h allSteps_trivial hs

/-- **Announcements follow probes.** In every order of the steps of all threads, a service that is being
announced was probed for three times since it was registered or last lost a conflict; when it is announced,
it was announced twice since its text was last announced anew; and when it is canceled, three goodbyes went
out. -/
theorem announced_after_probes (host : ι) (actions : List (Action ι)) (s : System ι)
    (hs : run (step host) (start ι) actions = some s) (o : ι) (ho : o ≠ host) :
    ((s.objects o).state.stateClass = .announcing → 3 ≤ s.sent o .prober) ∧
    ((s.objects o).state.stateClass = .announced → 3 ≤ s.sent o .prober ∧ 2 ≤ s.sent o .announcer) ∧
    ((s.objects o).state.stateClass = .canceled → 3 ≤ s.sent o .canceler) := by
  have hcounts := (Inv.start.run hs).counts o ho
  refine ⟨fun h => ?_, fun h => ?_, fun h => ?_⟩
  · refine le_trans ?_ (hcounts .prober)
    cases hstate : (s.objects o).state <;> rw [hstate] at h <;> first | exact le_rfl | cases h
  · have hprober := hcounts .prober
    have hannouncer := hcounts .announcer
    rw [eq_announced h] at hprober hannouncer
    exact ⟨hprober, hannouncer⟩
  · refine le_trans ?_ (hcounts .canceler)
    cases hstate : (s.objects o).state <;> rw [hstate] at h <;> first | exact le_rfl | cases h

end Invariant

/-- One run of the task `t` for the service `true`. -/
def oneRun (t : ℕ) : List (Action Bool) :=
  [.task t .run, .task t (.collect true), .task t .send, .task t .advance, .task t .finish]

/-- A service is registered: a conflict ends its first probing, and its text is set when it is announced, so
that it is announced again. -/
def registration : List (Action Bool) :=
  [.create .prober, .task 0 (.associate true), .task 0 .schedule] ++ oneRun 0 ++ [.revert true,
    .create .prober, .task 1 (.associate true), .task 1 .schedule] ++ oneRun 1 ++ oneRun 1 ++ oneRun 1 ++
  [.task 1 (.remove true), .create .announcer, .task 2 (.associate true), .task 2 .schedule] ++
  oneRun 2 ++ oneRun 2 ++ [.setText true, .leaveTask true, .announceText true, .create .announcer,
    .task 3 (.associate true), .task 3 .schedule] ++ oneRun 3 ++ oneRun 3

theorem announced_after_probes_registration :
    ((run (step false) (start Bool) registration).map fun s => (s.objects true).state) = some .ANNOUNCED ∧
    ∀ s, run (step false) (start Bool) registration = some s →
      (s.objects true).state.stateClass = .announced → 3 ≤ s.sent true .prober ∧ 2 ≤ s.sent true .announcer :=
  ⟨by decide, fun s hs => (announced_after_probes false registration s hs true (by decide)).2.1⟩

end Waveplay.Jmdns.StateMachine
