import Waveplay.Jmdns.StateMachine

/-! # The withdrawal of an object

* `withdrawn_stays`: an object that is canceled or closed is not probed for or announced again until it is
  recovered, whatever its tasks were doing;
* `goodbye_lost`: a service whose second or third goodbye fails is not canceled before it is recovered: its
  task is ahead of it from then on, and no other task takes it. -/

namespace Waveplay.Jmdns.Withdrawal

open Waveplay.Lib.Runs Waveplay.Jmdns.StateMachine

variable {ι : Type*} {host o : ι} {s s' : System ι} {t : ℕ} {task : StateMachine.Task ι}

/-! ### What a step does to an object -/

section Calls

variable [DecidableEq ι]

/-- The calls that a step makes on an object, `recoverState` apart. -/
inductive Calls (x : StatefulObject) : StatefulObject → Prop
  | none : Calls x x
  | associateWithTask (t : ℕ) (state : DNSState) : Calls x (x.associateWithTask t state)
  | removeAssociationWithTask (t : ℕ) : Calls x (x.removeAssociationWithTask t)
  | advanceState (t : Option ℕ) : Calls x (x.advanceState t)
  | revertState : Calls x x.revertState
  | cancelState : Calls x x.cancelState
  | closeState : Calls x x.closeState
  | setText : Calls x x.setText
  | leaveTask : Calls x x.leaveTask
  | announceText : Calls x x.announceText

theorem calls_put {o' : ι} {x : StatefulObject} (h : Calls (s.objects o') x) :
    Calls (s.objects o) ((s.put o' x).objects o) := by
  by_cases ho : o = o'
  · subst ho
    rwa [objects_put_self]
  · rw [objects_put_of_ne ho]
    exact .none

theorem calls_taskStep {action : TaskAction ι} (hs : taskStep host s t task action = some s') :
    Calls (s.objects o) (s'.objects o) := by
  unfold taskStep at hs
  split at hs
  · cases hs
    exact calls_put (.associateWithTask t task.taskState)
  · cases hs
    exact .none
  · split at hs <;> cases hs <;> exact .none
  · split at hs <;> cases hs
    exact .none
  · split at hs <;> cases hs
    exact .none
  · split at hs <;> cases hs
    exact .none
  · cases hs
    exact .none
  · cases hs
    exact calls_put (s := s.setTask t _) (.advanceState (some t))
  · cases hs
    exact .none
  · split at hs <;> cases hs <;> exact .none
  · cases hs
    exact calls_put (.removeAssociationWithTask t)
  · cases hs

theorem calls_step {action : Action ι} (hs : step host s action = some s') (haction : action ≠ .recover o) :
    Calls (s.objects o) (s'.objects o) := by
  cases action with
  | create kind =>
    cases hs
    exact .none
  | task t action =>
    obtain ⟨task, -, hs⟩ := Option.bind_eq_some_iff.mp hs
    exact calls_taskStep hs
  | revert o' =>
    cases hs
    rw [StateMachine.revertState]
    split
    · exact .none
    · exact calls_put .revertState
  | cancel o' =>
    cases hs
    exact calls_put .cancelState
  | recover o' =>
    cases hs
    have ho : o ≠ o' := by
      rintro rfl
      exact haction rfl
    rw [objects_restart, objects_put_of_ne ho]
    exact .none
  | setText o' =>
    rw [step] at hs
    split at hs <;> cases hs
    exact calls_put .setText
  | leaveTask o' =>
    rw [step] at hs
    split at hs <;> cases hs
    exact calls_put .leaveTask
  | announceText o' =>
    rw [step] at hs
    split at hs <;> cases hs
    exact calls_put .announceText
  | close =>
    cases hs
    exact calls_put .closeState
  | closed =>
    cases hs
    exact calls_put (.advanceState none)

/-! ### A withdrawn object -/

/-- The classes of an object that is canceled or closed, or is about to be. -/
def Withdrawn (state : DNSState) : Prop :=
  state.stateClass = .canceling ∨ state.stateClass = .canceled ∨ state.stateClass = .closing ∨
  state.stateClass = .closed

theorem state_setTask {x : StatefulObject} (hx : x.state.stateClass ≠ .announced) (u : Option ℕ) :
    (x.setTask u).state = x.state := by
  rw [StatefulObject.setTask, if_neg hx]
  split <;> rfl

theorem Withdrawn.ne_announced {state : DNSState} (h : Withdrawn state) : state.stateClass ≠ .announced := by
  rcases h with h | h | h | h <;> rw [h] <;> decide

theorem Withdrawn.setTask {x : StatefulObject} (h : Withdrawn x.state) (u : Option ℕ) :
    Withdrawn (x.setTask u).state := by
  rwa [state_setTask h.ne_announced]

theorem Withdrawn.advance {state : DNSState} (h : Withdrawn state) : Withdrawn state.advance := by
  revert h
  cases state <;> simp [Withdrawn, DNSState.advance, DNSState.stateClass]

theorem Withdrawn.revert {state : DNSState} (h : Withdrawn state) : Withdrawn state.revert := by
  revert h
  cases state <;> simp [Withdrawn, DNSState.revert, DNSState.stateClass]

theorem Withdrawn.calls {x y : StatefulObject} (hx : Withdrawn x.state) (h : Calls x y) : Withdrawn y.state := by
  cases h with
  | none => exact hx
  | associateWithTask t state =>
    rw [StatefulObject.associateWithTask]
    split
    · exact hx.setTask _
    · exact hx
  | removeAssociationWithTask t =>
    rw [StatefulObject.removeAssociationWithTask]
    split
    · exact hx.setTask _
    · exact hx
  | advanceState t =>
    rw [StatefulObject.advanceState]
    split
    · exact hx.advance
    · exact hx
  | revertState =>
    rw [StatefulObject.revertState]
    split
    · exact hx
    · exact Withdrawn.setTask (x := x.setState x.state.revert) hx.revert none
  | cancelState =>
    rw [StatefulObject.cancelState]
    split
    · exact hx
    · exact Withdrawn.setTask (x := x.setState .CANCELING_1) (.inl rfl) none
  | closeState =>
    rw [StatefulObject.closeState]
    split
    · exact hx
    · exact Withdrawn.setTask (x := x.setState .CLOSING) (.inr (.inr (.inl rfl))) none
  | setText => exact hx
  | leaveTask => exact hx
  | announceText =>
    rw [StatefulObject.announceText]
    split
    · exact hx.setTask none
    · exact hx

theorem allSteps_ne {actions : List (Action ι)} {a : Action ι} (h : a ∉ actions) :
    AllSteps (step host) (fun _ action => action ≠ a ∧ True) s actions :=
  allSteps_trivial.and fun _ haction hne => h (hne ▸ haction)

/-- **Withdrawal is final.** Once an object is canceled or closed, or is about to be, it is not probed for,
announcing or announced in any order of the steps of all threads, as long as it is not recovered. -/
theorem withdrawn_stays (host o : ι) (s s' : System ι) (actions : List (Action ι))
    (ho : Withdrawn (s.objects o).state) (hactions : .recover o ∉ actions)
    (hs : run (step host) s actions = some s') : Withdrawn (s'.objects o).state :=
  run_inv (I := fun s => Withdrawn (s.objects o).state)
    (fun _ _ _ h haction hs => h.calls (calls_step hs haction.1)) ho (allSteps_ne hactions) hs

end Calls

/-- A service is canceled while it is probed for. -/
def canceledProbing : Option (System Bool) :=
  run (step false) (start Bool) [.create .prober, .task 0 (.associate true), .task 0 .schedule, .task 0 .run,
    .task 0 (.collect true), .cancel true]

/-- The prober goes on with what it had in hand. -/
def probingGoesOn : List (Action Bool) :=
  [.task 0 .send, .create .canceler, .task 1 (.associate true), .task 0 .advance, .task 0 .finish, .revert true]

theorem withdrawn_stays_probing :
    ∃ s, run (step false) (canceledProbing.get rfl) probingGoesOn = some s ∧ Withdrawn (s.objects true).state :=
  ⟨_, rfl, withdrawn_stays false true (canceledProbing.get rfl) _ probingGoesOn (.inl rfl) (by decide) rfl⟩

/-! ### A goodbye that fails -/

section Lost

variable {st : DNSState}

/-- A task that does not advance the object `o` in the state `st` any more. -/
structure Spent (o : ι) (st : DNSState) (task : StateMachine.Task ι) : Prop where
  notMem : o ∉ task.phase.stateObjects
  past : task.phase = .removing ∨ due .canceler st < due .canceler task.taskState ∨
    task.taskState = st ∧ ∃ objects last, task.phase = .advancing objects last

/-- An object that no task will advance from the state `st`. -/
structure Lost (o : ι) (st : DNSState) (s : System ι) : Prop where
  state : (s.objects o).state = st
  bound : ∀ u, (s.objects o).task = some u → u < s.tasks.length
  owner : ∀ (u : ℕ) task, s.tasks[u]? = some task → (s.objects o).task = some u → Spent o st task
  fresh : ∀ (u : ℕ) task, s.tasks[u]? = some task → task.phase = .associating → task.taskState ≠ st

/-- A task that goes on is past the state if it was, as long as it is not in the middle of a run. -/
theorem Spent.lt (h : Spent o st task) (hremoving : task.phase ≠ .removing)
    (hadvancing : ∀ objects last, task.phase ≠ .advancing objects last) :
    due .canceler st < due .canceler task.taskState := by
  rcases h.past with h | h | ⟨-, objects, last, h⟩
  · exact absurd h hremoving
  · exact h
  · exact absurd h (hadvancing objects last)

theorem Spent.goesOn (h : Spent o st task) (hremoving : task.phase ≠ .removing)
    (hadvancing : ∀ objects last, task.phase ≠ .advancing objects last) {phase : Phase ι}
    (ho : o ∉ phase.stateObjects) : Spent o st { task with phase } :=
  ⟨ho, .inr (.inl (h.lt hremoving hadvancing))⟩

theorem Spent.removing {kind : Kind} {state : DNSState} : Spent o st ⟨kind, state, .removing⟩ :=
  ⟨List.not_mem_nil, .inl rfl⟩

theorem first_ne (hst : st = .CANCELING_2 ∨ st = .CANCELING_3) (kind : Kind) : kind.first ≠ st := by
  rcases hst with rfl | rfl <;> cases kind <;> decide

theorem due_canceler_le (state : DNSState) : due .canceler state ≤ due .canceler state.advance := by
  cases state <;> decide

theorem Lost.setTask (h : Lost o st s) (ht : s.tasks[t]? = some task) {task' : StateMachine.Task ι}
    (hspent : Spent o st task → Spent o st task') (hfresh : task'.phase ≠ .associating) :
    Lost o st (s.setTask t task') := by
  refine ⟨h.state, fun u hu => ?_, fun u task'' hu howner => ?_, fun u task'' hu hphase => ?_⟩
  · rw [System.setTask, List.length_set]
    exact h.bound u hu
  · rw [System.setTask, List.getElem?_set] at hu
    split at hu
    · next htu =>
      subst htu
      rw [if_pos (List.getElem?_eq_some_iff.mp ht).1] at hu
      rw [← Option.some.inj hu]
      exact hspent (h.owner t task ht howner)
    · exact h.owner u task'' hu howner
  · rw [System.setTask, List.getElem?_set] at hu
    split at hu
    · next htu =>
      subst htu
      rw [if_pos (List.getElem?_eq_some_iff.mp ht).1] at hu
      rw [← Option.some.inj hu] at hphase
      exact absurd hphase hfresh
    · exact h.fresh u task'' hu hphase

/-- Its task does not take the object: it is past its state. -/
theorem Lost.collect (h : Lost o st s) (ht : s.tasks[t]? = some task) {objects : List ι}
    (hphase : task.phase = .collecting objects) {o' : ι}
    (hown : (s.objects o').isAssociatedWithTask t task.taskState) :
    Lost o st (s.setTask t { task with phase := .collecting (objects ++ [o']) }) := by
  refine h.setTask ht (fun hsp => ?_) nofun
  have hlt := hsp.lt (by simp [hphase]) (by simp [hphase])
  have hnotMem := hsp.notMem
  rw [hphase] at hnotMem
  refine ⟨fun ho => ?_, .inr (.inl hlt)⟩
  rcases List.mem_append.mp ho with ho | ho
  · exact hnotMem ho
  · rw [← List.mem_singleton.mp ho, StatefulObject.isAssociatedWithTask, Bool.and_eq_true, h.state] at hown
    rw [of_decide_eq_true hown.2] at hlt
    exact lt_irrefl _ hlt

theorem Spent.advance (hst : st = .CANCELING_2 ∨ st = .CANCELING_3) (h : Spent o st task)
    (hremoving : task.phase ≠ .removing) : due .canceler st < due .canceler task.taskState.advance := by
  rcases h.past with h | hlt | ⟨hstate, -⟩
  · exact absurd h hremoving
  · exact hlt.trans_le (due_canceler_le task.taskState)
  · rw [hstate]
    rcases hst with rfl | rfl <;> decide

variable [DecidableEq ι]

theorem Lost.put (h : Lost o st s) {o' : ι} {x : StatefulObject} (hstate : o = o' → x.state = st)
    (htask : o = o' → x.task = none ∨ x.task = (s.objects o).task) : Lost o st (s.put o' x) := by
  by_cases ho : o = o'
  · have hx : ∀ u, ((s.put o' x).objects o).task = some u → (s.objects o).task = some u := by
      intro u hu
      rw [← ho, objects_put_self] at hu
      rcases htask ho with hnone | hsame
      · rw [hnone] at hu
        cases hu
      · rwa [← hsame]
    refine ⟨?_, fun u hu => h.bound u (hx u hu), fun u task hu hown => h.owner u task hu (hx u hown), h.fresh⟩
    rw [← ho, objects_put_self, hstate ho]
  · refine ⟨?_, ?_, ?_, h.fresh⟩ <;> rw [objects_put_of_ne ho]
    · exact h.state
    · exact h.bound
    · exact h.owner

/-- No task associates itself with the object: it is not in the first state of one. -/
theorem Lost.associate (h : Lost o st s) (ht : s.tasks[t]? = some task) (hphase : task.phase = .associating)
    (o' : ι) : Lost o st (s.put o' ((s.objects o').associateWithTask t task.taskState)) := by
  have hsame : o = o' → (s.objects o').associateWithTask t task.taskState = s.objects o' := by
    rintro rfl
    rw [StatefulObject.associateWithTask, if_neg]
    rintro ⟨-, hstate⟩
    exact h.fresh t task ht hphase (hstate.symm.trans h.state)
  refine h.put (fun ho => ?_) fun ho => .inr ?_
  · rw [hsame ho, ← ho, h.state]
  · rw [hsame ho, ho]

/-- The task that advances its objects does not have this one in hand, and no other task advances it. -/
theorem Lost.advance (h : Lost o st s) (ht : s.tasks[t]? = some task) {o' : ι} {objects : List ι}
    {last : Bool} (hphase : task.phase = .advancing (o' :: objects) last) :
    Lost o st ((s.setTask t { task with phase := .advancing objects last }).put o'
      ((s.objects o').advanceState (some t))) := by
  have hset : Lost o st (s.setTask t { task with phase := .advancing objects last }) := by
    refine h.setTask ht (fun hsp => ?_) nofun
    have hnotMem := hsp.notMem
    rw [hphase] at hnotMem
    refine ⟨fun ho => hnotMem (List.mem_cons_of_mem o' ho), ?_⟩
    rcases hsp.past with hremoving | hlt | ⟨hstate, -⟩
    · rw [hphase] at hremoving
      cases hremoving
    · exact .inr (.inl hlt)
    · exact .inr (.inr ⟨hstate, objects, last, rfl⟩)
  have hsame : o = o' → (s.objects o').advanceState (some t) = s.objects o' := by
    rintro rfl
    rw [StatefulObject.advanceState, if_neg]
    intro hown
    have hnotMem := (h.owner t task ht hown).notMem
    rw [hphase] at hnotMem
    exact hnotMem List.mem_cons_self
  refine hset.put (fun ho => ?_) fun ho => .inr ?_
  · rw [hsame ho, ← ho, h.state]
  · rw [hsame ho, ho]
    rfl

theorem Lost.remove (hst : st = .CANCELING_2 ∨ st = .CANCELING_3) (h : Lost o st s) (o' : ι) :
    Lost o st (s.put o' ((s.objects o').removeAssociationWithTask t)) := by
  have hann : st.stateClass ≠ .announced := by rcases hst with rfl | rfl <;> decide
  rw [StatefulObject.removeAssociationWithTask]
  split
  · refine h.put (fun ho => ?_) fun _ => .inl (task_setTask none)
    rw [← ho, state_setTask (by rwa [h.state]), h.state]
  · exact h.put (fun ho => by rw [← ho, h.state]) fun ho => .inr (by rw [ho])

theorem Lost.announceText (hst : st = .CANCELING_2 ∨ st = .CANCELING_3) (h : Lost o st s) (o' : ι) :
    Lost o st (s.put o' (s.objects o').announceText) := by
  have hann : st.stateClass ≠ .announced := by rcases hst with rfl | rfl <;> decide
  rw [StatefulObject.announceText]
  split
  · refine h.put (fun ho => ?_) fun _ => .inl (task_setTask none)
    rw [← ho]
    exact (state_setTask (by rwa [h.state]) none).trans h.state
  · exact h.put (fun ho => by rw [← ho]; exact h.state) fun ho => .inr (by rw [ho])

theorem Lost.taskStep (hst : st = .CANCELING_2 ∨ st = .CANCELING_3) (h : Lost o st s)
    (ht : s.tasks[t]? = some task) {action : TaskAction ι}
    (hs : taskStep host s t task action = some s') : Lost o st s' := by
  unfold StateMachine.taskStep at hs
  split at hs
  · next o' hphase =>
    cases hs
    exact h.associate ht hphase o'
  · next hphase =>
    cases hs
    exact h.setTask ht (·.goesOn (by simp [hphase]) (by simp [hphase]) List.not_mem_nil) nofun
  · next hphase =>
    split at hs <;> cases hs
    · exact h.setTask ht (·.goesOn (by simp [hphase]) (by simp [hphase]) List.not_mem_nil) nofun
    · exact h.setTask ht (fun _ => .removing) nofun
  · next objects o' hphase =>
    split at hs <;> cases hs
    next hcond => exact h.collect ht hphase hcond.2
  · next objects hphase =>
    split at hs <;> cases hs
    have hcount : Lost o st (s.count t task.kind objects) := ⟨h.state, h.bound, h.owner, h.fresh⟩
    refine hcount.setTask ht (fun hsp => hsp.goesOn (by simp [hphase]) (by simp [hphase]) ?_) nofun
    have := hsp.notMem
    rwa [hphase] at this
  · next objects hphase =>
    split at hs <;> cases hs
    refine h.setTask ht (fun hsp => hsp.goesOn (by simp [hphase]) (by simp [hphase]) ?_) nofun
    have := hsp.notMem
    rwa [hphase] at this
  · next hphase =>
    cases hs
    exact h.setTask ht (·.goesOn (by simp [hphase]) (by simp [hphase]) List.not_mem_nil) nofun
  · next hphase =>
    cases hs
    exact h.advance ht hphase
  · cases hs
    exact h.setTask ht (fun _ => .removing) nofun
  · next hphase =>
    split at hs <;> cases hs
    · refine h.setTask ht (fun hsp => ⟨List.not_mem_nil, .inr (.inl (hsp.advance hst ?_))⟩) nofun
      simp [hphase]
    · exact h.setTask ht (fun _ => .removing) nofun
  · next o' hphase =>
    cases hs
    exact h.remove hst o'
  · cases hs

theorem Lost.step (hst : st = .CANCELING_2 ∨ st = .CANCELING_3) (ho : o ≠ host) (h : Lost o st s)
    {action : Action ι} (haction : action ≠ .recover o) (hs : step host s action = some s') : Lost o st s' := by
  have hwill : (s.objects o).state.willCancel = true := by
    rw [h.state]
    rcases hst with rfl | rfl <;> rfl
  cases action with
  | create kind =>
    cases hs
    refine ⟨h.state, fun u hu => ?_, fun u task hu howner => ?_, fun u task hu hphase => ?_⟩
    · have := h.bound u hu
      simp only [List.length_append, List.length_singleton]
      omega
    · simp only [List.getElem?_append, if_pos (h.bound u howner)] at hu
      exact h.owner u task hu howner
    · rcases getElem?_create hu with hu | rfl
      · exact h.fresh u task hu hphase
      · exact first_ne hst kind
  | task t action =>
    obtain ⟨task, ht, hs⟩ := Option.bind_eq_some_iff.mp hs
    exact h.taskStep hst ht hs
  | revert o' =>
    cases hs
    rw [StateMachine.revertState]
    split
    · exact h
    · next hnot =>
      have hne : o ≠ o' := by
        rintro rfl
        exact hnot hwill
      have hput : Lost o st (s.put o' (s.objects o').revertState) :=
        h.put (fun h => absurd h hne) (fun h => absurd h hne)
      exact ⟨hput.state, hput.bound, hput.owner, hput.fresh⟩
  | cancel o' =>
    cases hs
    have hsame : o = o' → (s.objects o').cancelState = s.objects o' := by
      rintro rfl
      rw [StatefulObject.cancelState, if_pos hwill]
    refine h.put (fun ho => ?_) fun ho => .inr ?_
    · rw [hsame ho, ← ho, h.state]
    · rw [hsame ho, ho]
  | recover o' =>
    cases hs
    have hne : o ≠ o' := by
      rintro rfl
      exact haction rfl
    have hput : Lost o st (s.put o' (s.objects o').recoverState) :=
      h.put (fun h => absurd h hne) (fun h => absurd h hne)
    exact ⟨hput.state, hput.bound, hput.owner, hput.fresh⟩
  | setText o' =>
    rw [StateMachine.step] at hs
    split at hs <;> cases hs
    exact h.put (fun ho => by rw [StatefulObject.setText, ← ho, h.state]) fun ho => .inr (by rw [ho]; rfl)
  | leaveTask o' =>
    rw [StateMachine.step] at hs
    split at hs <;> cases hs
    exact h.put (fun ho => by rw [StatefulObject.leaveTask, ← ho, h.state]) fun _ => .inl rfl
  | announceText o' =>
    rw [StateMachine.step] at hs
    split at hs <;> cases hs
    exact h.announceText hst o'
  | close =>
    cases hs
    exact h.put (fun h => absurd h ho) fun h => absurd h ho
  | closed =>
    cases hs
    exact h.put (fun h => absurd h ho) fun h => absurd h ho

/-- After a failed goodbye the task goes on without the object. -/
theorem lost_of_fail (hinv : Inv host s) (hown : (s.objects o).task = some t)
    (hstate : (s.objects o).state = .CANCELING_2 ∨ (s.objects o).state = .CANCELING_3)
    (ht : s.tasks[t]? = some task) {objects : List ι} (hphase : task.phase = .collecting objects)
    (hheld : (s.objects o).state = task.taskState) (hs : step host s (.task t .fail) = some s') :
    Lost o (s.objects o).state s' := by
  have hinv' := hinv.step hs
  have hlt := (List.getElem?_eq_some_iff.mp ht).1
  simp only [StateMachine.step, ht, Option.bind_some, taskStep, hphase, Option.some.injEq] at hs
  subst hs
  refine ⟨rfl, fun u hu => ?_, fun u task' hu howner => ?_, fun u task' hu hassociating => ?_⟩
  · obtain rfl : t = u := Option.some.inj (hown.symm.trans hu)
    rwa [System.setTask, List.length_set]
  · obtain rfl : t = u := Option.some.inj (hown.symm.trans howner)
    rw [System.setTask, List.getElem?_set_self hlt] at hu
    rw [← Option.some.inj hu]
    exact ⟨List.not_mem_nil, .inr (.inr ⟨hheld.symm, [], false, rfl⟩)⟩
  · rw [(hinv'.tasks u task' hu).fresh hassociating]
    exact first_ne hstate task'.kind

/-- **A lost goodbye.** If the second or third goodbye for a service fails, then in every order of the
steps of all threads the service stays in the state it is in, and is never canceled, as long as it is not
recovered: new cancelers do not take it, and to cancel it again does nothing. -/
theorem goodbye_lost (host o : ι) (ho : o ≠ host) (before after : List (Action ι)) (s s' : System ι)
    (hbefore : run (step host) (start ι) before = some s) (t : ℕ) (task : StateMachine.Task ι)
    (objects : List ι) (ht : s.tasks[t]? = some task) (hphase : task.phase = .collecting objects)
    (hmem : o ∈ objects) (hown : (s.objects o).task = some t)
    (hstate : (s.objects o).state = .CANCELING_2 ∨ (s.objects o).state = .CANCELING_3)
    (hafter : run (step host) s (.task t .fail :: after) = some s') (hrecover : .recover o ∉ after) :
    (s'.objects o).state = (s.objects o).state := by
  obtain ⟨s₁, hs₁, hs'⟩ := run_cons_eq_some.mp hafter
  have hinv := Inv.start.run hbefore
  have hheld : (s.objects o).state = task.taskState := by
    refine (hinv.tasks t task ht).held o ?_ hown
    rw [hphase]
    exact hmem
  have hlost := lost_of_fail hinv hown hstate ht hphase hheld hs₁
  exact (run_inv (I := Lost o (s.objects o).state)
    (fun _ _ _ h haction hs => h.step hstate ho haction.1 hs) hlost (allSteps_ne hrecover) hs').state

end Lost

/-- A service is canceled and the first goodbye goes out; the second is about to. -/
def secondGoodbye : List (Action Bool) :=
  [.cancel true, .create .canceler, .task 0 (.associate true), .task 0 .schedule] ++ oneRun 0 ++
  [.task 0 .run, .task 0 (.collect true)]

/-- The canceler gives up, and the service is canceled once more. -/
def secondCanceler : List (Action Bool) :=
  [.task 0 .finish, .task 0 .run, .task 0 .skip, .task 0 .finish, .task 0 (.remove true), .cancel true,
    .create .canceler, .task 1 (.associate true), .task 1 .schedule, .task 1 .run, .task 1 .skip, .task 1 .finish]

theorem goodbye_lost_secondCanceler :
    ∃ s s', run (step false) (start Bool) secondGoodbye = some s ∧
      run (step false) s (.task 0 .fail :: secondCanceler) = some s' ∧
      (s.objects true).state = .CANCELING_2 ∧ (s'.objects true).state = (s.objects true).state :=
  ⟨_, _, rfl, rfl, rfl, goodbye_lost false true (by decide) secondGoodbye secondCanceler _ _ rfl 0 _ _ rfl rfl
    List.mem_cons_self rfl (.inl rfl) rfl (by decide)⟩

end Waveplay.Jmdns.Withdrawal
