import Waveplay.RaopHelper.Streaming

/-! # The last request wins

`startStreaming` only queues a task; the address is marked true when the task starts, and false both
by `stopStreaming` and by the `onPostExecute` of any task of that address. `isActivated` therefore
follows the last request only in the runs described by `RequestCond`: a task starts while the last
request for its address is still a start, and `onPostExecute` does not run while another task of its
address runs. -/

namespace Waveplay.RaopHelper.LastRequest

open Waveplay.Lib.Runs Waveplay.RaopHelper.Streaming

/-- The call is a request of the user for the address. -/
def Event.RequestFor (a : String) : Event → Bool
  | .startStreaming b => b == a
  | .stopStreaming b => b == a
  | _ => false

/-- The last request for the address, in a history with the newest call first. -/
def lastRequest (log : List Event) (a : String) : Option Event := log.find? (Event.RequestFor a)

/-- The task of the last `startStreaming` for the address. -/
def lastTask (s : State) (a : String) : Option NativeRaopTask :=
  s.raopTasks.reverse.find? fun t => t.address == a

/-- The native player of the task has not returned. -/
def Unfinished (s : State) (t : NativeRaopTask) : Prop := t ∈ s.queue ∨ s.running = some t

/-- All queued starts and all pending `onPostExecute`s have run. -/
def Settled (s : State) : Prop := s.queue = [] ∧ s.finished = []

/-- The last request for the address was a start, and its task has not finished. -/
def Wanted (s : State) (log : List Event) (a : String) : Prop :=
  lastRequest log a = some (.startStreaming a) ∧ ∃ t, lastTask s a = some t ∧ Unfinished s t

/-- A task starts while the last request for its address is a start, and `onPostExecute` runs while
no task of its address does. -/
def RequestCond (s : State × List Event) : Event → Prop
  | .doInBackground => ∀ t queue, s.1.queue = t :: queue →
    lastRequest s.2 t.address = some (.startStreaming t.address)
  | .onPostExecute t => ∀ t', s.1.running = some t' → t'.address ≠ t.address
  | _ => True

/-- What the run keeps. -/
structure RequestInv (s : State) (log : List Event) : Prop where
  /-- the tasks start in the order of the requests -/
  order : ∃ begun, s.raopTasks = begun ++ s.queue ∧
    ∀ t, s.running = some t → ∃ b, begun = b ++ [t]
  /-- the next task is a new one -/
  fresh : ∀ t ∈ s.raopTasks, t.id < s.raopTasks.length
  on : ∀ t, s.running = some t → lastTask s t.address = some t →
    lastRequest log t.address = some (.startStreaming t.address) →
    s.raopSwitches t.address = some true
  sound : ∀ a, s.raopSwitches a = some true → lastRequest log a = some (.startStreaming a) ∧
    ∃ t, t.address = a ∧ (s.running = some t ∨ t ∈ s.finished)

theorem requestInv_initial : RequestInv {} [] where
  order := ⟨[], rfl, fun _ h => nomatch h⟩
  fresh := fun _ h => nomatch h
  on := fun _ h => nomatch h
  sound := fun _ h => nomatch h

/-! ### The history and the last tasks -/

theorem lastRequest_cons_of_not {e : Event} {a : String} (h : Event.RequestFor a e = false)
    (log : List Event) : lastRequest (e :: log) a = lastRequest log a := by
  simp [lastRequest, h]

theorem lastRequest_start (log : List Event) (a b : String) :
    lastRequest (.startStreaming b :: log) a =
      if b = a then some (.startStreaming b) else lastRequest log a := by
  by_cases h : b = a <;> simp [lastRequest, Event.RequestFor, h]

theorem lastRequest_stop (log : List Event) (a b : String) :
    lastRequest (.stopStreaming b :: log) a =
      if b = a then some (.stopStreaming b) else lastRequest log a := by
  by_cases h : b = a <;> simp [lastRequest, Event.RequestFor, h]

theorem lastTask_startStreaming (s : State) (a b : String) :
    lastTask (s.startStreaming b) a =
      if b = a then some ⟨s.raopTasks.length, b⟩ else lastTask s a := by
  by_cases h : b = a <;> simp [lastTask, State.startStreaming, h]

theorem lastTask_address {s : State} {a : String} {t : NativeRaopTask}
    (h : lastTask s a = some t) : t.address = a := by
  simpa using List.find?_some h

/-! ### The steps -/

section Steps
variable {s : State} {log : List Event} (hs : RequestInv s log)
include hs

theorem RequestInv.frame {s' : State} {e : Event} (he : ∀ a, Event.RequestFor a e = false)
    (hsw : s'.raopSwitches = s.raopSwitches) (ht : s'.raopTasks = s.raopTasks)
    (hq : s'.queue = s.queue) (hr : s'.running = s.running) (hf : s'.finished = s.finished) :
    RequestInv s' (e :: log) := by
  obtain ⟨horder, hfresh, hon, hsound⟩ := hs
  have hlt : ∀ a, lastTask s' a = lastTask s a := fun a => by rw [lastTask, ht, lastTask]
  refine ⟨by simpa only [ht, hq, hr] using horder, by simpa only [ht] using hfresh, ?_, ?_⟩
  · simpa only [hr, hsw, hlt, lastRequest_cons_of_not (he _)] using hon
  · simpa only [hr, hsw, hf, lastRequest_cons_of_not (he _)] using hsound

theorem RequestInv.startStreaming (a : String) :
    RequestInv (s.startStreaming a) (.startStreaming a :: log) := by
  obtain ⟨⟨begun, hb, hlast⟩, hfresh, hon, hsound⟩ := hs
  refine ⟨⟨begun, ?_, hlast⟩, ?_, ?_, ?_⟩
  · simp only [State.startStreaming, hb, List.append_assoc]
  · intro t ht
    simp only [State.startStreaming, List.mem_append, List.mem_singleton, List.length_append,
      List.length_singleton] at ht ⊢
    rcases ht with ht | rfl
    · have := hfresh t ht; omega
    · simp
  · -- the running task is not the new one
    intro t hr hlt hreq
    rw [lastTask_startStreaming] at hlt
    rw [lastRequest_start] at hreq
    by_cases hab : a = t.address
    · rw [if_pos hab, Option.some.injEq] at hlt
      obtain ⟨b, rfl⟩ := hlast t hr
      have hlt' := hfresh t (by rw [hb]; simp)
      rw [← hlt] at hlt'
      exact absurd hlt' (Nat.lt_irrefl _)
    · rw [if_neg hab] at hlt hreq
      exact hon t hr hlt hreq
  · intro b hb'
    obtain ⟨hreq, ht⟩ := hsound b hb'
    refine ⟨?_, ht⟩
    rw [lastRequest_start]
    split_ifs with hab
    · rw [hab]
    · exact hreq

theorem RequestInv.stopStreaming (a : String) :
    RequestInv (s.stopStreaming a) (.stopStreaming a :: log) := by
  obtain ⟨horder, hfresh, hon, hsound⟩ := hs
  refine ⟨horder, hfresh, ?_, ?_⟩
  · intro t hr hlt hreq
    rw [lastRequest_stop] at hreq
    split_ifs at hreq with hab
    · cases hreq
    · show Function.update s.raopSwitches a (some false) t.address = some true
      rw [Function.update_of_ne (Ne.symm hab)]
      exact hon t hr hlt hreq
  · intro b hb
    have hba : b ≠ a := by
      rintro rfl
      simp [State.stopStreaming, State.putSwitch] at hb
    have hb' : s.raopSwitches b = some true := by
      simpa [State.stopStreaming, State.putSwitch, State.setRaopSwitch, hba] using hb
    rw [lastRequest_stop, if_neg (Ne.symm hba)]
    exact hsound b hb'

theorem RequestInv.onPostExecute {t : NativeRaopTask}
    (hC : ∀ t', s.running = some t' → t'.address ≠ t.address) :
    RequestInv { s.onPostExecute t with finished := s.finished.erase t }
      (.onPostExecute t :: log) := by
  obtain ⟨horder, hfresh, hon, hsound⟩ := hs
  refine ⟨horder, hfresh, ?_, ?_⟩
  · intro t' hr hlt hreq
    show Function.update s.raopSwitches t.address (some false) t'.address = some true
    rw [Function.update_of_ne (hC t' hr)]
    exact hon t' hr hlt hreq
  · intro a ha
    have hat : a ≠ t.address := by
      rintro rfl
      simp [State.onPostExecute, State.putSwitch, State.setRaopSwitch] at ha
    have ha' : s.raopSwitches a = some true := by
      simpa [State.onPostExecute, State.putSwitch, State.setRaopSwitch, hat] using ha
    obtain ⟨hreq, t', rfl, ht'⟩ := hsound a ha'
    refine ⟨hreq, t', rfl, ht'.imp_right fun h => ?_⟩
    exact (List.mem_erase_of_ne (fun he => hat (by rw [he]))).mpr h

theorem RequestInv.doInBackground {t : NativeRaopTask} {queue : List NativeRaopTask}
    (hr : s.running = none) (hq : s.queue = t :: queue)
    (hC : lastRequest log t.address = some (.startStreaming t.address)) :
    RequestInv { s.putSwitch t.address true with running := some t, queue }
      (.doInBackground :: log) := by
  obtain ⟨⟨begun, hb, -⟩, hfresh, -, hsound⟩ := hs
  refine ⟨⟨begun ++ [t], ?_, ?_⟩, hfresh, ?_, ?_⟩
  · show s.raopTasks = begun ++ [t] ++ queue
    rw [hb, hq]; simp
  · intro t' ht'
    cases ht'
    exact ⟨begun, rfl⟩
  · intro t' ht' _ _
    cases ht'
    exact Function.update_self ..
  · intro a ha
    by_cases hat : a = t.address
    · subst hat
      exact ⟨hC, t, rfl, Or.inl rfl⟩
    · have ha' : s.raopSwitches a = some true := by simpa [State.putSwitch, hat] using ha
      obtain ⟨hreq, t', hta, ht'⟩ := hsound a ha'
      refine ⟨hreq, t', hta, Or.inr (ht'.resolve_left ?_)⟩
      rw [hr]; simp

theorem RequestInv.nativeReturn {t : NativeRaopTask} (hr : s.running = some t) :
    RequestInv { s with running := none, finished := s.finished ++ [t] } (.nativeReturn :: log) := by
  obtain ⟨⟨begun, hb, -⟩, hfresh, -, hsound⟩ := hs
  refine ⟨⟨begun, hb, fun _ h => nomatch h⟩, hfresh, fun _ h => (nomatch h), ?_⟩
  intro a ha
  obtain ⟨hreq, t', hta, ht'⟩ := hsound a ha
  refine ⟨hreq, t', hta, Or.inr (List.mem_append.mpr ?_)⟩
  rcases ht' with ht' | ht'
  · right
    rw [hr, Option.some.injEq] at ht'
    simp [ht']
  · left; exact ht'

end Steps

/-- **Every call meeting the condition keeps the invariant.** -/
theorem requestInv_step {s s' : State × List Event} {e : Event} (hs : RequestInv s.1 s.2)
    (hC : RequestCond s e) (h : logged step s e = some s') : RequestInv s'.1 s'.2 := by
  obtain ⟨s, log⟩ := s
  obtain ⟨s', log'⟩ := s'
  obtain ⟨hstep, hlog⟩ := logged_eq_some.mp h
  simp only at hstep hlog
  subst hlog
  cases moves_of_step hstep with
  | startStreaming a => exact hs.startStreaming a
  | stopStreaming a => exact hs.stopStreaming a
  | onPostExecute ht => exact hs.onPostExecute hC
  | doInBackground hr hq => exact hs.doInBackground hr hq (hC _ _ hq)
  | notifyReady hr ready =>
    cases ready <;> exact hs.frame (fun _ => rfl) rfl rfl rfl rfl rfl
  | nativeReturn hr => exact hs.nativeReturn hr
  | threadLoopWrite socket connect send sink =>
    exact hs.frame (fun _ => rfl) rfl rfl rfl rfl rfl

/-! ### Settled states -/

/-- With nothing queued, the running task is the last one of its address. -/
theorem lastTask_running {s : State} {log : List Event} (hs : RequestInv s log)
    (hq : s.queue = []) {t : NativeRaopTask} (hr : s.running = some t) :
    lastTask s t.address = some t := by
  obtain ⟨begun, hb, hlast⟩ := hs.order
  obtain ⟨b, rfl⟩ := hlast t hr
  rw [lastTask, hb, hq]
  simp

/-- **The last request wins** in every run meeting the condition: once all queued starts and all
pending `onPostExecute`s have run, `isActivated a` is true exactly if the last request for `a` was a
start and its task has not finished. -/
theorem isActivated_iff_wanted {es : List Event} {s : State}
    (hC : AllSteps (logged step) RequestCond ({}, []) es) (h : run step {} es = some s)
    (hset : Settled s) (a : String) : s.isActivated a = some true ↔ Wanted s es.reverse a := by
  have hrun := run_logged [] h
  rw [List.append_nil] at hrun
  have hs : RequestInv s es.reverse :=
    run_inv (I := fun p => RequestInv p.1 p.2) (fun _ _ _ => requestInv_step) requestInv_initial
      hC hrun
  obtain ⟨hq, hf⟩ := hset
  constructor
  · intro ha
    obtain ⟨hreq, t, rfl, ht⟩ := hs.sound a ha
    have hr : s.running = some t := ht.resolve_right (by simp only [hf]; simp)
    exact ⟨hreq, t, lastTask_running hs hq hr, Or.inr hr⟩
  · rintro ⟨hreq, t, hlt, hun⟩
    have hr : s.running = some t := hun.resolve_left (by rw [hq]; simp)
    obtain rfl := lastTask_address hlt
    exact hs.on t hr hlt hreq

/-- A stream is started, stopped and started again; the first task is over before the second starts. -/
def restart (a : String) : List Event :=
  [.startStreaming a, .doInBackground, .stopStreaming a, .nativeReturn, .onPostExecute ⟨0, a⟩,
    .startStreaming a, .doInBackground]

/-- The state after it. -/
def restarted (a : String) : State where
  raopSwitches := Function.update (Function.update (Function.update (Function.update (fun _ => none)
    a (some true)) a (some false)) a (some false)) a (some true)
  raopTasks := [⟨0, a⟩, ⟨1, a⟩]
  running := some ⟨1, a⟩
  switchFile := ['O']

theorem isActivated_iff_wanted_restart :
    (restarted "10.0.0.2").isActivated "10.0.0.2" = some true ∧
      Wanted (restarted "10.0.0.2") (restart "10.0.0.2").reverse "10.0.0.2" := by
  have hC : AllSteps (logged step) RequestCond ({}, []) (restart "10.0.0.2") := by
    refine allSteps_cons trivial rfl (allSteps_cons ?_ rfl (allSteps_cons trivial rfl
      (allSteps_cons trivial rfl (allSteps_cons ?_ rfl (allSteps_cons trivial rfl
        (allSteps_cons ?_ rfl trivial))))))
    · rintro t queue ⟨⟩; decide
    · rintro t' ⟨⟩
    · rintro t queue ⟨⟩; decide
  have ha : (restarted "10.0.0.2").isActivated "10.0.0.2" = some true := by
    simp [State.isActivated, restarted]
  have hrun : run step {} (restart "10.0.0.2") = some (restarted "10.0.0.2") := rfl
  exact ⟨ha, (isActivated_iff_wanted hC hrun ⟨rfl, rfl⟩ "10.0.0.2").mp ha⟩

/-- A start taken back before its task starts: the task marks the address true all the same. -/
theorem isActivated_after_stop :
    ¬ ∀ (es : List Event) (s : State), run step {} es = some s → Settled s →
      ∀ a, s.isActivated a = some true ↔ Wanted s es.reverse a := by
  intro h
  have ha := h [.startStreaming "10.0.0.2", .stopStreaming "10.0.0.2", .doInBackground]
    { raopSwitches := Function.update (Function.update (fun _ => none) "10.0.0.2" (some false))
        "10.0.0.2" (some true)
      raopTasks := [⟨0, "10.0.0.2"⟩], running := some ⟨0, "10.0.0.2"⟩, switchFile := ['0'] }
    rfl ⟨rfl, rfl⟩ "10.0.0.2"
  have hw := ha.mp (by simp [State.isActivated])
  exact absurd hw.1 (by decide)

end Waveplay.RaopHelper.LastRequest
