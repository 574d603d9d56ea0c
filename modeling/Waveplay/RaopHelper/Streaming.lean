import Mathlib.Logic.Function.Basic
import Waveplay.Lib.Runs
import Waveplay.AudioFlinger.ThreadLoopWrite

/-! # `RaopHelper`: starting and stopping the streams

Three parties share the map `raopSwitches` and the file `/data/raop_switch`:

* the UI thread calls `startStreaming`, `stopStreaming` and, for each task whose native player has
  returned, `onPostExecute`;
* the thread of the serial executor starts the queued `doInBackground`s one after the other; the
  native player it runs calls `notifyReady` and in the end returns;
* the audio server calls `threadLoop_write`.

`step` is one call of one of them. `onPostExecute` writes the letter `O` to the file, which
`fscanf "%d"` does not read as a number. -/

namespace Waveplay.RaopHelper.Streaming

open Waveplay.Lib.Runs Waveplay.AudioFlinger.ThreadLoopWrite

/-- A `NativeRaopTask`: the number of the `startStreaming` call that made it, and its address. -/
structure NativeRaopTask where
  id : ℕ
  address : String
  deriving DecidableEq, Repr

/-- The shared state, and where each task stands. -/
structure State where
  /-- `HashMap<String,Boolean> raopSwitches` -/
  raopSwitches : String → Option Bool := fun _ => none
  /-- all tasks made so far -/
  raopTasks : List NativeRaopTask := []
  /-- the tasks whose `doInBackground` has not started -/
  queue : List NativeRaopTask := []
  /-- the task whose native player runs -/
  running : Option NativeRaopTask := none
  /-- the tasks whose native player has returned and whose `onPostExecute` is still to run -/
  finished : List NativeRaopTask := []
  /-- the text of the switch file -/
  switchFile : List Char := ['0']
  /-- the globals of the audio server -/
  flinger : Globals := {}

/-- The calls of the three parties. -/
inductive Event
  | startStreaming (address : String)
  | stopStreaming (address : String)
  | onPostExecute (task : NativeRaopTask)
  | doInBackground
  | notifyReady (ready : Bool)
  | nativeReturn
  | threadLoopWrite (socket connect send sink : ℤ)
  deriving DecidableEq, Repr

namespace State

/-- `setRaopSwitch`: the file is truncated and written. -/
def setRaopSwitch (s : State) (swtch : List Char) : State := { s with switchFile := swtch }

/-- `raopSwitches.put`. -/
def putSwitch (s : State) (address : String) (on : Bool) : State :=
  { s with raopSwitches := Function.update s.raopSwitches address (some on) }

/-- `startStreaming`: a new task is executed and added to the list. -/
def startStreaming (s : State) (address : String) : State :=
  let raop : NativeRaopTask := ⟨s.raopTasks.length, address⟩
  { s with queue := s.queue ++ [raop], raopTasks := s.raopTasks ++ [raop] }

def stopStreaming (s : State) (address : String) : State :=
  (s.setRaopSwitch ['0']).putSwitch address false

def onPostExecute (s : State) (task : NativeRaopTask) : State :=
  ((s.setRaopSwitch ['O']).putSwitch task.address false).setRaopSwitch ['O']

def notifyReady (s : State) (ready : Bool) : State :=
  if ready then s.setRaopSwitch ['1'] else s.setRaopSwitch ['0']

/-- `isActivated`; `none` stands for the exception on an address that is not in the map. -/
def isActivated (s : State) (address : String) : Option Bool := s.raopSwitches address

/-- The call the audio server makes when the system calls return the given results. -/
def call (s : State) (socket connect send sink : ℤ) : Call :=
  ⟨s.switchFile, fscanfD s.switchFile, socket, connect, send, sink⟩

end State

/-- **One call of one party**; `none` when it cannot be made. The executor starts a task only when
no other runs, the native player of the running task calls `notifyReady` and returns, and
`onPostExecute` runs once for each task whose player has returned. -/
def step (s : State) : Event → Option State
  | .startStreaming a => some (s.startStreaming a)
  | .stopStreaming a => some (s.stopStreaming a)
  | .onPostExecute t =>
    if t ∈ s.finished then some { s.onPostExecute t with finished := s.finished.erase t } else none
  | .doInBackground =>
    match s.running, s.queue with
    | none, t :: queue => some { s.putSwitch t.address true with running := some t, queue }
    | _, _ => none
  | .notifyReady ready =>
    match s.running with
    | some _ => some (s.notifyReady ready)
    | none => none
  | .nativeReturn =>
    match s.running with
    | some t => some { s with running := none, finished := s.finished ++ [t] }
    | none => none
  | .threadLoopWrite socket connect send sink =>
    let o := threadLoopWrite s.flinger (s.call socket connect send sink)
    some { s with flinger := o.globals, switchFile := o.file }

/-- What a call does, with the state it is made in. -/
inductive Moves (s : State) : Event → State → Prop
  | startStreaming (a : String) : Moves s (.startStreaming a) (s.startStreaming a)
  | stopStreaming (a : String) : Moves s (.stopStreaming a) (s.stopStreaming a)
  | onPostExecute {t : NativeRaopTask} (ht : t ∈ s.finished) :
      Moves s (.onPostExecute t) { s.onPostExecute t with finished := s.finished.erase t }
  | doInBackground {t : NativeRaopTask} {queue : List NativeRaopTask} (hr : s.running = none)
      (hq : s.queue = t :: queue) :
      Moves s .doInBackground { s.putSwitch t.address true with running := some t, queue }
  | notifyReady {t : NativeRaopTask} (hr : s.running = some t) (ready : Bool) :
      Moves s (.notifyReady ready) (s.notifyReady ready)
  | nativeReturn {t : NativeRaopTask} (hr : s.running = some t) :
      Moves s .nativeReturn { s with running := none, finished := s.finished ++ [t] }
  | threadLoopWrite (socket connect send sink : ℤ) :
      Moves s (.threadLoopWrite socket connect send sink)
        { s with
          flinger := (threadLoopWrite s.flinger (s.call socket connect send sink)).globals
          switchFile := (threadLoopWrite s.flinger (s.call socket connect send sink)).file }

theorem moves_of_step {s s' : State} {e : Event} (h : step s e = some s') : Moves s e s' := by
  cases e with
  | startStreaming a => cases h; exact .startStreaming a
  | stopStreaming a => cases h; exact .stopStreaming a
  | onPostExecute t =>
    simp only [step] at h
    split_ifs at h with ht
    cases h
    exact .onPostExecute ht
  | doInBackground =>
    simp only [step] at h
    split at h
    · next t queue hr hq => cases h; exact .doInBackground hr hq
    · cases h
  | notifyReady ready =>
    simp only [step] at h
    split at h
    · next t hr => cases h; exact .notifyReady hr ready
    · cases h
  | nativeReturn =>
    simp only [step] at h
    split at h
    · next t hr => cases h; exact .nativeReturn hr
    · cases h
  | threadLoopWrite socket connect send sink =>
    cases h
    exact .threadLoopWrite socket connect send sink

end Waveplay.RaopHelper.Streaming
