import Waveplay.AudioFlinger.ThreadLoopWrite
import Waveplay.Lib.Runs

/-! # The descriptors of the capture socket

Each call of `threadLoop_write` that has the switch on and no socket asks the system for one. Nothing
in the call closes a descriptor: with the switch off, `dumpSocket` is only set to `-1`. So the
descriptors the calls hold are all those that `socket` has returned.

* `capture`: one call, with the descriptors held.
* `Frugal`: at most one descriptor, and none with the switch off.
* `SwitchStaysOn`: a call that finds a socket finds the watchdog below its limit and the switch on.
* `frugal_iff`: a run of calls is `Frugal` throughout exactly if all its calls meet that. -/

namespace Waveplay.AudioFlinger.CaptureSockets

open Waveplay.AudioFlinger.ThreadLoopWrite
open Waveplay.Lib.Runs

/-- The globals, and the descriptors obtained from `socket` and not closed. -/
structure Capture where
  globals : Globals := {}
  descriptors : List ℤ := []
  deriving DecidableEq, Repr

/-- The descriptor a call obtains, if `socket` is called and succeeds. -/
def obtained (o : Outcome) : List ℤ := (o.opened.filter (0 ≤ ·)).toList

/-- One call of `threadLoop_write`. There is no `close` in it. -/
def capture (s : Capture) (c : Call) : Option Capture :=
  let o := threadLoopWrite s.globals c
  some { globals := o.globals, descriptors := obtained o ++ s.descriptors }

/-- At most one descriptor is held, and none with the switch off. -/
structure Frugal (s : Capture) : Prop where
  atMostOne : s.descriptors.length ≤ 1
  noneWhenOff : s.globals.dumpSwitch = 0 → s.descriptors.length = 0

/-- A call that finds a socket finds the watchdog below its limit and the switch on. -/
def SwitchStaysOn (s : Capture) (c : Call) : Prop :=
  0 ≤ s.globals.dumpSocket →
    s.globals.dumpSocketWatchDog < 10 ∧ c.scanned.getD s.globals.dumpSwitch ≠ 0

/-! ### One call -/

variable {s : Capture}

/-- What the globals say about the descriptors: the one held is `dumpSocket`. -/
structure Tracks (s : Capture) : Prop where
  held : 0 ≤ s.globals.dumpSocket → s.descriptors = [s.globals.dumpSocket]
  free : s.globals.dumpSocket < 0 → s.descriptors = []
  off : s.globals.dumpSwitch = 0 → s.globals.dumpSocket < 0

theorem Tracks.frugal (h : Tracks s) : Frugal s := by
  constructor
  · rcases lt_or_ge s.globals.dumpSocket 0 with hs | hs
    · simp [h.free hs]
    · simp [h.held hs]
  · intro h0
    simp [h.free (h.off h0)]

theorem readSwitch_dumpSocket (g : Globals) (c : Call) :
    (readSwitch g c).1.dumpSocket = g.dumpSocket := by
  unfold readSwitch
  split_ifs <;> rfl

theorem sendBuffer_dumpSocket (g : Globals) (c : Call) :
    (sendBuffer g c).1.dumpSocket = g.dumpSocket := by
  unfold sendBuffer
  split_ifs <;> rfl

theorem readSwitch_on {g : Globals} {c : Call} (hw : g.dumpSocketWatchDog < 10)
    (hf : c.scanned.getD g.dumpSwitch ≠ 0) : (readSwitch g c).1.dumpSwitch ≠ 0 := by
  unfold readSwitch
  rw [if_neg (by omega)]
  exact hf

theorem threadLoopWrite_off {g : Globals} {c : Call} (h : (readSwitch g c).1.dumpSwitch = 0) :
    obtained (threadLoopWrite g c) = [] ∧ (threadLoopWrite g c).globals.dumpSocket = -1 := by
  unfold threadLoopWrite
  simp [h, obtained]

theorem threadLoopWrite_on {g : Globals} {c : Call} (h : (readSwitch g c).1.dumpSwitch ≠ 0) :
    (0 ≤ g.dumpSocket ∧ obtained (threadLoopWrite g c) = [] ∧
      (threadLoopWrite g c).globals.dumpSocket = g.dumpSocket) ∨
    (g.dumpSocket < 0 ∧ obtained (threadLoopWrite g c) = (if 0 ≤ c.socket then [c.socket] else []) ∧
      (threadLoopWrite g c).globals.dumpSocket = c.socket) := by
  have hs : (readSwitch g c).1.dumpSocket = g.dumpSocket := readSwitch_dumpSocket g c
  unfold threadLoopWrite obtained
  simp only [h, if_false, sendBuffer_dumpSocket]
  unfold openSocket
  rcases lt_or_ge g.dumpSocket 0 with hg | hg
  · right
    rw [if_pos (by omega)]
    refine ⟨hg, ?_, rfl⟩
    by_cases hc : 0 ≤ c.socket
    · simp [hc]
    · simp only [hc, Option.filter, decide_false, if_false]
      rfl
  · left
    rw [if_neg (by omega)]
    exact ⟨hg, rfl, hs⟩

theorem capture_tracks (hs : Tracks s) {c : Call} (hc : SwitchStaysOn s c) {t : Capture}
    (h : capture s c = some t) : Tracks t := by
  obtain rfl := Option.some.inj h
  have hsw := threadLoopWrite_dumpSwitch s.globals c
  by_cases h0 : (readSwitch s.globals c).1.dumpSwitch = 0
  · -- the switch is off: no socket was held
    have hfree : s.globals.dumpSocket < 0 := by
      by_contra hge
      obtain ⟨hw, hf⟩ := hc (by omega)
      exact readSwitch_on hw hf h0
    obtain ⟨ho, hd⟩ := threadLoopWrite_off h0
    constructor
    · intro hge
      simp only [hd] at hge
      omega
    · intro _
      simp [ho, hs.free hfree]
    · intro _
      simp [hd]
  · have hoff : (threadLoopWrite s.globals c).globals.dumpSwitch ≠ 0 := by rwa [hsw]
    rcases threadLoopWrite_on h0 with ⟨hg, ho, hd⟩ | ⟨hg, ho, hd⟩
    · constructor
      · intro _
        simp [ho, hd, hs.held hg]
      · intro hlt
        simp only [hd] at hlt
        omega
      · exact fun h => absurd h hoff
    · constructor
      · intro hge
        simp only [hd] at hge
        simp [ho, hd, hge, hs.free hg]
      · intro hlt
        simp only [hd] at hlt
        simp [ho, show ¬ (0 ≤ c.socket) by omega, hs.free hg]
      · exact fun h => absurd h hoff

/-- A call that switches off with a socket held leaves the descriptor behind. -/
theorem capture_leaks (hs : Tracks s) {c : Call} (hc : ¬ SwitchStaysOn s c) {t : Capture}
    (h : capture s c = some t) : ¬ Frugal t := by
  obtain rfl := Option.some.inj h
  unfold SwitchStaysOn at hc
  push Not at hc
  obtain ⟨hg, hf⟩ := hc
  have h0 : (readSwitch s.globals c).1.dumpSwitch = 0 := by
    unfold readSwitch
    split_ifs with hw
    · rfl
    · exact hf (by omega)
  obtain ⟨ho, -⟩ := threadLoopWrite_off h0
  intro hfr
  have hlen := hfr.noneWhenOff (by rw [threadLoopWrite_dumpSwitch]; exact h0)
  simp [ho, hs.held hg] at hlen

/-! ### Runs of calls -/

theorem tracks_initial : Tracks {} := by
  constructor
  · intro h
    exact absurd h (by decide)
  · intro _
    rfl
  · intro _
    decide

/-- **At most one capture socket.** From the initial globals, at most one descriptor is held after
every call, and none after a call that leaves the switch off, exactly if each call that finds a
socket finds the watchdog below its limit and the switch on. -/
theorem frugal_iff (cs : List Call) :
    (∀ n t, run capture {} (cs.take n) = some t → Frugal t) ↔
      AllSteps capture SwitchStaysOn {} cs := by
  refine forall_run_take_iff (fun _ => Tracks.frugal) ?_ ?_ cs tracks_initial
  · intro s c t hs hc ht
    exact capture_tracks hs hc ht
  · intro s c hs hc
    exact ⟨_, rfl, capture_leaks hs hc rfl⟩

/-- The switch goes on and off: the descriptor `7` is still held. -/
theorem descriptor_left_behind :
    run capture {} [⟨['1'], some 1, 7, 0, 960, 960⟩, ⟨['0'], some 0, 8, 0, 960, 960⟩] =
        some { globals := {}, descriptors := [7] } ∧
      ¬ Frugal { globals := {}, descriptors := [7] } := by
  refine ⟨by decide, fun h => ?_⟩
  exact absurd (h.noneWhenOff rfl) (by decide)

end Waveplay.AudioFlinger.CaptureSockets
