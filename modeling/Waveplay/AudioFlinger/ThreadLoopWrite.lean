import Mathlib.Data.List.Basic
import Mathlib.Algebra.Group.Nat.Defs
import Mathlib.Algebra.Ring.Int.Defs
import Mathlib.Data.Int.Order.Basic

/-! # The patched `PlaybackThread::threadLoop_write`

The mixer thread of the audio server hands each mix buffer either to `mNormalSink` or to a socket on
which the native player listens. Which of the two is decided by the number in `/data/raop_switch`,
read with `fscanf "%d"` at every call, unless the watchdog has reached `10`: then the call writes a
`0` over the first character of the file and plays the buffer.

* `fscanfD`: the number `fscanf` finds in a text.
* `threadLoopWrite`: one call, on the four globals, the text of the file, the number assigned from it,
  whatever that is, and the results of the system calls. `connect` on a negative descriptor fails.
* `Inv`: what the globals satisfy between two calls. A socket that is not connected is left behind
  only with the watchdog at its limit.
* `drop_sets_watchDog`: a call that loses its buffer leaves the watchdog at the limit. -/

namespace Waveplay.AudioFlinger.ThreadLoopWrite

/-! ### Reading and writing the switch file -/

/-- The value of a list of digits read after `acc`, up to the first other character. -/
def scanDigits (acc : ℕ) : List Char → ℕ
  | [] => acc
  | c :: cs => if c.isDigit then scanDigits (acc * 10 + (c.toNat - '0'.toNat)) cs else acc

/-- An unsigned number: at least one digit. -/
def scanNat : List Char → Option ℕ
  | [] => none
  | c :: cs => if c.isDigit then some (scanDigits 0 (c :: cs)) else none

def isspace (c : Char) : Bool := c.toNat = 32 || (9 ≤ c.toNat && c.toNat ≤ 13)

/-- The `int` stored for a number: `strtoimax` stops at the ends of its 64 bits, and the assignment keeps
the low 32. -/
def storedInt (n : ℤ) : ℤ := (max (-2 ^ 63) (min n (2 ^ 63 - 1))).bmod (2 ^ 32)

/-- `fscanf "%d"`: blanks, an optional sign, digits. `none` when nothing is assigned. -/
def fscanfD (text : List Char) : Option ℤ :=
  match text.dropWhile isspace with
  | '-' :: cs => (scanNat cs).map fun n => storedInt (-n)
  | '+' :: cs => (scanNat cs).map fun n => storedInt n
  | cs => (scanNat cs).map fun n => storedInt n

/-- `rewind` and `fprintf "%d" 0` on a file open for update: one character is replaced. -/
def fprintfZero (text : List Char) : List Char := '0' :: text.tail

/-! ### One call -/

/-- The global variables. -/
structure Globals where
  dumpSwitch : ℤ := 0
  dumpSocket : ℤ := -1
  dumpSocketReady : ℤ := -1
  dumpSocketWatchDog : ℤ := 0
  deriving DecidableEq, Repr

/-- What one call meets: the text of the switch file, the number `fscanf` assigns from it, if any, and
what `socket`, `connect` (on a valid descriptor), `send` and the write to the sink return should they be
called. -/
structure Call where
  file : List Char
  scanned : Option ℤ
  socket : ℤ
  connect : ℤ
  send : ℤ
  sink : ℤ
  deriving DecidableEq, Repr

/-- What one call does. -/
structure Outcome where
  /-- the globals after the call -/
  globals : Globals
  /-- the text of the switch file after the call -/
  file : List Char
  /-- the watchdog has written `0` to the file -/
  wroteZero : Bool
  /-- the result of `mNormalSink->write`, if it was called -/
  played : Option ℤ
  /-- the result of `socket`, if it was called -/
  opened : Option ℤ
  /-- the result of `send`, if it was called -/
  sent : Option ℤ
  bytesWritten : ℤ
  deriving DecidableEq, Repr

/-- `connect` on a descriptor. -/
def connect (fd result : ℤ) : ℤ := if fd < 0 then -1 else result

/-- `bytesWritten` from `framesWritten`, with `mBitShift = 2`. -/
def bytesOf (framesWritten : ℤ) : ℤ := if 0 < framesWritten then framesWritten * 4 else framesWritten

/-- The head of the call: the watchdog, or reading the switch. -/
def readSwitch (g : Globals) (c : Call) : Globals × List Char × Bool :=
  if 10 ≤ g.dumpSocketWatchDog then
    ({ g with dumpSwitch := 0, dumpSocketWatchDog := 0 }, fprintfZero c.file, true)
  else ({ g with dumpSwitch := c.scanned.getD g.dumpSwitch }, c.file, false)

/-- The connection to the bridge, tried when there is no socket yet. -/
def openSocket (g : Globals) (c : Call) : Globals × Option ℤ :=
  if g.dumpSocket < 0 then
    let watchDog := if c.socket < 0 then g.dumpSocketWatchDog + 1 else g.dumpSocketWatchDog
    let ready := connect c.socket c.connect
    ({ g with dumpSocket := c.socket, dumpSocketReady := ready,
              dumpSocketWatchDog := if ready < 0 then 10 else watchDog }, some c.socket)
  else (g, none)

/-- Sending the buffer on the socket, if it is connected; the frames count as written. -/
def sendBuffer (g : Globals) (c : Call) : Globals × Option ℤ × ℤ :=
  if 0 ≤ g.dumpSocketReady then
    if c.send < 1 then ({ g with dumpSocketWatchDog := 10 }, some c.send, 0)
    else ({ g with dumpSocketWatchDog := 0 }, some c.send, c.send)
  else (g, none, 0)

/-- **One call of `threadLoop_write`**, with a normal sink and an open switch file. -/
def threadLoopWrite (g : Globals) (c : Call) : Outcome :=
  let (g, file, wroteZero) := readSwitch g c
  if g.dumpSwitch = 0 then
    { globals := { g with dumpSocketReady := -1, dumpSocket := -1 }, file, wroteZero,
      played := some c.sink, opened := none, sent := none, bytesWritten := bytesOf c.sink }
  else
    let (g, opened) := openSocket g c
    let (g, sent, framesWritten) := sendBuffer g c
    { globals := g, file, wroteZero, played := none, opened, sent,
      bytesWritten := bytesOf framesWritten }

/-- The call loses its buffer: it neither plays it nor has `send` take a byte of it. -/
def Outcome.Drops (o : Outcome) : Prop := o.played = none ∧ ∀ n, o.sent = some n → n < 1

instance (o : Outcome) : Decidable o.Drops := by
  unfold Outcome.Drops
  cases h : o.sent with
  | none => exact decidable_of_iff (o.played = none) (by simp)
  | some n => exact decidable_of_iff (o.played = none ∧ n < 1) (by simp)

/-- The globals after a sequence of calls. -/
def afterCalls (g : Globals) (cs : List Call) : Globals :=
  cs.foldl (fun g c => (threadLoopWrite g c).globals) g

theorem openSocket_dumpSwitch (g : Globals) (c : Call) :
    (openSocket g c).1.dumpSwitch = g.dumpSwitch := by
  unfold openSocket
  split_ifs <;> rfl

theorem sendBuffer_dumpSwitch (g : Globals) (c : Call) :
    (sendBuffer g c).1.dumpSwitch = g.dumpSwitch := by
  unfold sendBuffer
  split_ifs <;> rfl

theorem threadLoopWrite_dumpSwitch (g : Globals) (c : Call) :
    (threadLoopWrite g c).globals.dumpSwitch = (readSwitch g c).1.dumpSwitch := by
  unfold threadLoopWrite
  by_cases h : (readSwitch g c).1.dumpSwitch = 0
  · simp [h]
  · simp [h, sendBuffer_dumpSwitch, openSocket_dumpSwitch]

theorem threadLoopWrite_file (g : Globals) (c : Call) :
    (threadLoopWrite g c).file = (readSwitch g c).2.1 := by
  unfold threadLoopWrite
  by_cases h : (readSwitch g c).1.dumpSwitch = 0
  · simp [h]
  · simp [h]

/-! ### What holds between two calls -/

/-- A socket that is not connected is left behind only with the watchdog at its limit. -/
def Inv (g : Globals) : Prop :=
  0 ≤ g.dumpSocket → g.dumpSocketReady < 0 → 10 ≤ g.dumpSocketWatchDog

theorem inv_initial : Inv {} := by
  intro h _
  exact absurd h (by decide)

variable {g : Globals}

theorem openSocket_ready (hg : Inv g) (c : Call) :
    0 ≤ (openSocket g c).1.dumpSocketReady ∨ 10 ≤ (openSocket g c).1.dumpSocketWatchDog := by
  unfold openSocket
  by_cases h : g.dumpSocket < 0
  · rw [if_pos h]
    by_cases hr : connect c.socket c.connect < 0
    · right; simp [hr]
    · left; simpa using hr
  · rw [if_neg h]
    by_cases hr : g.dumpSocketReady < 0
    · right; exact hg (by omega) hr
    · left; show 0 ≤ g.dumpSocketReady; omega

theorem sendBuffer_ready (g : Globals) (c : Call) :
    (sendBuffer g c).1.dumpSocketReady = g.dumpSocketReady := by
  unfold sendBuffer
  split_ifs <;> rfl

theorem sendBuffer_watchDog {c : Call}
    (hg : 0 ≤ g.dumpSocketReady ∨ 10 ≤ g.dumpSocketWatchDog)
    (hs : ∀ n, (sendBuffer g c).2.1 = some n → n < 1) :
    10 ≤ (sendBuffer g c).1.dumpSocketWatchDog := by
  unfold sendBuffer at hs ⊢
  by_cases hr : 0 ≤ g.dumpSocketReady
  · rw [if_pos hr] at hs ⊢
    by_cases hn : c.send < 1
    · rw [if_pos hn]
    · rw [if_neg hn] at hs
      exact absurd (hs c.send rfl) hn
  · rw [if_neg hr]
    exact hg.resolve_left hr

/-- Reading the switch keeps the invariant, unless it ends with the switch off. -/
theorem readSwitch_inv (hg : Inv g) (c : Call) (h : (readSwitch g c).1.dumpSwitch ≠ 0) :
    Inv (readSwitch g c).1 := by
  unfold readSwitch at h ⊢
  split_ifs at h ⊢ with hw
  · exact absurd rfl h
  · exact hg

/-- **One call keeps the invariant.** -/
theorem threadLoopWrite_inv (hg : Inv g) (c : Call) : Inv (threadLoopWrite g c).globals := by
  unfold threadLoopWrite
  by_cases h : (readSwitch g c).1.dumpSwitch = 0
  · simp only [h, if_true]
    intro h0
    exact absurd h0 (by simp)
  · simp only [h, if_false]
    intro _ hr
    rw [sendBuffer_ready] at hr
    have ho := openSocket_ready (readSwitch_inv hg c h) c
    refine sendBuffer_watchDog ho fun n hn => ?_
    -- an unconnected socket sends nothing
    unfold sendBuffer at hn
    rw [if_neg (by omega)] at hn
    exact absurd hn (by simp)

theorem afterCalls_inv (cs : List Call) : Inv (afterCalls {} cs) :=
  List.foldlRecOn cs _ inv_initial fun _ hg c _ => threadLoopWrite_inv hg c

/-- **A dropped buffer leaves the watchdog at its limit.** -/
theorem drop_sets_watchDog (hg : Inv g) {c : Call} (hd : (threadLoopWrite g c).Drops) :
    10 ≤ (threadLoopWrite g c).globals.dumpSocketWatchDog := by
  unfold threadLoopWrite at hd ⊢
  by_cases h : (readSwitch g c).1.dumpSwitch = 0
  · simp only [h, if_true] at hd
    exact absurd hd.1 (by simp)
  · simp only [h, if_false] at hd ⊢
    exact sendBuffer_watchDog (openSocket_ready (readSwitch_inv hg c h) c) hd.2

/-- With the watchdog at its limit the call writes `0` to the file and plays its buffer. -/
theorem watchDog_plays (hg : 10 ≤ g.dumpSocketWatchDog) (c : Call) :
    (threadLoopWrite g c).wroteZero = true ∧ (threadLoopWrite g c).file = fprintfZero c.file ∧
      (threadLoopWrite g c).played = some c.sink := by
  have h : readSwitch g c =
      ({ g with dumpSwitch := 0, dumpSocketWatchDog := 0 }, fprintfZero c.file, true) := by
    unfold readSwitch
    rw [if_pos hg]
  unfold threadLoopWrite
  rw [h]
  exact ⟨rfl, rfl, rfl⟩

/-- **The watchdog of the diversion.** From the initial globals, after any calls: a call that drops
its buffer is followed by one that writes `0` to the switch file and plays its own, so no two calls
in a row drop theirs. -/
theorem drop_then_play (cs : List Call) (c c' : Call)
    (hd : (threadLoopWrite (afterCalls {} cs) c).Drops) :
    let next := threadLoopWrite (threadLoopWrite (afterCalls {} cs) c).globals c'
    next.wroteZero = true ∧ next.file = fprintfZero c'.file ∧ next.played = some c'.sink ∧
      ¬ next.Drops := by
  have hw := drop_sets_watchDog (afterCalls_inv cs) hd
  obtain ⟨hz, hf, hp⟩ := watchDog_plays hw c'
  exact ⟨hz, hf, hp, fun h => absurd (h.1.symm.trans hp) (by simp)⟩

/-- The bridge refuses the connection at the first call; the second call plays. -/
theorem drop_then_play_refused :
    let refused : Call := ⟨['1'], some 1, 7, -1, 0, 960⟩
    (threadLoopWrite (afterCalls {} []) refused).Drops ∧
      (threadLoopWrite (threadLoopWrite (afterCalls {} []) refused).globals refused).played =
        some 960 := by
  have hd : (threadLoopWrite (afterCalls {} []) ⟨['1'], some 1, 7, -1, 0, 960⟩).Drops := by decide
  exact ⟨hd, (drop_then_play [] _ ⟨['1'], some 1, 7, -1, 0, 960⟩ hd).2.2.1⟩

end Waveplay.AudioFlinger.ThreadLoopWrite
