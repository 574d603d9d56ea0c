import Mathlib.Data.List.Dedup
import Waveplay.Lib.Wrap
import Waveplay.Lib.Ring
import Waveplay.Lib.Runs

/-! # `MultiLine`

One stream for several speakers. What is written goes into a ring; `push` gives each speaker the blocks of
its own buffer size that are complete, from a position of its own that lags behind by the difference of
the delays. A `long` is an integer here, an `int` wraps around. -/

namespace Waveplay.Player.Line

open Waveplay.Lib.Wrap Waveplay.Lib

/-- The length of `queue`. -/
def queueLength : ℕ := 704000

/-- What a speaker answers; `key` tells the objects apart. -/
structure Speaker where
  key : ℕ
  delay : ℤ
  bufferSize : ℕ
  positive : 0 < bufferSize
  fits : bufferSize ≤ queueLength
  deriving DecidableEq

/-- A speaker with its `SpeakerState`, and the bytes it has been given since it is listed. -/
structure SpeakerState where
  speaker : Speaker
  /-- `none` is `Long.MIN_VALUE` -/
  tail : Option ℤ := none
  bytedelay : ℤ := 0
  given : List UInt8 := []
  deriving DecidableEq

/-- The fields. The entries of `speakers` are in the order of its iterator. -/
structure MultiLine where
  queue : ℕ → UInt8 := fun _ => 0
  head : ℕ := 0
  tail : ℤ := 0
  speakers : List SpeakerState := []
  sampleRate : ℤ := 0
  bytespersecond : ℤ := 0
  maxbytedelay : ℤ := 0
  msdelay : ℤ := 0

def MultiLine.isOpen (m : MultiLine) : Bool := m.sampleRate ≠ 0

def MultiLine.update (m : MultiLine) : MultiLine :=
  { m with msdelay :=
      if m.bytespersecond = 0 then 0
      else toInt (((m.head - m.tail) * 1000).tdiv m.bytespersecond) }

/-! ### Speakers -/

/-- The `bytedelay` of a speaker. -/
def Speaker.bytedelay (s : Speaker) (bytespersecond : ℤ) : ℤ :=
  ((toInt (s.delay * bytespersecond)).tdiv 1000).tdiv s.bufferSize * s.bufferSize

/-- `openSpeaker`, without an error. -/
def openSpeaker (bytespersecond : ℤ) (st : SpeakerState) : SpeakerState :=
  { st with bytedelay := st.speaker.bytedelay bytespersecond }

/-- The entry of a speaker in the new map of `setSpeakers`. -/
def MultiLine.stateOf (m : MultiLine) (s : Speaker) : SpeakerState :=
  (m.speakers.find? (·.speaker = s)).getD { speaker := s }

theorem stateOf_speaker (m : MultiLine) (s : Speaker) : (m.stateOf s).speaker = s := by
  unfold MultiLine.stateOf
  cases hf : m.speakers.find? (·.speaker = s) with
  | none => rfl
  | some st => simpa using List.find?_some hf

/-- `setSpeakers`. The new speakers are in the order in which the new map iterates, `opens` says which of
them open without an error. The loop for `tempmaxbytedelay` reads `maxbytedelay`. -/
def MultiLine.setSpeakers (m : MultiLine) (opens : Speaker → Bool) (newspeakers : List Speaker) :
    MultiLine :=
  if newspeakers = [] then m
  else
    let tempspeakers := newspeakers.dedup.map m.stateOf
    let tempmaxbytedelay := tempspeakers.foldl (fun _ st => max m.maxbytedelay st.bytedelay) 0
    let opened := tempspeakers.filterMap fun st =>
      if m.speakers.any (·.speaker = st.speaker) then some st
      else if opens st.speaker then some (openSpeaker m.bytespersecond st)
      else none
    { m with
      speakers := if m.isOpen then opened else tempspeakers
      maxbytedelay := tempmaxbytedelay }

/-- `open`; `bitspersecond` is the product of the parameters, rounded to an `int`. -/
def MultiLine.open (m : MultiLine) (opens : Speaker → Bool) (sampleRate bitspersecond : ℤ) :
    MultiLine :=
  let bytespersecond := bitspersecond / 8
  let speakers := m.speakers.filterMap fun st =>
    if opens st.speaker then some (openSpeaker bytespersecond st) else none
  { m with
    sampleRate, bytespersecond, speakers
    maxbytedelay := speakers.foldl (fun d st => max d st.bytedelay) 0 }

def MultiLine.close (m : MultiLine) : MultiLine :=
  MultiLine.update { m with sampleRate := 0, bytespersecond := 0 }

/-- The loop of `isValid` over the speakers: those with an error are removed, up to the first without. -/
def isValidFrom (failed : Speaker → Bool) : List Speaker → MultiLine → MultiLine × Bool
  | [], m => (m, false)
  | s :: ss, m =>
    if failed s then
      isValidFrom failed ss (m.setSpeakers (fun _ => true) ((m.speakers.map (·.speaker)).erase s))
    else (m, true)

def MultiLine.isValid (m : MultiLine) (failed : Speaker → Bool) : MultiLine × Bool :=
  isValidFrom failed (m.speakers.map (·.speaker)) m

/-! ### Bytes -/

/-- `Math.min` on `newtail`; `none` is `Long.MAX_VALUE`. -/
def minTail (newtail : Option ℤ) (t : ℤ) : Option ℤ :=
  some (match newtail with
    | none => t
    | some u => min u t)

/-- Where a speaker at `tail` reads. -/
def MultiLine.position (m : MultiLine) (bytedelay tail : ℤ) : ℤ :=
  tail - toInt (m.maxbytedelay - bytedelay)

/-- The inner loop of `push`: `tail`, the bytes given and `newtail`. -/
def pushLoop (m : MultiLine) (len : ℕ) (bytedelay : ℤ) :
    ℕ → ℤ → List UInt8 → Option ℤ → Option (ℤ × List UInt8 × Option ℤ)
  | 0, _, _, _ => none
  | fuel + 1, tail, given, newtail =>
    let qt := (m.position bytedelay tail).tmod queueLength
    if 0 ≤ qt ∧ len ≤ m.head - tail then
      pushLoop m len bytedelay fuel (tail + len) (given ++ Ring.get queueLength m.queue qt.toNat len)
        (minTail newtail (tail + len - bytedelay))
    else some (if qt < 0 then m.head else tail, given, newtail)

/-- The outer loop of `push`. -/
def pushAll (m : MultiLine) : List SpeakerState → Option ℤ → Option (List SpeakerState × Option ℤ)
  | [], newtail => some ([], newtail)
  | st :: sts, newtail => do
    let start := st.tail.getD (max 0 (m.tail - st.bytedelay))
    let (tail, given, newtail) ← pushLoop m st.speaker.bufferSize st.bytedelay
      ((m.head - start).toNat + 1) start st.given newtail
    let (sts, newtail) ← pushAll m sts newtail
    some ({ st with tail := some tail, given } :: sts, newtail)

def MultiLine.push (m : MultiLine) : Option MultiLine :=
  (pushAll m m.speakers none).map fun (speakers, newtail) =>
    MultiLine.update { m with speakers, tail := newtail.getD m.tail }

/-- `write`; `none` is an exception. -/
def MultiLine.write (m : MultiLine) (failed : Speaker → Bool) (buf : List UInt8) :
    Option MultiLine :=
  let (m, valid) := m.isValid failed
  if valid then
    let avail := queueLength - toInt (m.head - m.tail)
    let qh := m.head % queueLength
    if avail < buf.length ∨ queueLength < qh + buf.length - queueLength then none
    else MultiLine.push { m with
      queue := Ring.put queueLength m.queue qh buf
      head := m.head + buf.length }
  else some m

/-- The positions go back to the start. -/
def MultiLine.rewind (m : MultiLine) (valid : Bool) : MultiLine :=
  MultiLine.update { m with
    speakers := if valid then m.speakers.map fun st => { st with tail := some 0 } else m.speakers
    head := 0
    tail := 0 }

def MultiLine.flush (m : MultiLine) (failed : Speaker → Bool) : MultiLine :=
  let (m, valid) := m.isValid failed
  m.rewind valid

/-- Zero bytes are put into the ring. -/
def MultiLine.zeros : ℕ → MultiLine → MultiLine
  | 0, m => m
  | n + 1, m => MultiLine.zeros n { m with
      queue := Function.update m.queue (m.head % queueLength) 0
      head := m.head + 1 }

/-- The loop of `drain`. -/
def drainLoop (minbuf : ℕ) (newhead : ℤ) : ℕ → MultiLine → Option MultiLine
  | 0, _ => none
  | fuel + 1, m =>
    if m.head < newhead then (m.zeros minbuf).push.bind (drainLoop minbuf newhead fuel) else some m

def MultiLine.drain (m : MultiLine) : Option MultiLine :=
  let minbuf := m.speakers.foldl (fun b st => min b st.speaker.bufferSize) 2147483647
  let maxbuf := m.speakers.foldl (fun b st => max b st.speaker.bufferSize) 0
  let newhead := m.tail + maxbuf + m.maxbytedelay
  (drainLoop minbuf newhead ((newhead - m.head).toNat + 1) m).map (·.rewind true)

/-! ### Loops over the speakers -/

theorem foldl_same {α β : Type*} {f : β → α → β} {b c : β} : ∀ {xs : List α}, xs ≠ [] →
    (∀ x ∈ xs, f b x = c) → (∀ x ∈ xs, f c x = c) → xs.foldl f b = c
  | [x], _, hb, _ => hb x List.mem_cons_self
  | x :: y :: xs, _, hb, hc => by
    rw [List.foldl_cons, hb x List.mem_cons_self]
    have hrest : ∀ z ∈ y :: xs, f c z = c := fun z hz => hc z (List.mem_cons_of_mem x hz)
    exact foldl_same (List.cons_ne_nil y xs) hrest hrest

/-! ### Calls -/

inductive Call
  | setSpeakers (opens : Speaker → Bool) (newspeakers : List Speaker)
  | open (opens : Speaker → Bool) (sampleRate bitspersecond : ℤ)
  | close
  | write (failed : Speaker → Bool) (buf : List UInt8)
  | flush (failed : Speaker → Bool)
  | drain

/-- A call; `none` if it throws. -/
def call (m : MultiLine) : Call → Option MultiLine
  | .setSpeakers opens newspeakers => some (m.setSpeakers opens newspeakers)
  | .open opens sampleRate bitspersecond => some (m.open opens sampleRate bitspersecond)
  | .close => some m.close
  | .write failed buf => m.write failed buf
  | .flush failed => some (m.flush failed)
  | .drain => m.drain

/-- A fresh line with speakers, opened. -/
def opened (speakers : List Speaker) (sampleRate bitspersecond : ℤ) : MultiLine :=
  (MultiLine.setSpeakers {} (fun _ => true) speakers).open (fun _ => true) sampleRate bitspersecond

/-- The speaker of the airport package. -/
def airport (key : ℕ) (delay : ℤ) : Speaker := ⟨key, delay, 1408, by decide, by decide⟩

end Waveplay.Player.Line
