import Waveplay.RaopPlay.PcmStream
import Waveplay.RaopPlay.SentBlocks

/-! # The end of the source

`auds_write_pcm` returns `-1` when there are no data at all, so that the player stops. But
`pcm_get_next_sample` makes a chunk of less than 32 frames one of 32 frames before it calls it, also if the
source is at its end and there was nothing to read. The block of zeros is then sent, and the source is read
again, for ever.

* `pcmGetNextSample_end`: at the end there is a block, whatever came before.
* `endsSong_iff`: the end of the source ends the song in all steps of a run exactly if the end is never
  read. -/

namespace Waveplay.RaopPlay.EndOfSource

open Waveplay.Lib.Runs Waveplay.RaopPlay.AudioStream Waveplay.RaopPlay.PcmStream
open Waveplay.RaopPlay.RaopClient Waveplay.RaopPlay.MainLoop Waveplay.RaopPlay.SentBlocks

/-! ### Steps with the source -/

/-- What happens in a step, with the stream as it is and what the system gives to `pcm_get_next_sample` if it
is called. If that fails, `buf` and `size` are left at the bytes of the input. -/
structure Feed where
  input : Input
  auds : Auds
  received : Received

/-- The block of `pcm_get_next_sample`. -/
def Feed.block (f : Feed) : Option (List UInt8) :=
  (pcmGetNextSample f.auds f.received).map fun (_, data, size) => data.take size

/-- The input of the loop. -/
def Feed.toInput (f : Feed) : Input :=
  { f.input with
    sample :=
      match f.block with
      | some block => .ok block
      | none => .failed f.input.sample.bytes }

/-- `read` or `recv` returns `0`. -/
def Feed.AtEnd (f : Feed) : Prop := f.received = .bytes []

/-- The step. -/
def feedStep (aes : Block → Block) (p : Player) (f : Feed) : Option Player := step aes p f.toInput

/-- **The end of the source ends the song**: after that read the source is closed and `wait_songdone` is set,
and the block made from it is not sent. -/
def EndsSong (aes : Block → Block) (p : Player) (f : Feed) : Prop :=
  p.GetsSample f.toInput → f.AtEnd → ∀ p' calls, stepCalls aes p f.toInput = some (p', calls) →
    p'.auds = none ∧ p'.raopcl.waitSongdone = true ∧ ∀ block, f.block = some block → Call.sent block ∉ calls

/-- The condition on a step: `pcm_get_next_sample` does not read the end. -/
def HasData (p : Player) (f : Feed) : Prop := p.GetsSample f.toInput → ¬ f.AtEnd

/-! ### Reading the end -/

/-- **At the end of the source** `pcm_get_next_sample` returns a block. -/
theorem pcmGetNextSample_end (auds : Auds) : (pcmGetNextSample auds (.bytes [])).isSome := by
  have hsize : (if ([] : List UInt8).length < MINIMUM_SAMPLE_SIZE * 4 then MINIMUM_SAMPLE_SIZE * 4
      else ([] : List UInt8).length) = 128 := by decide
  unfold pcmGetNextSample
  simp only [hsize]
  rw [show ((128 : ℕ) / 4) = 32 from rfl, audsWritePcm_eq (presents_memory auds.channels 128 _)
    (show 1 ≤ 32 by decide) (memoryFrames_ne_nil (by decide) _)]
  rfl

theorem Feed.AtEnd.block {f : Feed} (h : f.AtEnd) : ∃ block, f.block = some block := by
  have hsome := pcmGetNextSample_end f.auds
  rw [← h] at hsome
  obtain ⟨r, hr⟩ := Option.isSome_iff_exists.mp hsome
  exact ⟨_, by rw [Feed.block, hr]; rfl⟩

theorem stepCalls_isSome (aes : Block → Block) {p : Player} {i : Input} (hp : p.Plays i) :
    ∃ p' calls, stepCalls aes p i = some (p', calls) := by
  have hsome : (stepCalls aes p i).isSome := by
    rw [← Option.isSome_map (f := Prod.fst), stepCalls_fst, step, hp.pc]
    have hnone : p.auds ≠ none := Option.isSome_iff_ne_none.mp hp.auds
    simp only [hp.activated, Bool.not_true, Bool.false_eq_true, if_false, if_neg hnone]
    rcases hp.pause with hno | ⟨hnodata, hpoll⟩
    · rw [hno]
      rfl
    · rw [hnodata]
      simp only
      split_ifs <;> rfl
  obtain ⟨⟨p', calls⟩, h⟩ := Option.isSome_iff_exists.mp hsome
  exact ⟨p', calls, h⟩

/-- **One step** ends the song at the end of the source only if it does not read the end. -/
theorem endsSong_iff_hasData (aes : Block → Block) (p : Player) (f : Feed) :
    EndsSong aes p f ↔ HasData p f := by
  constructor
  · intro h hp hend
    obtain ⟨block, hblock⟩ := hend.block
    obtain ⟨p', calls, hstep⟩ := stepCalls_isSome aes hp.toPlays
    obtain ⟨-, -, hsent⟩ := h hp hend p' calls hstep
    refine hsent block hblock ?_
    have hsample : f.toInput.sample = .ok block := by
      rw [Feed.toInput]
      simp only [hblock]
    cases stepCalls_calls hstep with
    | both _ hcalls =>
      rw [hcalls, hsample]
      simp [Sample.bytes]
    | none hno _ => exact absurd hp hno
  · exact fun h hp hend => absurd hend (h hp)

/-- **The end of the source** ends the song throughout a run exactly if no step of it reads the end. -/
theorem endsSong_iff (aes : Block → Block) (p : Player) (fs : List Feed) :
    AllSteps (feedStep aes) (EndsSong aes) p fs ↔ AllSteps (feedStep aes) HasData p fs :=
  allSteps_congr (endsSong_iff_hasData aes)

/-- The source is ready, and at its end. -/
def atEnd : Feed := { input := { pollAgain := .pollin }, auds := opened, received := .bytes [] }

/-- The source stays open, and a block is sent. -/
theorem endsSong_atEnd : ¬ AllSteps (feedStep id) (EndsSong id) playing [atEnd] ∧
    ∃ p, feedStep id playing atEnd = some p ∧ p.auds = some 7 ∧ p.raopcl.waitSongdone = false ∧
      p.sends.length = 1 := by
  have hgets : playing.GetsSample atEnd.toInput := ⟨⟨rfl, rfl, rfl, .inl rfl⟩, rfl⟩
  constructor
  · rintro ⟨h, -⟩
    exact (endsSong_iff_hasData id playing atEnd).mp h hgets rfl
  · obtain ⟨block, hblock⟩ := Feed.AtEnd.block (f := atEnd) rfl
    have hinput : atEnd.toInput = { pollAgain := .pollin, sample := .ok block } := by
      rw [Feed.toInput]
      simp only [hblock]
      rfl
    rw [feedStep, hinput]
    exact ⟨_, rfl, rfl, rfl, rfl⟩

end Waveplay.RaopPlay.EndOfSource
