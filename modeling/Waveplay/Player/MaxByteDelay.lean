import Waveplay.Player.Line

/-! # `maxbytedelay`

`open` computes the largest delay of the speakers it has opened. `setSpeakers` computes it before it opens
the new ones, whose delay is still `0`, and from the old value, which stays. So the value is right as long
as the speakers that come and go leave the largest delay as it is.

* `IsMaximum`: `maxbytedelay` is the largest delay, so that no speaker reads beyond its own position.
* `Attained`: the largest delay of the new speakers is that of the old.
* `isMaximum_iff`: in a run of `setSpeakers`, `open` and `close` the one holds throughout exactly if the
  other holds at each call. -/

namespace Waveplay.Player.MaxByteDelay

open Waveplay.Lib.Runs Waveplay.Lib.Wrap
open Waveplay.Player.Line

/-- The calls that concern the speakers, which open without an error. -/
inductive Setup
  | setSpeakers (newspeakers : List Speaker)
  | open (sampleRate bitspersecond : ℤ)
  | close

def setup (m : MultiLine) : Setup → Option MultiLine
  | .setSpeakers newspeakers => call m (.setSpeakers (fun _ => true) newspeakers)
  | .open sampleRate bitspersecond => call m (.open (fun _ => true) sampleRate bitspersecond)
  | .close => call m .close

/-- The largest delay, `0` if there is none. -/
def largest (delays : List ℤ) : ℤ := delays.max?.getD 0

/-- While the line is open, `maxbytedelay` is the largest delay, and no speaker reads beyond its own
position. -/
def IsMaximum (m : MultiLine) : Prop :=
  m.isOpen = true → m.maxbytedelay = largest (m.speakers.map (·.bytedelay)) ∧
    ∀ st ∈ m.speakers, ∀ tail, m.position st.bytedelay tail ≤ tail

/-- The condition on a call: speakers set while the line is open have no larger delay than the present
largest and one of them has it; of the speakers that are opened one has a delay that is not negative. -/
def Attained (m : MultiLine) : Setup → Prop
  | .setSpeakers newspeakers => m.isOpen = true → newspeakers ≠ [] →
      (∀ s ∈ newspeakers, s.bytedelay m.bytespersecond ≤ m.maxbytedelay) ∧
      ∃ s ∈ newspeakers, s.bytedelay m.bytespersecond = m.maxbytedelay
  | .open sampleRate bitspersecond => sampleRate ≠ 0 → m.speakers ≠ [] →
      ∃ st ∈ m.speakers, 0 ≤ st.speaker.bytedelay (bitspersecond / 8)
  | .close => True

/-- What the calls keep: the delays are those of the present format, and `maxbytedelay` is the largest. -/
structure Tracks (m : MultiLine) : Prop where
  nonneg : 0 ≤ m.maxbytedelay
  delays : m.isOpen = true → ∀ st ∈ m.speakers, st.bytedelay = st.speaker.bytedelay m.bytespersecond
  maximum : m.isOpen = true → m.maxbytedelay = largest (m.speakers.map (·.bytedelay))

/-! ### Delays -/

theorem largest_eq_iff {delays : List ℤ} (hne : delays ≠ []) {d : ℤ} :
    d = largest delays ↔ d ∈ delays ∧ ∀ x ∈ delays, x ≤ d := by
  rw [← List.max?_eq_some_iff, largest]
  cases h : delays.max? with
  | none => exact absurd (List.max?_eq_none_iff.mp h) hne
  | some x => simp [eq_comm]

theorem le_largest {delays : List ℤ} {x : ℤ} (hx : x ∈ delays) : x ≤ largest delays :=
  ((largest_eq_iff (List.ne_nil_of_mem hx)).mp rfl).2 x hx

theorem bytedelay_bounds (s : Speaker) (bytespersecond : ℤ) :
    -2147484 < s.bytedelay bytespersecond ∧ s.bytedelay bytespersecond < 2147484 := by
  obtain ⟨hlow, hhigh⟩ := toInt_bounds (s.delay * bytespersecond)
  have hmul : (s.bytedelay bytespersecond).natAbs ≤
      ((toInt (s.delay * bytespersecond)).tdiv 1000).natAbs := by
    rw [Speaker.bytedelay, Int.natAbs_mul, Int.natAbs_tdiv, Int.natAbs_natCast]
    exact Nat.div_mul_le_self _ _
  have hdiv : ((toInt (s.delay * bytespersecond)).tdiv 1000).natAbs ≤ 2147483648 / 1000 := by
    rw [Int.natAbs_tdiv]
    exact Nat.div_le_div_right (by omega)
  omega

theorem largest_bounds {delays : List ℤ} (h : ∀ x ∈ delays, -2147484 < x ∧ x < 2147484) :
    -2147484 < largest delays ∧ largest delays < 2147484 := by
  rcases eq_or_ne delays [] with rfl | hne
  · decide
  · exact h _ ((largest_eq_iff hne).mp rfl).1

theorem Tracks.isMaximum {m : MultiLine} (hm : Tracks m) : IsMaximum m := by
  intro hopen
  refine ⟨hm.maximum hopen, fun st hst tail => ?_⟩
  have hbounds : ∀ x ∈ m.speakers.map (·.bytedelay), -2147484 < x ∧ x < 2147484 := by
    intro x hx
    obtain ⟨u, hu, rfl⟩ := List.mem_map.mp hx
    rw [hm.delays hopen u hu]
    exact bytedelay_bounds _ _
  have hmem : st.bytedelay ∈ m.speakers.map (·.bytedelay) := List.mem_map_of_mem hst
  have hle := le_largest hmem
  have hst' := hbounds _ hmem
  have hmax := largest_bounds hbounds
  rw [MultiLine.position, hm.maximum hopen, toInt_of_bounds (by omega) (by omega)]
  omega

/-! ### `setSpeakers` -/

section

variable {m : MultiLine}

/-- The entry of a speaker after `setSpeakers` on an open line. -/
def entry (m : MultiLine) (s : Speaker) : SpeakerState :=
  if m.speakers.any (·.speaker = s) then m.stateOf s
  else openSpeaker m.bytespersecond (m.stateOf s)

theorem entry_speaker (s : Speaker) : (entry m s).speaker = s := by
  unfold entry
  split_ifs
  · exact stateOf_speaker m s
  · exact stateOf_speaker m s

theorem stateOf_cases (s : Speaker) :
    m.speakers.any (·.speaker = s) = true ∧ m.stateOf s ∈ m.speakers ∨
      m.speakers.any (·.speaker = s) = false ∧ (m.stateOf s).bytedelay = 0 := by
  unfold MultiLine.stateOf
  cases hf : m.speakers.find? (·.speaker = s) with
  | none =>
    rw [List.find?_eq_none] at hf
    exact .inr ⟨by simpa using hf, rfl⟩
  | some st =>
    have hst := List.mem_of_find?_eq_some hf
    have hs : st.speaker = s := by simpa using List.find?_some hf
    exact .inl ⟨List.any_eq_true.mpr ⟨st, hst, by simpa using hs⟩, hst⟩

theorem setSpeakers_speakers (hopen : m.isOpen = true) {newspeakers : List Speaker}
    (hne : newspeakers ≠ []) : (m.setSpeakers (fun _ => true) newspeakers).speakers =
      newspeakers.dedup.map (entry m) := by
  rw [MultiLine.setSpeakers, if_neg hne]
  simp only [hopen, if_true]
  rw [List.filterMap_map, ← List.filterMap_eq_map']
  refine List.filterMap_congr fun s _ => ?_
  simp only [Function.comp_apply, stateOf_speaker, entry]
  split_ifs
  · rfl
  · rfl

theorem Tracks.entry_bytedelay (hm : Tracks m) (hopen : m.isOpen = true) (s : Speaker) :
    (entry m s).bytedelay = s.bytedelay m.bytespersecond := by
  unfold entry
  rcases stateOf_cases s with ⟨hs, hmem⟩ | ⟨hs, -⟩
  · rw [if_pos hs, hm.delays hopen _ hmem, stateOf_speaker]
  · rw [if_neg (by rw [hs]; exact Bool.false_ne_true), openSpeaker, stateOf_speaker]

/-- **`setSpeakers` leaves `maxbytedelay` as it is** on an open line. -/
theorem Tracks.setSpeakers_maxbytedelay (hm : Tracks m) (hopen : m.isOpen = true)
    {newspeakers : List Speaker} (hne : newspeakers ≠ []) :
    (m.setSpeakers (fun _ => true) newspeakers).maxbytedelay = m.maxbytedelay := by
  have hle : ∀ st ∈ newspeakers.dedup.map m.stateOf, max m.maxbytedelay st.bytedelay =
      m.maxbytedelay := by
    intro st hst
    obtain ⟨s, -, rfl⟩ := List.mem_map.mp hst
    refine max_eq_left ?_
    rcases stateOf_cases s with ⟨-, hmem⟩ | ⟨-, h0⟩
    · rw [hm.maximum hopen]
      exact le_largest (List.mem_map_of_mem hmem)
    · rw [h0]
      exact hm.nonneg
  rw [MultiLine.setSpeakers, if_neg hne]
  exact foldl_same (by simpa using hne) hle hle

theorem setSpeakers_nonneg (h : 0 ≤ m.maxbytedelay) (newspeakers : List Speaker) :
    0 ≤ (m.setSpeakers (fun _ => true) newspeakers).maxbytedelay := by
  unfold MultiLine.setSpeakers
  by_cases hnil : newspeakers = []
  · rw [if_pos hnil]
    exact h
  · rw [if_neg hnil]
    exact List.foldlRecOn _ _ le_rfl fun _ _ _ _ => le_max_of_le_left h

/-- On an open line `maxbytedelay` is right exactly if the new speakers attain it. -/
theorem Tracks.setSpeakers_iff (hm : Tracks m) (hopen : m.isOpen = true)
    {newspeakers : List Speaker} (hne : newspeakers ≠ []) :
    (m.setSpeakers (fun _ => true) newspeakers).maxbytedelay =
        largest ((m.setSpeakers (fun _ => true) newspeakers).speakers.map (·.bytedelay)) ↔
      (∀ s ∈ newspeakers, s.bytedelay m.bytespersecond ≤ m.maxbytedelay) ∧
        ∃ s ∈ newspeakers, s.bytedelay m.bytespersecond = m.maxbytedelay := by
  have hmap : (m.setSpeakers (fun _ => true) newspeakers).speakers.map (·.bytedelay) =
      newspeakers.dedup.map (·.bytedelay m.bytespersecond) := by
    rw [setSpeakers_speakers hopen hne, List.map_map]
    exact List.map_congr_left fun s _ => hm.entry_bytedelay hopen s
  rw [hmap, hm.setSpeakers_maxbytedelay hopen hne, largest_eq_iff (by simpa using hne), and_comm]
  simp

/-! ### `open` -/

theorem foldl_max_spec : ∀ (sts : List SpeakerState) (b : ℤ),
    b ≤ sts.foldl (fun d st => max d st.bytedelay) b ∧
      (∀ st ∈ sts, st.bytedelay ≤ sts.foldl (fun d st => max d st.bytedelay) b) ∧
      (sts.foldl (fun d st => max d st.bytedelay) b = b ∨
        sts.foldl (fun d st => max d st.bytedelay) b ∈ sts.map (·.bytedelay))
  | [], b => ⟨le_rfl, fun st hst => absurd hst List.not_mem_nil, .inl rfl⟩
  | st :: sts, b => by
    obtain ⟨hb, hall, hmem⟩ := foldl_max_spec sts (max b st.bytedelay)
    rw [List.foldl_cons]
    refine ⟨le_trans (le_max_left _ _) hb, ?_, ?_⟩
    · intro u hu
      rcases List.mem_cons.mp hu with rfl | hu
      · exact le_trans (le_max_right _ _) hb
      · exact hall u hu
    · rcases hmem with hmem | hmem
      · rw [hmem]
        rcases max_choice b st.bytedelay with h | h
        · exact .inl h
        · exact .inr (by rw [h]; exact List.mem_cons_self)
      · exact .inr (List.mem_cons_of_mem _ hmem)

/-- The loop finds the largest delay exactly if one is not negative. -/
theorem foldl_max_iff {sts : List SpeakerState} (hne : sts ≠ []) :
    sts.foldl (fun d st => max d st.bytedelay) 0 = largest (sts.map (·.bytedelay)) ↔
      ∃ st ∈ sts, 0 ≤ st.bytedelay := by
  obtain ⟨hnonneg, hall, hmem⟩ := foldl_max_spec sts 0
  rw [largest_eq_iff (by simpa using hne)]
  constructor
  · rintro ⟨hin, -⟩
    obtain ⟨st, hst, heq⟩ := List.mem_map.mp hin
    exact ⟨st, hst, heq ▸ hnonneg⟩
  · rintro ⟨st, hst, h0⟩
    refine ⟨?_, fun x hx => ?_⟩
    · rcases hmem with hmem | hmem
      · have hle := hall st hst
        rw [hmem] at hle ⊢
        exact List.mem_map.mpr ⟨st, hst, le_antisymm hle h0⟩
      · exact hmem
    · obtain ⟨u, hu, rfl⟩ := List.mem_map.mp hx
      exact hall u hu

theorem open_speakers (m : MultiLine) (sampleRate bitspersecond : ℤ) :
    (m.open (fun _ => true) sampleRate bitspersecond).speakers =
      m.speakers.map (openSpeaker (bitspersecond / 8)) := by
  simp [MultiLine.open, List.filterMap_eq_map']

/-- `open` finds the largest delay exactly if one of its speakers has one that is not negative. -/
theorem open_iff (m : MultiLine) (sampleRate bitspersecond : ℤ) :
    (m.open (fun _ => true) sampleRate bitspersecond).maxbytedelay =
        largest ((m.open (fun _ => true) sampleRate bitspersecond).speakers.map (·.bytedelay)) ↔
      (m.speakers ≠ [] → ∃ st ∈ m.speakers, 0 ≤ st.speaker.bytedelay (bitspersecond / 8)) := by
  have hmax : (m.open (fun _ => true) sampleRate bitspersecond).maxbytedelay =
      (m.open (fun _ => true) sampleRate bitspersecond).speakers.foldl
        (fun d st => max d st.bytedelay) 0 := rfl
  rw [hmax, open_speakers]
  by_cases hne : m.speakers = []
  · simp [hne, largest]
  · rw [foldl_max_iff (by simpa using hne)]
    simp [hne, openSpeaker]

/-! ### Runs -/

/-- **One call.** -/
theorem setup_tracks (hm : Tracks m) {c : Setup} (hc : Attained m c) {m' : MultiLine}
    (h : setup m c = some m') : Tracks m' := by
  cases c with
  | setSpeakers newspeakers =>
    obtain rfl := Option.some.inj h
    by_cases hne : newspeakers = []
    · rw [MultiLine.setSpeakers, if_pos hne]
      exact hm
    · have hnonneg := setSpeakers_nonneg hm.nonneg newspeakers
      have hformat : (m.setSpeakers (fun _ => true) newspeakers).sampleRate = m.sampleRate ∧
          (m.setSpeakers (fun _ => true) newspeakers).bytespersecond = m.bytespersecond := by
        simp [MultiLine.setSpeakers, hne]
      have hopen : (m.setSpeakers (fun _ => true) newspeakers).isOpen = m.isOpen := by
        simp [MultiLine.isOpen, hformat.1]
      refine ⟨hnonneg, fun ho st hst => ?_, fun ho => ?_⟩
      · rw [hopen] at ho
        rw [setSpeakers_speakers ho hne] at hst
        obtain ⟨s, -, rfl⟩ := List.mem_map.mp hst
        rw [hformat.2, entry_speaker]
        exact hm.entry_bytedelay ho s
      · rw [hopen] at ho
        exact (hm.setSpeakers_iff ho hne).mpr (hc ho hne)
  | «open» sampleRate bitspersecond =>
    obtain rfl := Option.some.inj h
    refine ⟨(foldl_max_spec _ 0).1, fun _ st hst => ?_, fun ho => ?_⟩
    · rw [open_speakers] at hst
      obtain ⟨u, -, rfl⟩ := List.mem_map.mp hst
      rfl
    · have hrate : sampleRate ≠ 0 := by simpa [MultiLine.isOpen, MultiLine.open] using ho
      exact (open_iff m sampleRate bitspersecond).mpr (hc hrate)
  | close =>
    obtain rfl := Option.some.inj h
    have hclosed : m.close.isOpen ≠ true := by
      simp [MultiLine.close, MultiLine.update, MultiLine.isOpen]
    exact ⟨hm.nonneg, fun ho => absurd ho hclosed, fun ho => absurd ho hclosed⟩

theorem setup_wrong (hm : Tracks m) {c : Setup} (hc : ¬ Attained m c) :
    ∃ m', setup m c = some m' ∧ ¬ IsMaximum m' := by
  cases c with
  | setSpeakers newspeakers =>
    simp only [Attained, Classical.not_imp] at hc
    obtain ⟨hopen, hne, hnot⟩ := hc
    refine ⟨_, rfl, fun h => hnot ?_⟩
    have hopen' : (m.setSpeakers (fun _ => true) newspeakers).isOpen = true := by
      simpa [MultiLine.isOpen, MultiLine.setSpeakers, hne] using hopen
    exact (hm.setSpeakers_iff hopen hne).mp (h hopen').1
  | «open» sampleRate bitspersecond =>
    simp only [Attained, Classical.not_imp] at hc
    obtain ⟨hrate, hne, hnot⟩ := hc
    refine ⟨_, rfl, fun h => hnot ?_⟩
    have hopen : (m.open (fun _ => true) sampleRate bitspersecond).isOpen = true := by
      simpa [MultiLine.isOpen, MultiLine.open] using hrate
    exact (open_iff m sampleRate bitspersecond).mp (h hopen).1 hne
  | close => exact absurd trivial hc

end

theorem tracks_fresh : Tracks {} :=
  ⟨le_rfl, fun ho => absurd ho (by decide), fun ho => absurd ho (by decide)⟩

/-- **`maxbytedelay` is the maximum** throughout a run of `setSpeakers`, `open` and `close`, and no speaker
reads beyond its own position, exactly if the largest delay is kept by every `setSpeakers` on an open line
and is not negative at every `open`. -/
theorem isMaximum_iff (cs : List Setup) :
    (∀ n m, run setup {} (cs.take n) = some m → IsMaximum m) ↔ AllSteps setup Attained {} cs := by
  refine forall_run_take_iff (fun _ => Tracks.isMaximum) ?_ ?_ cs tracks_fresh
  · intro m c m' hm hc h
    exact setup_tracks hm hc h
  · intro m c hm hc
    exact setup_wrong hm hc

/-- A speaker with a delay joins one without: it reads `126720` bytes ahead. -/
theorem joins_with_delay :
    (run setup {} [.setSpeakers [airport 0 0], .open 44100 1411200,
      .setSpeakers [airport 0 0, airport 1 725]]).map
      (fun m => (m.maxbytedelay, m.speakers.map fun st => (st.bytedelay, m.position st.bytedelay 0))) =
    some (0, [(0, 0), (126720, 126720)]) := by
  decide

end Waveplay.Player.MaxByteDelay
