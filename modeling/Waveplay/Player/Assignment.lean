import Waveplay.Player.Line

/-! # Speakers and their players

`SpeakerImpl.setPlayer` takes a speaker from its player to another. The player of a speaker is kept twice,
in the speaker and in the `MultiLine` of the player, and `MultiLine.setSpeakers` does nothing when there is
no speaker left: the last speaker of a player cannot be taken away.

* `Belongs`: the two agree.
* `belongs_iff`: they agree throughout a sequence of calls exactly if no call takes away the only speaker
  of a player. -/

namespace Waveplay.Player.Assignment

open Waveplay.Lib.Runs Waveplay.Player.Line

variable {π : Type*}

/-! ### The model -/

/-- `getSpeakers` of `MultiLine` and of `PlayerImpl`. -/
def getSpeakers (m : MultiLine) : List Speaker := m.speakers.map (·.speaker)

/-- `addSpeaker`, where every speaker opens without an error. Adding to the copied list succeeds. -/
def addSpeaker (m : MultiLine) (s : Speaker) : MultiLine :=
  m.setSpeakers (fun _ => true) (getSpeakers m ++ [s])

def removeSpeaker (m : MultiLine) (s : Speaker) : MultiLine :=
  if s ∈ getSpeakers m then m.setSpeakers (fun _ => true) ((getSpeakers m).erase s) else m

/-- The players by their lines, and the field `player` of the speakers. -/
structure Players (π : Type*) where
  line : π → MultiLine
  player : Speaker → Option π

/-- What a call does to the line of a player that is not `null`. -/
def atPlayer [DecidableEq π] (line : π → MultiLine) (f : MultiLine → MultiLine) : Option π → π → MultiLine
  | none => line
  | some p => Function.update line p (f (line p))

/-- `setPlayer`. -/
def Players.setPlayer [DecidableEq π] (h : Players π) (s : Speaker) (player : Option π) : Players π :=
  if player = h.player s then h
  else
    let removed := atPlayer h.line (removeSpeaker · s) (h.player s)
    { line := atPlayer removed (addSpeaker · s) player
      player := Function.update h.player s player }

/-- A call of `setPlayer`. -/
structure Move (π : Type*) where
  speaker : Speaker
  player : Option π

def step [DecidableEq π] (h : Players π) (c : Move π) : Option (Players π) :=
  some (h.setPlayer c.speaker c.player)

/-- Players with any lines, open or not, and no speakers. -/
def unassigned (line : π → MultiLine) : Players π where
  line p := { line p with speakers := [] }
  player _ := none

/-- A speaker is listed by exactly the player it names. -/
def Belongs (h : Players π) : Prop := ∀ s p, s ∈ getSpeakers (h.line p) ↔ h.player s = some p

/-- The condition on a call: the player that the speaker leaves has another one. -/
def Accompanied (h : Players π) (c : Move π) : Prop :=
  ∀ p, h.player c.speaker = some p → c.player ≠ some p → ∃ t ∈ getSpeakers (h.line p), t ≠ c.speaker

/-! ### The lists of speakers -/

theorem getSpeakers_setSpeakers (m : MultiLine) {newspeakers : List Speaker} (hne : newspeakers ≠ []) :
    getSpeakers (m.setSpeakers (fun _ => true) newspeakers) = newspeakers.dedup := by
  simp only [MultiLine.setSpeakers, if_neg hne, getSpeakers]
  split_ifs
  · rw [List.filterMap_map, List.map_filterMap]
    refine (List.filterMap_congr fun s _ => ?_).trans List.filterMap_some
    simp only [Function.comp_apply]
    split_ifs
    · exact congrArg some (stateOf_speaker m s)
    · exact congrArg some (stateOf_speaker m s)
  · rw [List.map_map]
    exact (List.map_congr_left fun s _ => stateOf_speaker m s).trans (List.map_id _)

theorem setSpeakers_nil (m : MultiLine) : m.setSpeakers (fun _ => true) [] = m := if_pos rfl

theorem nodup_setSpeakers {m : MultiLine} (hm : (getSpeakers m).Nodup) (newspeakers : List Speaker) :
    (getSpeakers (m.setSpeakers (fun _ => true) newspeakers)).Nodup := by
  by_cases hne : newspeakers = []
  · rw [hne, setSpeakers_nil]
    exact hm
  · rw [getSpeakers_setSpeakers m hne]
    exact List.nodup_dedup _

theorem mem_addSpeaker {m : MultiLine} {s t : Speaker} :
    t ∈ getSpeakers (addSpeaker m s) ↔ t ∈ getSpeakers m ∨ t = s := by
  rw [addSpeaker, getSpeakers_setSpeakers m (by simp), List.mem_dedup, List.mem_append,
    List.mem_singleton]

theorem nodup_removeSpeaker {m : MultiLine} (hm : (getSpeakers m).Nodup) (s : Speaker) :
    (getSpeakers (removeSpeaker m s)).Nodup := by
  unfold removeSpeaker
  split_ifs
  · exact nodup_setSpeakers hm _
  · exact hm

theorem mem_removeSpeaker {m : MultiLine} (hm : (getSpeakers m).Nodup) {s t u : Speaker}
    (hu : u ∈ getSpeakers m) (hus : u ≠ s) :
    t ∈ getSpeakers (removeSpeaker m s) ↔ t ∈ getSpeakers m ∧ t ≠ s := by
  unfold removeSpeaker
  split_ifs with hs
  · have hne : (getSpeakers m).erase s ≠ [] := List.ne_nil_of_mem ((List.mem_erase_of_ne hus).mpr hu)
    rw [getSpeakers_setSpeakers m hne, List.mem_dedup, hm.mem_erase_iff, and_comm]
  · exact ⟨fun ht => ⟨ht, fun hts => hs (hts ▸ ht)⟩, And.left⟩

theorem removeSpeaker_only {m : MultiLine} (hm : (getSpeakers m).Nodup) {s : Speaker}
    (honly : ∀ t ∈ getSpeakers m, t = s) : removeSpeaker m s = m := by
  have hnil : (getSpeakers m).erase s = [] := by
    refine List.eq_nil_iff_forall_not_mem.mpr fun t ht => ?_
    obtain ⟨hne, hmem⟩ := hm.mem_erase_iff.mp ht
    exact hne (honly t hmem)
  rw [removeSpeaker, hnil, setSpeakers_nil, ite_self]

/-! ### One call -/

/-- What the calls keep: the two agree, and a player lists a speaker once. -/
structure Sound (h : Players π) : Prop where
  belongs : Belongs h
  nodup : ∀ p, (getSpeakers (h.line p)).Nodup

theorem sound_unassigned (line : π → MultiLine) : Sound (unassigned line) :=
  ⟨fun s p => by simp [unassigned, getSpeakers], fun p => by simp [unassigned, getSpeakers]⟩

section

variable [DecidableEq π] {h : Players π} {c : Move π}

theorem atPlayer_apply (line : π → MultiLine) (f : MultiLine → MultiLine) (player : Option π) (p : π) :
    atPlayer line f player p = if player = some p then f (line p) else line p := by
  cases player with
  | none => simp [atPlayer]
  | some q =>
    rw [atPlayer, Function.update_apply]
    by_cases hpq : p = q
    · rw [if_pos hpq, if_pos (congrArg some hpq.symm), hpq]
    · rw [if_neg hpq, if_neg fun h => hpq (Option.some.inj h).symm]

theorem Sound.mem_removed (hh : Sound h) (hc : Accompanied h c) (hne : c.player ≠ h.player c.speaker)
    (t : Speaker) (p : π) :
    t ∈ getSpeakers (atPlayer h.line (removeSpeaker · c.speaker) (h.player c.speaker) p) ↔
      t ∈ getSpeakers (h.line p) ∧ t ≠ c.speaker := by
  rw [atPlayer_apply]
  split_ifs with hp
  · obtain ⟨u, hu, hus⟩ := hc p hp (hp ▸ hne)
    exact mem_removeSpeaker (hh.nodup p) hu hus
  · refine ⟨fun ht => ⟨ht, ?_⟩, And.left⟩
    rintro rfl
    exact hp ((hh.belongs _ p).mp ht)

/-- **One call** that meets the condition. -/
theorem sound_step (hh : Sound h) (hc : Accompanied h c) {h' : Players π} (hstep : step h c = some h') :
    Sound h' := by
  obtain rfl := Option.some.inj hstep
  unfold Players.setPlayer
  split_ifs with hsame
  · exact hh
  · refine ⟨fun t p => ?_, fun p => ?_⟩
    · have hremoved := hh.mem_removed hc hsame t p
      have hadded : t ∈ getSpeakers (atPlayer (atPlayer h.line (removeSpeaker · c.speaker)
          (h.player c.speaker)) (addSpeaker · c.speaker) c.player p) ↔
          (t ∈ getSpeakers (h.line p) ∧ t ≠ c.speaker) ∨ (t = c.speaker ∧ c.player = some p) := by
        rw [atPlayer_apply _ (addSpeaker · c.speaker)]
        split_ifs with hp
        · rw [mem_addSpeaker, hremoved, and_iff_left hp]
        · rw [hremoved]
          simp [hp]
      refine hadded.trans ?_
      show _ ↔ Function.update h.player c.speaker c.player t = some p
      rw [Function.update_apply]
      by_cases hts : t = c.speaker
      · simp [hts]
      · simp [hts, hh.belongs t p]
    · simp only [atPlayer_apply]
      have hremoved := nodup_removeSpeaker (hh.nodup p) c.speaker
      split_ifs
      · exact nodup_setSpeakers hremoved _
      · exact nodup_setSpeakers (hh.nodup p) _
      · exact hremoved
      · exact hh.nodup p

/-- The only speaker of a player stays listed when it leaves. -/
theorem step_only (hh : Sound h) (hc : ¬ Accompanied h c) : ∃ h', step h c = some h' ∧ ¬ Belongs h' := by
  simp only [Accompanied, not_forall, not_exists, not_and, not_not] at hc
  obtain ⟨p, hp, hleaves, honly⟩ := hc
  have hne : c.player ≠ h.player c.speaker := hp ▸ hleaves
  refine ⟨_, rfl, fun hbelongs => ?_⟩
  have hline : (h.setPlayer c.speaker c.player).line p = h.line p := by
    simp only [Players.setPlayer, if_neg hne, atPlayer_apply, if_neg hleaves, if_pos hp]
    exact removeSpeaker_only (hh.nodup p) honly
  have hplayer : (h.setPlayer c.speaker c.player).player c.speaker = c.player := by
    simp [Players.setPlayer, hne]
  have hlisted := hbelongs c.speaker p
  rw [hline, hplayer] at hlisted
  exact hleaves (hlisted.mp ((hh.belongs _ p).mpr hp))

end

/-- **A speaker belongs to the player it names** throughout a sequence of `setPlayer` calls exactly if no
call takes away the only speaker of a player. -/
theorem belongs_iff [DecidableEq π] (line : π → MultiLine) (moves : List (Move π)) :
    (∀ n h, run step (unassigned line) (moves.take n) = some h → Belongs h) ↔
      AllSteps step Accompanied (unassigned line) moves :=
  forall_run_take_iff (fun _ hh => hh.belongs) (fun _ _ _ hh hc hstep => sound_step hh hc hstep)
    (fun _ _ hh hc => step_only hh hc) moves (sound_unassigned line)

/-- A speaker that is taken from its player is still listed there. -/
theorem belongs_taken_away : ∃ h, run step (unassigned fun _ : Unit => {})
    [⟨airport 0 0, some ()⟩, ⟨airport 0 0, none⟩] = some h ∧ ¬ Belongs h := by
  refine ⟨_, rfl, fun h => ?_⟩
  have hplayer := (h (airport 0 0) ()).mp (by decide)
  exact absurd hplayer (by decide)

end Waveplay.Player.Assignment
