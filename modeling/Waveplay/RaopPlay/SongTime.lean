import Waveplay.RaopPlay.MainLoop

/-! # The time a song still plays

`raopcl_aexbuf_time` takes the time since the last report of the receiver off the time that the bytes in
its buffer last, second by second and microsecond by microsecond, with one carry at the end.

* `raopclAexbufTime_spec`: the result is normalised, and is the difference in microseconds, or zero.
* `aexbufTimeChecked_eq`: no operation on microseconds leaves the range of an `int`.
* `songTime_exact`: with the main loop, which reports the song done exactly if nothing is left. -/

namespace Waveplay.RaopPlay.SongTime

open Waveplay.RaopPlay.RaopClient Waveplay.RaopPlay.MainLoop Waveplay.RaopPlay.EventTable

/-! ### Times in microseconds -/

/-- The microseconds are less than a second. -/
structure Normalised (t : Timeval) : Prop where
  nonneg : 0 ≤ t.usec
  lt : t.usec < 1000000

instance (t : Timeval) : Decidable (Normalised t) :=
  decidable_of_iff (0 ≤ t.usec ∧ t.usec < 1000000) ⟨fun h => ⟨h.1, h.2⟩, fun h => ⟨h.1, h.2⟩⟩

/-- A time in microseconds. -/
def micros (t : Timeval) : ℤ := t.sec * 1000000 + t.usec

theorem Normalised.micros_eq_zero {t : Timeval} (h : Normalised t) : micros t = 0 ↔ t = ⟨0, 0⟩ := by
  obtain ⟨sec, usec⟩ := t
  obtain ⟨hnonneg, hlt⟩ := h
  simp only [micros, Timeval.mk.injEq] at *
  omega

/-- How long the bytes in the buffer still play at the time `now`, in microseconds. -/
def remaining (r : Raopcl) (now : Timeval) : ℤ :=
  r.sizeInAex * 1000000 / 44100 - (micros now - micros r.lastReadTv)

section

variable {r : Raopcl} {now : Timeval}

theorem micros_size (size : ℤ) :
    size / 44100 * 1000000 + size % 44100 * 10000 / 441 = size * 1000000 / 44100 := by
  omega

theorem sub_micros_range (hlast : Normalised r.lastReadTv) (hnow : Normalised now) :
    -1000000 < now.usec - r.lastReadTv.usec ∧ now.usec - r.lastReadTv.usec < 1000000 := by
  obtain ⟨hl, hl'⟩ := hlast
  obtain ⟨hn, hn'⟩ := hnow
  omega

/-- The result of one carry. -/
def carry (sec usec : ℤ) : Timeval :=
  if 1000000 ≤ usec then ⟨sec + 1, usec - 1000000⟩
  else if usec < 0 then ⟨sec - 1, usec + 1000000⟩
  else ⟨sec, usec⟩

theorem normalised_carry {sec usec : ℤ} (hlow : -1000000 ≤ usec) (hhigh : usec < 2000000) :
    Normalised (carry sec usec) := by
  unfold carry
  split_ifs <;> constructor <;> dsimp only <;> omega

theorem micros_carry (sec usec : ℤ) : micros (carry sec usec) = sec * 1000000 + usec := by
  unfold carry micros
  split_ifs <;> dsimp only <;> omega

theorem raopclAexbufTime_eq (hsize : 0 < r.sizeInAex) : raopclAexbufTime r now =
    let dtv := carry (r.sizeInAex / 44100 - (now.sec - r.lastReadTv.sec))
      (r.sizeInAex % 44100 * 10000 / 441 - (now.usec - r.lastReadTv.usec))
    if dtv.sec < 0 then ⟨0, 0⟩ else dtv := by
  rw [raopclAexbufTime, if_neg (by omega)]
  rfl

/-- A time that is set to zero if its seconds are negative. -/
theorem micros_cutoff {t : Timeval} (h : Normalised t) :
    Normalised (if t.sec < 0 then ⟨0, 0⟩ else t) ∧
      micros (if t.sec < 0 then ⟨0, 0⟩ else t) = max 0 (micros t) := by
  obtain ⟨hnonneg, hlt⟩ := h
  split_ifs with hneg
  · refine ⟨⟨le_rfl, by decide⟩, ?_⟩
    have hzero : micros ⟨0, 0⟩ = 0 := rfl
    unfold micros at *
    omega
  · refine ⟨⟨hnonneg, hlt⟩, ?_⟩
    unfold micros
    omega

/-- **`raopcl_aexbuf_time` is exact.** -/
theorem raopclAexbufTime_spec (hsize : 0 < r.sizeInAex) (hlast : Normalised r.lastReadTv)
    (hnow : Normalised now) :
    Normalised (raopclAexbufTime r now) ∧ micros (raopclAexbufTime r now) = max 0 (remaining r now) := by
  have hsub := sub_micros_range hlast hnow
  have hcarry : Normalised (carry (r.sizeInAex / 44100 - (now.sec - r.lastReadTv.sec))
      (r.sizeInAex % 44100 * 10000 / 441 - (now.usec - r.lastReadTv.usec))) :=
    normalised_carry (by omega) (by omega)
  have hremaining : micros (carry (r.sizeInAex / 44100 - (now.sec - r.lastReadTv.sec))
      (r.sizeInAex % 44100 * 10000 / 441 - (now.usec - r.lastReadTv.usec))) = remaining r now := by
    have hsize := micros_size r.sizeInAex
    rw [micros_carry]
    unfold remaining micros
    omega
  rw [raopclAexbufTime_eq hsize, ← hremaining]
  exact micros_cutoff hcarry

/-- Nothing is left exactly if the result is zero. -/
theorem raopclAexbufTime_eq_zero (hsize : 0 < r.sizeInAex) (hlast : Normalised r.lastReadTv)
    (hnow : Normalised now) : raopclAexbufTime r now = ⟨0, 0⟩ ↔ remaining r now ≤ 0 := by
  obtain ⟨hnormal, hmicros⟩ := raopclAexbufTime_spec hsize hlast hnow
  rw [← hnormal.micros_eq_zero, hmicros]
  omega

end

/-! ### The range of an `int` -/

/-- The result of an operation, if it is an `int`. -/
def int32 (x : ℤ) : Option ℤ := if -2 ^ 31 ≤ x ∧ x < 2 ^ 31 then some x else none

theorem int32_eq_some {x : ℤ} (hlow : -2 ^ 31 ≤ x) (hhigh : x < 2 ^ 31) : int32 x = some x :=
  if_pos ⟨hlow, hhigh⟩

/-- The carry, checked. -/
def carryChecked (sec usec : ℤ) : Option Timeval :=
  if 1000000 ≤ usec then (int32 (usec - 1000000)).map (Timeval.mk (sec + 1))
  else if usec < 0 then (int32 (usec + 1000000)).map (Timeval.mk (sec - 1))
  else some ⟨sec, usec⟩

theorem carryChecked_eq {sec usec : ℤ} (hlow : -1000000 ≤ usec) (hhigh : usec < 2000000) :
    carryChecked sec usec = some (carry sec usec) := by
  unfold carryChecked carry
  split_ifs
  · rw [int32_eq_some (by omega) (by omega), Option.map_some]
  · rw [int32_eq_some (by omega) (by omega), Option.map_some]
  · rfl

/-- `raopcl_aexbuf_time` with every operation on microseconds checked. -/
def aexbufTimeChecked (r : Raopcl) (ctv : Timeval) : Option Timeval :=
  if r.sizeInAex ≤ 0 then some ⟨0, 0⟩
  else do
    let rem ← int32 (r.sizeInAex % 44100)
    let scaled ← int32 (rem * 10000)
    let ausec ← int32 (scaled / 441)
    let since ← int32 (ctv.usec - r.lastReadTv.usec)
    let usec ← int32 (ausec - since)
    let sec := r.sizeInAex / 44100 - (ctv.sec - r.lastReadTv.sec)
    let dtv ← carryChecked sec usec
    some (if dtv.sec < 0 then ⟨0, 0⟩ else dtv)

/-- **No operation overflows.** -/
theorem aexbufTimeChecked_eq {r : Raopcl} {now : Timeval} (hsize : 0 < r.sizeInAex)
    (hlast : Normalised r.lastReadTv) (hnow : Normalised now) :
    aexbufTimeChecked r now = some (raopclAexbufTime r now) := by
  have hsub := sub_micros_range hlast hnow
  rw [aexbufTimeChecked, if_neg (by omega), raopclAexbufTime_eq hsize]
  simp (disch := omega) only [int32_eq_some, carryChecked_eq, Option.bind_eq_bind, Option.bind_some]

/-! ### The main loop -/

section

variable (aes : Block → Block) {p q : Player} {e : Events}

theorem waitSongdone_sent (s : Session) (alloc : Bool) (sample : List UInt8) :
    (s.sent aes alloc sample).waitSongdone = s.raopcl.waitSongdone := by
  unfold Session.sent
  split_ifs <;> rfl

theorem waitSongdone_raopclPauseCheck (s : Session) (alloc : Bool) (now mark : ℤ) :
    (raopclPauseCheck aes s alloc now mark).raopcl.waitSongdone = s.raopcl.waitSongdone := by
  unfold raopclPauseCheck raopclSmallSilent
  split
  · rfl
  · split_ifs <;> rfl
  · split_ifs
    · rfl
    · dsimp only
      rw [raopclSendSample_raopcl, waitSongdone_sent]

theorem waitSongdone_pauseCheck (p : Player) :
    (p.pauseCheck aes e).raopcl.waitSongdone = p.raopcl.waitSongdone :=
  waitSongdone_raopclPauseCheck aes p.session e.alloc e.check e.mark

theorem waitSongdone_songdone (hwait : p.raopcl.waitSongdone = true) (now : Timeval) :
    (p.songdone now).raopcl.waitSongdone = false ↔ raopclAexbufTime p.raopcl now = ⟨0, 0⟩ := by
  unfold Player.songdone
  split_ifs with h
  · rw [h.2]
    exact iff_of_true rfl rfl
  · rw [hwait]
    exact iff_of_false (by decide) fun hzero => h ⟨hwait, hzero⟩

theorem waitSongdone_mainEventHandler
    (hslots : p.handleSlots e p.session.fds (List.range MAX_NUM_OF_FDS) = (true, q))
    (hwait : q.raopcl.waitSongdone = true) :
    (p.mainEventHandler aes e).2.raopcl.waitSongdone = false ↔
      raopclAexbufTime q.raopcl e.now = ⟨0, 0⟩ := by
  have hafter : p.afterEvents e = (true, q.songdone e.now) := by
    rw [Player.afterEvents, hslots]
    rfl
  have hhandler : (p.mainEventHandler aes e).2 = (q.songdone e.now).pauseCheck aes e := by
    rw [Player.mainEventHandler, hafter]
    rfl
  rw [hhandler, waitSongdone_pauseCheck, waitSongdone_songdone hwait]

end

/-- **The remaining time is exact**: the result is normalised, is what the bytes in the buffer last less
the time since the last report, or zero, and is computed within the range of an `int`; and
`main_event_handler` reports the song done exactly if that difference is not positive. -/
theorem songTime_exact (aes : Block → Block) {r : Raopcl} {now : Timeval} (hsize : 0 < r.sizeInAex)
    (hlast : Normalised r.lastReadTv) (hnow : Normalised now) :
    Normalised (raopclAexbufTime r now) ∧ micros (raopclAexbufTime r now) = max 0 (remaining r now) ∧
      aexbufTimeChecked r now = some (raopclAexbufTime r now) ∧
      ∀ (p q : Player) (e : Events), e.now = now → q.raopcl = r → q.raopcl.waitSongdone = true →
        p.handleSlots e p.session.fds (List.range MAX_NUM_OF_FDS) = (true, q) →
        ((p.mainEventHandler aes e).2.raopcl.waitSongdone = false ↔ remaining r now ≤ 0) := by
  obtain ⟨hnormal, hmicros⟩ := raopclAexbufTime_spec hsize hlast hnow
  refine ⟨hnormal, hmicros, aexbufTimeChecked_eq hsize hlast hnow, ?_⟩
  rintro p q e rfl rfl hwait hslots
  rw [waitSongdone_mainEventHandler aes hslots hwait, raopclAexbufTime_eq_zero hsize hlast hnow]

/-- A second was in the buffer at `10.5` seconds. -/
def waiting : Player :=
  { session := { raopcl := {
      iv := fun _ => 0
      nv := fun _ => 0
      sfd := -1
      waitSongdone := true
      sizeInAex := 44100
      lastReadTv := ⟨10, 500000⟩ } }
    auds := none }

/-- At `11.4` seconds there is a tenth left, and at `11.5` the song is reported done. -/
theorem songTime_waiting :
    micros (raopclAexbufTime waiting.raopcl ⟨11, 400000⟩) = max 0 (remaining waiting.raopcl ⟨11, 400000⟩) ∧
      remaining waiting.raopcl ⟨11, 400000⟩ = 100000 ∧
      (waiting.mainEventHandler id { now := ⟨11, 500000⟩ }).2.raopcl.waitSongdone = false := by
  refine ⟨(songTime_exact id (by decide) (by decide) (by decide)).2.1, by decide, ?_⟩
  exact ((songTime_exact id (by decide) (by decide) (by decide)).2.2.2 waiting waiting
    { now := ⟨11, 500000⟩ } rfl rfl rfl rfl).mpr (by decide)

end Waveplay.RaopPlay.SongTime
