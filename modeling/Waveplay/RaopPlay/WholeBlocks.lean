import Waveplay.Lib.Runs
import Waveplay.RaopPlay.MainLoop

/-! # Whole blocks on the stream socket

`raopcl_send_sample` throws away what is left of the block before. The loop waits for a block of the
source to be written, but not after the source was closed, and not for a silent block. A block is then
cut off when a new song is opened, when data come back, or when the next silent block is due, before
its last bytes are written. `BlockCond` rules these steps out; in every run without them the socket
gets whole blocks (`stream_whole_blocks`). -/

namespace Waveplay.RaopPlay.WholeBlocks

open Waveplay.Lib.Runs Waveplay.RaopPlay.RaopClient Waveplay.RaopPlay.MainLoop

/-! ### The property and the condition -/

/-- Whole blocks in the order they were made, then at most the beginning of one more. -/
def IsWholeBlocks (blocks : List (List UInt8)) (stream : List UInt8) : Prop :=
  ∃ whole unfinished, stream = whole.flatten ++ unfinished ∧
    ((unfinished = [] ∧ whole.Sublist blocks) ∨
      ∃ b, (whole ++ [b]).Sublist blocks ∧ unfinished <+: b)

/-- The blocks made so far, in order. -/
def blocksOf (sends : List Send) : List (List UInt8) := sends.reverse.map Send.block

/-- The player as it enters the loop. -/
structure Started (p : Player) : Prop where
  pc : p.pc = .top
  sends : p.sends = []
  stream : p.stream = []
  udp : p.raopcl.udp = false
  pause : p.raopcl.pause = .noPause
  wsize : p.raopcl.wblkWsize = 0
  remsize : p.raopcl.wblkRemsize = 0
  data : p.raopcl.data = []

/-- The block is written to its end, or no byte of it is written before the events and by them. -/
def Undivided (p : Player) (e : Events) : Prop :=
  p.raopcl.wblkRemsize = 0 ∨ (p.raopcl.wblkWsize = 0 ∧ e.written = none)

/-- Outside the `do` loop a block that is partly written is not overtaken by data, by the next silent
block or by `play`. -/
structure BlockCond (p : Player) (i : Input) : Prop where
  data : p.pc = .top → p.raopcl.pause = .nodataPause → p.PartlyWritten →
    ¬ (i.poll = .pollin ∧ i.pollAgain = .pollin)
  silent : p.pc = .top → i.poll ≠ .pollin → p.SilentDue i.events.check → Undivided p i.events
  play : p.pc = .top → ∀ c song, i.events.console = some c → command c.line = .play song →
    Undivided p i.events

/-! ### The block and the stream -/

/-- The bytes of an unfinished block that are on the stream. -/
def pending (p : Player) : List UInt8 :=
  if p.raopcl.wblkRemsize = 0 then [] else p.raopcl.data.take p.raopcl.wblkWsize

/-- What has been sent, and what is left of the block. -/
structure BlockInv (p : Player) : Prop where
  udp : p.raopcl.udp = false
  entered : ∀ e ∈ p.sends, ¬ (0 < e.wsize ∧ 0 < e.remsize)
  length : p.raopcl.data = [] ∨
    p.raopcl.data.length = p.raopcl.wblkWsize + p.raopcl.wblkRemsize
  shape : ∃ whole, p.stream = whole.flatten ++ pending p ∧ whole.Sublist (blocksOf p.sends) ∧
    (p.raopcl.wblkRemsize ≠ 0 → (whole ++ [p.raopcl.data]).Sublist (blocksOf p.sends))

theorem BlockInv.congr {p q : Player} (hp : BlockInv p) (h : SameBlock p q) : BlockInv q := by
  obtain ⟨hdata, hw, hr, hudp, hsends, hstream⟩ := h
  obtain ⟨pudp, pentered, plength, pshape⟩ := hp
  refine ⟨by rw [hudp]; exact pudp, by rw [hsends]; exact pentered, by rw [hdata, hw, hr]; exact plength,
    ?_⟩
  rw [hstream, hsends, hdata, hr, pending, hdata, hw, hr]
  exact pshape

theorem BlockInv.isWholeBlocks {p : Player} (hp : BlockInv p) :
    IsWholeBlocks (blocksOf p.sends) p.stream := by
  obtain ⟨whole, hstream, hsub, hlast⟩ := hp.shape
  refine ⟨whole, pending p, hstream, ?_⟩
  unfold pending
  split_ifs with hr
  · exact Or.inl ⟨rfl, hsub⟩
  · exact Or.inr ⟨_, hlast hr, List.take_prefix _ _⟩

/-- **A write event** keeps the shape of the stream. -/
theorem BlockInv.streamWrite {p : Player} (hp : BlockInv p) (i : ℤ) :
    BlockInv (p.streamWrite i).2 := by
  rcases streamWrite_cases p i with h | ⟨n, h⟩
  · exact hp.congr h
  · obtain ⟨hudp, hentered, hlength, whole, hstream, hsub, hlast⟩ := hp
    have hpos := h.pos
    have hle := h.le
    have hr : p.raopcl.wblkRemsize ≠ 0 := by omega
    have hlen := hlength.resolve_left h.some
    -- the bytes written so far, with those of this event
    have htake : p.raopcl.data.take p.raopcl.wblkWsize ++
        (p.raopcl.data.drop p.raopcl.wblkWsize).take n =
          p.raopcl.data.take (p.raopcl.wblkWsize + n) := List.take_add.symm
    have hstream' : (p.streamWrite i).2.stream =
        whole.flatten ++ p.raopcl.data.take (p.raopcl.wblkWsize + n) := by
      rw [h.stream, hstream, pending, if_neg hr, List.append_assoc, htake]
    refine ⟨h.udp.trans hudp, by rw [h.sends]; exact hentered,
      Or.inr (by rw [h.data, h.wsize, h.remsize]; omega), ?_⟩
    rw [pending, h.data, h.wsize, h.remsize, h.sends, hstream']
    by_cases hn : p.raopcl.wblkRemsize - n = 0
    · refine ⟨whole ++ [p.raopcl.data], ?_, hlast hr, fun hne => absurd hn hne⟩
      rw [if_pos hn, List.append_nil, List.flatten_append, List.flatten_singleton,
        List.take_of_length_le (by omega)]
    · exact ⟨whole, by rw [if_neg hn], hsub, fun _ => hlast hr⟩

/-- A call of `raopcl_send_sample`. -/
structure Sent (p q : Player) : Prop where
  udp : q.raopcl.udp = p.raopcl.udp
  sends : q.sends = ⟨p.raopcl.wblkWsize, p.raopcl.wblkRemsize, q.raopcl.data⟩ :: p.sends
  stream : q.stream = p.stream
  block : (q.raopcl.data = [] ∧ q.raopcl.wblkWsize = p.raopcl.wblkWsize ∧
      q.raopcl.wblkRemsize = p.raopcl.wblkRemsize) ∨
    (q.raopcl.data.length = q.raopcl.wblkRemsize ∧ q.raopcl.wblkWsize = 0)

theorem Sent.partlyWritten {p q : Player} (h : Sent p q) (hp : ¬ p.PartlyWritten) :
    ¬ q.PartlyWritten := by
  rcases h.block with ⟨-, hw, hr⟩ | ⟨-, hw⟩
  · rwa [Player.PartlyWritten, hw, hr]
  · rw [Player.PartlyWritten, hw]
    omega

/-- **A new block** keeps the shape of the stream, if the one before is not partly written. -/
theorem BlockInv.sent {p q : Player} (hp : BlockInv p) (hn : ¬ p.PartlyWritten) (h : Sent p q) :
    BlockInv q := by
  obtain ⟨hudp, hentered, hlength, whole, hstream, hsub, hlast⟩ := hp
  have hblocks : blocksOf q.sends = blocksOf p.sends ++ [q.raopcl.data] := by
    simp [blocksOf, h.sends]
  have hp0 : pending p = [] := by
    unfold pending
    split_ifs with hr
    · rfl
    · rw [show p.raopcl.wblkWsize = 0 by
        by_contra hw
        exact hn ⟨by omega, by omega⟩]
      rfl
  have hq0 : pending q = [] := by
    unfold pending
    rcases h.block with ⟨hd, -, -⟩ | ⟨-, hw⟩
    · rw [hd]; simp
    · rw [hw]; simp
  refine ⟨h.udp.trans hudp, ?_, ?_, whole, ?_, ?_, fun _ => ?_⟩
  · rw [h.sends]
    intro e he
    rcases List.mem_cons.mp he with rfl | he
    · exact hn
    · exact hentered e he
  · rcases h.block with ⟨hd, -, -⟩ | ⟨hd, hw⟩
    · exact Or.inl hd
    · exact Or.inr (by omega)
  · rw [h.stream, hstream, hp0, hq0]
  · rw [hblocks]
    exact hsub.trans (List.sublist_append_left _ _)
  · rw [hblocks]
    exact hsub.append (List.Sublist.refl _)

/-! ### Sends of the loop -/

theorem send_sent (aes : Block → Block) {p : Player} (hudp : p.raopcl.udp = false) (alloc : Bool)
    (sample : List UInt8) : Sent p (p.send aes alloc sample).2 ∧
      (p.send aes alloc sample).2.auds = p.auds ∧
      (p.send aes alloc sample).2.raopcl.pause = p.raopcl.pause := by
  rcases raopclSendSample_cases aes (s := p.session) hudp alloc sample with h | ⟨nv, h⟩
  · have hr : (p.send aes alloc sample).2.raopcl = { p.session.raopcl with data := [] } := h
    refine ⟨⟨?_, rfl, rfl, Or.inl ?_⟩, rfl, ?_⟩ <;> rw [hr]
    exact ⟨rfl, rfl, rfl⟩
  · have hr : (p.send aes alloc sample).2.raopcl = _ := h
    refine ⟨⟨?_, rfl, rfl, Or.inr ?_⟩, rfl, ?_⟩ <;> rw [hr]
    exact ⟨length_tcpBlock .., rfl⟩

theorem pauseCheck_sameBlock (aes : Block → Block) {p : Player} {e : Events}
    (h : ¬ p.SilentDue e.check) : SameBlock p (p.pauseCheck aes e) ∧
      (p.pauseCheck aes e).raopcl.pause = p.raopcl.pause := by
  simp only [Player.pauseCheck, if_neg h, raopclPauseCheck]
  split
  · exact ⟨⟨rfl, rfl, rfl, rfl, rfl, rfl⟩, rfl⟩
  · split_ifs <;> exact ⟨⟨rfl, rfl, rfl, rfl, rfl, rfl⟩, rfl⟩
  · next hp =>
    have hlt : e.check - p.raopcl.pausedTime < 3 := by
      by_contra hlt
      exact h ⟨hp, hlt⟩
    rw [if_pos hlt]
    exact ⟨⟨rfl, rfl, rfl, rfl, rfl, rfl⟩, rfl⟩

theorem pauseCheck_sent (aes : Block → Block) {p : Player} {e : Events}
    (hudp : p.raopcl.udp = false) (h : p.SilentDue e.check) : Sent p (p.pauseCheck aes e) ∧
      (p.pauseCheck aes e).raopcl.pause = p.raopcl.pause := by
  have hcheck : (p.pauseCheck aes e).raopcl =
      { (raopclSendSample aes p.session e.alloc p.raopcl.minSdata).2.raopcl with
        pausedTime := e.mark } := by
    simp only [Player.pauseCheck, raopclPauseCheck, h.1, if_neg h.2, raopclSmallSilent]
  have hsends : (p.pauseCheck aes e).sends =
      ⟨p.raopcl.wblkWsize, p.raopcl.wblkRemsize, (p.pauseCheck aes e).raopcl.data⟩ :: p.sends := by
    simp only [Player.pauseCheck, if_pos h]
  rcases raopclSendSample_cases aes hudp e.alloc p.raopcl.minSdata with hr | ⟨nv, hr⟩
  · rw [hr] at hcheck
    refine ⟨⟨?_, hsends, rfl, Or.inl ?_⟩, ?_⟩ <;> rw [hcheck]
    exact ⟨rfl, rfl, rfl⟩
  · rw [hr] at hcheck
    refine ⟨⟨?_, hsends, rfl, Or.inr ?_⟩, ?_⟩ <;> rw [hcheck]
    exact ⟨length_tcpBlock .., rfl⟩

/-! ### The events of a turn -/

section events

variable {p : Player} {e : Events}

theorem afterEvents_blockInv (hp : BlockInv p) : BlockInv (p.afterEvents e).2 :=
  afterEvents_inv (fun c _ p hp => hp.congr (consoleRead_commanded p c).1)
    (fun r p hp => hp.congr (streamRead_sameBlock p r)) (fun i _ _ hp => hp.streamWrite i)
    (fun now p hp => hp.congr (songdone_sameBlock p now)) hp

theorem Undivided.congr {q : Player} (hp : Undivided p e) (h : SameBlock p q) : Undivided q e := by
  rw [Undivided, h.remsize, h.wsize]
  exact hp

theorem Undivided.not_partlyWritten (hp : Undivided p e) : ¬ p.PartlyWritten := by
  rintro ⟨hw, hr⟩
  rcases hp with h | ⟨h, -⟩ <;> omega

theorem afterEvents_undivided (hp : Undivided p e) : Undivided (p.afterEvents e).2 e := by
  refine afterEvents_inv (I := fun p => Undivided p e) ?_ ?_ ?_ ?_ hp
  · exact fun c _ p hp => hp.congr (consoleRead_commanded p c).1
  · exact fun r p hp => hp.congr (streamRead_sameBlock p r)
  · intro i hi p hp
    rcases streamWrite_cases p i with h | ⟨n, h⟩
    · exact hp.congr h
    · have hpos := h.pos
      have hle := h.le
      rcases hp with hr | ⟨-, hnone⟩
      · omega
      · rw [hi] at hnone
        cases hnone
  · exact fun now p hp => hp.congr (songdone_sameBlock p now)

/-- Without a source there is no pause. -/
def Closed (auds : Option ℤ) (pause : Pause) : Prop := auds = none → pause = .noPause

theorem afterEvents_closed (hp : Closed p.auds p.raopcl.pause) :
    Closed (p.afterEvents e).2.auds (p.afterEvents e).2.raopcl.pause := by
  refine afterEvents_control (I := fun auds pause _ => Closed auds pause) ?_ hp
  intro c _ p q h hp
  cases h with
  | nothing h => rwa [h.auds, h.pause]
  | resumed _ _ hpause _ => exact fun _ => hpause
  | opened _ _ hpause => exact fun _ => hpause
  | paused _ ha _ hauds => exact fun hn => by rw [← hauds, hn] at ha; cases ha
  | stopped hpause _ => exact fun _ => hpause

/-- The events do not start `NODATA_PAUSE`, nor its time. -/
theorem afterEvents_nodata (hp : (p.afterEvents e).2.raopcl.pause = .nodataPause) :
    p.raopcl.pause = .nodataPause ∧
      (p.afterEvents e).2.raopcl.pausedTime = p.raopcl.pausedTime := by
  revert hp
  refine afterEvents_control (I := fun _ pause time => pause = .nodataPause →
    p.raopcl.pause = .nodataPause ∧ time = p.raopcl.pausedTime) ?_ fun hp => ⟨hp, rfl⟩
  intro c _ q r h hq hr
  cases h with
  | nothing h =>
    rw [h.pausedTime]
    exact hq (h.pause.symm.trans hr)
  | resumed _ _ hpause _ => rw [hpause] at hr; cases hr
  | opened _ _ hpause => rw [hpause] at hr; cases hr
  | paused _ _ hpause _ => rw [hpause] at hr; cases hr
  | stopped hpause _ => rw [hpause] at hr; cases hr

theorem afterEvents_silentDue {now : ℤ} (h : (p.afterEvents e).2.SilentDue now) :
    p.SilentDue now := by
  obtain ⟨hpause, htime⟩ := afterEvents_nodata h.1
  refine ⟨hpause, ?_⟩
  rw [← htime]
  exact h.2

/-- How a turn outside the `do` loop can end. -/
inductive Outcome (e : Events) (auds : Option ℤ) (pause : Pause) : Prop
  | pausing (h : pause ≠ .noPause)
  | played {c : Console} {song : Bool} (hcon : e.console = some c) (hc : command c.line = .play song)
  | closed (h : auds = none)

theorem afterEvents_outcome (hp : p.auds = none ∨ p.raopcl.pause ≠ .noPause) :
    Outcome e (p.afterEvents e).2.auds (p.afterEvents e).2.raopcl.pause := by
  refine afterEvents_control (I := fun auds pause _ => Outcome e auds pause) ?_
    (hp.elim .closed .pausing)
  intro c hcon p q h hp
  cases h with
  | nothing h => rwa [h.auds, h.pause]
  | resumed hc _ _ _ => exact .played hcon hc
  | opened hc _ _ => exact .played hcon hc
  | paused _ _ hpause _ => exact .pausing (by rw [hpause]; decide)
  | stopped _ hauds => exact .closed hauds

end events

/-! ### The loop -/

/-- **The invariant of the loop.** At the `while` the block is not partly written, unless the source is
closed or the session pauses. -/
structure LoopInv (p : Player) : Prop where
  block : BlockInv p
  closed : Closed p.auds p.raopcl.pause
  waiting : p.pc = .wait → p.raopcl.pause ≠ .nodataPause
  playing : p.pc = .top → p.auds.isSome → p.raopcl.pause = .noPause → ¬ p.PartlyWritten

theorem not_partlyWritten_of_remsize {p : Player} (h : p.raopcl.wblkRemsize = 0) :
    ¬ p.PartlyWritten := fun hp => by
  have := hp.2
  omega

theorem loopInv_started {p : Player} (h : Started p) : LoopInv p where
  block := by
    refine ⟨h.udp, by simp [h.sends], Or.inl h.data, [], ?_, List.nil_sublist _, ?_⟩
    · simp [h.stream, pending, h.remsize]
    · exact fun hr => absurd h.remsize hr
  closed _ := h.pause
  waiting hpc := by rw [h.pc] at hpc; cases hpc
  playing _ _ _ := not_partlyWritten_of_remsize h.remsize

theorem BlockInv.withPc {p : Player} (h : BlockInv p) (pc : Pc) : BlockInv { p with pc } :=
  h.congr ⟨rfl, rfl, rfl, rfl, rfl, rfl⟩

/-- The case `NO_PAUSE`: if there are data, the block is not partly written. -/
theorem playNext_inv (aes : Block → Block) {p : Player} (hb : BlockInv p) (ha : p.auds.isSome)
    (hpause : p.raopcl.pause = .noPause) {i : Input}
    (hn : i.pollAgain = .pollin → ¬ p.PartlyWritten) : LoopInv (p.playNext aes i) := by
  have hpoll := pollNextSample_sameBlock p i.pollAgain
  have hctl := pollNextSample_sameControl p i.pollAgain
  unfold Player.playNext
  dsimp only
  by_cases hready : (p.pollNextSample i.pollAgain).1 = true
  · -- the sample is sent
    rw [if_neg (by simp [hready])]
    let q := (p.pollNextSample i.pollAgain).2.sampled i.sample
    have hq : SameBlock p q := hpoll.trans (sampled_sameBlock _ _)
    have hqpause : q.raopcl.pause = .noPause :=
      (sampled_pause _ _).trans (hctl.pause.trans hpause)
    obtain ⟨hsent, -, hsp⟩ := send_sent aes (hq.udp.trans hb.udp) i.alloc i.sample.bytes
    have hqn : ¬ q.PartlyWritten := fun h =>
      hn ((pollNextSample_ready _ _).mp hready) (hq.partlyWritten.mp h)
    refine ⟨((hb.congr hq).sent hqn hsent).withPc _, fun _ => hsp.trans hqpause, fun _ => ?_,
      fun _ _ _ => hsent.partlyWritten hqn⟩
    rw [show _ = Pause.noPause from hsp.trans hqpause]
    decide
  · -- no data: the pause begins
    rw [if_pos (by simp [hready])]
    have hset := setPause_sameBlock (p.pollNextSample i.pollAgain).2 .nodataPause i.time
    refine ⟨(hb.congr (hpoll.trans hset)).withPc _, fun hnone => ?_, fun hpc => ?_, fun _ _ hno => ?_⟩
    · rw [show _ = none from hctl.auds.symm.trans hnone] at ha
      cases ha
    · cases hpc
    · cases hno

/-- The event handler, if no silent block is due that would cut one off. -/
theorem mainEventHandler_inv (aes : Block → Block) {p : Player} {e : Events} (hb : BlockInv p)
    (hs : p.SilentDue e.check → Undivided p e) :
    BlockInv (p.mainEventHandler aes e).2 ∧
      (p.mainEventHandler aes e).2.auds = (p.afterEvents e).2.auds ∧
      (p.mainEventHandler aes e).2.raopcl.pause = (p.afterEvents e).2.raopcl.pause := by
  have ha := afterEvents_blockInv (e := e) hb
  unfold Player.mainEventHandler
  dsimp only
  split_ifs
  · exact ⟨ha, rfl, rfl⟩
  · by_cases hdue : (p.afterEvents e).2.SilentDue e.check
    · have hwhole := afterEvents_undivided (hs (afterEvents_silentDue hdue))
      obtain ⟨hsent, hpause⟩ := pauseCheck_sent aes ha.udp hdue
      exact ⟨ha.sent hwhole.not_partlyWritten hsent, rfl, hpause⟩
    · obtain ⟨hsame, hpause⟩ := pauseCheck_sameBlock aes hdue
      exact ⟨ha.congr hsame, rfl, hpause⟩

theorem mainEventHandler_sameBlock (aes : Block → Block) {p : Player} {e : Events}
    (hp : (p.afterEvents e).2.raopcl.pause ≠ .nodataPause) :
    SameBlock (p.afterEvents e).2 (p.mainEventHandler aes e).2 := by
  unfold Player.mainEventHandler
  dsimp only
  split_ifs
  · exact .refl _
  · exact (pauseCheck_sameBlock aes fun h => hp h.1).1

theorem checkEvents_inv (aes : Block → Block) {p : Player} {i : Input} (hb : BlockInv p)
    (hclosed : Closed p.auds p.raopcl.pause) (hp : p.auds = none ∨ p.raopcl.pause ≠ .noPause)
    (hs : p.SilentDue i.events.check → Undivided p i.events)
    (hplay : ∀ c song, i.events.console = some c → command c.line = .play song →
      Undivided p i.events) : LoopInv (p.checkEvents aes i) := by
  obtain ⟨hb', hauds', hpause'⟩ := mainEventHandler_inv aes hb hs
  have hauds : (p.checkEvents aes i).auds = (p.afterEvents i.events).2.auds := hauds'
  have hctl : (p.checkEvents aes i).raopcl.pause = (p.afterEvents i.events).2.raopcl.pause := hpause'
  have hout := afterEvents_outcome (e := i.events) hp
  have hcl := afterEvents_closed (e := i.events) hclosed
  rw [← hauds, ← hctl] at hout hcl
  refine ⟨hb'.withPc _, hcl, fun hpc => ?_, fun _ ha hno => ?_⟩
  · simp only [Player.checkEvents] at hpc
    split_ifs at hpc
  · cases hout with
    | pausing h => exact absurd hno h
    | played hcon hc =>
      have hne : (p.afterEvents i.events).2.raopcl.pause ≠ .nodataPause := by
        rw [← hctl, hno]
        decide
      have hwhole := afterEvents_undivided (hplay _ _ hcon hc)
      exact (hwhole.congr (mainEventHandler_sameBlock aes hne)).not_partlyWritten
    | closed h =>
      rw [h] at ha
      cases ha

theorem wait_inv (aes : Block → Block) {p : Player} (hp : LoopInv p) (hpc : p.pc = .wait)
    {i : Input} {pc : Pc} (htop : pc = .top → (p.mainEventHandler aes i.events).2.auds.isSome →
      (p.mainEventHandler aes i.events).2.raopcl.wblkRemsize = 0) :
    LoopInv { (p.mainEventHandler aes i.events).2 with pc } := by
  have hne := hp.waiting hpc
  obtain ⟨hb', hauds', hpause'⟩ := mainEventHandler_inv aes (e := i.events) hp.block
    fun h => absurd h.1 hne
  have hcl := afterEvents_closed (e := i.events) hp.closed
  rw [← hauds', ← hpause'] at hcl
  refine ⟨hb'.withPc _, hcl, fun _ => ?_, fun ht ha _ => not_partlyWritten_of_remsize (htop ht ha)⟩
  rw [show _ = (p.afterEvents i.events).2.raopcl.pause from hpause']
  exact fun h => hne (afterEvents_nodata h).1

/-- A turn at the `while` in `NODATA_PAUSE`, if a block that is partly written is not overtaken. -/
theorem nodata_inv (aes : Block → Block) {p p' : Player} {i : Input} (hp : LoopInv p)
    (hC : BlockCond p i) (hpc : p.pc = .top) (ha : p.auds.isSome)
    (hnd : p.raopcl.pause = .nodataPause)
    (h : (if (p.pollNextSample i.poll).1 then
        some (((p.pollNextSample i.poll).2.setPause .noPause i.time).playNext aes i)
      else some ((p.pollNextSample i.poll).2.checkEvents aes i)) = some p') : LoopInv p' := by
  have hsame := pollNextSample_sameBlock p i.poll
  have hctl := pollNextSample_sameControl p i.poll
  have hready := pollNextSample_ready p i.poll
  split_ifs at h with hpoll
  · -- data: the pause is over
    cases h
    have hset := setPause_sameBlock (p.pollNextSample i.poll).2 .noPause i.time
    refine playNext_inv aes (hp.block.congr (hsame.trans hset)) ?_ (setPause_pause ..) ?_
    · rw [setPause_auds, hctl.auds]
      exact ha
    · intro hagain hpart
      exact hC.data hpc hnd ((hsame.trans hset).partlyWritten.mp hpart) ⟨hready.mp hpoll, hagain⟩
  · cases h
    refine checkEvents_inv aes (hp.block.congr hsame) ?_ (Or.inr ?_) (fun hdue => ?_)
      fun c song hcon hc => (hC.play hpc c song hcon hc).congr hsame
    · rw [hctl.auds, hctl.pause]
      exact hp.closed
    · rw [hctl.pause, hnd]
      decide
    · rw [Player.SilentDue, hctl.pause, hctl.pausedTime] at hdue
      exact (hC.silent hpc (fun h => hpoll (hready.mpr h)) hdue).congr hsame

/-- **One step keeps the invariant.** -/
theorem loopInv_step (aes : Block → Block) {p p' : Player} {i : Input} (hp : LoopInv p)
    (hC : BlockCond p i) (h : step aes p i = some p') : LoopInv p' := by
  unfold step at h
  split at h
  · cases h
  · next hpc =>
    cases h
    refine wait_inv aes hp hpc fun htop ha => ?_
    by_contra hr
    simp only [ha, Bool.true_and, decide_eq_true_eq, ne_eq, hr, not_false_eq_true, if_true] at htop
    split_ifs at htop
  · next hpc =>
    split_ifs at h with hact hnone
    · cases h
      exact ⟨hp.block.withPc _, hp.closed, fun hpc => (by cases hpc), fun hpc => (by cases hpc)⟩
    · cases h
      refine checkEvents_inv aes hp.block hp.closed (Or.inl hnone) (fun hdue => ?_) (hC.play hpc)
      have hno := hdue.1
      rw [hp.closed hnone] at hno
      cases hno
    · have ha : p.auds.isSome := Option.isSome_iff_ne_none.mpr hnone
      split at h
      · next hop =>
        cases h
        refine checkEvents_inv aes hp.block hp.closed (Or.inr (by rw [hop]; decide)) (fun hdue => ?_)
          (hC.play hpc)
        have hno := hdue.1
        rw [hop] at hno
        cases hno
      · next hnd => exact nodata_inv aes hp hC hpc ha hnd h
      · next hno =>
        cases h
        exact playNext_inv aes hp.block ha hno fun _ => hp.playing hpc ha hno

/-- **Whole blocks.** In every run whose steps keep to `BlockCond`, `raopcl_send_sample` is not entered
while a block is partly written, and the stream has whole blocks, the last one perhaps unfinished. -/
theorem stream_whole_blocks (aes : Block → Block) {p₀ p : Player} (h₀ : Started p₀) {is : List Input}
    (hC : AllSteps (step aes) BlockCond p₀ is) (h : run (step aes) p₀ is = some p) :
    (∀ e ∈ p.sends, ¬ (0 < e.wsize ∧ 0 < e.remsize)) ∧
      IsWholeBlocks (blocksOf p.sends) p.stream := by
  have hp : LoopInv p := run_inv (fun _ _ _ => loopInv_step aes) (loopInv_started h₀) hC h
  exact ⟨hp.block.entered, hp.block.isWholeBlocks⟩

/-! ### Two runs -/

/-- A player with a song open, and the console registered. -/
def playing : Player where
  session := {
    raopcl := { iv := fun _ => 0, nv := fun _ => 0, sfd := 5 }
    fds := [{ fd := 0, cbf := some .consoleRead, read := true }, {}, {}, {}] }
  auds := some 7

theorem started_playing : Started playing := ⟨rfl, rfl, rfl, rfl, rfl, rfl, rfl, rfl⟩

/-- There is a sample. -/
def sample (bytes : List UInt8) : Input := { pollAgain := .pollin, sample := .ok bytes }

/-- The socket takes `n` bytes. -/
def written (n : ℤ) : Input := { events := { written := some n } }

/-- A block is sent, and written in two pieces; then there are no more data. -/
def oneBlock : List Input := [sample [1, 2, 3], written 10, written 9, {}]

/-- The state after the first steps of a run. -/
def after (is : List Input) : Player := (run (step id) playing is).getD playing

theorem blockCond_wait {p : Player} {i : Input} (h : p.pc = .wait) : BlockCond p i := by
  constructor <;> intro hpc <;> rw [h] at hpc <;> cases hpc

theorem blockCond_playing {p : Player} {i : Input} (hp : p.raopcl.pause = .noPause)
    (hi : i.events = {}) : BlockCond p i := by
  constructor
  · intro _ hnd
    rw [hp] at hnd
    cases hnd
  · rintro _ _ ⟨hnd, -⟩
    rw [hp] at hnd
    cases hnd
  · intro _ c song hcon
    rw [hi] at hcon
    cases hcon

theorem stream_whole_blocks_oneBlock :
    (∀ e ∈ (after oneBlock).sends, ¬ (0 < e.wsize ∧ 0 < e.remsize)) ∧
      IsWholeBlocks (blocksOf (after oneBlock).sends) (after oneBlock).stream := by
  have hrun : run (step id) playing oneBlock = some (after oneBlock) := rfl
  refine stream_whole_blocks id started_playing ?_ hrun
  have h₁ : step id playing (sample [1, 2, 3]) = some (after (oneBlock.take 1)) := rfl
  have h₂ : step id (after (oneBlock.take 1)) (written 10) = some (after (oneBlock.take 2)) := rfl
  have h₃ : step id (after (oneBlock.take 2)) (written 9) = some (after (oneBlock.take 3)) := rfl
  exact allSteps_cons (blockCond_playing rfl rfl) h₁ <|
    allSteps_cons (blockCond_wait rfl) h₂ <| allSteps_cons (blockCond_wait rfl) h₃ <|
      allSteps_cons (blockCond_playing rfl rfl) hrun trivial

/-- A song is stopped when ten bytes of a block are written, and another one is opened. -/
def cutBlock : List Input :=
  [sample [1, 2, 3], { events := { console := some { line := "stop".toList }, written := some 10 } },
    { events := { console := some { line := "play x".toList, dfd := some 7 } } }, sample [4], written 17]

/-- The run `cutBlock` enters `raopcl_send_sample` with nine bytes left to write: the socket gets ten
bytes of the first block, then the second one. -/
theorem stream_cut_block :
    Started playing ∧ ∃ p, run (step id) playing cutBlock = some p ∧
      (∃ e ∈ p.sends, e.wsize = 10 ∧ e.remsize = 9) ∧
      p.stream = [0x24, 0, 0, 15, 0xF0, 0xFF, 0, 0, 0, 0] ++
        [0x24, 0, 0, 13, 0xF0, 0xFF, 0, 0, 0, 0, 0, 0, 0, 0, 0, 0, 4] :=
  ⟨started_playing, after cutBlock, rfl, by decide, by decide⟩

end Waveplay.RaopPlay.WholeBlocks
