import Waveplay.RaopPlay.RaopClient

/-! # The main loop of `raop_play.c`

One step is one turn of the `while` loop of `main` up to its inner `do`, or one turn of that `do`.
What the surroundings do in a step is its `Input`: whether the stream is still wanted, what `poll`,
the source and `select` report, the console command, the times. `main_event_handler` looks at the
four slots of the event table in order; a callback may change the table for the slots after it.
The signals, whose handler registers `terminate_cbf`, are left out. -/

namespace Waveplay.RaopPlay.MainLoop

open Waveplay.RaopPlay.EventTable Waveplay.RaopPlay.RaopClient

/-! ### State -/

/-- Where the loop is: at the `while`, in the `do` that waits for the block to be written, past both. -/
inductive Pc
  | top
  | wait
  | done
  deriving DecidableEq, Repr

/-- A call of `raopcl_send_sample`: the two counters when it was entered, and the block it made. -/
structure Send where
  wsize : ℕ
  remsize : ℕ
  block : List UInt8
  deriving DecidableEq, Repr

/-- `raopld_t`, with the descriptor `dfd` for the source. `sends`, the newest first, and `stream`, the
bytes written to the stream socket, record what was done. -/
structure Player where
  session : Session
  auds : Option ℤ
  pc : Pc := .top
  sends : List Send := []
  stream : List UInt8 := []

abbrev Player.raopcl (p : Player) : Raopcl := p.session.raopcl

/-- The current block is partly written. -/
def Player.PartlyWritten (p : Player) : Prop := 0 < p.raopcl.wblkWsize ∧ 0 < p.raopcl.wblkRemsize

instance (p : Player) : Decidable p.PartlyWritten := inferInstanceAs (Decidable (_ ∧ _))

/-! ### Inputs -/

/-- What `poll` reports of the source: nothing, something without `POLLIN`, or `POLLIN`. -/
inductive Poll
  | none
  | other
  | pollin
  deriving DecidableEq, Repr

/-- What `auds_get_next_sample` gives: a sample, or a failure, after which `buf` and `size` point to
what is left in memory. -/
inductive Sample
  | ok (bytes : List UInt8)
  | failed (bytes : List UInt8)

def Sample.bytes : Sample → List UInt8
  | ok bytes => bytes
  | failed bytes => bytes

/-- A line from the console, if `read_line` does not fail, and what `auds_open` would give. -/
structure Console where
  eof : Bool := false
  line : List Char
  dfd : Option ℤ := none
  time : ℤ := 0

/-- What happens in one call of `main_event_handler`. The console and the stream socket are ready if
there is something to read, or a number of bytes to write; the standard output is or is not. -/
structure Events where
  console : Option Console := none
  received : Option ReadResult := none
  written : Option ℤ := none
  output : Bool := false
  now : Timeval := ⟨0, 0⟩
  check : ℤ := 0
  mark : ℤ := 0
  alloc : Bool := true

/-- What happens in one step. -/
structure Input where
  activated : Bool := true
  poll : Poll := .none
  pollAgain : Poll := .none
  sample : Sample := .failed []
  time : ℤ := 0
  alloc : Bool := true
  events : Events := {}

/-! ### Console -/

inductive Command
  | play (song : Bool)
  | pause
  | stop
  | quit
  | volume
  | other
  deriving DecidableEq, Repr

/-- The tests of `console_command`. A song is named if there is a space. -/
def command (cstr : List Char) : Command :=
  if "play".toList.isPrefixOf cstr then .play (cstr.contains ' ')
  else if cstr = "pause".toList then .pause
  else if cstr = "stop".toList then .stop
  else if cstr = "quit".toList then .quit
  else if cstr.tails.any ("volume".toList.isPrefixOf ·) then .volume
  else .other

def Player.setPause (p : Player) (pause : Pause) (now : ℤ) : Player :=
  { p with session := raopclSetPause p.session pause now }

/-- `console_command`; `false` is a return of `-2`. The volume goes to the receiver by RTSP. -/
def Player.consoleCommand (p : Player) (c : Console) : Bool × Player :=
  match command c.line with
  | .play song =>
    if p.raopcl.pause ≠ .noPause then (true, p.setPause .noPause c.time)
    else if song then (true, { p with auds := c.dfd })
    else (true, p)
  | .pause =>
    if p.raopcl.waitSongdone then (false, p)
    else if p.auds.isSome then (true, p.setPause .opPause c.time)
    else (true, p)
  | .stop =>
    let p := if p.raopcl.pause ≠ .noPause then p.setPause .noPause c.time else p
    (true, { p with auds := none })
  | .quit => (false, p)
  | .volume => (true, p)
  | .other => (true, p)

/-- `console_read`. -/
def Player.consoleRead (p : Player) (c : Console) : Bool × Player :=
  let fds := p.session.fds
  let p := if c.eof then
      { p with session := { p.session with fds := (clearFdEvent 0 fds).getD fds } }
    else p
  p.consoleCommand c

/-! ### Events -/

/-- `fd_event_callback` for reading. -/
def Player.streamRead (p : Player) (r : ReadResult) : Bool × Player :=
  let out := fdEventCallbackRead p.session r
  (out.1, { p with session := out.2 })

/-- `fd_event_callback` for writing. -/
def Player.streamWrite (p : Player) (i : ℤ) : Bool × Player :=
  let out := fdEventCallbackWrite p.session i
  (out.1, { p with session := out.2.1, stream := p.stream ++ out.2.2 })

/-- The callback of a slot that is ready for reading. -/
def Player.readCallback (p : Player) (e : Events) : Option Callback → Bool × Player
  | some .consoleRead =>
    match e.console with
    | some c => p.consoleRead c
    | none => (true, p)
  | some .fdEventCallback =>
    match e.received with
    | some r => p.streamRead r
    | none => (true, p)
  | some .terminateCbf => (true, p)
  | none => (true, p)

/-- The callback of a slot that is ready for writing. -/
def Player.writeCallback (p : Player) (e : Events) : Option Callback → Bool × Player
  | some .fdEventCallback =>
    match e.written with
    | some i => p.streamWrite i
    | none => (true, p)
  | some .terminateCbf => (!e.output, p)
  | _ => (true, p)

/-- The read event of slot `i`, where `asked` is the table as `select` saw it. -/
def Player.readEvent (p : Player) (e : Events) (asked : List (FdEvent Unit)) (i : ℕ) : Bool × Player :=
  let slot := p.session.fds.getD i {}
  if slot.read && asked.any (fun a => a.fd = slot.fd && a.read) then p.readCallback e slot.cbf
  else (true, p)

/-- The write event of slot `i`. -/
def Player.writeEvent (p : Player) (e : Events) (asked : List (FdEvent Unit)) (i : ℕ) : Bool × Player :=
  let slot := p.session.fds.getD i {}
  if slot.write && asked.any (fun a => a.fd = slot.fd && a.write) then p.writeCallback e slot.cbf
  else (true, p)

/-- The events of slot `i`; `false` is a return of `-1`. -/
def Player.handleSlot (p : Player) (e : Events) (asked : List (FdEvent Unit)) (i : ℕ) : Bool × Player :=
  if (p.session.fds.getD i {}).fd < 0 then (true, p)
  else
    let out := p.readEvent e asked i
    if !out.1 then out else out.2.writeEvent e asked i

/-- The slots in order. -/
def Player.handleSlots (p : Player) (e : Events) (asked : List (FdEvent Unit)) :
    List ℕ → Bool × Player
  | [] => (true, p)
  | i :: is =>
    let out := p.handleSlot e asked i
    if !out.1 then out else out.2.handleSlots e asked is

/-- The end of a song: `wait_songdone` is cleared when the buffer of the receiver is empty. -/
def Player.songdone (p : Player) (now : Timeval) : Player :=
  if p.raopcl.waitSongdone ∧ raopclAexbufTime p.raopcl now = ⟨0, 0⟩ then
    { p with session := { p.session with raopcl := { p.raopcl with waitSongdone := false } } }
  else p

/-- A small silent block is due. -/
def Player.SilentDue (p : Player) (now : ℤ) : Prop :=
  p.raopcl.pause = .nodataPause ∧ ¬ now - p.raopcl.pausedTime < 3

instance (p : Player) (now : ℤ) : Decidable (p.SilentDue now) := inferInstanceAs (Decidable (_ ∧ _))

section

variable (aes : Block → Block)

/-- `raopcl_pause_check`. -/
def Player.pauseCheck (p : Player) (e : Events) : Player :=
  let session := raopclPauseCheck aes p.session e.alloc e.check e.mark
  { p with
    session
    sends :=
      if p.SilentDue e.check then
        ⟨p.raopcl.wblkWsize, p.raopcl.wblkRemsize, session.raopcl.data⟩ :: p.sends
      else p.sends }

/-- What `main_event_handler` does up to the pause check. -/
def Player.afterEvents (p : Player) (e : Events) : Bool × Player :=
  let out := p.handleSlots e p.session.fds (List.range MAX_NUM_OF_FDS)
  if !out.1 then out else (true, out.2.songdone e.now)

/-- **`main_event_handler`**; `false` is a return of `-1`. -/
def Player.mainEventHandler (p : Player) (e : Events) : Bool × Player :=
  let out := p.afterEvents e
  if !out.1 then out else (true, out.2.pauseCheck aes e)

/-! ### The loop -/

/-- `pcm_poll_next_sample`. -/
def Player.pollNextSample (p : Player) (poll : Poll) : Bool × Player :=
  let dfd := p.auds.getD (-1)
  let fds := p.session.fds
  match poll with
  | .none =>
    (false, { p with session := { p.session with
      fds := (setFdEvent { fd := dfd, read := true } fds).getD fds } })
  | _ =>
    (poll = .pollin, { p with session := { p.session with fds := (clearFdEvent dfd fds).getD fds } })

/-- `raopcl_send_sample`, called by `main`. -/
def Player.send (p : Player) (alloc : Bool) (sample : List UInt8) : Bool × Player :=
  let out := raopclSendSample aes p.session alloc sample
  (out.1, { p with
    session := out.2
    sends := ⟨p.raopcl.wblkWsize, p.raopcl.wblkRemsize, out.2.raopcl.data⟩ :: p.sends })

/-- A source that fails is closed. -/
def Player.sampled (p : Player) : Sample → Player
  | .ok _ => p
  | .failed _ =>
    { p with
      auds := none
      session := { p.session with raopcl := { p.raopcl with waitSongdone := true } } }

/-- The case `NO_PAUSE`. -/
def Player.playNext (p : Player) (i : Input) : Player :=
  let out := p.pollNextSample i.pollAgain
  if !out.1 then { out.2.setPause .nodataPause i.time with pc := .top }
  else
    let out := (out.2.sampled i.sample).send aes i.alloc i.sample.bytes
    { out.2 with pc := if out.1 then .wait else .top }

/-- A turn that only checks events. -/
def Player.checkEvents (p : Player) (i : Input) : Player :=
  let out := p.mainEventHandler aes i.events
  { out.2 with pc := if out.1 then .top else .done }

/-- **One step of the main loop.** -/
def step (p : Player) (i : Input) : Option Player :=
  match p.pc with
  | .done => none
  | .wait =>
    let out := p.mainEventHandler aes i.events
    some { out.2 with
      pc := if !out.1 then .done
        else if out.2.auds.isSome && decide (out.2.raopcl.wblkRemsize ≠ 0) then .wait
        else .top }
  | .top =>
    if !i.activated then some { p with pc := .done }
    else if p.auds = none then some (p.checkEvents aes i)
    else
      match p.raopcl.pause with
      | .opPause => some (p.checkEvents aes i)
      | .nodataPause =>
        let out := p.pollNextSample i.poll
        if out.1 then some ((out.2.setPause .noPause i.time).playNext aes i)
        else some (out.2.checkEvents aes i)
      | .noPause => some (p.playNext aes i)

end

/-! ### What the events can do -/

section

variable {I : Player → Prop} {e : Events}

theorem readEvent_inv (hc : ∀ c, e.console = some c → ∀ p, I p → I (p.consoleRead c).2)
    (hr : ∀ r p, I p → I (p.streamRead r).2) {p : Player} (hp : I p) (asked : List (FdEvent Unit))
    (i : ℕ) : I (p.readEvent e asked i).2 := by
  simp only [Player.readEvent]
  split_ifs
  · unfold Player.readCallback
    split
    · split
      · next c hcon => exact hc c hcon p hp
      · exact hp
    · split
      · next r _ => exact hr r p hp
      · exact hp
    · exact hp
    · exact hp
  · exact hp

theorem writeEvent_inv (hw : ∀ n, e.written = some n → ∀ p, I p → I (p.streamWrite n).2)
    {p : Player} (hp : I p) (asked : List (FdEvent Unit)) (i : ℕ) : I (p.writeEvent e asked i).2 := by
  simp only [Player.writeEvent]
  split_ifs
  · unfold Player.writeCallback
    split
    · split
      · next n hwr => exact hw n hwr p hp
      · exact hp
    · exact hp
    · exact hp
  · exact hp

/-- What every callback preserves holds after all slots. -/
theorem handleSlots_inv (hc : ∀ c, e.console = some c → ∀ p, I p → I (p.consoleRead c).2)
    (hr : ∀ r p, I p → I (p.streamRead r).2)
    (hw : ∀ n, e.written = some n → ∀ p, I p → I (p.streamWrite n).2)
    (asked : List (FdEvent Unit)) :
    ∀ (is : List ℕ) {p : Player}, I p → I (p.handleSlots e asked is).2
  | [], _, hp => hp
  | i :: is, p, hp => by
    have hslot : I (p.handleSlot e asked i).2 := by
      simp only [Player.handleSlot]
      split_ifs
      · exact hp
      · exact readEvent_inv hc hr hp asked i
      · exact writeEvent_inv hw (readEvent_inv hc hr hp asked i) asked i
    simp only [Player.handleSlots]
    split_ifs
    · exact hslot
    · exact handleSlots_inv hc hr hw asked is hslot

/-- **What the events preserve**: what every callback and the end of a song do. -/
theorem afterEvents_inv (hc : ∀ c, e.console = some c → ∀ p, I p → I (p.consoleRead c).2)
    (hr : ∀ r p, I p → I (p.streamRead r).2)
    (hw : ∀ n, e.written = some n → ∀ p, I p → I (p.streamWrite n).2)
    (hs : ∀ now p, I p → I (p.songdone now)) {p : Player} (hp : I p) : I (p.afterEvents e).2 := by
  have hslots := handleSlots_inv hc hr hw p.session.fds (List.range MAX_NUM_OF_FDS) hp
  simp only [Player.afterEvents]
  split_ifs
  · exact hslots
  · exact hs _ _ hslots

end

/-- The block being written, and the record of sends and bytes, are the same. -/
structure SameBlock (p q : Player) : Prop where
  data : q.raopcl.data = p.raopcl.data
  wsize : q.raopcl.wblkWsize = p.raopcl.wblkWsize
  remsize : q.raopcl.wblkRemsize = p.raopcl.wblkRemsize
  udp : q.raopcl.udp = p.raopcl.udp
  sends : q.sends = p.sends
  stream : q.stream = p.stream

theorem SameBlock.refl (p : Player) : SameBlock p p := ⟨rfl, rfl, rfl, rfl, rfl, rfl⟩

theorem SameBlock.trans {p q r : Player} (h : SameBlock p q) (h' : SameBlock q r) : SameBlock p r :=
  ⟨h'.data.trans h.data, h'.wsize.trans h.wsize, h'.remsize.trans h.remsize, h'.udp.trans h.udp,
    h'.sends.trans h.sends, h'.stream.trans h.stream⟩

theorem SameBlock.partlyWritten {p q : Player} (h : SameBlock p q) :
    q.PartlyWritten ↔ p.PartlyWritten := by
  rw [Player.PartlyWritten, Player.PartlyWritten, h.wsize, h.remsize]

theorem setPause_sameBlock (p : Player) (pause : Pause) (now : ℤ) :
    SameBlock p (p.setPause pause now) := by
  cases pause <;> exact ⟨rfl, rfl, rfl, rfl, rfl, rfl⟩

@[simp] theorem setPause_pause (p : Player) (pause : Pause) (now : ℤ) :
    (p.setPause pause now).raopcl.pause = pause := by cases pause <;> rfl

@[simp] theorem setPause_auds (p : Player) (pause : Pause) (now : ℤ) :
    (p.setPause pause now).auds = p.auds := rfl

theorem streamRead_sameBlock (p : Player) (r : ReadResult) : SameBlock p (p.streamRead r).2 := by
  cases r <;> exact ⟨rfl, rfl, rfl, rfl, rfl, rfl⟩

/-- `n` bytes of the block went to the socket. -/
structure Wrote (p : Player) (n : ℕ) (q : Player) : Prop where
  pos : 0 < n
  le : n ≤ p.raopcl.wblkRemsize
  some : p.raopcl.data ≠ []
  data : q.raopcl.data = p.raopcl.data
  wsize : q.raopcl.wblkWsize = p.raopcl.wblkWsize + n
  remsize : q.raopcl.wblkRemsize = p.raopcl.wblkRemsize - n
  udp : q.raopcl.udp = p.raopcl.udp
  sends : q.sends = p.sends
  stream : q.stream = p.stream ++ (p.raopcl.data.drop p.raopcl.wblkWsize).take n

theorem streamWrite_cases (p : Player) (i : ℤ) :
    SameBlock p (p.streamWrite i).2 ∨ ∃ n, Wrote p n (p.streamWrite i).2 := by
  unfold Player.streamWrite fdEventCallbackWrite
  dsimp only
  by_cases hr : p.raopcl.wblkRemsize = 0
  · rw [if_pos hr]
    exact Or.inl ⟨rfl, rfl, rfl, rfl, rfl, List.append_nil _⟩
  · rw [if_neg hr]
    by_cases hi : i ≤ 0 ∨ p.raopcl.data = []
    · rw [if_pos hi]
      exact Or.inl ⟨rfl, rfl, rfl, rfl, rfl, List.append_nil _⟩
    · rw [if_neg hi]
      rw [not_or] at hi
      exact Or.inr ⟨_, by omega, Nat.min_le_right .., hi.2, rfl, rfl, rfl, rfl, rfl, rfl⟩

/-- The source and the pause are the same. -/
structure SameControl (p q : Player) : Prop where
  auds : q.auds = p.auds
  pause : q.raopcl.pause = p.raopcl.pause
  pausedTime : q.raopcl.pausedTime = p.raopcl.pausedTime

theorem streamRead_sameControl (p : Player) (r : ReadResult) : SameControl p (p.streamRead r).2 := by
  cases r <;> exact ⟨rfl, rfl, rfl⟩

theorem streamWrite_sameControl (p : Player) (i : ℤ) : SameControl p (p.streamWrite i).2 := by
  unfold Player.streamWrite fdEventCallbackWrite
  dsimp only
  split_ifs <;> exact ⟨rfl, rfl, rfl⟩

theorem songdone_sameBlock (p : Player) (now : Timeval) : SameBlock p (p.songdone now) := by
  rw [Player.songdone]
  by_cases h : p.raopcl.waitSongdone ∧ raopclAexbufTime p.raopcl now = ⟨0, 0⟩
  · rw [if_pos h]
    exact ⟨rfl, rfl, rfl, rfl, rfl, rfl⟩
  · rw [if_neg h]
    exact .refl p

theorem songdone_sameControl (p : Player) (now : Timeval) : SameControl p (p.songdone now) := by
  unfold Player.songdone
  split_ifs <;> exact ⟨rfl, rfl, rfl⟩

theorem pollNextSample_ready (p : Player) (poll : Poll) :
    (p.pollNextSample poll).1 = true ↔ poll = .pollin := by
  cases poll <;> simp [Player.pollNextSample]

theorem pollNextSample_sameControl (p : Player) (poll : Poll) :
    SameControl p (p.pollNextSample poll).2 := by
  cases poll <;> exact ⟨rfl, rfl, rfl⟩

theorem pollNextSample_sameBlock (p : Player) (poll : Poll) :
    SameBlock p (p.pollNextSample poll).2 := by
  cases poll <;> exact ⟨rfl, rfl, rfl, rfl, rfl, rfl⟩

theorem sampled_sameBlock (p : Player) (sample : Sample) : SameBlock p (p.sampled sample) := by
  cases sample <;> exact ⟨rfl, rfl, rfl, rfl, rfl, rfl⟩

theorem sampled_pause (p : Player) (sample : Sample) :
    (p.sampled sample).raopcl.pause = p.raopcl.pause := by cases sample <;> rfl

/-- What a console command does to the source and the pause. -/
inductive Commanded (p : Player) (c : Console) (q : Player) : Prop
  | nothing (h : SameControl p q)
  | resumed {song : Bool} (hc : command c.line = .play song) (hp : p.raopcl.pause ≠ .noPause)
      (hpause : q.raopcl.pause = .noPause) (hauds : q.auds = p.auds)
  | opened (hc : command c.line = .play true) (hp : p.raopcl.pause = .noPause)
      (hpause : q.raopcl.pause = .noPause)
  | paused (hc : command c.line = .pause) (hp : p.auds.isSome) (hpause : q.raopcl.pause = .opPause)
      (hauds : q.auds = p.auds)
  | stopped (hpause : q.raopcl.pause = .noPause) (hauds : q.auds = none)

theorem consoleCommand_commanded (p : Player) (c : Console) :
    SameBlock p (p.consoleCommand c).2 ∧ Commanded p c (p.consoleCommand c).2 := by
  unfold Player.consoleCommand
  split
  · next song hc =>
    by_cases hp : p.raopcl.pause = .noPause
    · rw [if_neg (by simpa using hp)]
      cases song
      · exact ⟨.refl p, .nothing ⟨rfl, rfl, rfl⟩⟩
      · exact ⟨⟨rfl, rfl, rfl, rfl, rfl, rfl⟩, .opened hc hp hp⟩
    · rw [if_pos hp]
      exact ⟨setPause_sameBlock .., .resumed hc hp (setPause_pause ..) rfl⟩
  · next hc =>
    split_ifs with _ ha
    · exact ⟨.refl p, .nothing ⟨rfl, rfl, rfl⟩⟩
    · exact ⟨setPause_sameBlock .., .paused hc ha (setPause_pause ..) rfl⟩
    · exact ⟨.refl p, .nothing ⟨rfl, rfl, rfl⟩⟩
  · by_cases hp : p.raopcl.pause = .noPause
    · rw [if_neg (by simpa using hp)]
      exact ⟨⟨rfl, rfl, rfl, rfl, rfl, rfl⟩, .stopped hp rfl⟩
    · rw [if_pos hp]
      obtain ⟨h1, h2, h3, h4, h5, h6⟩ := setPause_sameBlock p .noPause c.time
      exact ⟨⟨h1, h2, h3, h4, h5, h6⟩, .stopped (setPause_pause p .noPause c.time) rfl⟩
  all_goals exact ⟨.refl p, .nothing ⟨rfl, rfl, rfl⟩⟩

/-- **One console command** leaves the block alone. -/
theorem consoleRead_commanded (p : Player) (c : Console) :
    SameBlock p (p.consoleRead c).2 ∧ Commanded p c (p.consoleRead c).2 := by
  unfold Player.consoleRead
  cases c.eof with
  | false => exact consoleCommand_commanded p c
  | true =>
    let q := { p with session := { p.session with
      fds := (clearFdEvent 0 p.session.fds).getD p.session.fds } }
    obtain ⟨hsame, hcom⟩ := consoleCommand_commanded q c
    have hq : SameBlock p q := ⟨rfl, rfl, rfl, rfl, rfl, rfl⟩
    refine ⟨hq.trans hsame, ?_⟩
    cases hcom with
    | nothing h => exact .nothing ⟨h.auds, h.pause, h.pausedTime⟩
    | resumed hc hp hpause hauds => exact .resumed hc hp hpause hauds
    | opened hc hp hpause => exact .opened hc hp hpause
    | paused hc hp hpause hauds => exact .paused hc hp hpause hauds
    | stopped hpause hauds => exact .stopped hpause hauds

/-- **The source and the pause** change by console commands only. -/
theorem afterEvents_control {I : Option ℤ → Pause → ℤ → Prop} {e : Events}
    (hc : ∀ c, e.console = some c → ∀ p q : Player, Commanded p c q →
      I p.auds p.raopcl.pause p.raopcl.pausedTime → I q.auds q.raopcl.pause q.raopcl.pausedTime)
    {p : Player} (hp : I p.auds p.raopcl.pause p.raopcl.pausedTime) :
    I (p.afterEvents e).2.auds (p.afterEvents e).2.raopcl.pause
      (p.afterEvents e).2.raopcl.pausedTime := by
  have hsame : ∀ p q : Player, SameControl p q → I p.auds p.raopcl.pause p.raopcl.pausedTime →
      I q.auds q.raopcl.pause q.raopcl.pausedTime := by
    intro p q h hp
    rwa [h.auds, h.pause, h.pausedTime]
  refine afterEvents_inv (I := fun p => I p.auds p.raopcl.pause p.raopcl.pausedTime) ?_ ?_ ?_ ?_ hp
  · exact fun c hcon p => hc c hcon p _ (consoleRead_commanded p c).2
  · exact fun r p => hsame p _ (streamRead_sameControl p r)
  · exact fun n _ p => hsame p _ (streamWrite_sameControl p n)
  · exact fun now p => hsame p _ (songdone_sameControl p now)

/-! ### What a step can do -/

/-- The state in which the step enters `main_event_handler`, if it does. -/
def Player.selecting (p : Player) (i : Input) : Option Player :=
  match p.pc with
  | .done => none
  | .wait => some p
  | .top =>
    if !i.activated then none
    else if p.auds = none then some p
    else
      match p.raopcl.pause with
      | .opPause => some p
      | .nodataPause =>
        let out := p.pollNextSample i.poll
        if out.1 then none else some out.2
      | .noPause => none

/-- The step gets to the case `NO_PAUSE`. -/
structure Player.Plays (p : Player) (i : Input) : Prop where
  pc : p.pc = .top
  activated : i.activated = true
  auds : p.auds.isSome
  pause : p.raopcl.pause = .noPause ∨ p.raopcl.pause = .nodataPause ∧ i.poll = .pollin

/-- The step calls `auds_get_next_sample`. -/
structure Player.GetsSample (p : Player) (i : Input) : Prop extends p.Plays i where
  ready : i.pollAgain = .pollin

/-- The state in which the step gets to the case `NO_PAUSE`. -/
def Player.resumed (p : Player) (i : Input) : Player :=
  if p.raopcl.pause = .nodataPause then (p.pollNextSample i.poll).2.setPause .noPause i.time else p

/-- Where the loop goes on after `main_event_handler`. -/
structure GoesOn (p : Player) (out : Bool × Player) (pc : Pc) : Prop where
  failed : out.1 = false → pc = .done
  wait : pc = .wait → p.pc = .wait ∧ out.2.auds.isSome ∧ out.2.raopcl.wblkRemsize ≠ 0

/-- **What a step can do**: end the loop, handle events, or play. -/
inductive Stepped (aes : Block → Block) (p : Player) (i : Input) (p' : Player) : Prop
  | ended (h : p' = { p with pc := .done })
  | checked {q : Player} {pc : Pc} (hq : p.selecting i = some q)
      (hpc : GoesOn p (q.mainEventHandler aes i.events) pc)
      (h : p' = { (q.mainEventHandler aes i.events).2 with pc })
  | played (hp : p.Plays i) (h : p' = (p.resumed i).playNext aes i)

theorem checkEvents_goesOn (aes : Block → Block) (p q : Player) (i : Input) : ∃ pc,
    GoesOn p (q.mainEventHandler aes i.events) pc ∧
      q.checkEvents aes i = { (q.mainEventHandler aes i.events).2 with pc } := by
  refine ⟨_, ⟨fun hfailed => ?_, fun hwait => ?_⟩, rfl⟩
  · rw [hfailed]
    rfl
  · split_ifs at hwait

theorem step_stepped {aes : Block → Block} {p p' : Player} {i : Input} (h : step aes p i = some p') :
    Stepped aes p i p' := by
  unfold step at h
  split at h
  · cases h
  · next hpc =>
    obtain rfl := Option.some.inj h
    refine .checked (q := p) (by rw [Player.selecting, hpc]) ⟨fun hfailed => ?_, fun hwait => ?_⟩ rfl
    · simp [hfailed]
    · split_ifs at hwait with _ hrem
      exact ⟨hpc, by simpa using hrem⟩
  · next hpc =>
    split_ifs at h with hact hauds
    · exact .ended (Option.some.inj h).symm
    · obtain rfl := Option.some.inj h
      obtain ⟨pc, hgoes, heq⟩ := checkEvents_goesOn aes p p i
      exact .checked (by simp only [Player.selecting, hpc, if_neg hact, if_pos hauds]) hgoes heq
    · have hsome : p.auds.isSome := Option.isSome_iff_ne_none.mpr hauds
      have hactive : i.activated = true := by simpa using hact
      cases hpause : p.raopcl.pause with
      | opPause =>
        rw [hpause] at h
        obtain rfl := Option.some.inj h
        obtain ⟨pc, hgoes, heq⟩ := checkEvents_goesOn aes p p i
        refine .checked ?_ hgoes heq
        simp only [Player.selecting, hpc, if_neg hact, if_neg hauds, hpause]
      | nodataPause =>
        rw [hpause] at h
        simp only at h
        split_ifs at h with hpoll
        · refine .played ⟨hpc, hactive, hsome, .inr ⟨hpause, (pollNextSample_ready ..).mp hpoll⟩⟩ ?_
          rw [Player.resumed, if_pos hpause]
          exact (Option.some.inj h).symm
        · obtain rfl := Option.some.inj h
          obtain ⟨pc, hgoes, heq⟩ := checkEvents_goesOn aes p (p.pollNextSample i.poll).2 i
          refine .checked ?_ hgoes heq
          simp only [Player.selecting, hpc, if_neg hact, if_neg hauds, hpause, if_neg hpoll]
      | noPause =>
        rw [hpause] at h
        refine .played ⟨hpc, hactive, hsome, .inl hpause⟩ ?_
        rw [Player.resumed, hpause, if_neg (by decide)]
        exact (Option.some.inj h).symm

end Waveplay.RaopPlay.MainLoop
