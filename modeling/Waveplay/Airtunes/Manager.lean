import Waveplay.Airtunes.AudioPacket
import Waveplay.Airtunes.Speaker

/-! # `AirtunesManager`: the queue and the sender

The manager has a producer and a consumer. `sendAudioPacket`, `clear` and `drain` hold the lock of the
manager; the sender, a task that runs at a fixed rate, does not. So a call of `sendAudioPacket` is two
steps here, the filling of a buffer (`fill`) and the `put` that waits while the queue is full, and so is
a run of the sender, the `poll` and the sending of what it got (`transmit`). `clear` and `drain` are
taken between two calls of `sendAudioPacket`, and `drain` when it finds the queue empty.

An exception other than `IOException` in a run of the sender cancels the task for good. `start` and
`stop`, inside `addSpeaker` and `removeSpeaker`, make and end the task; a run in progress ends with it.
The results of the network, the clock and the random generator are part of each step. -/

namespace Waveplay.Airtunes.Manager

open Waveplay.Airtunes.AudioPacket Waveplay.Airtunes.Speaker

def SYNCFREQUENCY : ℕ := 126

/-- An index into `packetdata`. -/
abbrev Buffer := Fin (QUEUELENGTH + 5)

/-- An entry of `speakers`; `id` tells the objects apart. -/
structure Listed where
  name : String
  id : ℕ
  speaker : AirtunesSpeaker
  deriving DecidableEq, Repr

/-- An audio packet that was sent to a speaker, with the number of packets the sender had handled
before it. -/
structure Datagram where
  speaker : ℕ
  index : ℕ
  packet : Packet
  deriving DecidableEq, Repr

/-- The fields of the manager. The entries of `speakers` are in the order of its iterator. An `int` is
given by its bits. -/
structure AirtunesManager where
  speakers : List Listed := []
  /-- between `start` and `stop` -/
  started : Bool := false
  key : Block := fun _ => 0
  iv : Block := fun _ => 0
  rtpseq : ℕ := 0
  rtptime : ℕ := 0
  packetcount : ℕ := 0
  speakerstarted : Bool := false
  encoder : Encoder := {}
  packetqueue : List Buffer := []
  /-- the buffer of a call of `sendAudioPacket` that has not returned -/
  filling : Option Buffer := none
  /-- the buffer of a run of the sender that has not ended -/
  sending : Option Buffer := none
  /-- a run of the sender has ended with an exception -/
  cancelled : Bool := false
  /-- how many speakers have been made -/
  created : ℕ := 0
  /-- how many packets the sender has handled -/
  handled : ℕ := 0
  /-- the audio packets sent -/
  sent : List Datagram := []
  /-- the packets that went to at least one speaker since the last `start`, `clear` or `drain` -/
  audio : List Packet := []

/-! ### Speakers -/

/-- What `start` draws. -/
structure Random where
  key : Block
  iv : Block
  rtpseq : ℕ
  rtptime : ℕ
  ssrc : UInt32

def AirtunesManager.start (m : AirtunesManager) (r : Random) : AirtunesManager :=
  { m with
    key := r.key, iv := r.iv
    rtpseq := r.rtpseq % 8192, rtptime := r.rtptime % 65536, packetcount := 0
    speakerstarted := false, packetqueue := [], started := true, cancelled := false
    encoder := m.encoder.start r.ssrc
    audio := [] }

def AirtunesManager.stop (m : AirtunesManager) : AirtunesManager :=
  { m with started := false, packetqueue := [], sending := none }

/-- What `addSpeaker` meets: a place in the order of the speakers, and the network. -/
structure Joining where
  name : String
  place : ℕ
  random : Random
  connection : Connection
  first : Option (Option ℤ)
  retry : Connection
  second : Option (Option ℤ)

/-- The new speaker, after `connect` and `start`. -/
def Joining.speaker (j : Joining) : AirtunesSpeaker :=
  after (do
    Speaker.connect j.connection
    Speaker.start j.first j.retry j.second) {}

/-- `addSpeaker`. `start` waits for the lock. If the last speaker left and `stop` was not reached, `start`
makes a second sender beside the first; that is not modelled, and there is no step. The new speaker comes to
its place in the order of the iterator, which stays the order of the others. -/
def AirtunesManager.addSpeaker (m : AirtunesManager) (j : Joining) : Option AirtunesManager :=
  if m.speakers = [] ∧ (m.started = true ∨ m.filling.isSome = true) then none
  else
    let m := if m.speakers = [] then m.start j.random else m
    let others := m.speakers.filter (·.name ≠ j.name)
    some { m with
      speakers := others.take j.place ++ ⟨j.name, m.created, j.speaker⟩ :: others.drop j.place
      created := m.created + 1 }

/-- `removeSpeaker`. If `disconnect` throws, `stop` is not reached. -/
def AirtunesManager.removeSpeaker (m : AirtunesManager) (id : ℕ) (teardown : Bool) :
    Option AirtunesManager :=
  match m.speakers.find? (·.id = id) with
  | none => some m
  | some l =>
    let rest := m.speakers.filter (·.id ≠ id)
    match (Speaker.disconnect teardown).run l.speaker with
    | .error _ _ => some { m with speakers := rest }
    | .ok _ _ =>
      if rest = [] then
        if m.filling.isSome then none else some (AirtunesManager.stop { m with speakers := rest })
      else some { m with speakers := rest }

/-- A call of a method of a speaker. -/
def AirtunesManager.call (m : AirtunesManager) (id : ℕ) (c : SpeakerCall) : AirtunesManager :=
  { m with speakers := m.speakers.map fun l =>
      if l.id = id then { l with speaker := after c.method l.speaker } else l }

/-! ### The producer -/

section

variable (aes : Block → Block → Block)

/-- `sendAudioPacket` up to the `put`. With the manager stopped, the `put` throws. -/
def AirtunesManager.fill (m : AirtunesManager) (c : Pcm) : Option AirtunesManager :=
  if m.filling.isSome then none
  else
    let encoder := m.encoder.sendAudioPacket (doFinal (aes m.key) m.iv) m.packetcount c
    some { m with
      encoder, speakerstarted := true
      filling := if m.started then some m.encoder.packetdatahead else none }

end

/-- The `put` of `sendAudioPacket`. -/
def AirtunesManager.put (m : AirtunesManager) : Option AirtunesManager :=
  match m.filling with
  | none => none
  | some b =>
    if m.packetqueue.length < QUEUELENGTH then
      some { m with packetqueue := m.packetqueue ++ [b], filling := none }
    else none

/-- The loop of `clear` over the speakers: an exception ends it. -/
def stopAll (stops : ℕ → Bool × Connection × Bool) : List Listed → List Listed
  | [] => []
  | l :: ls =>
    match (Speaker.stop (stops l.id).1 (stops l.id).2.1 (stops l.id).2.2).run l.speaker with
    | .ok _ s => { l with speaker := s } :: stopAll stops ls
    | .error _ s => { l with speaker := s } :: ls

def AirtunesManager.clear (m : AirtunesManager) (stops : ℕ → Bool × Connection × Bool) :
    Option AirtunesManager :=
  if !m.started || m.filling.isSome then none
  else some { m with
    packetqueue := [], packetcount := 0, speakerstarted := false
    speakers := if m.speakerstarted then stopAll stops m.speakers else m.speakers
    audio := [] }

/-- `drain`, once the queue is empty. -/
def AirtunesManager.drain (m : AirtunesManager) : Option AirtunesManager :=
  if !m.started || m.filling.isSome || m.packetqueue ≠ [] then none
  else some { m with packetcount := 0, speakerstarted := false, audio := [] }

/-! ### The sender -/

def AirtunesManager.poll (m : AirtunesManager) : Option AirtunesManager :=
  if !m.started || m.cancelled || m.sending.isSome then none
  else
    match m.packetqueue with
    | [] => none
    | b :: queue => some { m with packetqueue := queue, sending := some b }

/-- What a run of the sender meets: for each speaker the clock, and whether a sync packet and an audio
packet to it fail. -/
structure Tick where
  now : ℕ → ℤ
  syncFails : ℕ → Bool
  audioFails : ℕ → Bool

/-- `sendSyncPacket`: a packet cannot be given a null address. -/
def sendSyncPacket (t : Tick) : List Listed → Option Throwable
  | [] => none
  | l :: ls =>
    if l.speaker.acontrol.isNone then some .unchecked
    else if t.syncFails l.id then some .ioException
    else sendSyncPacket t ls

/-- The loop of the sender over the speakers: the speakers after it, those that were sent the packet,
and the exception it ends with. -/
def sendAudio (t : Tick) : List Listed → List Listed × List ℕ × Option Throwable
  | [] => ([], [], none)
  | l :: ls =>
    match (Speaker.isConnected (t.now l.id)).run l.speaker with
    | .error e s => ({ l with speaker := s } :: ls, [], some e)
    | .ok false s =>
      let (ls, ids, e) := sendAudio t ls
      ({ l with speaker := s } :: ls, ids, e)
    | .ok true s =>
      if s.aserver.isNone || !s.audio then ({ l with speaker := s } :: ls, [], some .unchecked)
      else if t.audioFails l.id then ({ l with speaker := s } :: ls, [], some .ioException)
      else
        let (ls, ids, e) := sendAudio t ls
        ({ l with speaker := s } :: ls, l.id :: ids, e)

/-- The packet in a buffer with the sequence number and the time written to it. -/
def AirtunesManager.stamped (m : AirtunesManager) (b : Buffer) : Packet :=
  { m.encoder.packetdata b with
    rtpseq := UInt16.ofNat m.rtpseq, rtptime := UInt32.ofNat m.rtptime }

/-- The counters advance. -/
def AirtunesManager.advance (m : AirtunesManager) : AirtunesManager :=
  { m with
    rtpseq := (m.rtpseq + 1) % 2 ^ 32
    rtptime := (m.rtptime + PACKETSIZE) % 2 ^ 32
    packetcount := (m.packetcount + 1) % 2 ^ 32 }

/-- A run of the sender ends. -/
def AirtunesManager.endRun (m : AirtunesManager) : Option Throwable → AirtunesManager
  | none => { m.advance with sending := none }
  | some .ioException => { m with sending := none }
  | some .unchecked => { m with sending := none, cancelled := true }

/-- `packetcount % SYNCFREQUENCY == 0`, where `packetcount` is negative from `2 ^ 31` on. -/
def syncDue (packetcount : ℕ) : Bool :=
  if packetcount < 2 ^ 31 then packetcount % SYNCFREQUENCY = 0
  else (2 ^ 32 - packetcount) % SYNCFREQUENCY = 0

/-- The sync packets of a run of the sender, if they are due. -/
def AirtunesManager.sendSync (m : AirtunesManager) (t : Tick) : Option Throwable :=
  if syncDue m.packetcount then sendSyncPacket t m.speakers else none

/-- The audio part of a run of the sender. -/
def AirtunesManager.sendPacket (m : AirtunesManager) (b : Buffer) (t : Tick) : AirtunesManager :=
  let (speakers, ids, e) := sendAudio t m.speakers
  AirtunesManager.endRun { m with
    speakers
    encoder := { m.encoder with packetdata := Function.update m.encoder.packetdata b (m.stamped b) }
    handled := m.handled + 1
    sent := m.sent ++ ids.map fun id => ⟨id, m.handled, m.stamped b⟩
    audio := if ids = [] then m.audio else m.audio ++ [m.stamped b] } e

/-- The rest of a run of the sender after its `poll`. -/
def AirtunesManager.transmit (m : AirtunesManager) (t : Tick) : Option AirtunesManager :=
  match m.sending with
  | none => none
  | some b =>
    match m.sendSync t with
    | some e => some (AirtunesManager.endRun { m with handled := m.handled + 1 } (some e))
    | none => some (m.sendPacket b t)

/-! ### Steps -/

inductive Op
  | addSpeaker (j : Joining)
  | removeSpeaker (id : ℕ) (teardown : Bool)
  | call (id : ℕ) (c : SpeakerCall)
  | fill (c : Pcm)
  | put
  | clear (stops : ℕ → Bool × Connection × Bool)
  | drain
  | poll
  | transmit (t : Tick)

/-- One step; `none` if it has to wait or has nothing to do. -/
def step (aes : Block → Block → Block) (m : AirtunesManager) : Op → Option AirtunesManager
  | .addSpeaker j => m.addSpeaker j
  | .removeSpeaker id teardown => m.removeSpeaker id teardown
  | .call id c => some (m.call id c)
  | .fill c => m.fill aes c
  | .put => m.put
  | .clear stops => m.clear stops
  | .drain => m.drain
  | .poll => m.poll
  | .transmit t => m.transmit t

/-! ### What a step can do -/

variable {m m' : AirtunesManager}

theorem addSpeaker_cases {j : Joining} (h : m.addSpeaker j = some m') :
    ∃ m₀, (m.speakers ≠ [] ∧ m₀ = m ∨
        m.speakers = [] ∧ m.started = false ∧ m.filling = none ∧ m₀ = m.start j.random) ∧
      m' = { m₀ with
        speakers := (m₀.speakers.filter (·.name ≠ j.name)).take j.place ++
          ⟨j.name, m₀.created, j.speaker⟩ :: (m₀.speakers.filter (·.name ≠ j.name)).drop j.place
        created := m₀.created + 1 } := by
  unfold AirtunesManager.addSpeaker at h
  by_cases hs : m.speakers = []
  · by_cases hw : m.started = true ∨ m.filling.isSome = true
    · simp [hs, hw] at h
    · rw [if_neg (by tauto), if_pos hs] at h
      rw [not_or, Bool.not_eq_true, Bool.not_eq_true, Option.isSome_eq_false_iff,
        Option.isNone_iff_eq_none] at hw
      exact ⟨m.start j.random, .inr ⟨hs, hw.1, hw.2, rfl⟩, (Option.some.inj h).symm⟩
  · rw [if_neg (by tauto), if_neg hs] at h
    exact ⟨m, .inl ⟨hs, rfl⟩, (Option.some.inj h).symm⟩

theorem place_perm (place : ℕ) (l : Listed) (others : List Listed) :
    (others.take place ++ l :: others.drop place).Perm (l :: others) := by
  have hmid : (others.take place ++ l :: others.drop place).Perm
      (l :: (others.take place ++ others.drop place)) := List.perm_middle
  rwa [List.take_append_drop] at hmid

theorem removeSpeaker_cases {id : ℕ} {teardown : Bool} (h : m.removeSpeaker id teardown = some m') :
    m' = m ∨ m' = { m with speakers := m.speakers.filter (·.id ≠ id) } ∨
      m.speakers.filter (·.id ≠ id) = [] ∧ m.filling = none ∧
        m' = AirtunesManager.stop { m with speakers := m.speakers.filter (·.id ≠ id) } := by
  unfold AirtunesManager.removeSpeaker at h
  rcases hf : m.speakers.find? (·.id = id) with _ | l
  · rw [hf] at h
    exact .inl (Option.some.inj h).symm
  · simp only [hf] at h
    rcases hr : (Speaker.disconnect teardown).run l.speaker with ⟨a, s⟩ | ⟨e, s⟩
    · simp only [hr] at h
      split_ifs at h with he hl
      · rw [Bool.not_eq_true, Option.isSome_eq_false_iff, Option.isNone_iff_eq_none] at hl
        exact .inr (.inr ⟨he, hl, (Option.some.inj h).symm⟩)
      · exact .inr (.inl (Option.some.inj h).symm)
    · simp only [hr] at h
      exact .inr (.inl (Option.some.inj h).symm)

theorem fill_cases {aes : Block → Block → Block} {c : Pcm} (h : m.fill aes c = some m') :
    m.filling = none ∧ m' = { m with
      encoder := m.encoder.sendAudioPacket (doFinal (aes m.key) m.iv) m.packetcount c
      speakerstarted := true
      filling := if m.started then some m.encoder.packetdatahead else none } := by
  unfold AirtunesManager.fill at h
  by_cases hf : m.filling.isSome = true
  · simp [hf] at h
  · rw [if_neg hf] at h
    rw [Bool.not_eq_true, Option.isSome_eq_false_iff, Option.isNone_iff_eq_none] at hf
    exact ⟨hf, (Option.some.inj h).symm⟩

theorem put_cases (h : m.put = some m') :
    ∃ b, m.filling = some b ∧ m.packetqueue.length < QUEUELENGTH ∧
      m' = { m with packetqueue := m.packetqueue ++ [b], filling := none } := by
  unfold AirtunesManager.put at h
  rcases hf : m.filling with _ | b
  · simp [hf] at h
  · simp only [hf] at h
    split_ifs at h with hl
    exact ⟨b, rfl, hl, (Option.some.inj h).symm⟩

theorem clear_cases {stops : ℕ → Bool × Connection × Bool} (h : m.clear stops = some m') :
    m.filling = none ∧ m' = { m with
      packetqueue := [], packetcount := 0, speakerstarted := false
      speakers := if m.speakerstarted then stopAll stops m.speakers else m.speakers
      audio := [] } := by
  unfold AirtunesManager.clear at h
  by_cases hf : (!m.started || m.filling.isSome) = true
  · simp [hf] at h
  · rw [if_neg hf] at h
    simp only [Bool.or_eq_true, not_or, Bool.not_eq_true, Option.isSome_eq_false_iff,
      Option.isNone_iff_eq_none] at hf
    exact ⟨hf.2, (Option.some.inj h).symm⟩

theorem drain_cases (h : m.drain = some m') :
    m.filling = none ∧ m.packetqueue = [] ∧
      m' = { m with packetcount := 0, speakerstarted := false, audio := [] } := by
  unfold AirtunesManager.drain at h
  split_ifs at h with hf
  simp only [Bool.or_eq_true, not_or, Bool.not_eq_true, Option.isSome_eq_false_iff,
    Option.isNone_iff_eq_none, decide_eq_false_iff_not, ne_eq, not_not] at hf
  exact ⟨hf.1.2, hf.2, (Option.some.inj h).symm⟩

theorem poll_cases (h : m.poll = some m') :
    ∃ b queue, m.sending = none ∧ m.packetqueue = b :: queue ∧ m.cancelled = false ∧
      m' = { m with packetqueue := queue, sending := some b } := by
  unfold AirtunesManager.poll at h
  split_ifs at h with hf
  simp only [Bool.or_eq_true, not_or, Bool.not_eq_true, Option.isSome_eq_false_iff,
    Option.isNone_iff_eq_none, Bool.not_eq_false'] at hf
  rcases hq : m.packetqueue with _ | ⟨b, queue⟩
  · simp [hq] at h
  · simp only [hq] at h
    exact ⟨b, queue, hf.2, rfl, hf.1.2, (Option.some.inj h).symm⟩

theorem sendSync_eq_some {t : Tick} {e : Throwable} (h : m.sendSync t = some e) :
    sendSyncPacket t m.speakers = some e := by
  unfold AirtunesManager.sendSync at h
  split_ifs at h
  exact h

/-- A sender that drops its packet when it is cancelled is not cancelled while it has one. -/
theorem not_cancelled (hidle : m.cancelled = true → m.sending = none) {b : Buffer}
    (hb : m.sending = some b) : m.cancelled = false := by
  by_contra hc
  rw [Bool.not_eq_false] at hc
  simp [hidle hc] at hb

theorem transmit_cases {t : Tick} (h : m.transmit t = some m') :
    ∃ b, m.sending = some b ∧
      ((∃ e, m.sendSync t = some e ∧
          m' = AirtunesManager.endRun { m with handled := m.handled + 1 } (some e)) ∨
        m' = m.sendPacket b t) := by
  unfold AirtunesManager.transmit at h
  split at h
  · cases h
  · rename_i b hb
    refine ⟨b, hb, ?_⟩
    split at h
    · rename_i e he
      exact .inl ⟨e, he, (Option.some.inj h).symm⟩
    · exact .inr (Option.some.inj h).symm

/-- The speakers that a run of the sender finds connected. -/
def connected (t : Tick) (ls : List Listed) : List Listed :=
  ls.filter fun l => ¬ l.speaker.Expired (t.now l.id)

theorem isConnected_expired {s : AirtunesSpeaker} {now : ℤ} (h : s.Expired now) :
    (∃ s', (Speaker.isConnected now).run s = .ok false s') ∨
      ∃ s', (Speaker.isConnected now).run s = .error .unchecked s' := by
  cases hr : s.rtsp with
  | false => right; exact ⟨s, by simp [Speaker.isConnected, h, invalidate, hr]⟩
  | true => left; exact ⟨_, by simp [Speaker.isConnected, h, invalidate, hr]; rfl⟩

theorem sendAudio_cons (t : Tick) (l : Listed) (ls : List Listed) :
    (l.speaker.Expired (t.now l.id) ∧ ∃ s,
      (sendAudio t (l :: ls) =
          ({ l with speaker := s } :: (sendAudio t ls).1, (sendAudio t ls).2.1, (sendAudio t ls).2.2) ∨
        sendAudio t (l :: ls) = ({ l with speaker := s } :: ls, [], some .unchecked))) ∨
    (¬ l.speaker.Expired (t.now l.id) ∧
      (sendAudio t (l :: ls) = (l :: ls, [], some .unchecked) ∨
        t.audioFails l.id = true ∧ sendAudio t (l :: ls) = (l :: ls, [], some .ioException) ∨
        t.audioFails l.id = false ∧ sendAudio t (l :: ls) =
          (l :: (sendAudio t ls).1, l.id :: (sendAudio t ls).2.1, (sendAudio t ls).2.2))) := by
  by_cases h : l.speaker.Expired (t.now l.id)
  · left
    refine ⟨h, ?_⟩
    rcases isConnected_expired h with ⟨s, hs⟩ | ⟨s, hs⟩
    · exact ⟨s, .inl (by rw [sendAudio, hs])⟩
    · exact ⟨s, .inr (by rw [sendAudio, hs])⟩
  · right
    refine ⟨h, ?_⟩
    rw [sendAudio, isConnected_run h]
    by_cases hfree : (l.speaker.aserver.isNone || !l.speaker.audio) = true
    · exact .inl (by simp only [hfree, if_true])
    · cases hf : t.audioFails l.id with
      | true => exact .inr (.inl ⟨rfl, by simp only [hfree]; rfl⟩)
      | false => exact .inr (.inr ⟨rfl, by simp only [hfree]; rfl⟩)

theorem sendAudio_ids (t : Tick) : ∀ ls : List Listed,
    (sendAudio t ls).1.map (·.id) = ls.map (·.id)
  | [] => rfl
  | l :: ls => by
    have ih := sendAudio_ids t ls
    rcases sendAudio_cons t l ls with ⟨-, s, h | h⟩ | ⟨-, h | ⟨-, h⟩ | ⟨-, h⟩⟩
    · simp [h, ih]
    · simp [h]
    · simp [h]
    · simp [h]
    · simp [h, ih]

theorem sendAudio_sublist (t : Tick) : ∀ ls : List Listed,
    (sendAudio t ls).2.1.Sublist (ls.map (·.id))
  | [] => List.Sublist.slnil
  | l :: ls => by
    have ih := sendAudio_sublist t ls
    rcases sendAudio_cons t l ls with ⟨-, s, h | h⟩ | ⟨-, h | ⟨-, h⟩ | ⟨-, h⟩⟩
    · rw [h]
      exact ih.cons l.id
    · rw [h]
      exact List.nil_sublist _
    · rw [h]
      exact List.nil_sublist _
    · rw [h]
      exact List.nil_sublist _
    · rw [h]
      exact ih.cons_cons l.id

theorem connected_cons_expired {t : Tick} {l : Listed} {ls : List Listed}
    (h : l.speaker.Expired (t.now l.id)) : connected t (l :: ls) = connected t ls := by
  simp [connected, h]

theorem connected_cons {t : Tick} {l : Listed} {ls : List Listed}
    (h : ¬ l.speaker.Expired (t.now l.id)) : connected t (l :: ls) = l :: connected t ls := by
  simp [connected, h]

theorem sendAudio_noIoException {t : Tick} : ∀ {ls : List Listed},
    (∀ l ∈ connected t ls, t.audioFails l.id = false) → (sendAudio t ls).2.2 ≠ some .ioException
  | [], _ => by simp [sendAudio]
  | l :: ls, hf => by
    rcases sendAudio_cons t l ls with ⟨he, s, h | h⟩ | ⟨he, h | ⟨hl, h⟩ | ⟨-, h⟩⟩
    · rw [connected_cons_expired he] at hf
      rw [h]
      exact sendAudio_noIoException hf
    · simp [h]
    · simp [h]
    · rw [connected_cons he] at hf
      exact absurd hl (by rw [hf l List.mem_cons_self]; exact Bool.false_ne_true)
    · rw [connected_cons he] at hf
      rw [h]
      exact sendAudio_noIoException fun k hk => hf k (List.mem_cons_of_mem l hk)

/-- If only the first send can fail, an `IOException` means that nothing was sent. -/
theorem sendAudio_first {t : Tick} : ∀ {ls : List Listed},
    (∀ l ∈ (connected t ls).tail, t.audioFails l.id = false) →
    (sendAudio t ls).2.2 = some .ioException → (sendAudio t ls).2.1 = []
  | [], _, _ => rfl
  | l :: ls, hf, hio => by
    rcases sendAudio_cons t l ls with ⟨he, s, h | h⟩ | ⟨he, h | ⟨hl, h⟩ | ⟨-, h⟩⟩
    · rw [connected_cons_expired he] at hf
      rw [h] at hio ⊢
      exact sendAudio_first hf hio
    · rw [h]
    · rw [h]
    · rw [h]
    · rw [connected_cons he, List.tail_cons] at hf
      rw [h] at hio
      exact absurd hio (sendAudio_noIoException hf)

/-- A loop that ends without an exception has sent the packet to every connected speaker. -/
theorem sendAudio_all {t : Tick} : ∀ {ls : List Listed}, (sendAudio t ls).2.2 = none →
    (sendAudio t ls).2.1 = (connected t ls).map (·.id)
  | [], _ => rfl
  | l :: ls, hn => by
    rcases sendAudio_cons t l ls with ⟨he, s, h | h⟩ | ⟨he, h | ⟨hl, h⟩ | ⟨-, h⟩⟩
    · rw [connected_cons_expired he]
      rw [h] at hn ⊢
      exact sendAudio_all hn
    · simp [h] at hn
    · simp [h] at hn
    · simp [h] at hn
    · rw [connected_cons he, List.map_cons]
      rw [h] at hn ⊢
      rw [← sendAudio_all hn]

section

variable (e : Option Throwable)

@[simp] theorem endRun_speakers : (m.endRun e).speakers = m.speakers := by
  rcases e with _ | _ | _ <;> rfl

@[simp] theorem endRun_started : (m.endRun e).started = m.started := by
  rcases e with _ | _ | _ <;> rfl

@[simp] theorem endRun_encoder : (m.endRun e).encoder = m.encoder := by
  rcases e with _ | _ | _ <;> rfl

@[simp] theorem endRun_packetqueue : (m.endRun e).packetqueue = m.packetqueue := by
  rcases e with _ | _ | _ <;> rfl

@[simp] theorem endRun_filling : (m.endRun e).filling = m.filling := by
  rcases e with _ | _ | _ <;> rfl

@[simp] theorem endRun_sending : (m.endRun e).sending = none := by
  rcases e with _ | _ | _ <;> rfl

@[simp] theorem endRun_created : (m.endRun e).created = m.created := by
  rcases e with _ | _ | _ <;> rfl

@[simp] theorem endRun_handled : (m.endRun e).handled = m.handled := by
  rcases e with _ | _ | _ <;> rfl

@[simp] theorem endRun_sent : (m.endRun e).sent = m.sent := by
  rcases e with _ | _ | _ <;> rfl

@[simp] theorem endRun_audio : (m.endRun e).audio = m.audio := by
  rcases e with _ | _ | _ <;> rfl

theorem endRun_cancelled :
    (m.endRun e).cancelled = (m.cancelled || decide (e = some .unchecked)) := by
  rcases e with _ | _ | _ <;> simp [AirtunesManager.endRun, AirtunesManager.advance]

theorem endRun_packetcount :
    (m.endRun e).packetcount = if e = none then (m.packetcount + 1) % 2 ^ 32 else m.packetcount := by
  rcases e with _ | _ | _ <;> rfl

theorem endRun_rtpseq :
    (m.endRun e).rtpseq = if e = none then (m.rtpseq + 1) % 2 ^ 32 else m.rtpseq := by
  rcases e with _ | _ | _ <;> rfl

theorem endRun_rtptime :
    (m.endRun e).rtptime = if e = none then (m.rtptime + PACKETSIZE) % 2 ^ 32 else m.rtptime := by
  rcases e with _ | _ | _ <;> rfl

end

/-! ### Steps of sample runs -/

/-- A block of the same bytes. -/
def sampleBlock (b : UInt8) : Pcm :=
  ⟨List.replicate (PACKETSIZE * 4) b, 0, false, by rw [List.length_replicate, Nat.zero_add]⟩

/-- A speaker that answers at time `0`. -/
def answers : Connection := ⟨true, true, some ⟨some 6000, some 6002, some 6001, some true⟩, true, 0⟩

/-- A speaker that refuses the connection. -/
def refuses : Connection := ⟨false, false, none, false, 0⟩

/-- A speaker is added. -/
def adding (name : String) (c : Connection) : Op :=
  .addSpeaker ⟨name, 1, ⟨fun _ => 0, fun _ => 0, 0, 0, 0⟩, c, some (some 11025), c, none⟩

/-- A call of `sendAudioPacket`. -/
def packet (b : UInt8) : List Op := [.fill (sampleBlock b), .put]

/-- A run of the sender at time `0`, with the speakers to which a packet cannot be sent. -/
def sending (fails : ℕ → Bool) : List Op :=
  [.poll, .transmit ⟨fun _ => 0, fun _ => false, fails⟩]

end Waveplay.Airtunes.Manager
