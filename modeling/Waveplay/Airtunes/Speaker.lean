import Mathlib.Data.Int.Order.Basic
import Mathlib.Tactic.Common
import Waveplay.Lib.Wrap

/-! # `AirtunesSpeaker`

The connection to one speaker: the RTSP socket, the addresses that the reply to `SETUP` gives, and the
second until which the speaker counts as connected. A method is a program on the fields that can end
with an exception; the fields keep what was written before it. What the network and the clock give is
an argument of each method.

* `connect`, `start`, `stop`, `setGain`, `touch`, `disconnect`: the methods.
* `Live`: a speaker whose connection is complete. The methods leave it so as long as the exchanges
  succeed or the connection made anew does (`connect_live`, `withRetry_live`). -/

namespace Waveplay.Airtunes.Speaker

open Waveplay.Lib.Wrap

def VALIDITY : ℤ := 9000
def EXPIRE : ℤ := 3000

/-- What a method can end with: an `IOException`, or an exception that need not be declared. -/
inductive Throwable
  | ioException
  | unchecked
  deriving DecidableEq, Repr

/-- The fields. A reference is given by whether it is there, an address by its port. -/
structure AirtunesSpeaker where
  cipherkey : Bool := false
  error : Bool := false
  touch : ℤ := 0
  aserver : Option ℕ := none
  atiming : Option ℕ := none
  acontrol : Option ℕ := none
  audio : Bool := false
  rtsp : Bool := false
  /-- `globalheaders` has a `Session` -/
  session : Bool := false
  latency : ℤ := 0
  deriving DecidableEq, Repr

/-- A method of the speaker. -/
abbrev Method := EStateM Throwable AirtunesSpeaker

/-! ### The methods -/

/-- Runs a handler on an `IOException` and passes on any other exception. -/
def catchIoException {α : Type} (body handler : Method α) : Method α :=
  tryCatch body fun
    | .ioException => handler
    | .unchecked => throw .unchecked

/-- `invalidate`: `rtsp.close()` on a null reference throws. -/
def invalidate : Method Unit := do
  if !(← get).rtsp then throw .unchecked
  modify fun s => { s with rtsp := false, touch := 0, atiming := none, aserver := none,
                           acontrol := none }

def setError : Method Unit := do
  modify fun s => { s with error := true }
  invalidate

def touch (now : ℤ) : Method Unit :=
  modify fun s => { s with touch := max s.touch (toInt (now.tdiv 1000)) }

/-- `(System.currentTimeMillis() - EXPIRE) / 1000 > touch`. -/
def AirtunesSpeaker.Expired (s : AirtunesSpeaker) (now : ℤ) : Prop :=
  s.touch < (now - EXPIRE).tdiv 1000

instance (s : AirtunesSpeaker) (now : ℤ) : Decidable (s.Expired now) :=
  inferInstanceAs (Decidable (_ < _))

def isConnected (now : ℤ) : Method Bool := do
  if (← get).Expired now then
    invalidate
    return false
  else return true

/-- `execRTSP`: whether the exchange succeeds. -/
def execRTSP (ok : Bool) : Method Unit := do
  if !(← get).rtsp then throw .unchecked
  if !ok then throw .ioException

/-- A port number in a reply; `none` is one that is missing or not a number. -/
def port (p : Option ℕ) : Method ℕ :=
  match p with
  | some p => return p
  | none => throw .unchecked

/-- The reply to `SETUP`: the ports, and the header `Audio-Jack-Status`, if there, with or without
`connected`. -/
structure SetupReply where
  serverPort : Option ℕ
  timingPort : Option ℕ
  controlPort : Option ℕ
  jack : Option Bool
  deriving DecidableEq, Repr

def rtspSetup (reply : Option SetupReply) : Method Unit := do
  execRTSP reply.isSome
  let some res := reply | throw .ioException
  modify fun s => { s with session := true }
  let server ← port res.serverPort
  modify fun s => { s with aserver := some server }
  let timing ← port res.timingPort
  modify fun s => { s with atiming := some timing }
  let control ← port res.controlPort
  modify fun s => { s with acontrol := some control }
  match res.jack with
  | none => throw .unchecked
  | some connected => if !connected then throw .ioException

/-- What `reconnect` meets: the connection, the exchange of `ANNOUNCE`, the reply to `SETUP` if there is
one, the new datagram socket, and the clock. -/
structure Connection where
  connect : Bool
  announce : Bool
  setup : Option SetupReply
  datagramSocket : Bool
  now : ℤ
  deriving DecidableEq, Repr

def reconnect (c : Connection) : Method Unit :=
  catchIoException (do
    if !(← get).cipherkey then throw .ioException
    modify fun s => { s with rtsp := true }
    if !c.connect then throw .ioException
    execRTSP c.announce
    rtspSetup c.setup
    if !c.datagramSocket then throw .ioException
    modify fun s => { s with audio := true, touch := toInt ((c.now + VALIDITY).tdiv 1000) }) setError

def connect (c : Connection) : Method Unit := do
  modify fun s => { s with error := false, cipherkey := true }
  reconnect c

/-- `rtspRecord`: the reply, if there is one, with the number in `Audio-Latency`, if there is one. -/
def rtspRecord (reply : Option (Option ℤ)) : Method Unit := do
  if !(← get).session then throw .unchecked
  execRTSP reply.isSome
  let some (some latency) := reply | throw .unchecked
  modify fun s => { s with latency }

/-- A request, and on an `IOException` a new connection and the request again. -/
def withRetry (first : Method Unit) (c : Connection) (second : Method Unit) : Method Unit :=
  catchIoException first do
    reconnect c
    if !(← get).error then catchIoException second setError

def start (first : Option (Option ℤ)) (c : Connection) (second : Option (Option ℤ)) : Method Unit := do
  if !(← get).error then withRetry (rtspRecord first) c (rtspRecord second)

/-- `stop`, with `rtspFlush`. -/
def stop (first : Bool) (c : Connection) (second : Bool) : Method Unit := do
  if !(← get).error then withRetry (execRTSP first) c (execRTSP second)

/-- `setGain`, with `rtspSetParameter`. -/
def setGain (first : Bool) (c : Connection) (second : Bool) : Method Unit := do
  if !(← get).error && (← get).cipherkey then withRetry (execRTSP first) c (execRTSP second)

/-- `disconnect`, with `rtspTeardown`. -/
def disconnect (teardown : Bool) : Method Unit := do
  if !(← get).error then
    catchIoException (execRTSP teardown) (pure ())
    modify fun s => { s with cipherkey := false }
    invalidate

/-- The fields after a call, however it ends. -/
def after {α : Type} (m : Method α) (s : AirtunesSpeaker) : AirtunesSpeaker :=
  match m.run s with
  | .ok _ s => s
  | .error _ s => s

/-! ### A complete connection -/

/-- The connection of the speaker is complete. -/
structure Live (s : AirtunesSpeaker) : Prop where
  error : s.error = false
  cipherkey : s.cipherkey = true
  rtsp : s.rtsp = true
  aserver : s.aserver.isSome = true
  acontrol : s.acontrol.isSome = true
  audio : s.audio = true
  session : s.session = true

/-- Every part of a new connection succeeds. -/
structure Connection.Succeeds (c : Connection) : Prop where
  connect : c.connect = true
  announce : c.announce = true
  setup : ∃ server timing control, c.setup = some ⟨some server, some timing, some control, some true⟩
  datagramSocket : c.datagramSocket = true

theorem reconnect_live {c : Connection} (hc : c.Succeeds) {s : AirtunesSpeaker}
    (he : s.error = false) (hk : s.cipherkey = true) :
    ∃ t, (reconnect c).run s = .ok () t ∧ Live t := by
  obtain ⟨connect, announce, setup, datagramSocket, now⟩ := c
  obtain ⟨rfl, rfl, ⟨server, timing, control, rfl⟩, rfl⟩ := hc
  obtain ⟨cipherkey, error, touch, aserver, atiming, acontrol, audio, rtsp, session, latency⟩ := s
  obtain rfl : error = false := he
  obtain rfl : cipherkey = true := hk
  exact ⟨_, rfl, ⟨rfl, rfl, rfl, rfl, rfl, rfl, rfl⟩⟩

/-- A method that leaves a complete connection complete. -/
def Keeps {α : Type} (m : Method α) : Prop :=
  ∀ s, Live s → Live (after m s)

/-- A method that ends with no `IOException` on a complete connection. -/
def NoIoException {α : Type} (m : Method α) : Prop :=
  ∀ s, Live s → ∀ t, m.run s ≠ .error .ioException t

theorem catchIoException_run {α : Type} (body handler : Method α) (s : AirtunesSpeaker) :
    (catchIoException body handler).run s =
      match body.run s with
      | .error .ioException t => handler.run t
      | r => r := by
  show (catchIoException body handler) s = match body s with
      | .error .ioException t => handler t
      | r => r
  unfold catchIoException
  simp only [tryCatch, tryCatchThe, MonadExceptOf.tryCatch, EStateM.tryCatch]
  rcases h : body s with a | ⟨⟨⟩, t⟩ <;> rfl

theorem execRTSP_run {s : AirtunesSpeaker} (hs : Live s) (ok : Bool) :
    (execRTSP ok).run s = if ok then .ok () s else .error .ioException s := by
  obtain ⟨cipherkey, error, touch, aserver, atiming, acontrol, audio, rtsp, session, latency⟩ := s
  obtain rfl : rtsp = true := hs.rtsp
  cases ok <;> rfl

theorem execRTSP_keeps (ok : Bool) : Keeps (execRTSP ok) := by
  intro s hs
  unfold after
  rw [execRTSP_run hs]
  cases ok <;> exact hs

theorem execRTSP_noIoException : NoIoException (execRTSP true) := by
  intro s hs t h
  rw [execRTSP_run hs] at h
  cases h

theorem rtspRecord_run {s : AirtunesSpeaker} (hs : Live s) (reply : Option (Option ℤ)) :
    (rtspRecord reply).run s =
      match reply with
      | none => .error .ioException s
      | some none => .error .unchecked s
      | some (some latency) => .ok () { s with latency } := by
  obtain ⟨cipherkey, error, touch, aserver, atiming, acontrol, audio, rtsp, session, latency⟩ := s
  obtain rfl : rtsp = true := hs.rtsp
  obtain rfl : session = true := hs.session
  rcases reply with _ | _ | _ <;> rfl

theorem rtspRecord_keeps (reply : Option (Option ℤ)) : Keeps (rtspRecord reply) := by
  intro s hs
  unfold after
  rw [rtspRecord_run hs]
  rcases reply with _ | _ | latency
  · exact hs
  · exact hs
  · exact ⟨hs.error, hs.cipherkey, hs.rtsp, hs.aserver, hs.acontrol, hs.audio, hs.session⟩

theorem rtspRecord_noIoException {reply : Option (Option ℤ)} (h : reply.isSome = true) :
    NoIoException (rtspRecord reply) := by
  intro s hs t ht
  rw [rtspRecord_run hs] at ht
  rcases reply with _ | _ | latency
  · cases h
  · cases ht
  · cases ht

/-- A request succeeds, or the connection made anew and the second request do. -/
theorem withRetry_keeps {first second : Method Unit} {c : Connection} (hf : Keeps first)
    (hs : Keeps second) (h : NoIoException first ∨ c.Succeeds ∧ NoIoException second) :
    Keeps (withRetry first c second) := by
  intro s hlive
  have hfirst := hf s hlive
  unfold after at hfirst ⊢
  unfold withRetry
  rw [catchIoException_run]
  rcases hrun : first.run s with ⟨a, t⟩ | ⟨e, t⟩
  · simpa only [hrun] using hfirst
  · rw [hrun] at hfirst
    cases e with
    | unchecked => exact hfirst
    | ioException =>
      rcases h with h | ⟨hc, h2⟩
      · exact absurd hrun (h s hlive t)
      · obtain ⟨u, hu, hulive⟩ := reconnect_live hc hfirst.error hfirst.cipherkey
        have hrest : (do reconnect c; if !(← get).error then catchIoException second setError :
            Method Unit).run t = (catchIoException second setError).run u := by
          have herr : (!u.error) = true := by rw [hulive.error]; rfl
          simp only [EStateM.run_bind, hu, EStateM.run_get, herr, if_true]
        have hsecond := hs u hulive
        unfold after at hsecond
        simp only [hrest, catchIoException_run]
        rcases hrun2 : second.run u with ⟨a, v⟩ | ⟨e, v⟩
        · rw [hrun2] at hsecond
          exact hsecond
        · rw [hrun2] at hsecond
          cases e with
          | unchecked => exact hsecond
          | ioException => exact absurd hrun2 (h2 u hulive v)

theorem isConnected_run {s : AirtunesSpeaker} {now : ℤ} (h : ¬ s.Expired now) :
    (isConnected now).run s = .ok true s := by
  simp [isConnected, h]

/-! ### The calls on a speaker -/

/-- A call of a method, with what it meets. -/
inductive SpeakerCall
  | connect (c : Connection)
  | start (first : Option (Option ℤ)) (c : Connection) (second : Option (Option ℤ))
  | stop (first : Bool) (c : Connection) (second : Bool)
  | setGain (first : Bool) (c : Connection) (second : Bool)
  | touch (now : ℤ)
  | disconnect (teardown : Bool)
  deriving DecidableEq, Repr

/-- The method that is called. -/
def SpeakerCall.method : SpeakerCall → Method Unit
  | .connect c => Speaker.connect c
  | .start first c second => Speaker.start first c second
  | .stop first c second => Speaker.stop first c second
  | .setGain first c second => Speaker.setGain first c second
  | .touch now => Speaker.touch now
  | .disconnect teardown => Speaker.disconnect teardown

/-- The call leaves the speaker connected: each connection it makes succeeds, each request is answered,
if not at once then over a new connection, and it is no `disconnect`. -/
def SpeakerCall.Answered : SpeakerCall → Prop
  | .connect c => c.Succeeds
  | .start first c second => first.isSome = true ∨ c.Succeeds ∧ second.isSome = true
  | .stop first c second => first = true ∨ c.Succeeds ∧ second = true
  | .setGain first c second => first = true ∨ c.Succeeds ∧ second = true
  | .touch _ => True
  | .disconnect _ => False

theorem connect_live {c : Connection} (hc : c.Succeeds) (s : AirtunesSpeaker) :
    Live (after (Speaker.connect c) s) := by
  obtain ⟨t, ht, hlive⟩ := reconnect_live hc
    (show ({ s with error := false, cipherkey := true } : AirtunesSpeaker).error = false from rfl) rfl
  have hrun : (Speaker.connect c).run s = .ok () t := ht
  unfold after
  rw [hrun]
  exact hlive

theorem stop_keeps {first second : Bool} {c : Connection}
    (h : first = true ∨ c.Succeeds ∧ second = true) :
    Keeps (withRetry (execRTSP first) c (execRTSP second)) := by
  refine withRetry_keeps (execRTSP_keeps first) (execRTSP_keeps second) ?_
  rcases h with rfl | ⟨hc, rfl⟩
  · exact .inl execRTSP_noIoException
  · exact .inr ⟨hc, execRTSP_noIoException⟩

/-- **A call that is answered leaves a complete connection complete.** -/
theorem answered_keeps {call : SpeakerCall} (h : call.Answered) : Keeps call.method := by
  intro s hs
  cases call with
  | connect c => exact connect_live h s
  | start first c second =>
    have hrun : (Speaker.start first c second).run s =
        (withRetry (rtspRecord first) c (rtspRecord second)).run s := by
      simp [Speaker.start, hs.error]
    have hkeeps : Keeps (withRetry (rtspRecord first) c (rtspRecord second)) := by
      refine withRetry_keeps (rtspRecord_keeps first) (rtspRecord_keeps second) ?_
      rcases h with h | ⟨hc, h⟩
      · exact .inl (rtspRecord_noIoException h)
      · exact .inr ⟨hc, rtspRecord_noIoException h⟩
    unfold after SpeakerCall.method
    rw [hrun]
    exact hkeeps s hs
  | stop first c second =>
    have hrun : (Speaker.stop first c second).run s =
        (withRetry (execRTSP first) c (execRTSP second)).run s := by
      simp [Speaker.stop, hs.error]
    unfold after SpeakerCall.method
    rw [hrun]
    exact stop_keeps h s hs
  | setGain first c second =>
    have hrun : (Speaker.setGain first c second).run s =
        (withRetry (execRTSP first) c (execRTSP second)).run s := by
      simp [Speaker.setGain, hs.error, hs.cipherkey]
    unfold after SpeakerCall.method
    rw [hrun]
    exact stop_keeps h s hs
  | touch now =>
    exact ⟨hs.error, hs.cipherkey, hs.rtsp, hs.aserver, hs.acontrol, hs.audio, hs.session⟩
  | disconnect teardown => exact absurd h id

end Waveplay.Airtunes.Speaker
