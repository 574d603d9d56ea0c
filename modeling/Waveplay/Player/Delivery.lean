import Waveplay.Player.Line

/-! # What the speakers are given

Speakers with one delay and buffers of `1408` bytes are given the blocks of the stream as they are
completed. `push` sets `tail` from the first block it gives, not from the last: after a write that
completes two blocks the line counts the second as unplayed. Then `write` finds less room than there is,
and `drain`, which fills up from `tail`, finds nothing to do and leaves the last bytes behind.

* `Account`: what was given before the last `flush` or `drain`, and what was written since.
* `Current`: `tail` is that of the last block.
* `delivers`: if that holds at each `drain` with bytes pending, and for long delays at each `write`, every
  speaker is given the complete blocks of the stream, and after `drain` all of it and zeros. -/

namespace Waveplay.Player.Delivery

open Waveplay.Lib.Runs Waveplay.Lib.Wrap Waveplay.Lib
open Waveplay.Player.Line

/-- The length of the complete blocks among `n` bytes. -/
def whole (n : ℕ) : ℕ := 1408 * (n / 1408)

theorem whole_le (n : ℕ) : whole n ≤ n := Nat.mul_div_le n 1408

theorem lt_whole_add (n : ℕ) : n < whole n + 1408 := by
  unfold whole
  omega

/-- What each speaker should have been given. -/
structure Account where
  /-- given before the last `flush` or `drain` -/
  earlier : List UInt8 := []
  /-- written since -/
  stream : List UInt8 := []

/-- The longest part of the stream made of complete blocks has been given. -/
def Account.given (a : Account) : List UInt8 := a.earlier ++ a.stream.take (whole a.stream.length)

inductive Account.Step : Account → Call → Account → Prop
  | write (a : Account) (failed : Speaker → Bool) (buf : List UInt8) :
    Step a (.write failed buf) { a with stream := a.stream ++ buf }
  | flush (a : Account) (failed : Speaker → Bool) :
    Step a (.flush failed) { earlier := a.given }
  | drain (a : Account) (z : ℕ) :
    Step a .drain { earlier := a.earlier ++ a.stream ++ List.replicate z 0 }

/-- The calls between `open` and `close`, with no speaker in error. -/
def Playing (m : MultiLine) : Call → Prop
  | .write failed buf => (∀ st ∈ m.speakers, failed st.speaker = false) ∧ buf.length ≤ 4096
  | .flush failed => ∀ st ∈ m.speakers, failed st.speaker = false
  | .drain => True
  | _ => False

/-- `tail` is that of the last complete block. -/
def Current (m : MultiLine) : Prop := m.head < m.tail + m.maxbytedelay + 1408

instance (m : MultiLine) : Decidable (Current m) := inferInstanceAs (Decidable (_ < _))

/-- The condition on a call: `tail` is current, unless the ring has room for two more blocks at a `write`
or no byte is pending at a `drain`. -/
def InTime (m : MultiLine) : Call → Prop
  | .write _ _ => m.maxbytedelay + 2 * 1408 + 1407 + 4096 ≤ queueLength ∨ Current m
  | .drain => 1408 ∣ m.head ∨ Current m
  | _ => True

/-- The line follows the account. -/
structure Serves (speakers : List Speaker) (delay : ℤ) (m : MultiLine) (a : Account) : Prop where
  speakers : m.speakers.map (·.speaker) = speakers
  state : ∀ st ∈ m.speakers, st.speaker.bufferSize = 1408 ∧ st.bytedelay = delay ∧
    st.tail.getD 0 = whole a.stream.length ∧ st.given = a.given
  maxbytedelay : m.maxbytedelay = delay
  head : m.head = a.stream.length
  ring : Ring.Holds queueLength m.queue a.stream (whole a.stream.length)
  tail : m.tail = 0 ∧ whole a.stream.length = 0 ∨
    ∃ f : ℕ, m.tail = f - delay ∧ 0 < f ∧ f ≤ whole a.stream.length ∧
      whole a.stream.length ≤ f + 2 * 1408

/-! ### The loops of `push` -/

theorem minTail_minTail {newtail : Option ℤ} {t u : ℤ} (h : t ≤ u) :
    minTail (minTail newtail t) u = minTail newtail t := by
  cases newtail with
  | none => simp [minTail, h]
  | some v => simp [minTail, h]

/-- **The inner loop** gives the `k` blocks that are complete; `newtail` is set at the first. -/
theorem pushLoop_eq {m : MultiLine} {stream : List UInt8} (hhead : m.head = stream.length) :
    ∀ {k i fuel : ℕ} {given : List UInt8} {newtail : Option ℤ},
    Ring.Holds queueLength m.queue stream (1408 * i) → 1408 * (i + k) ≤ stream.length →
    stream.length < 1408 * (i + k) + 1408 → k < fuel →
    pushLoop m 1408 m.maxbytedelay fuel ((1408 * i : ℕ) : ℤ) given newtail =
      some (((1408 * (i + k) : ℕ) : ℤ), given ++ (stream.drop (1408 * i)).take (1408 * k),
        if k = 0 then newtail else minTail newtail ((1408 * (i + 1) : ℕ) - m.maxbytedelay))
  | k, i, 0, _, _, _, _, _, hfuel => absurd hfuel (Nat.not_lt_zero k)
  | k, i, fuel + 1, given, newtail, hring, hlow, hhigh, hfuel => by
    have hzero : toInt (m.maxbytedelay - m.maxbytedelay) = 0 := by
      rw [sub_self]
      exact toInt_of_bounds (by decide) (by decide)
    have hqt : (m.position m.maxbytedelay (1408 * i : ℕ)).tmod queueLength =
        (1408 * i % queueLength : ℕ) := by
      rw [MultiLine.position, hzero, sub_zero]
      rfl
    unfold pushLoop
    simp only [hqt]
    cases k with
    | zero =>
      rw [if_neg (by omega), if_neg (by omega)]
      simp
    | succ k =>
      rw [if_pos (by omega), Int.toNat_natCast,
        hring.get_eq (by decide) (by decide) (by omega),
        show ((1408 * i : ℕ) : ℤ) + (1408 : ℕ) = ((1408 * (i + 1) : ℕ) : ℤ) by omega,
        pushLoop_eq hhead (hring.mono (by omega)) (by omega : 1408 * (i + 1 + k) ≤ stream.length)
          (by omega) (by omega)]
      have hbytes : given ++ (stream.drop (1408 * i)).take 1408 ++
          (stream.drop (1408 * (i + 1))).take (1408 * k) =
          given ++ (stream.drop (1408 * i)).take (1408 * (k + 1)) := by
        rw [List.append_assoc, Nat.mul_succ 1408 k, Nat.add_comm (1408 * k), List.take_add,
          List.drop_drop]
        rfl
      have hnewtail : (if k = 0 then minTail newtail ((1408 * (i + 1) : ℕ) - m.maxbytedelay)
          else minTail (minTail newtail ((1408 * (i + 1) : ℕ) - m.maxbytedelay))
            ((1408 * (i + 1 + 1) : ℕ) - m.maxbytedelay)) =
          minTail newtail ((1408 * (i + 1) : ℕ) - m.maxbytedelay) := by
        split_ifs
        · rfl
        · exact minTail_minTail (by omega)
      rw [hbytes, hnewtail, if_neg (Nat.succ_ne_zero k), show i + 1 + k = i + (k + 1) by omega]

/-- Where `push` starts to give a speaker bytes. -/
def start (m : MultiLine) (st : SpeakerState) : ℤ := st.tail.getD (max 0 (m.tail - st.bytedelay))

/-- **The outer loop** gives every speaker these blocks. -/
theorem pushAll_eq {m : MultiLine} {stream : List UInt8} {i k : ℕ} (hhead : m.head = stream.length)
    (hring : Ring.Holds queueLength m.queue stream (1408 * i))
    (hlow : 1408 * (i + k) ≤ stream.length) (hhigh : stream.length < 1408 * (i + k) + 1408) :
    ∀ (sts : List SpeakerState) (newtail : Option ℤ), (∀ st ∈ sts, st.speaker.bufferSize = 1408 ∧
      st.bytedelay = m.maxbytedelay ∧ start m st = ((1408 * i : ℕ) : ℤ)) →
    pushAll m sts newtail = some (sts.map fun st => { st with
        tail := some ((1408 * (i + k) : ℕ) : ℤ)
        given := st.given ++ (stream.drop (1408 * i)).take (1408 * k) },
      if k = 0 ∨ sts = [] then newtail
      else minTail newtail ((1408 * (i + 1) : ℕ) - m.maxbytedelay))
  | [], newtail, _ => by simp [pushAll]
  | st :: sts, newtail, hsts => by
    obtain ⟨hsize, hdelay, hstart⟩ := hsts st List.mem_cons_self
    have hloop : pushLoop m st.speaker.bufferSize st.bytedelay ((m.head - start m st).toNat + 1)
        (start m st) st.given newtail = some (((1408 * (i + k) : ℕ) : ℤ),
          st.given ++ (stream.drop (1408 * i)).take (1408 * k),
          if k = 0 then newtail else minTail newtail ((1408 * (i + 1) : ℕ) - m.maxbytedelay)) := by
      rw [hsize, hdelay, hstart]
      exact pushLoop_eq hhead hring hlow hhigh (by omega)
    unfold start at hloop
    simp only [pushAll, hloop, Option.bind_eq_bind, Option.bind_some]
    rw [pushAll_eq hhead hring hlow hhigh sts _ fun u hu => hsts u (List.mem_cons_of_mem st hu)]
    simp only [Option.bind_some, List.map_cons, reduceCtorEq, or_false]
    by_cases hk : k = 0
    · simp [hk]
    · by_cases hnil : sts = []
      · simp [hk, hnil]
      · simp [hk, hnil, minTail_minTail le_rfl]

/-! ### `push` -/

theorem Account.given_append (a : Account) {xs : List UInt8} {k : ℕ}
    (hk : whole (a.stream ++ xs).length = whole a.stream.length + 1408 * k) :
    a.given ++ ((a.stream ++ xs).drop (whole a.stream.length)).take (1408 * k) =
      Account.given { a with stream := a.stream ++ xs } := by
  have htake : a.stream.take (whole a.stream.length) =
      (a.stream ++ xs).take (whole a.stream.length) :=
    (List.take_append_of_le_length (whole_le _)).symm
  simp only [Account.given]
  rw [htake, List.append_assoc, hk, List.take_add]

section

variable {speakers : List Speaker} {delay : ℤ} {m : MultiLine} {a : Account}

theorem Serves.ne_nil (hm : Serves speakers delay m a) (hne : speakers ≠ []) : m.speakers ≠ [] := by
  intro h
  exact hne (by rw [← hm.speakers, h, List.map_nil])

theorem Serves.start_eq (hm : Serves speakers delay m a) (hdelay : 0 ≤ delay) {st : SpeakerState}
    (hst : st ∈ m.speakers) : start m st = whole a.stream.length := by
  obtain ⟨-, hbytedelay, htail, -⟩ := hm.state st hst
  unfold start
  cases ht : st.tail with
  | some t =>
    rw [ht] at htail
    exact htail
  | none =>
    rw [ht, Option.getD_none] at htail
    rcases hm.tail with ⟨h0, hw⟩ | ⟨f, -, hf, hle, -⟩
    · rw [Option.getD_none, h0, hbytedelay, hw]
      omega
    · omega

/-- **`push`** after more bytes have been put into the ring. -/
theorem push_serves (hm : Serves speakers delay m a) (hdelay : 0 ≤ delay) (hne : speakers ≠ [])
    {q : ℕ → UInt8} {xs : List UInt8} (hlen : xs.length ≤ 4096)
    (hq : Ring.Holds queueLength q (a.stream ++ xs) (whole a.stream.length)) :
    ∃ m', MultiLine.push { m with queue := q, head := m.head + xs.length } = some m' ∧
      Serves speakers delay m' { a with stream := a.stream ++ xs } := by
  have hlength : (a.stream ++ xs).length = a.stream.length + xs.length := List.length_append
  obtain ⟨k, hk⟩ : ∃ k, (a.stream ++ xs).length / 1408 = a.stream.length / 1408 + k :=
    ⟨(a.stream ++ xs).length / 1408 - a.stream.length / 1408, by omega⟩
  have hwhole : whole (a.stream ++ xs).length = whole a.stream.length + 1408 * k := by
    unfold whole
    omega
  have hnil : m.speakers ≠ [] := hm.ne_nil hne
  set m₁ : MultiLine := { m with queue := q, head := m.head + xs.length } with hm₁
  have hhead : m₁.head = (a.stream ++ xs).length := by
    rw [hlength, ← hm.head]
  have hall := pushAll_eq (i := a.stream.length / 1408) (k := k) hhead hq (by omega) (by omega)
    m.speakers none fun st hst =>
      ⟨(hm.state st hst).1, (hm.state st hst).2.1.trans hm.maxbytedelay.symm, hm.start_eq hdelay hst⟩
  have hpush : m₁.push = _ := congrArg (Option.map _) hall
  refine ⟨_, hpush, ?_, ?_, hm.maxbytedelay, hhead,
    hq.mono (le_of_le_of_eq (Nat.le_add_right _ _) hwhole.symm), ?_⟩
  · exact (List.map_map ..).trans hm.speakers
  · intro st' hst'
    obtain ⟨st, hst, rfl⟩ := List.mem_map.mp hst'
    obtain ⟨hsize, hbytedelay, -, hgiven⟩ := hm.state st hst
    refine ⟨hsize, hbytedelay, ?_, ?_⟩
    · simp only [Option.getD_some, whole, hk]
    · rw [← a.given_append hwhole, ← hgiven]
      rfl
  · simp only [MultiLine.update, hnil, or_false]
    by_cases h0 : k = 0
    · rw [if_pos h0, Option.getD_none, hwhole, h0, Nat.mul_zero, Nat.add_zero]
      exact hm.tail
    · right
      refine ⟨1408 * (a.stream.length / 1408 + 1), ?_, by omega, ?_, ?_⟩
      · rw [if_neg h0, ← hm.maxbytedelay]
        rfl
      · unfold whole
        omega
      · unfold whole
        omega

/-! ### The calls -/

theorem Serves.isValid_eq (hm : Serves speakers delay m a) (hne : speakers ≠ [])
    {failed : Speaker → Bool} (hok : ∀ st ∈ m.speakers, failed st.speaker = false) :
    m.isValid failed = (m, true) := by
  unfold MultiLine.isValid
  cases hs : m.speakers with
  | nil => exact absurd hm.speakers (by rw [hs]; exact fun h => hne h.symm)
  | cons st sts =>
    have hst : failed st.speaker = false := hok st (by rw [hs]; exact List.mem_cons_self)
    rw [List.map_cons, isValidFrom, if_neg (by rw [hst]; exact Bool.false_ne_true)]

theorem Serves.tail_le (hm : Serves speakers delay m a) (hdelay : 0 ≤ delay) :
    m.tail ≤ whole a.stream.length := by
  rcases hm.tail with ⟨h0, -⟩ | ⟨f, hf, -, hle, -⟩ <;> omega

theorem Serves.room (hm : Serves speakers delay m a)
    (hmax : delay + 1407 + 4096 ≤ queueLength) {failed : Speaker → Bool} {buf : List UInt8}
    (htime : InTime m (.write failed buf)) : m.head + 4096 ≤ m.tail + queueLength := by
  have hw := lt_whole_add a.stream.length
  have hhead := hm.head
  have hN : queueLength = 704000 := rfl
  rcases htime with htime | htime
  · rw [hm.maxbytedelay] at htime
    rcases hm.tail with ⟨h0, h1⟩ | ⟨f, hf, -, -, hle⟩
    · omega
    · omega
  · unfold Current at htime
    rw [hm.maxbytedelay] at htime
    omega

theorem write_serves (hm : Serves speakers delay m a) (hdelay : 0 ≤ delay) (hne : speakers ≠ [])
    (hmax : delay + 1407 + 4096 ≤ queueLength) {failed : Speaker → Bool} {buf : List UInt8}
    (hplay : Playing m (.write failed buf)) (htime : InTime m (.write failed buf)) :
    ∃ m', m.write failed buf = some m' ∧
      Serves speakers delay m' { a with stream := a.stream ++ buf } := by
  obtain ⟨hok, hlen⟩ := hplay
  have hroom := hm.room hmax htime
  have htail := hm.tail_le hdelay
  have hwhole := whole_le a.stream.length
  have hhead := hm.head
  have hN : queueLength = 704000 := rfl
  have hqh : m.head % queueLength < queueLength := Nat.mod_lt _ (by decide)
  have hcast : toInt (m.head - m.tail) = m.head - m.tail :=
    toInt_of_bounds (by omega) (by omega)
  have hput : Ring.Holds queueLength (Ring.put queueLength m.queue (m.head % queueLength) buf)
      (a.stream ++ buf) (whole a.stream.length) := by
    rw [hm.head]
    exact hm.ring.put (by decide) (by omega) hwhole
  obtain ⟨m', hpush, hserves⟩ := push_serves hm hdelay hne hlen hput
  refine ⟨m', ?_, hserves⟩
  simp only [MultiLine.write, hm.isValid_eq hne hok, if_true, hcast]
  rw [if_neg]
  · exact hpush
  · omega

theorem rewind_serves (hm : Serves speakers delay m a) :
    Serves speakers delay (m.rewind true) { earlier := a.given } := by
  refine ⟨?_, ?_, hm.maxbytedelay, rfl, Ring.holds_nil _, .inl ⟨rfl, by simp [whole]⟩⟩
  · exact (List.map_map ..).trans hm.speakers
  · intro st' hst'
    obtain ⟨st, hst, rfl⟩ := List.mem_map.mp hst'
    obtain ⟨hsize, hbytedelay, -, hgiven⟩ := hm.state st hst
    refine ⟨hsize, hbytedelay, by simp [whole], ?_⟩
    rw [hgiven]
    simp [Account.given]

theorem flush_serves (hm : Serves speakers delay m a) (hne : speakers ≠ [])
    {failed : Speaker → Bool} (hok : ∀ st ∈ m.speakers, failed st.speaker = false) :
    Serves speakers delay (m.flush failed) { earlier := a.given } := by
  rw [MultiLine.flush, hm.isValid_eq hne hok]
  exact rewind_serves hm

/-- Zero bytes go into the ring like written ones. -/
theorem zeros_eq : ∀ (n : ℕ) {m : MultiLine} {stream : List UInt8} {t : ℕ}, m.head = stream.length →
    Ring.Holds queueLength m.queue stream t → stream.length + n ≤ t + queueLength →
    t ≤ stream.length → ∃ q, m.zeros n = { m with queue := q, head := m.head + n } ∧
      Ring.Holds queueLength q (stream ++ List.replicate n 0) t
  | 0, m, stream, t, _, hq, _, _ => ⟨m.queue, rfl, by rwa [List.replicate_zero, List.append_nil]⟩
  | n + 1, m, stream, t, hhead, hq, hfit, ht => by
    have hN : 0 < queueLength := by decide
    have hput : Ring.Holds queueLength (Function.update m.queue (m.head % queueLength) 0)
        (stream ++ [0]) t := by
      rw [Ring.update_eq_put (Nat.mod_lt _ hN), hhead]
      exact hq.put hN (by rw [List.length_singleton]; omega) ht
    have hlength : (stream ++ [0]).length = stream.length + 1 := List.length_append
    obtain ⟨q, hzeros, hq'⟩ := zeros_eq n (m := { m with
      queue := Function.update m.queue (m.head % queueLength) 0, head := m.head + 1 })
      (by rw [hlength, hhead]) hput (by omega) (by omega)
    refine ⟨q, ?_, ?_⟩
    · rw [MultiLine.zeros, hzeros, show m.head + (n + 1) = m.head + 1 + n by omega]
    · rwa [List.append_assoc, List.singleton_append, ← List.replicate_succ] at hq'

theorem zeros_push_serves (hm : Serves speakers delay m a) (hdelay : 0 ≤ delay) (hne : speakers ≠ []) :
    ∃ m', (m.zeros 1408).push = some m' ∧ m'.head = m.head + 1408 ∧
      Serves speakers delay m' { a with stream := a.stream ++ List.replicate 1408 0 } := by
  have hw := lt_whole_add a.stream.length
  have hN : queueLength = 704000 := rfl
  obtain ⟨q, hzeros, hq⟩ := zeros_eq 1408 hm.head hm.ring (by omega) (whole_le _)
  have hlen : (List.replicate 1408 (0 : UInt8)).length = 1408 := List.length_replicate
  obtain ⟨m', hpush, hserves⟩ := push_serves hm hdelay hne (by rw [hlen]; decide) hq
  rw [hlen] at hpush
  refine ⟨m', by rw [hzeros]; exact hpush, ?_, hserves⟩
  rw [hserves.head, hm.head, List.length_append, hlen]

/-- **The loop of `drain`** ends, and has put whole blocks of zeros behind the stream. -/
theorem drainLoop_serves (hdelay : 0 ≤ delay) (hne : speakers ≠ []) {newhead : ℤ} :
    ∀ {fuel : ℕ} {m : MultiLine} {a : Account}, Serves speakers delay m a →
    (newhead - m.head).toNat < fuel → ∃ m' j, drainLoop 1408 newhead fuel m = some m' ∧
      (j = 0 → newhead ≤ m.head) ∧
      Serves speakers delay m' { a with stream := a.stream ++ List.replicate (1408 * j) 0 }
  | 0, m, a, _, hfuel => absurd hfuel (Nat.not_lt_zero _)
  | fuel + 1, m, a, hm, hfuel => by
    by_cases hlt : (m.head : ℤ) < newhead
    · obtain ⟨m₁, hpush, hhead, hm₁⟩ := zeros_push_serves hm hdelay hne
      have hfuel' : (newhead - m₁.head).toNat < fuel := by omega
      obtain ⟨m', j, hloop, -, hm'⟩ := drainLoop_serves hdelay hne hm₁ hfuel'
      refine ⟨m', j + 1, ?_, fun h => absurd h (Nat.succ_ne_zero j), ?_⟩
      · rw [drainLoop, if_pos hlt, hpush, Option.bind_some, hloop]
      · rwa [List.append_assoc, ← List.replicate_add, Nat.add_comm 1408, ← Nat.mul_succ] at hm'
    · refine ⟨m, 0, by rw [drainLoop, if_neg hlt], fun _ => by omega, ?_⟩
      rwa [Nat.mul_zero, List.replicate_zero, List.append_nil]

/-- The account after rounds of zeros: all of the stream has been given. -/
theorem Account.given_zeros (a : Account) {j : ℕ} (hj : j = 0 → 1408 ∣ a.stream.length) :
    ∃ z, Account.given { a with stream := a.stream ++ List.replicate (1408 * j) 0 } =
      a.earlier ++ a.stream ++ List.replicate z 0 := by
  have hwhole : whole (a.stream.length + 1408 * j) = whole a.stream.length + 1408 * j := by
    unfold whole
    omega
  have hle : a.stream.length ≤ whole a.stream.length + 1408 * j := by
    have hlt := lt_whole_add a.stream.length
    rcases Nat.eq_zero_or_pos j with h0 | h0
    · have hdvd := hj h0
      unfold whole
      omega
    · omega
  refine ⟨min (whole a.stream.length + 1408 * j - a.stream.length) (1408 * j), ?_⟩
  simp only [Account.given]
  rw [List.length_append, List.length_replicate, hwhole, List.take_append, List.take_of_length_le hle,
    List.take_replicate, List.append_assoc]

theorem Serves.foldl_bufferSize (hm : Serves speakers delay m a) (hne : speakers ≠ []) :
    m.speakers.foldl (fun b st => min b st.speaker.bufferSize) 2147483647 = 1408 ∧
      m.speakers.foldl (fun b st => max b st.speaker.bufferSize) 0 = 1408 := by
  constructor
  · refine foldl_same (hm.ne_nil hne) (fun st hst => ?_) fun st hst => ?_
    · rw [(hm.state st hst).1]
      rfl
    · rw [(hm.state st hst).1, min_self]
  · refine foldl_same (hm.ne_nil hne) (fun st hst => ?_) fun st hst => ?_
    · rw [(hm.state st hst).1, Nat.zero_max]
    · rw [(hm.state st hst).1, max_self]

theorem drain_serves (hm : Serves speakers delay m a) (hdelay : 0 ≤ delay) (hne : speakers ≠ [])
    (htime : InTime m .drain) : ∃ m' z, m.drain = some m' ∧
      Serves speakers delay m' { earlier := a.earlier ++ a.stream ++ List.replicate z 0 } := by
  obtain ⟨hmin, hmax⟩ := hm.foldl_bufferSize hne
  obtain ⟨m', j, hloop, hj, hm'⟩ := drainLoop_serves hdelay hne hm
    (Nat.lt_succ_self (m.tail + 1408 + m.maxbytedelay - m.head).toNat)
  have hdvd : j = 0 → 1408 ∣ a.stream.length := by
    intro h0
    rw [← hm.head]
    rcases htime with htime | htime
    · exact htime
    · unfold Current at htime
      have := hj h0
      omega
  obtain ⟨z, hz⟩ := a.given_zeros hdvd
  refine ⟨m'.rewind true, z, ?_, ?_⟩
  · simp only [MultiLine.drain, hmin, hmax]
    exact congrArg (Option.map _) hloop
  · rw [← hz]
    exact rewind_serves hm'

/-! ### Runs -/

/-- **One call.** -/
theorem call_serves (hdelay : 0 ≤ delay) (hne : speakers ≠ [])
    (hmax : delay + 1407 + 4096 ≤ queueLength) (hm : Serves speakers delay m a) {c : Call}
    (hplay : Playing m c) (htime : InTime m c) :
    ∃ m' b, call m c = some m' ∧ Account.Step a c b ∧ Serves speakers delay m' b := by
  cases c with
  | setSpeakers opens newspeakers => exact hplay.elim
  | «open» opens sampleRate bitspersecond => exact hplay.elim
  | close => exact hplay.elim
  | write failed buf =>
    obtain ⟨m', hwrite, hm'⟩ := write_serves hm hdelay hne hmax hplay htime
    exact ⟨m', _, hwrite, .write a failed buf, hm'⟩
  | flush failed => exact ⟨_, _, rfl, .flush a failed, flush_serves hm hne hplay⟩
  | drain =>
    obtain ⟨m', z, hdrain, hm'⟩ := drain_serves hm hdelay hne htime
    exact ⟨m', _, hdrain, .drain a z, hm'⟩

end

theorem opened_speakers {ss : List Speaker} (hne : ss ≠ []) (sampleRate bitspersecond : ℤ) :
    (opened ss sampleRate bitspersecond).speakers = ss.dedup.map fun s =>
      { speaker := s, bytedelay := s.bytedelay (bitspersecond / 8) } := by
  have hset : (MultiLine.setSpeakers {} (fun _ => true) ss).speakers =
      ss.dedup.map fun s => { speaker := s } := by
    simp [MultiLine.setSpeakers, hne, MultiLine.isOpen, MultiLine.stateOf]
  simp [opened, MultiLine.open, hset, List.filterMap_eq_map', openSpeaker]

/-- **A line that has been opened** has nothing to give. -/
theorem opened_serves {ss : List Speaker} (hne : ss ≠ []) {sampleRate bitspersecond delay : ℤ}
    (hss : ∀ s ∈ ss, s.bufferSize = 1408 ∧ s.bytedelay (bitspersecond / 8) = delay)
    (hdelay : 0 ≤ delay) : Serves ss.dedup delay (opened ss sampleRate bitspersecond) {} := by
  have hspeakers := opened_speakers hne sampleRate bitspersecond
  have hstate : ∀ st ∈ (opened ss sampleRate bitspersecond).speakers,
      st.speaker.bufferSize = 1408 ∧ st.bytedelay = delay ∧ st.tail = none ∧ st.given = [] := by
    intro st hst
    rw [hspeakers] at hst
    obtain ⟨s, hs, rfl⟩ := List.mem_map.mp hst
    obtain ⟨hsize, hbytedelay⟩ := hss s (List.mem_dedup.mp hs)
    exact ⟨hsize, hbytedelay, rfl, rfl⟩
  have hnil : (opened ss sampleRate bitspersecond).speakers ≠ [] := by
    rw [hspeakers]
    simpa using hne
  constructor
  · rw [hspeakers, List.map_map]
    exact List.map_id _
  · intro st hst
    obtain ⟨hsize, hbytedelay, htail, hgiven⟩ := hstate st hst
    exact ⟨hsize, hbytedelay, by simp [htail, whole], by simp [hgiven, Account.given]⟩
  · refine foldl_same hnil (fun st hst => ?_) fun st hst => ?_
    · rw [(hstate st hst).2.1, max_eq_right hdelay]
    · rw [(hstate st hst).2.1, max_self]
  · simp [opened, MultiLine.open, MultiLine.setSpeakers, hne]
  · exact Ring.holds_nil _
  · left
    simp [opened, MultiLine.open, MultiLine.setSpeakers, hne, whole]

/-- **The stream is delivered** to speakers with one delay: no call throws, each speaker has been given the
complete blocks of what was written, and by `drain` all of it followed by zeros; if `tail` is current at
each `drain` with bytes pending, and at each `write` where the ring has no room for two blocks more. -/
theorem delivers {ss : List Speaker} (hne : ss ≠ []) {sampleRate bitspersecond delay : ℤ}
    (hss : ∀ s ∈ ss, s.bufferSize = 1408 ∧ s.bytedelay (bitspersecond / 8) = delay)
    (hdelay : 0 ≤ delay) (hmax : delay + 1407 + 4096 ≤ queueLength) {cs : List Call}
    (hcs : AllSteps call (fun m c => Playing m c ∧ InTime m c)
      (opened ss sampleRate bitspersecond) cs) :
    ∃ m a, run call (opened ss sampleRate bitspersecond) cs = some m ∧
      Chain Account.Step {} cs a ∧ m.speakers.map (·.speaker) = ss.dedup ∧
      ∀ st ∈ m.speakers, st.given = a.given := by
  have hdedup : ss.dedup ≠ [] := by simpa using hne
  have hstep : ∀ m c a, Serves ss.dedup delay m a → Playing m c ∧ InTime m c →
      ∃ m' b, call m c = some m' ∧ Account.Step a c b ∧ Serves ss.dedup delay m' b :=
    fun m c a hm hC => call_serves hdelay hdedup hmax hm hC.1 hC.2
  obtain ⟨m, a, hrun, hchain, hm⟩ := run_simulates hstep (opened_serves hne hss hdelay) hcs
  exact ⟨m, a, hrun, hchain, hm.speakers, fun st hst => (hm.state st hst).2.2.2⟩

/-- A short write and a `drain`, with a delay of two seconds. -/
theorem delivers_short :
    ∃ m a, run call (opened [airport 0 2000, airport 1 2000] 44100 1411200)
        [.write (fun _ => false) [1, 2, 3, 4], .drain] = some m ∧
      Chain Account.Step {} [.write (fun _ => false) [1, 2, 3, 4], .drain] a ∧
      m.speakers.map (·.speaker) = [airport 0 2000, airport 1 2000].dedup ∧
      ∀ st ∈ m.speakers, st.given = a.given := by
  have hss : ∀ s ∈ [airport 0 2000, airport 1 2000],
      s.bufferSize = 1408 ∧ s.bytedelay (1411200 / 8) = 352000 := by decide
  refine delivers (by decide) hss (by decide) (by decide) ?_
  refine allSteps_cons ⟨⟨fun _ _ => rfl, by decide⟩, .inl (by decide)⟩ rfl ?_
  exact ⟨⟨trivial, .inr (by decide)⟩, fun _ _ => trivial⟩

/-- One write of two blocks and a rest: `drain` leaves the rest behind. -/
theorem bytes_left_behind :
    (run call (opened [airport 0 0] 44100 1411200)
      [.write (fun _ => false) (List.replicate 4096 1), .drain]).map
      (fun m => m.speakers.map (·.given.length)) = some [2816] := by
  decide +kernel

end Waveplay.Player.Delivery
