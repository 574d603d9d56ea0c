import Waveplay.Airtunes.NtpTime
import Waveplay.Airtunes.Repacketise

/-! # `AirtunesManager`: the timing thread

A speaker asks for the time in packets of `32` bytes. The thread of `createTimingThread` answers in the same
array: the time of the request is copied, and the times of its arrival and of the answer are added, in the
clock of the first request it has seen.

* `serve_answer`: what an answer says.
* `run_timely`: once the clock is set, in every run, the times in all answers are those of the system. -/

namespace Waveplay.Airtunes.TimingThread

open Waveplay.Lib.Overwrite Waveplay.Lib.Runs Waveplay.Airtunes.NtpTime
open Waveplay.Airtunes.Repacketise (part arraycopy)

/-! ### The thread -/

/-- The array after `receive`, and what `currentTimeMillis` returns then, in `initializeEpoch`, and before
the answer. -/
structure Datagram where
  data : List UInt8
  receivetime : Long
  now : Long
  sendtime : Long
  size : data.length = 32

/-- A request for the time. -/
def Datagram.isRequest (d : Datagram) : Bool := d.data[0]? = some 0x80 && d.data[1]? = some 0xd2

/-- `epoch`, and the requests with their answers, the newest first. -/
structure Timer where
  epoch : Long := 0
  sent : List (Datagram × List UInt8) := []

/-- The answer, at the epoch after `initializeEpoch`. -/
def answer (epoch : Long) (d : Datagram) : Option (List UInt8) :=
  let data := d.data.set 1 0xd3
  (arraycopy data 24 data 8 8).bind fun data =>
    (writeLong (toNTPTime epoch d.receivetime) data 16).bind fun data =>
      writeLong (toNTPTime epoch d.sendtime) data 24

/-- The body of the loop. -/
def serve (t : Timer) (d : Datagram) : Option Timer :=
  if d.isRequest then
    (readLong d.data 24).bind fun ntptime =>
      let epoch := initializeEpoch t.epoch ntptime d.now
      (answer epoch d).map fun data => { epoch, sent := (d, data) :: t.sent }
  else some t

/-! ### The clock -/

theorem initializeEpoch_of_ne {epoch : Long} (h : epoch ≠ 0) (ntptime now : Long) :
    initializeEpoch epoch ntptime now = epoch := if_neg h

/-! ### Answers -/

theorem readLong_congr {buf buf' : List UInt8} {off off' : ℕ} (h : part buf off 8 = part buf' off' 8) :
    readLong buf off = readLong buf' off' := by
  have hget : ∀ k < 8, buf[off + k]? = buf'[off' + k]? := by
    intro k hk
    have hcell := congrArg (·[k]?) h
    simpa only [part, List.getElem?_take_of_lt hk, List.getElem?_drop] using hcell
  have h₀ := hget 0 (by decide)
  have h₄ := hget 4 (by decide)
  simp only [Nat.add_zero] at h₀
  simp only [readLong, readInt, Nat.add_assoc, Nat.reduceAdd, h₀, h₄, hget 1 (by decide), hget 2 (by decide),
    hget 3 (by decide), hget 5 (by decide), hget 6 (by decide), hget 7 (by decide)]

theorem part_of_take {buf buf' : List UInt8} {m off : ℕ} (h : buf'.take m = buf.take m) (hoff : off + 8 ≤ m) :
    part buf' off 8 = part buf off 8 := by
  have hpart : ∀ l : List UInt8, part l off 8 = ((l.take m).drop off).take 8 := by
    intro l
    rw [List.drop_take, List.take_take, part]
    congr 1
    omega
  rw [hpart, hpart, h]

/-- **An answer**: the time of the request, of its arrival, and of the answer. -/
structure Answers (epoch : Long) (d : Datagram) (data : List UInt8) : Prop where
  size : data.length = 32
  header : data.take 8 = (d.data.set 1 0xd3).take 8
  origin : readLong data 8 = readLong d.data 24
  received : readLong data 16 = some (toNTPTime epoch d.receivetime)
  transmitted : readLong data 24 = some (toNTPTime epoch d.sendtime)

theorem arraycopy_origin (d : Datagram) :
    ∃ data, arraycopy (d.data.set 1 0xd3) 24 (d.data.set 1 0xd3) 8 8 = some data ∧ data.length = 32 ∧
      data.take 16 = (d.data.set 1 0xd3).take 8 ++ part d.data 24 8 := by
  have hlen : (d.data.set 1 0xd3).length = 32 := by rw [List.length_set, d.size]
  have hpart : part (d.data.set 1 0xd3) 24 8 = part d.data 24 8 := by
    rw [part, List.drop_set_of_lt (by decide), part]
  have hsize : (part d.data 24 8).length = 8 := by
    rw [part, List.length_take, List.length_drop, d.size]
    rfl
  obtain ⟨data, hcopy, hdata, htake⟩ :=
    overwrite_eq_some (show 8 + (part d.data 24 8).length ≤ (d.data.set 1 0xd3).length by omega)
  rw [hsize] at htake
  refine ⟨data, ?_, hdata.trans hlen, htake⟩
  rw [arraycopy, if_pos (by omega), hpart, hcopy]

theorem answer_answers (epoch : Long) (d : Datagram) :
    ∃ data, answer epoch d = some data ∧ Answers epoch d data := by
  obtain ⟨data₂, hcopy, hlen₂, htake₂⟩ := arraycopy_origin d
  obtain ⟨data₃, hwrite₃, hread₃, hlen₃, htake₃, -⟩ :=
    readLong_writeLong (toNTPTime epoch d.receivetime) (show 16 + 8 ≤ data₂.length by omega)
  obtain ⟨data₄, hwrite₄, hread₄, hlen₄, htake₄, -⟩ :=
    readLong_writeLong (toNTPTime epoch d.sendtime) (show 24 + 8 ≤ data₃.length by omega)
  -- the two times are written behind the copy, and in their order
  have htake : data₄.take 16 = (d.data.set 1 0xd3).take 8 ++ part d.data 24 8 := by
    rw [← htake₂, ← htake₃]
    simpa [List.take_take] using congrArg (List.take 16) htake₄
  have hfront : ((d.data.set 1 0xd3).take 8).length = 8 := by
    rw [List.length_take_of_le (by rw [List.length_set, d.size]; decide)]
  refine ⟨data₄, ?_, by omega, ?_, ?_, ?_, hread₄⟩
  · rw [answer, hcopy, Option.bind_some, hwrite₃, Option.bind_some, hwrite₄]
  · have hhead := congrArg (List.take 8) htake
    rwa [List.take_take, List.take_left' hfront] at hhead
  · refine readLong_congr ?_
    have horigin := congrArg (List.drop 8) htake
    rwa [List.drop_take, List.drop_left' hfront] at horigin
  · rw [← hread₃]
    exact readLong_congr (part_of_take htake₄ (by decide))

/-! ### Runs -/

/-- **The body of the loop** does not throw, and answers requests only. -/
theorem serve_answer (t : Timer) (d : Datagram) : ∃ t', serve t d = some t' ∧
    (t' = t ∨ ∃ ntptime data, readLong d.data 24 = some ntptime ∧
      t' = ⟨initializeEpoch t.epoch ntptime d.now, (d, data) :: t.sent⟩ ∧ Answers t'.epoch d data) := by
  rw [serve]
  split_ifs with hrequest
  · obtain ⟨ntptime, hread⟩ := exists_readLong (show 24 + 8 ≤ d.data.length from Nat.le_of_eq d.size.symm)
    obtain ⟨data, hanswer, hanswers⟩ := answer_answers (initializeEpoch t.epoch ntptime d.now) d
    rw [hread, Option.bind_some]
    dsimp only
    rw [hanswer]
    exact ⟨_, rfl, .inr ⟨ntptime, data, rfl, rfl, hanswers⟩⟩
  · exact ⟨t, rfl, .inl rfl⟩

/-- The times of an answer are those of the system, in a clock with this epoch. -/
def Timely (epoch : Long) (p : Datagram × List UInt8) : Prop :=
  readLong p.2 8 = readLong p.1.data 24 ∧
    (readLong p.2 16).map (fromNTPTime epoch) = some p.1.receivetime ∧
    (readLong p.2 24).map (fromNTPTime epoch) = some p.1.sendtime

/-- A time that an NTP time can say. -/
def Sayable (ms : Long) : Prop := 0 ≤ ms.toInt ∧ ms.toInt < 1000 * 4294967296

theorem Answers.timely {epoch : Long} {d : Datagram} {data : List UInt8} (h : Answers epoch d data)
    (hreceive : Sayable d.receivetime) (hsend : Sayable d.sendtime) : Timely epoch (d, data) := by
  refine ⟨h.origin, ?_, ?_⟩
  · rw [h.received, Option.map_some, fromNTPTime_toNTPTime epoch hreceive.1 hreceive.2]
  · rw [h.transmitted, Option.map_some, fromNTPTime_toNTPTime epoch hsend.1 hsend.2]

/-- **One step** keeps a clock that is set. -/
theorem serve_timely {epoch : Long} (hne : epoch ≠ 0) {t t' : Timer} {d : Datagram}
    (ht : t.epoch = epoch ∧ ∀ p ∈ t.sent, Timely epoch p)
    (hd : Sayable d.receivetime ∧ Sayable d.sendtime) (h : serve t d = some t') :
    t'.epoch = epoch ∧ ∀ p ∈ t'.sent, Timely epoch p := by
  obtain ⟨hepoch, hsent⟩ := ht
  obtain ⟨t'', hserve, hcases⟩ := serve_answer t d
  obtain rfl := Option.some.inj (h.symm.trans hserve)
  rcases hcases with rfl | ⟨ntptime, data, -, rfl, hanswers⟩
  · exact ⟨hepoch, hsent⟩
  · rw [hepoch, initializeEpoch_of_ne hne] at hanswers ⊢
    exact ⟨rfl, List.forall_mem_cons.mpr ⟨hanswers.timely hd.1 hd.2, hsent⟩⟩

/-- **Every run** with a clock that is set. -/
theorem run_timely {epoch : Long} (hne : epoch ≠ 0) {ds : List Datagram}
    (hds : ∀ d ∈ ds, Sayable d.receivetime ∧ Sayable d.sendtime) :
    ∃ t, run serve ⟨epoch, []⟩ ds = some t ∧ t.epoch = epoch ∧ ∀ p ∈ t.sent, Timely epoch p := by
  have hall : AllSteps serve (fun _ _ => True) ⟨epoch, []⟩ ds := allSteps_trivial
  have hsteps := AllSteps.and hds hall
  have hstep : ∀ t d, (t.epoch = epoch ∧ ∀ p ∈ t.sent, Timely epoch p) →
      ((Sayable d.receivetime ∧ Sayable d.sendtime) ∧ True) →
      ∃ t', serve t d = some t' ∧ (t'.epoch = epoch ∧ ∀ p ∈ t'.sent, Timely epoch p) ∧ True := by
    intro t d ht hd
    obtain ⟨t', hserve, -⟩ := serve_answer t d
    exact ⟨t', hserve, serve_timely hne ht hd.1 hserve, trivial⟩
  obtain ⟨t, hrun, ht, -⟩ := run_total_last hstep ⟨rfl, fun p hp => absurd hp List.not_mem_nil⟩ hsteps
  exact ⟨t, hrun, ht⟩

end Waveplay.Airtunes.TimingThread
