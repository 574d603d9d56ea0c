import Waveplay.Lib.Runs
import Waveplay.RaopPlay.MainLoop

/-! # Write interest and pending bytes

`raopcl_set_pause` with `NO_PAUSE` asks for write events whether or not there is anything to write. If the
loop goes on with a block of the source that does no harm, but after `stop` there is none, and `select`
reports the socket writable: `fd_event_callback` then ends the player, with `remsize=0`. The same happens
if the last send of a source fails for want of memory.

* `Pending`: `select` is entered with a write flag for the socket only if there are bytes to write, and
  `fd_event_callback` is not called without any.
* `WriteCond`: what rules these steps out.
* `pending_of_writeCond`: in a run of other steps, `Pending` holds in every step. -/

namespace Waveplay.RaopPlay.WriteInterest

open Waveplay.Lib.Runs Waveplay.RaopPlay.EventTable Waveplay.RaopPlay.RaopClient
open Waveplay.RaopPlay.MainLoop

/-! ### The property and the condition -/

/-- The table with the console, as `main` enters the loop. -/
def consoleTable : List (FdEvent Unit) :=
  (setFdEvent { fd := 0, cbf := some .consoleRead, read := true } emptyTable).getD emptyTable

/-- The player as `main` enters the loop, with the stream socket connected. -/
structure Entered (p : Player) : Prop where
  pc : p.pc = .top
  pause : p.raopcl.pause = .noPause
  fds : p.session.fds = consoleTable
  socket : 0 ≤ p.raopcl.sfd

/-- The write event of slot `i` calls `fd_event_callback` with nothing left to write. -/
def EmptyWriteAt (p : Player) (e : Events) (asked : List (FdEvent Unit)) (i : ℕ) : Prop :=
  (slot p.session.fds i).write = true ∧
    asked.any (fun a => a.fd = (slot p.session.fds i).fd && a.write) = true ∧
    (slot p.session.fds i).cbf = some .fdEventCallback ∧ e.written.isSome ∧ p.raopcl.wblkRemsize = 0

/-- This happens while the slots are handled. -/
def EmptyWrite (p : Player) (e : Events) (asked : List (FdEvent Unit)) : List ℕ → Prop
  | [] => False
  | i :: is =>
    (0 ≤ (slot p.session.fds i).fd ∧ (p.readEvent e asked i).1 = true ∧
      EmptyWriteAt (p.readEvent e asked i).2 e asked i) ∨
    (p.handleSlot e asked i).1 = true ∧ EmptyWrite (p.handleSlot e asked i).2 e asked is

/-- **Write interest** of the step implies pending bytes. -/
def Pending (p : Player) (i : Input) : Prop :=
  ∀ q, p.selecting i = some q →
    (∀ a ∈ q.session.fds, a.fd = q.raopcl.sfd → a.write = true → 0 < q.raopcl.wblkRemsize) ∧
    ¬ EmptyWrite q i.events q.session.fds (List.range MAX_NUM_OF_FDS)

/-- The console says `stop` in a pause only while bytes are pending, which the events do not write. -/
def StopCond (p : Player) (e : Events) : Prop :=
  ∀ c, e.console = some c → command c.line = .stop → p.raopcl.pause ≠ .noPause →
    p.raopcl.wblkRemsize ≠ 0 ∧
      (p.raopcl.pause = .nodataPause → ∀ n, e.written = some n → n < p.raopcl.wblkRemsize)

/-- The condition on a step: besides, a source that fails has memory for its last send. -/
structure WriteCond (p : Player) (i : Input) : Prop where
  stop : p.pc = .top → (p.selecting i).isSome → StopCond p i.events
  failed : p.GetsSample i → ∀ bytes, i.sample = .failed bytes →
    i.alloc = true ∨ p.raopcl.wblkRemsize ≠ 0

/-! ### The table -/

/-- What the table keeps: one slot for the socket and one for the console. -/
structure Table (sfd : ℤ) (fds : List (FdEvent Unit)) : Prop where
  socket : ∀ i j, (slot fds i).fd = sfd → (slot fds j).fd = sfd → i = j
  console : ∀ i j, (slot fds i).cbf = some .consoleRead → (slot fds j).cbf = some .consoleRead → i = j
  zero : ∀ i, (slot fds i).cbf = some .consoleRead → (slot fds i).fd = 0
  stream : ∀ i, (slot fds i).cbf = some .fdEventCallback → (slot fds i).fd = sfd

/-- There is a write flag for the socket. -/
def Asks (sfd : ℤ) (fds : List (FdEvent Unit)) : Prop :=
  ∃ i, (slot fds i).fd = sfd ∧ (slot fds i).write = true

section

variable {sfd : ℤ} {fds fds' : List (FdEvent Unit)} {e : FdEvent Unit} {k : ℕ}

theorem slot_fd_ne (hsfd : 0 ≤ sfd) (h : ∀ x ∈ fds, x.fd ≠ sfd) (i : ℕ) : (slot fds i).fd ≠ sfd := by
  have hfree : ({} : FdEvent Unit).fd ≠ sfd := by
    show (-1 : ℤ) ≠ sfd
    omega
  exact (forall_slot (P := fun x => x.fd ≠ sfd) hfree).mpr h i

theorem Table.put (ht : Table sfd fds) (hsfd : 0 ≤ sfd) (h : PutAt fds e k fds')
    (hconsole : e.cbf ≠ some .consoleRead) (hstream : e.cbf = some .fdEventCallback → e.fd = sfd) :
    Table sfd fds' := by
  have hother : ∀ j, j ≠ k → e.fd = sfd → (slot fds j).fd ≠ sfd := by
    intro j hj hfd hslot
    rcases h.own with hown | hnone
    · exact hj (ht.socket j k hslot (hown.trans hfd))
    · rw [hfd] at hnone
      exact slot_fd_ne hsfd hnone j hslot
  constructor
  · intro i j
    rw [h.slot i, h.slot j]
    split_ifs with hi hj hj
    · exact fun _ _ => hi.trans hj.symm
    · exact fun hfd hslot => absurd hslot (hother j hj hfd)
    · exact fun hslot hfd => absurd hslot (hother i hi hfd)
    · exact ht.socket i j
  · intro i j
    rw [h.slot i, h.slot j]
    split_ifs
    · exact fun hc => absurd hc hconsole
    · exact fun hc => absurd hc hconsole
    · exact fun _ hc => absurd hc hconsole
    · exact ht.console i j
  · intro i
    rw [h.slot i]
    split_ifs
    · exact fun hc => absurd hc hconsole
    · exact ht.zero i
  · intro i
    rw [h.slot i]
    split_ifs
    · exact hstream
    · exact ht.stream i

/-- A table in which some slots were replaced by ones without flag and callback. -/
def Cleared (fds fds' : List (FdEvent Unit)) : Prop :=
  ∀ i, slot fds' i = slot fds i ∨ (slot fds' i).write = false ∧ (slot fds' i).cbf = none

theorem Cleared.not_asks (h : Cleared fds fds') (hasks : ¬ Asks sfd fds) : ¬ Asks sfd fds' := by
  rintro ⟨i, hfd, hwrite⟩
  rcases h i with hslot | ⟨hno, -⟩
  · rw [hslot] at hfd hwrite
    exact hasks ⟨i, hfd, hwrite⟩
  · rw [hwrite] at hno
    cases hno

theorem Cleared.console (h : Cleared fds fds') {i : ℕ} (hc : (slot fds' i).cbf = some .consoleRead) :
    (slot fds i).cbf = some .consoleRead := by
  rcases h i with hslot | ⟨-, hnone⟩
  · rwa [hslot] at hc
  · rw [hnone] at hc
    cases hc

theorem clear_spec (hsfd : 0 ≤ sfd) (ht : Table sfd fds) (fd : ℤ) :
    Table sfd ((clearFdEvent fd fds).getD fds) ∧ Cleared fds ((clearFdEvent fd fds).getD fds) ∧
      (fd ≠ sfd → ∀ j, (slot fds j).fd = sfd → (slot ((clearFdEvent fd fds).getD fds) j).fd = sfd) := by
  rcases clearFdEvent_cases fd fds with ⟨k, hfd, hslot⟩ | hsame
  · have hfree : ({} : FdEvent Unit).fd ≠ sfd := by
      show (-1 : ℤ) ≠ sfd
      omega
    have hcleared : Cleared fds ((clearFdEvent fd fds).getD fds) := by
      intro i
      rw [hslot i]
      split_ifs
      · exact .inr ⟨rfl, rfl⟩
      · exact .inl rfl
    refine ⟨⟨fun i j => ?_, fun i j hi hj => ?_, fun i => ?_, fun i => ?_⟩, hcleared, fun hne j hj => ?_⟩
    · rw [hslot i, hslot j]
      split_ifs
      · exact fun hc => absurd hc hfree
      · exact fun hc => absurd hc hfree
      · exact fun _ hc => absurd hc hfree
      · exact ht.socket i j
    · exact ht.console i j (hcleared.console hi) (hcleared.console hj)
    · rw [hslot i]
      split_ifs
      · exact fun hc => by cases hc
      · exact ht.zero i
    · rw [hslot i]
      split_ifs
      · exact fun hc => by cases hc
      · exact ht.stream i
    · have hjk : j ≠ k := by
        rintro rfl
        exact hne (hfd.symm.trans hj)
      rw [hslot j, if_neg hjk]
      exact hj
  · rw [hsame]
    exact ⟨ht, fun i => .inl rfl, fun _ j hj => hj⟩

/-- `set_fd_event` for a descriptor without a callback. -/
theorem poll_spec (hsfd : 0 ≤ sfd) (ht : Table sfd fds) (dfd : ℤ) :
    Table sfd ((setFdEvent { fd := dfd, read := true } fds).getD fds) ∧
      Cleared fds ((setFdEvent { fd := dfd, read := true } fds).getD fds) := by
  rcases setFdEvent_cases { fd := dfd, read := true } fds with ⟨k, hput⟩ | ⟨hsame, -⟩
  · refine ⟨ht.put hsfd hput (by simp) (by simp), fun i => ?_⟩
    rw [hput.slot i]
    split_ifs
    · exact .inr ⟨rfl, rfl⟩
    · exact .inl rfl
  · rw [hsame]
    exact ⟨ht, fun i => .inl rfl⟩

theorem event_spec {r : Raopcl} (hsfd : 0 ≤ r.sfd) (ht : Table r.sfd fds) (write : Bool) :
    Table r.sfd ((setFdEvent (r.event write) fds).getD fds) ∧
      (∀ j, (slot fds j).fd = r.sfd → (slot ((setFdEvent (r.event write) fds).getD fds) j).fd = r.sfd) ∧
      (∀ i, (slot ((setFdEvent (r.event write) fds).getD fds) i).cbf = some .consoleRead →
        (slot fds i).cbf = some .consoleRead) ∧
      (write = false → ¬ Asks r.sfd ((setFdEvent (r.event write) fds).getD fds)) := by
  rcases setFdEvent_cases (r.event write) fds with ⟨k, hput⟩ | ⟨hsame, hnone⟩
  · have htable := ht.put hsfd hput (by simp [Raopcl.event]) fun _ => rfl
    have hk : slot ((setFdEvent (r.event write) fds).getD fds) k = r.event write := by
      rw [hput.slot k, if_pos rfl]
    refine ⟨htable, fun j hj => ?_, fun i => ?_, ?_⟩
    · rw [hput.slot j]
      split_ifs
      · rfl
      · exact hj
    · rw [hput.slot i]
      split_ifs
      · exact fun hc => by cases hc
      · exact id
    · rintro hwrite ⟨i, hfd, hasks⟩
      obtain rfl : i = k := htable.socket i k hfd (by rw [hk]; rfl)
      rw [hk] at hasks
      exact Bool.false_ne_true (hwrite.symm.trans hasks)
  · rw [hsame]
    refine ⟨ht, fun j hj => hj, fun i hc => hc, ?_⟩
    rintro - ⟨i, hfd, -⟩
    exact slot_fd_ne hsfd hnone i hfd

end

/-! ### While the slots are handled -/

/-- What holds at any time: without a source there is no pause, and no write flag in `OP_PAUSE`. -/
structure Ordered (p : Player) : Prop where
  socket : 0 ≤ p.raopcl.sfd
  table : Table p.raopcl.sfd p.session.fds
  closed : p.auds = none → p.raopcl.pause = .noPause
  quiet : p.raopcl.pause = .opPause → ¬ Asks p.raopcl.sfd p.session.fds

/-- There are bytes to write if there is a write flag. -/
def Interest (p : Player) : Prop := Asks p.raopcl.sfd p.session.fds → p.raopcl.wblkRemsize ≠ 0

/-- Nothing of this changes. -/
structure SameEvents (p q : Player) : Prop where
  sfd : q.raopcl.sfd = p.raopcl.sfd
  remsize : q.raopcl.wblkRemsize = p.raopcl.wblkRemsize
  pause : q.raopcl.pause = p.raopcl.pause
  fds : q.session.fds = p.session.fds
  auds : q.auds = p.auds

theorem Ordered.congr {p q : Player} (hp : Ordered p) (h : SameEvents p q) : Ordered q := by
  refine ⟨?_, ?_, ?_, ?_⟩
  · rw [h.sfd]
    exact hp.socket
  · rw [h.sfd, h.fds]
    exact hp.table
  · rw [h.auds, h.pause]
    exact hp.closed
  · rw [h.pause, h.sfd, h.fds]
    exact hp.quiet

theorem Interest.congr {p q : Player} (hp : Interest p) (h : SameEvents p q) : Interest q := by
  rw [Interest, h.sfd, h.fds, h.remsize]
  exact hp

/-- The player `q` on the way of `p` through the slots, with the read events before `r` and the write events
before `w` done. The bytes are those of `p` up to the slot of the socket, and the console has not been read
up to its own. -/
structure Passing (p : Player) (e : Events) (r w : ℕ) (q : Player) : Prop where
  ordered : Ordered q
  sfd : q.raopcl.sfd = p.raopcl.sfd
  nodata : q.raopcl.pause = .nodataPause → p.raopcl.pause = .nodataPause
  kept : q.raopcl.wblkRemsize = p.raopcl.wblkRemsize ∨
    (∃ n, e.written = some n ∧ q.raopcl.wblkRemsize = p.raopcl.wblkRemsize - n.toNat) ∧
      Asks p.raopcl.sfd p.session.fds ∧ ∃ j < w, (slot q.session.fds j).fd = q.raopcl.sfd
  fresh : (q.auds = p.auds ∧ q.raopcl.pause = p.raopcl.pause ∧ Interest q) ∨
    ∀ i ≥ r, (slot q.session.fds i).cbf ≠ some .consoleRead
  interest : Interest q ∨ q.auds.isSome ∧ q.raopcl.pause = .noPause

/-- What `raopcl_set_pause` does to the table. -/
structure PauseSet (q : Player) (new : Pause) (q' : Player) : Prop where
  sfd : q'.raopcl.sfd = q.raopcl.sfd
  remsize : q'.raopcl.wblkRemsize = q.raopcl.wblkRemsize
  pause : q'.raopcl.pause = new
  fds : q'.session.fds =
    (setFdEvent (q.raopcl.event (decide (new = .noPause))) q.session.fds).getD q.session.fds

theorem setPause_pauseSet (q : Player) (pause : Pause) (now : ℤ) :
    PauseSet q pause (q.setPause pause now) := by
  cases pause <;> exact ⟨rfl, rfl, rfl, rfl⟩

theorem PauseSet.withAuds {q q' : Player} {pause : Pause} (h : PauseSet q pause q') (auds : Option ℤ) :
    PauseSet q pause { q' with auds } :=
  ⟨h.sfd, h.remsize, h.pause, h.fds⟩

section

variable {p q : Player} {e : Events} {r w k : ℕ}

theorem Passing.refl (hp : Ordered p) (hi : Interest p) : Passing p e 0 0 p :=
  ⟨hp, rfl, id, .inl rfl, .inl ⟨rfl, rfl, hi⟩, .inl hi⟩

theorem Passing.mono (h : Passing p e r w q) {r' w' : ℕ} (hr : r ≤ r') (hw : w ≤ w') :
    Passing p e r' w' q := by
  refine ⟨h.ordered, h.sfd, h.nodata, ?_, ?_, h.interest⟩
  · rcases h.kept with hkept | ⟨hn, hasks, j, hj, hslot⟩
    · exact .inl hkept
    · exact .inr ⟨hn, hasks, j, by omega, hslot⟩
  · rcases h.fresh with hfresh | hlater
    · exact .inl hfresh
    · exact .inr fun i hi => hlater i (by omega)

theorem Passing.congr (h : Passing p e r w q) {q' : Player} (hsame : SameEvents q q') :
    Passing p e r w q' := by
  refine ⟨h.ordered.congr hsame, hsame.sfd.trans h.sfd, ?_, ?_, ?_, ?_⟩
  · rw [hsame.pause]
    exact h.nodata
  · rw [hsame.remsize, hsame.fds, hsame.sfd]
    exact h.kept
  · rw [hsame.auds, hsame.pause, hsame.fds]
    exact h.fresh.imp_left fun ⟨hauds, hpause, hi⟩ => ⟨hauds, hpause, hi.congr hsame⟩
  · rw [hsame.auds, hsame.pause]
    exact h.interest.imp_left fun hi => hi.congr hsame

/-- **Before a write event** the bytes are those that `select` found, and there are some. -/
theorem Passing.remsize (h : Passing p e r k q) (hi : Interest p)
    (hfd : (slot q.session.fds k).fd = q.raopcl.sfd)
    (hasked : p.session.fds.any (fun a => a.fd = (slot q.session.fds k).fd && a.write) = true) :
    q.raopcl.wblkRemsize = p.raopcl.wblkRemsize ∧ p.raopcl.wblkRemsize ≠ 0 ∧
      Asks p.raopcl.sfd p.session.fds := by
  have hasks : Asks p.raopcl.sfd p.session.fds := by
    obtain ⟨a, ha, hflags⟩ := List.any_eq_true.mp hasked
    obtain ⟨i, hlt, rfl⟩ := List.getElem_of_mem ha
    obtain ⟨hafd, hawrite⟩ : (p.session.fds[i]).fd = (slot q.session.fds k).fd ∧
        (p.session.fds[i]).write = true := by simpa using hflags
    refine ⟨i, ?_, ?_⟩
    · rw [slot, List.getD_eq_getElem _ _ hlt, hafd, hfd, h.sfd]
    · rw [slot, List.getD_eq_getElem _ _ hlt, hawrite]
  refine ⟨?_, hi hasks, hasks⟩
  rcases h.kept with hkept | ⟨-, -, j, hj, hslot⟩
  · exact hkept
  · have heq := h.ordered.table.socket j k hslot hfd
    omega

theorem streamWrite_passing (h : Passing p e r k q) (hasks : Asks p.raopcl.sfd p.session.fds)
    (hkept : q.raopcl.wblkRemsize = p.raopcl.wblkRemsize)
    (hfd : (slot q.session.fds k).fd = q.raopcl.sfd) {n : ℤ} (hn : e.written = some n) :
    Passing p e r (k + 1) (q.streamWrite n).2 := by
  unfold Player.streamWrite fdEventCallbackWrite
  dsimp only
  split_ifs with hzero herror hdone
  · rw [List.append_nil]
    exact h.mono (Nat.le_refl r) (Nat.le_succ k)
  · rw [List.append_nil]
    exact h.mono (Nat.le_refl r) (Nat.le_succ k)
  · -- the last bytes: the flag is taken back
    obtain ⟨htable, hslot, hconsole, hclear⟩ := event_spec h.ordered.socket h.ordered.table false
    have hno := hclear rfl
    refine ⟨⟨h.ordered.socket, htable, h.ordered.closed, fun _ => hno⟩, h.sfd, h.nodata,
      .inr ⟨⟨n, hn, ?_⟩, hasks, k, Nat.lt_succ_self k, hslot k hfd⟩, ?_, .inl fun hc => absurd hc hno⟩
    · show q.raopcl.wblkRemsize - min n.toNat q.raopcl.wblkRemsize = _
      omega
    · rcases h.fresh with ⟨hauds, hpause, -⟩ | hlater
      · exact .inl ⟨hauds, hpause, fun hc => absurd hc hno⟩
      · exact .inr fun i hi hc => hlater i hi (hconsole i hc)
  · have hleft : Interest { q with
        session := { q.session with raopcl := { q.raopcl with
          wblkWsize := q.raopcl.wblkWsize + min n.toNat q.raopcl.wblkRemsize
          wblkRemsize := q.raopcl.wblkRemsize - min n.toNat q.raopcl.wblkRemsize } }
        stream := q.stream ++ (q.raopcl.data.drop q.raopcl.wblkWsize).take
          (min n.toNat q.raopcl.wblkRemsize) } := fun _ => hdone
    refine ⟨⟨h.ordered.socket, h.ordered.table, h.ordered.closed, h.ordered.quiet⟩, h.sfd, h.nodata,
      .inr ⟨⟨n, hn, ?_⟩, hasks, k, Nat.lt_succ_self k, hfd⟩, ?_, .inl hleft⟩
    · show q.raopcl.wblkRemsize - min n.toNat q.raopcl.wblkRemsize = _
      omega
    · rcases h.fresh with ⟨hauds, hpause, -⟩ | hlater
      · exact .inl ⟨hauds, hpause, hleft⟩
      · exact .inr hlater

/-- **The write event of a slot.** -/
theorem writeEvent_passing (h : Passing p e r k q) (hi : Interest p) :
    Passing p e r (k + 1) (q.writeEvent e p.session.fds k).2 ∧
      ¬ EmptyWriteAt q e p.session.fds k := by
  constructor
  · simp only [Player.writeEvent]
    split_ifs with hflags
    · obtain ⟨-, hasked⟩ := Bool.and_eq_true_iff.mp hflags
      cases hcbf : (slot q.session.fds k).cbf with
      | none =>
        rw [slot] at hcbf
        rw [hcbf]
        exact h.mono (Nat.le_refl r) (Nat.le_succ k)
      | some cbf =>
        cases cbf with
        | consoleRead =>
          rw [slot] at hcbf
          rw [hcbf]
          exact h.mono (Nat.le_refl r) (Nat.le_succ k)
        | fdEventCallback =>
          have hfd := h.ordered.table.stream k hcbf
          obtain ⟨hkept, -, hasks⟩ := h.remsize hi hfd hasked
          rw [slot] at hcbf
          rw [hcbf, Player.writeCallback]
          cases hn : e.written with
          | none => exact h.mono (Nat.le_refl r) (Nat.le_succ k)
          | some n => exact streamWrite_passing h hasks hkept hfd hn
        | terminateCbf =>
          rw [slot] at hcbf
          rw [hcbf]
          exact h.mono (Nat.le_refl r) (Nat.le_succ k)
    · exact h.mono (Nat.le_refl r) (Nat.le_succ k)
  · rintro ⟨-, hasked, hcbf, -, hzero⟩
    obtain ⟨hkept, hne, -⟩ := h.remsize hi (h.ordered.table.stream k hcbf) hasked
    exact hne (hkept.symm.trans hzero)

/-- The console is about to be read: it was not before, and will not be again. -/
structure Unread (p : Player) (e : Events) (k : ℕ) (q : Player) : Prop extends Passing p e k k q where
  auds : q.auds = p.auds
  pause : q.raopcl.pause = p.raopcl.pause
  bytes : Interest q
  later : ∀ i ≥ k + 1, (slot q.session.fds i).cbf ≠ some .consoleRead

theorem Passing.unread (h : Passing p e k k q) (hcbf : (slot q.session.fds k).cbf = some .consoleRead) :
    Unread p e k q := by
  have hlater : ∀ i ≥ k + 1, (slot q.session.fds i).cbf ≠ some .consoleRead := by
    intro i hi hc
    have heq := h.ordered.table.console i k hc hcbf
    omega
  rcases h.fresh with ⟨hauds, hpause, hbytes⟩ | hno
  · exact ⟨h, hauds, hpause, hbytes, hlater⟩
  · exact absurd hcbf (hno k (Nat.le_refl k))

theorem Unread.clear (h : Unread p e k q) (hcbf : (slot q.session.fds k).cbf = some .consoleRead) :
    Unread p e k { q with session := { q.session with
      fds := (clearFdEvent 0 q.session.fds).getD q.session.fds } } := by
  obtain ⟨htable, hcleared, hslot⟩ := clear_spec h.ordered.socket h.ordered.table 0
  have hbytes : Interest { q with session := { q.session with
      fds := (clearFdEvent 0 q.session.fds).getD q.session.fds } } := by
    intro hasks
    by_contra hzero
    exact hcleared.not_asks (fun hc => h.bytes hc hzero) hasks
  refine ⟨⟨⟨h.ordered.socket, htable, h.ordered.closed, fun hop => hcleared.not_asks (h.ordered.quiet hop)⟩,
    h.sfd, h.nodata, ?_, .inl ⟨h.auds, h.pause, hbytes⟩, .inl hbytes⟩, h.auds, h.pause, hbytes,
    fun i hi hc => h.later i hi (hcleared.console hc)⟩
  rcases h.kept with hkept | ⟨hn, hasks, j, hj, hfd⟩
  · exact .inl hkept
  · -- the socket is not the console, which has a later slot
    have hne : (0 : ℤ) ≠ q.raopcl.sfd := by
      intro hzero
      have hconsole := h.ordered.table.zero k hcbf
      have heq := h.ordered.table.socket j k hfd (hconsole.trans hzero)
      omega
    exact .inr ⟨hn, hasks, j, hj, hslot hne j hfd⟩

theorem Unread.paused (h : Unread p e k q) {pause : Pause} {q' : Player} (hset : PauseSet q pause q')
    (hnodata : pause ≠ .nodataPause) (hclosed : q'.auds = none → pause = .noPause)
    (hbytes : pause = .noPause → q'.auds.isSome ∨ q.raopcl.wblkRemsize ≠ 0) :
    Passing p e (k + 1) k q' := by
  obtain ⟨htable, hslot, hconsole, hclear⟩ :=
    event_spec h.ordered.socket h.ordered.table (decide (pause = .noPause))
  rw [← hset.fds, ← hset.sfd] at htable hslot hclear
  rw [← hset.fds] at hconsole
  have hquiet : pause ≠ .noPause → ¬ Asks q'.raopcl.sfd q'.session.fds :=
    fun hne => hclear (decide_eq_false hne)
  refine ⟨⟨?_, htable, fun hnone => hset.pause.trans (hclosed hnone), fun hop => hquiet ?_⟩,
    hset.sfd.trans h.sfd, fun hnd => absurd (hset.pause.symm.trans hnd) hnodata, ?_,
    .inr fun i hi hc => h.later i hi (hconsole i hc), ?_⟩
  · rw [hset.sfd]
    exact h.ordered.socket
  · rw [← hset.pause, hop]
    decide
  · rw [hset.remsize]
    rcases h.kept with hkept | ⟨hn, hasks, j, hj, hfd⟩
    · exact .inl hkept
    · exact .inr ⟨hn, hasks, j, hj, hslot j (hfd.trans hset.sfd.symm)⟩
  · by_cases hno : pause = .noPause
    · rcases hbytes hno with hsome | hne
      · exact .inr ⟨hsome, hset.pause.trans hno⟩
      · exact .inl fun _ => by rwa [hset.remsize]
    · exact .inl fun hc => absurd hc (hquiet hno)

/-- The bytes that are left when the console says `stop` in a pause. -/
theorem Unread.stop (h : Unread p e k q) (hp : Ordered p) (hstop : StopCond p e) {c : Console}
    (hcon : e.console = some c) (hc : command c.line = .stop) (hpause : q.raopcl.pause ≠ .noPause) :
    q.raopcl.wblkRemsize ≠ 0 := by
  rw [h.pause] at hpause
  obtain ⟨hne, hwritten⟩ := hstop c hcon hc hpause
  rcases h.kept with hkept | ⟨⟨n, hn, hkept⟩, hasks, -⟩
  · rwa [hkept]
  · have hnodata : p.raopcl.pause = .nodataPause := by
      cases hcase : p.raopcl.pause with
      | noPause => exact absurd hcase hpause
      | opPause => exact absurd hasks (hp.quiet hcase)
      | nodataPause => rfl
    have hlt := hwritten hnodata n hn
    omega

theorem Unread.same (h : Unread p e k q) {auds : Option ℤ} (hauds : auds = none → q.raopcl.pause = .noPause) :
    Passing p e (k + 1) k { q with auds } :=
  ⟨⟨h.ordered.socket, h.ordered.table, hauds, h.ordered.quiet⟩, h.sfd, h.nodata, h.kept, .inr h.later,
    .inl h.bytes⟩

/-- **A console command.** -/
theorem consoleCommand_passing (h : Unread p e k q) (hp : Ordered p) (hstop : StopCond p e) {c : Console}
    (hcon : e.console = some c) : Passing p e (k + 1) k (q.consoleCommand c).2 := by
  have hsame : Passing p e (k + 1) k q := h.mono (Nat.le_succ k) (Nat.le_refl k)
  unfold Player.consoleCommand
  cases hc : command c.line with
  | play song =>
    simp only
    split_ifs with hpause hsong
    · refine h.paused (setPause_pauseSet q .noPause c.time) (by decide) (fun _ => rfl) fun _ => .inl ?_
      exact Option.isSome_iff_ne_none.mpr fun hnone => hpause (h.ordered.closed hnone)
    · exact h.same fun _ => by simpa using hpause
    · exact hsame
  | pause =>
    simp only
    split_ifs with hdone hsome
    · exact hsame
    · refine h.paused (setPause_pauseSet q .opPause c.time) (by decide) (fun hnone => ?_) (by simp)
      rw [setPause_auds] at hnone
      rw [hnone] at hsome
      cases hsome
    · exact hsame
  | stop =>
    simp only
    by_cases hpause : q.raopcl.pause = .noPause
    · rw [if_neg (by simpa using hpause)]
      exact h.same fun _ => hpause
    · rw [if_pos hpause]
      refine h.paused ((setPause_pauseSet q .noPause c.time).withAuds none) (by decide) (fun _ => rfl) ?_
      exact fun _ => .inr (h.stop hp hstop hcon hc hpause)
  | quit => exact hsame
  | volume => exact hsame
  | other => exact hsame

/-- **The read event of a slot.** -/
theorem readEvent_passing (h : Passing p e k k q) (hp : Ordered p) (hstop : StopCond p e)
    (asked : List (FdEvent Unit)) : Passing p e (k + 1) k (q.readEvent e asked k).2 := by
  have hsame : Passing p e (k + 1) k q := h.mono (Nat.le_succ k) (Nat.le_refl k)
  simp only [Player.readEvent]
  split_ifs
  · cases hcbf : (slot q.session.fds k).cbf with
    | none =>
      rw [slot] at hcbf
      rw [hcbf]
      exact hsame
    | some cbf =>
      cases cbf with
      | consoleRead =>
        have hunread := h.unread hcbf
        have hclear := hunread.clear hcbf
        rw [slot] at hcbf
        rw [hcbf, Player.readCallback]
        cases hcon : e.console with
        | none => exact hsame
        | some c =>
          simp only [Player.consoleRead]
          split_ifs
          · exact consoleCommand_passing hclear hp hstop hcon
          · exact consoleCommand_passing hunread hp hstop hcon
      | fdEventCallback =>
        rw [slot] at hcbf
        rw [hcbf, Player.readCallback]
        cases e.received with
        | none => exact hsame
        | some r =>
          cases r with
          | error => exact hsame
          | eof => exact hsame
          | bytes buf tv => exact hsame.congr ⟨rfl, rfl, rfl, rfl, rfl⟩
      | terminateCbf =>
        rw [slot] at hcbf
        rw [hcbf]
        exact hsame
  · exact hsame

/-- **All slots** from `k` on. -/
theorem handleSlots_passing (hp : Ordered p) (hi : Interest p) (hstop : StopCond p e) :
    ∀ (n k : ℕ) {q : Player}, Passing p e k k q →
    (∃ r w, Passing p e r w (q.handleSlots e p.session.fds (List.range' k n)).2) ∧
      ¬ EmptyWrite q e p.session.fds (List.range' k n)
  | 0, k, q, h => ⟨⟨k, k, h⟩, id⟩
  | n + 1, k, q, h => by
    have hread := readEvent_passing h hp hstop p.session.fds
    obtain ⟨hwrite, hempty⟩ := writeEvent_passing hread hi
    have hslot : (q.handleSlot e p.session.fds k).1 = true →
        Passing p e (k + 1) (k + 1) (q.handleSlot e p.session.fds k).2 := by
      intro hok
      simp only [Player.handleSlot] at hok ⊢
      split_ifs at hok ⊢ with hneg hfailed
      · exact h.mono (Nat.le_succ k) (Nat.le_succ k)
      · rw [hok] at hfailed
        cases hfailed
      · exact hwrite
    have hany : ∃ r w, Passing p e r w (q.handleSlot e p.session.fds k).2 := by
      simp only [Player.handleSlot]
      split_ifs
      · exact ⟨k, k, h⟩
      · exact ⟨_, _, hread⟩
      · exact ⟨_, _, hwrite⟩
    rw [List.range'_succ]
    constructor
    · rw [Player.handleSlots]
      split_ifs with hfailed
      · exact hany
      · exact (handleSlots_passing hp hi hstop n (k + 1) (hslot (by simpa using hfailed))).1
    · rw [EmptyWrite]
      rintro (⟨-, -, hc⟩ | ⟨hok, hc⟩)
      · exact hempty hc
      · exact (handleSlots_passing hp hi hstop n (k + 1) (hslot hok)).2 hc

end

/-! ### The event handler -/

/-- What `main_event_handler` leaves: a write flag without bytes only if a pause is over. -/
structure Handled (p q : Player) : Prop where
  ordered : Ordered q
  nodata : q.raopcl.pause = .nodataPause → p.raopcl.pause = .nodataPause
  interest : Interest q ∨ q.auds.isSome ∧ q.raopcl.pause = .noPause

section

variable {p q : Player} {e : Events}

theorem Handled.congr (h : Handled p q) {q' : Player} (hsame : SameEvents q q') : Handled p q' := by
  refine ⟨h.ordered.congr hsame, ?_, ?_⟩
  · rw [hsame.pause]
    exact h.nodata
  · rw [hsame.auds, hsame.pause]
    exact h.interest.imp_left fun hi => hi.congr hsame

theorem songdone_sameEvents (q : Player) (now : Timeval) : SameEvents q (q.songdone now) := by
  unfold Player.songdone
  split_ifs <;> exact ⟨rfl, rfl, rfl, rfl, rfl⟩

theorem Ordered.asked (h : Ordered q) (hno : q.raopcl.pause ≠ .opPause) {alloc : Bool} {q' : Player}
    (hasked : Asked q.session alloc q'.session) (hauds : q'.auds = q.auds) :
    Ordered q' ∧ (alloc = true → Interest q') ∧ (alloc = false → Interest q → Interest q') := by
  obtain ⟨hsfd, hpause, hfds, hremsize⟩ := hasked
  cases alloc with
  | true =>
    rw [if_pos rfl] at hfds hremsize
    have htable := (event_spec h.socket h.table true).1
    refine ⟨⟨?_, ?_, ?_, fun hop => ?_⟩, fun _ _ => hremsize, by simp⟩
    · rw [Player.raopcl, hsfd]
      exact h.socket
    · rw [Player.raopcl, hsfd, hfds]
      exact htable
    · rw [Player.raopcl, hpause, hauds]
      exact h.closed
    · exact absurd (hpause.symm.trans hop) hno
  | false =>
    simp only [Bool.false_eq_true, if_false] at hfds hremsize
    have hsame : SameEvents q q' := ⟨hsfd, hremsize, hpause, hfds, hauds⟩
    exact ⟨h.congr hsame, by simp, fun _ hi => hi.congr hsame⟩

theorem pauseCheck_handled (aes : Block → Block) (h : Handled p q) : Handled p (q.pauseCheck aes e) := by
  cases hpause : q.raopcl.pause with
  | noPause =>
    refine h.congr ?_
    simp only [Player.pauseCheck, raopclPauseCheck, hpause]
    exact ⟨rfl, rfl, rfl, rfl, rfl⟩
  | opPause =>
    have hsilent : ¬ q.SilentDue e.check := by
      rintro ⟨hc, -⟩
      rw [hpause] at hc
      cases hc
    refine h.congr ?_
    simp only [Player.pauseCheck, raopclPauseCheck, hpause, if_neg hsilent]
    split_ifs
    · exact ⟨rfl, rfl, rfl, rfl, rfl⟩
    · exact ⟨rfl, rfl, hpause.symm, rfl, rfl⟩
  | nodataPause =>
    have hi : Interest q := by
      rcases h.interest with hi | ⟨-, hno⟩
      · exact hi
      · rw [hpause] at hno
        cases hno
    obtain ⟨⟨hsfd, hsame, hfds, hremsize⟩, -⟩ :=
      raopclSendSample_asked aes q.session e.alloc q.raopcl.minSdata
    by_cases hdue : e.check - q.raopcl.pausedTime < 3
    · refine h.congr ?_
      simp only [Player.pauseCheck, raopclPauseCheck, hpause, if_pos hdue]
      exact ⟨rfl, rfl, rfl, rfl, rfl⟩
    · have hasked : Asked q.session e.alloc (q.pauseCheck aes e).session := by
        simp only [Player.pauseCheck, raopclPauseCheck, hpause, if_neg hdue, raopclSmallSilent]
        exact ⟨hsfd, hsame, hfds, hremsize⟩
      obtain ⟨hordered, hsent, hfailed⟩ := h.ordered.asked (by rw [hpause]; decide) hasked rfl
      refine ⟨hordered, fun _ => h.nodata hpause, .inl ?_⟩
      cases halloc : e.alloc with
      | true => exact hsent halloc
      | false => exact hfailed halloc hi

/-- **`main_event_handler`**, entered with bytes to write if there is a write flag. -/
theorem mainEventHandler_handled (aes : Block → Block) (hp : Ordered p) (hi : Interest p)
    (hstop : StopCond p e) : Handled p (p.mainEventHandler aes e).2 ∧
      ¬ EmptyWrite p e p.session.fds (List.range MAX_NUM_OF_FDS) := by
  obtain ⟨⟨r, w, hslots⟩, hempty⟩ :=
    handleSlots_passing hp hi hstop MAX_NUM_OF_FDS 0 (Passing.refl hp hi)
  rw [← List.range_eq_range'] at hslots hempty
  refine ⟨?_, hempty⟩
  have hhandled : Handled p (p.handleSlots e p.session.fds (List.range MAX_NUM_OF_FDS)).2 :=
    ⟨hslots.ordered, hslots.nodata, hslots.interest⟩
  have hafter : Handled p (p.afterEvents e).2 := by
    unfold Player.afterEvents
    dsimp only
    split_ifs
    · exact hhandled
    · exact hhandled.congr (songdone_sameEvents _ e.now)
  unfold Player.mainEventHandler
  dsimp only
  split_ifs
  · exact hafter
  · exact pauseCheck_handled aes hafter

end

/-! ### The loop -/

/-- **The invariant of the loop.** A write flag without bytes is followed by a block of the source. -/
structure LoopInv (p : Player) : Prop where
  ordered : Ordered p
  interest : Interest p ∨ p.pc ≠ .wait ∧ p.auds.isSome ∧ p.raopcl.pause = .noPause
  waiting : p.pc = .wait → p.raopcl.wblkRemsize ≠ 0 ∧ p.raopcl.pause ≠ .nodataPause

theorem not_asks_consoleTable (sfd : ℤ) : ¬ Asks sfd consoleTable := by
  have hno : ∀ i, (slot consoleTable i).write = false :=
    (forall_slot (P := fun x => x.write = false) rfl).mpr (by decide)
  rintro ⟨i, -, hwrite⟩
  rw [hno i] at hwrite
  cases hwrite

theorem table_consoleTable {sfd : ℤ} (hsfd : 0 ≤ sfd) : Table sfd consoleTable := by
  have hslot : ∀ i, slot consoleTable i =
      if i = 0 then { fd := 0, cbf := some .consoleRead, read := true } else {} := by
    intro i
    match i with
    | 0 | 1 | 2 | 3 | i + 4 => rfl
  have hfirst : ∀ i, (slot consoleTable i).fd = sfd → i = 0 := by
    intro i hi
    by_contra hne
    rw [hslot i, if_neg hne] at hi
    have hneg : (-1 : ℤ) = sfd := hi
    omega
  have hconsole : ∀ i, (slot consoleTable i).cbf = some .consoleRead → i = 0 := by
    intro i hi
    by_contra hne
    rw [hslot i, if_neg hne] at hi
    cases hi
  refine ⟨fun i j hi hj => ?_, fun i j hi hj => ?_, fun i hi => ?_, fun i hi => ?_⟩
  · rw [hfirst i hi, hfirst j hj]
  · rw [hconsole i hi, hconsole j hj]
  · rw [hconsole i hi]
    rfl
  · rw [hslot i] at hi
    split_ifs at hi
    cases hi

theorem loopInv_entered {p : Player} (h : Entered p) : LoopInv p where
  ordered := by
    refine ⟨h.socket, ?_, fun _ => h.pause, fun _ => ?_⟩
    · rw [h.fds]
      exact table_consoleTable h.socket
    · rw [h.fds]
      exact not_asks_consoleTable _
  interest := by
    refine .inl fun hasks => ?_
    rw [h.fds] at hasks
    exact absurd hasks (not_asks_consoleTable _)
  waiting hpc := by
    rw [h.pc] at hpc
    cases hpc

theorem pollNextSample_ordered {p : Player} (h : Ordered p) (poll : Poll) :
    Ordered (p.pollNextSample poll).2 ∧ (Interest p → Interest (p.pollNextSample poll).2) := by
  have hspec : Table p.raopcl.sfd (p.pollNextSample poll).2.session.fds ∧
      Cleared p.session.fds (p.pollNextSample poll).2.session.fds := by
    obtain ⟨hclear, hcleared, -⟩ := clear_spec h.socket h.table (p.auds.getD (-1))
    cases poll with
    | none => exact poll_spec h.socket h.table _
    | other => exact ⟨hclear, hcleared⟩
    | pollin => exact ⟨hclear, hcleared⟩
  have hraopcl : (p.pollNextSample poll).2.raopcl = p.raopcl := by cases poll <;> rfl
  have hauds : (p.pollNextSample poll).2.auds = p.auds := (pollNextSample_sameControl p poll).auds
  obtain ⟨htable, hcleared⟩ := hspec
  refine ⟨⟨?_, ?_, ?_, fun hop => ?_⟩, fun hi hasks => ?_⟩
  · rw [hraopcl]
    exact h.socket
  · rw [hraopcl]
    exact htable
  · rw [hraopcl, hauds]
    exact h.closed
  · rw [hraopcl] at hop ⊢
    exact hcleared.not_asks (h.quiet hop)
  · rw [hraopcl] at hasks ⊢
    by_contra hzero
    exact hcleared.not_asks (fun hc => hi hc hzero) hasks

theorem Ordered.paused {q q' : Player} (h : Ordered q) {pause : Pause} (hset : PauseSet q pause q')
    (hauds : q'.auds.isSome) : Ordered q' ∧ (pause ≠ .noPause → Interest q') := by
  obtain ⟨htable, -, -, hclear⟩ := event_spec h.socket h.table (decide (pause = .noPause))
  rw [← hset.fds, ← hset.sfd] at htable hclear
  have hquiet : pause ≠ .noPause → ¬ Asks q'.raopcl.sfd q'.session.fds :=
    fun hne => hclear (decide_eq_false hne)
  refine ⟨⟨?_, htable, fun hnone => ?_, fun hop => hquiet ?_⟩, fun hne hasks => absurd hasks (hquiet hne)⟩
  · rw [hset.sfd]
    exact h.socket
  · rw [hnone] at hauds
    cases hauds
  · rw [← hset.pause, hop]
    decide

theorem LoopInv.selecting {p q : Player} {i : Input} (h : LoopInv p) (hC : WriteCond p i)
    (hq : p.selecting i = some q) : Ordered q ∧ Interest q ∧ StopCond q i.events ∧
      q.raopcl.pause = p.raopcl.pause := by
  have hinterest : p.raopcl.pause ≠ .noPause ∨ p.auds = none → Interest p := by
    rcases h.interest with hi | ⟨-, hsome, hno⟩
    · exact fun _ => hi
    · rintro (hne | hnone)
      · exact absurd hno hne
      · rw [hnone] at hsome
        cases hsome
  have hstop : p.pc = .top → StopCond p i.events := fun hpc => hC.stop hpc (by rw [hq]; rfl)
  unfold Player.selecting at hq
  cases hpc : p.pc with
  | done =>
    rw [hpc] at hq
    cases hq
  | wait =>
    rw [hpc] at hq
    obtain rfl := Option.some.inj hq
    obtain ⟨hne, hnodata⟩ := h.waiting hpc
    exact ⟨h.ordered, fun _ => hne, fun _ _ _ _ => ⟨hne, fun hnd => absurd hnd hnodata⟩, rfl⟩
  | top =>
    rw [hpc] at hq
    by_cases hact : (!i.activated) = true
    · simp only [if_pos hact] at hq
      cases hq
    by_cases hnone : p.auds = none
    · simp only [if_neg hact, if_pos hnone] at hq
      obtain rfl := Option.some.inj hq
      exact ⟨h.ordered, hinterest (.inr hnone), hstop hpc, rfl⟩
    · simp only [if_neg hact, if_neg hnone] at hq
      cases hpause : p.raopcl.pause with
      | noPause =>
        rw [hpause] at hq
        cases hq
      | opPause =>
        rw [hpause] at hq
        obtain rfl := Option.some.inj hq
        exact ⟨h.ordered, hinterest (.inl (by rw [hpause]; decide)), hstop hpc, hpause⟩
      | nodataPause =>
        simp only [hpause] at hq
        split_ifs at hq
        obtain rfl := Option.some.inj hq
        obtain ⟨hordered, hi⟩ := pollNextSample_ordered h.ordered i.poll
        have hraopcl : (p.pollNextSample i.poll).2.raopcl = p.raopcl := by cases i.poll <;> rfl
        refine ⟨hordered, hi (hinterest (.inl (by rw [hpause]; decide))), ?_, ?_⟩
        · rw [StopCond, hraopcl]
          exact hstop hpc
        · rw [hraopcl, hpause]

/-- The loop after a send: a write flag without bytes is left only with a source. -/
theorem send_inv (aes : Block → Block) {q : Player} (h : Ordered q) (hno : q.raopcl.pause = .noPause)
    {alloc : Bool} (hlast : alloc = true ∨ q.auds.isSome ∨ q.raopcl.wblkRemsize ≠ 0) (bytes : List UInt8) :
    LoopInv { (q.send aes alloc bytes).2 with
      pc := if (q.send aes alloc bytes).1 then .wait else .top } := by
  obtain ⟨hasked, hsuccess⟩ := raopclSendSample_asked aes q.session alloc bytes
  have hop : q.raopcl.pause ≠ .opPause := by rw [hno]; decide
  obtain ⟨hordered, hbytes, hkept⟩ := @Ordered.asked q h hop alloc { (q.send aes alloc bytes).2 with
    pc := if (q.send aes alloc bytes).1 then .wait else .top } hasked rfl
  refine ⟨hordered, ?_, fun hwait => ?_⟩
  · cases halloc : alloc with
    | true =>
      subst halloc
      exact .inl (hbytes rfl)
    | false =>
      subst halloc
      have hfailed : (q.send aes false bytes).1 = false := by
        by_contra hsent
        exact Bool.false_ne_true (hsuccess (eq_true_of_ne_false hsent))
      rcases hlast with hc | hsome | hne
      · cases hc
      · refine .inr ⟨?_, hsome, hasked.pause.trans hno⟩
        rw [hfailed]
        simp
      · exact .inl (hkept rfl fun _ => hne)
  · split_ifs at hwait with hsent
    obtain rfl := hsuccess hsent
    refine ⟨hasked.remsize, fun hnodata => ?_⟩
    have hpause := hasked.pause.symm.trans hnodata
    rw [show q.session.raopcl.pause = .noPause from hno] at hpause
    cases hpause

theorem playNext_inv (aes : Block → Block) {q : Player} (h : Ordered q) (hauds : q.auds.isSome)
    (hno : q.raopcl.pause = .noPause) {i : Input}
    (hfailed : i.pollAgain = .pollin → ∀ bytes, i.sample = .failed bytes →
      i.alloc = true ∨ q.raopcl.wblkRemsize ≠ 0) : LoopInv (q.playNext aes i) := by
  obtain ⟨hordered, -⟩ := pollNextSample_ordered h i.pollAgain
  have hcontrol := pollNextSample_sameControl q i.pollAgain
  have hblock := pollNextSample_sameBlock q i.pollAgain
  have hready := pollNextSample_ready q i.pollAgain
  have hauds' : (q.pollNextSample i.pollAgain).2.auds.isSome := by rwa [hcontrol.auds]
  have hno' : (q.pollNextSample i.pollAgain).2.raopcl.pause = .noPause := hcontrol.pause.trans hno
  unfold Player.playNext
  dsimp only
  by_cases hpoll : (q.pollNextSample i.pollAgain).1 = true
  · rw [if_neg (by simp [hpoll])]
    cases hsample : i.sample with
    | ok bytes => exact send_inv aes hordered hno' (.inr (.inl hauds')) bytes
    | failed bytes =>
      -- the source is closed
      have hclosed : Ordered ((q.pollNextSample i.pollAgain).2.sampled (.failed bytes)) :=
        ⟨hordered.socket, hordered.table, fun _ => hno', hordered.quiet⟩
      refine send_inv aes hclosed hno' ?_ bytes
      rcases hfailed (hready.mp hpoll) bytes hsample with halloc | hne
      · exact .inl halloc
      · exact .inr (.inr (hblock.remsize.symm ▸ hne))
  · rw [if_pos (by simp [hpoll])]
    have hset := setPause_pauseSet (q.pollNextSample i.pollAgain).2 .nodataPause i.time
    obtain ⟨hpaused, hi⟩ := hordered.paused hset hauds'
    exact ⟨hpaused.congr ⟨rfl, rfl, rfl, rfl, rfl⟩, .inl ((hi (by decide)).congr ⟨rfl, rfl, rfl, rfl, rfl⟩),
      by simp⟩

theorem resumed_ordered {p : Player} {i : Input} (h : Ordered p) (hp : p.Plays i) :
    Ordered (p.resumed i) ∧ (p.resumed i).auds.isSome ∧ (p.resumed i).raopcl.pause = .noPause ∧
      (p.resumed i).raopcl.wblkRemsize = p.raopcl.wblkRemsize := by
  unfold Player.resumed
  split_ifs with hnodata
  · obtain ⟨hordered, -⟩ := pollNextSample_ordered h i.poll
    have hcontrol := pollNextSample_sameControl p i.poll
    have hblock := pollNextSample_sameBlock p i.poll
    have hset := setPause_pauseSet (p.pollNextSample i.poll).2 .noPause i.time
    have hauds : ((p.pollNextSample i.poll).2.setPause .noPause i.time).auds.isSome := by
      rw [setPause_auds, hcontrol.auds]
      exact hp.auds
    exact ⟨(hordered.paused hset hauds).1, hauds, hset.pause, hset.remsize.trans hblock.remsize⟩
  · refine ⟨h, hp.auds, ?_, rfl⟩
    rcases hp.pause with hno | ⟨hc, -⟩
    · exact hno
    · exact absurd hc hnodata

/-- **One step keeps the invariant.** -/
theorem loopInv_step (aes : Block → Block) {p p' : Player} {i : Input} (hp : LoopInv p)
    (hC : WriteCond p i) (h : step aes p i = some p') : LoopInv p' := by
  cases step_stepped h with
  | ended h =>
    subst h
    refine ⟨hp.ordered.congr ⟨rfl, rfl, rfl, rfl, rfl⟩, ?_, by simp⟩
    rcases hp.interest with hi | ⟨-, hsome, hno⟩
    · exact .inl (hi.congr ⟨rfl, rfl, rfl, rfl, rfl⟩)
    · exact .inr ⟨by simp, hsome, hno⟩
  | @checked q pc hq hpc h =>
    subst h
    obtain ⟨hordered, hi, hstop, hpause⟩ := hp.selecting hC hq
    obtain ⟨hhandled, -⟩ := mainEventHandler_handled aes hordered hi hstop
    refine ⟨hhandled.ordered.congr ⟨rfl, rfl, rfl, rfl, rfl⟩, ?_, fun hwait => ?_⟩
    · by_cases hwait : pc = .wait
      · exact .inl fun _ => (hpc.wait hwait).2.2
      · exact hhandled.interest.imp (fun hi => hi.congr ⟨rfl, rfl, rfl, rfl, rfl⟩)
          fun ⟨hsome, hno⟩ => ⟨hwait, hsome, hno⟩
    · obtain ⟨hwas, -, hne⟩ := hpc.wait hwait
      exact ⟨hne, fun hnd => (hp.waiting hwas).2 (hpause.symm.trans (hhandled.nodata hnd))⟩
  | played hplays h =>
    subst h
    obtain ⟨hordered, hauds, hno, hremsize⟩ := resumed_ordered hp.ordered hplays
    refine playNext_inv aes hordered hauds hno fun hagain bytes hsample => ?_
    rw [hremsize]
    exact hC.failed ⟨hplays, hagain⟩ bytes hsample

theorem LoopInv.pending (aes : Block → Block) {p : Player} {i : Input} (hp : LoopInv p)
    (hC : WriteCond p i) : Pending p i := by
  intro q hq
  obtain ⟨hordered, hi, hstop, -⟩ := hp.selecting hC hq
  refine ⟨fun a ha hfd hwrite => ?_, (mainEventHandler_handled aes hordered hi hstop).2⟩
  obtain ⟨k, hk, rfl⟩ := List.getElem_of_mem ha
  refine Nat.pos_of_ne_zero (hi ⟨k, ?_, ?_⟩)
  · rw [slot, List.getD_eq_getElem _ _ hk, hfd]
  · rw [slot, List.getD_eq_getElem _ _ hk, hwrite]

/-- **Write interest implies pending bytes** in every step of a run whose steps meet `WriteCond`. -/
theorem pending_of_writeCond (aes : Block → Block) {p₀ : Player} (h₀ : Entered p₀) {is : List Input}
    (hC : AllSteps (step aes) WriteCond p₀ is) : AllSteps (step aes) Pending p₀ is :=
  AllSteps.of_inv (fun _ _ _ => loopInv_step aes) (fun _ _ hp hi => hp.pending aes hi)
    (loopInv_entered h₀) hC

/-! ### Two runs -/

/-- A player with a song open. -/
def playing : Player where
  session := { raopcl := { iv := fun _ => 0, nv := fun _ => 0, sfd := 5 }, fds := consoleTable }
  auds := some 7

theorem entered_playing : Entered playing := ⟨rfl, rfl, rfl, by decide⟩

/-- A sample is sent, and the console says `stop` before all of it is written. -/
def stopped : List Input :=
  [{ pollAgain := .pollin, sample := .ok [1, 2, 3] },
    { events := { console := some { line := ['s', 't', 'o', 'p'] }, written := some 10 } },
    { events := { written := some 9 } }]

theorem stopCond_noPause {p : Player} (h : p.raopcl.pause = .noPause) (e : Events) : StopCond p e :=
  fun _ _ _ hpause => absurd h hpause

theorem pending_stopped : AllSteps (step id) Pending playing stopped := by
  refine pending_of_writeCond id entered_playing ?_
  have h₁ : step id playing stopped[0] = some ((run (step id) playing (stopped.take 1)).getD playing) := rfl
  have h₂ : step id ((run (step id) playing (stopped.take 1)).getD playing) stopped[1] =
      some ((run (step id) playing (stopped.take 2)).getD playing) := rfl
  have hcond : ∀ {p : Player} {i : Input}, p.raopcl.pause = .noPause →
      i.alloc = true → WriteCond p i :=
    fun hpause halloc => ⟨fun _ _ => stopCond_noPause hpause _, fun _ _ _ => .inl halloc⟩
  refine allSteps_cons (hcond rfl rfl) h₁ (allSteps_cons (hcond rfl rfl) h₂ ?_)
  exact ⟨hcond rfl rfl, fun _ _ => trivial⟩

/-- The source has no data, and the console says `stop` in the pause. -/
def stoppedInPause : List Input :=
  [{}, { events := { console := some { line := ['s', 't', 'o', 'p'] } } }]

/-- The next `select` has a write flag and no bytes, and the player ends when the socket is writable. -/
theorem pending_stopped_in_pause : Entered playing ∧ ∃ p, run (step id) playing stoppedInPause = some p ∧
    ¬ Pending p {} ∧ ∃ p', step id p { events := { written := some 1 } } = some p' ∧ p'.pc = .done := by
  refine ⟨entered_playing, _, rfl, fun h => ?_, _, rfl, by decide⟩
  have hpos := (h _ rfl).1 ⟨5, some (), some .fdEventCallback, true, true⟩ (by decide) (by decide) rfl
  revert hpos
  decide

end Waveplay.RaopPlay.WriteInterest
