import Waveplay.Lib.Runs
import Waveplay.RaopPlay.RtspClient

/-! # Requests and responses on one connection

`exec_request` reads the response to its request from the connection. What it leaves unread is read by
the next call, which then takes some other line for its status line. It leaves the headers of a response
that is not a `200`, the body in TCP mode, what follows an empty line of the body in UDP mode, the end of
a line that fills the buffer, and everything that comes too late.

`SyncCond` excludes these; then every call tests the status line of the response to its own request
(`tested_status_lines`). -/

namespace Waveplay.RaopPlay.RtspSession

open Waveplay.Lib.Runs Waveplay.RaopPlay.AexclLib Waveplay.RaopPlay.RtspClient

/-! ### The model -/

/-- A response: a status line with any code, headers, and a body with its length in a header. -/
structure Response where
  status : Bytes
  headers : List (Bytes × Bytes)
  body : Bytes := []
  statusPlain : Plain status
  code : (statusCode status).isSome
  headersOk : ∀ h ∈ headers, HeaderOk h
  length : body ≠ [] → ∃ h ∈ headers, h.1 = ascii "Content-Length" ∧
    h.2.dropWhile (· = SP) = ascii (toString body.length)

def Response.text (x : Response) : Bytes := responseText x.status x.headers ++ x.body

/-- A call of `exec_request`, and the response to it. The session and the extra headers are those at the
time of the call; `ownTable` is set for `SETUP`, with a table that is `NULL` at first. -/
structure Exchange where
  request : Request
  wantsResponse : request.getResponse = 1 ∨ request.getResponse = 2
  session : Option Bytes := none
  exthds : ExtraHeaders.ExtHds := {}
  ownTable : Bool := false
  response : Response
  arriving : List (ℕ × UInt8)
  bytes : arriving.map Prod.snd = response.text
  memory : Memory

/-- The connection, with the lines that were taken for status lines so far. -/
structure Session where
  client : Rtspcl
  kd : Option (List KeyData) := none
  sock : Socket := ⟨[], .idle⟩
  tested : List (Option Bytes) := []
  crashed : Bool := false

/-- The table of a call. -/
def table (s : Session) (x : Exchange) : Option (List KeyData) := if x.ownTable then none else s.kd

/-- The response comes in after what is still unread. -/
def step (s : Session) (x : Exchange) : Option Session :=
  if s.crashed then none
  else
    let client := { s.client with session := x.session, exthds := x.exthds }
    let sock := { s.sock with arriving := s.sock.arriving ++ x.arriving }
    let out := execRequest client x.request (table s x) sock x.memory
    some
      { client := out.client
        kd := if x.ownTable then s.kd else out.kd
        sock := out.sock
        tested := s.tested ++ [out.tested]
        crashed := out.outcome = .crash }

/-! ### Bodies -/

/-- A body that is read to its end: lines that are neither empty nor too long, and perhaps a last one
without an end. -/
def CleanBody (body : Bytes) : Prop :=
  ∃ (lines : List Bytes) (last : Bytes), body = lines.flatMap (· ++ [LF]) ++ last ∧
    (∀ l ∈ lines, LF ∉ l ∧ stored l ≠ [] ∧ l.length < 2047) ∧ LF ∉ last ∧ last.length < 2047

/-- The body loop takes one line after the other, and ends when no more comes. -/
theorem readBody_lines {timeout : ℕ} {last : Bytes} (hlast : LF ∉ last) (hlen : last.length < 2047) :
    ∀ {lines : List Bytes} {fuel : ℕ} {arr : List (ℕ × UInt8)},
    (∀ l ∈ lines, LF ∉ l ∧ stored l ≠ [] ∧ l.length < 2047) →
    Prompt timeout arr (lines.flatMap (· ++ [LF]) ++ last) → lines.length < fuel →
    readBody timeout fuel ⟨arr, .idle⟩ = ⟨[], .idle⟩
  | [], fuel, arr, _, hp, hf => by
    obtain ⟨fuel, rfl⟩ : ∃ k, fuel = k + 1 := ⟨fuel - 1, by simp at hf; omega⟩
    simp only [readBody, readLine_idle hlast hp (show _ < 2048 by omega)]
    rfl
  | l :: lines, fuel, arr, hall, hp, hf => by
    rw [List.length_cons] at hf
    obtain ⟨fuel, rfl⟩ : ∃ k, fuel = k + 1 := ⟨fuel - 1, by omega⟩
    obtain ⟨hlf, hne, hl⟩ := hall l List.mem_cons_self
    rw [List.flatMap_cons, List.append_assoc] at hp
    obtain ⟨a, a', rfl, ha, ha'⟩ := prompt_append hp
    have hst := length_stored_le l
    have hpos := List.length_pos_iff.mpr hne
    simp only [readBody, readLine_lf hlf ha (show _ < 2048 by omega) (by omega)]
    rw [if_neg (by omega)]
    exact readBody_lines hlast hlen (fun x hx => hall x (List.mem_cons_of_mem l hx)) ha' (by omega)

theorem readBody_clean {body : Bytes} {timeout : ℕ} {arr : List (ℕ × UInt8)} (h : CleanBody body)
    (hp : Prompt timeout arr body) :
    readBody timeout (arr.length + 1) ⟨arr, .idle⟩ = ⟨[], .idle⟩ := by
  obtain ⟨lines, last, rfl, hlines, hlast, hlen⟩ := h
  refine readBody_lines hlast hlen hlines hp ?_
  have hmap := congrArg List.length hp.1
  rw [List.length_map, List.length_append] at hmap
  have hle : lines.length ≤ (lines.flatMap (· ++ [LF])).length :=
    length_le_flatMap fun l _ => by rw [List.length_append]; exact Nat.le_add_left ..
  omega

/-! ### The table -/

theorem addHeader_isSome (m : Memory) {s : ℕ × Option (List KeyData)} (h : Bytes × Bytes)
    (hs : s.1 = 0 ∨ s.2.isSome) : (addHeader m s h).2.isSome := by
  rw [addHeader, Option.isSome_map]
  split_ifs with h16
  · rfl
  · exact hs.resolve_left fun h0 => h16 (by rw [h0])

theorem foldl_isSome (m : Memory) : ∀ {hs : List (Bytes × Bytes)} {s : ℕ × Option (List KeyData)},
    s.2.isSome → (hs.foldl (addHeader m) s).2.isSome
  | [], _, h => h
  | h :: hs, s, hsome => by
    rw [List.foldl_cons]
    exact foldl_isSome m (addHeader_isSome m h (.inr hsome))

theorem exists_table (m : Memory) {hs : List (Bytes × Bytes)} {kd : Option (List KeyData)}
    (h : hs = [] → kd ≠ none) : ∃ t, (hs.foldl (addHeader m) (0, kd)).2 = some t := by
  refine Option.isSome_iff_exists.mp ?_
  cases hs with
  | nil => exact Option.isSome_iff_ne_none.mpr (h rfl)
  | cons h' hs =>
    rw [List.foldl_cons]
    exact foldl_isSome m (addHeader_isSome m h' (.inl rfl))

/-! ### Synchronisation -/

/-- When a call reads the whole response: a `200` that comes without long pauses, in lines that do not
fill the buffer, with a header or a table from before, without a body in TCP mode and with a clean one in
UDP mode. -/
structure SyncCond (s : Session) (x : Exchange) : Prop where
  success : statusCode x.response.status = some (ascii "200")
  inTime : ∃ a b, x.arriving = a ++ b ∧ InTime a x.response.status x.response.headers ∧
    Prompt 1000 b x.response.body
  short : ∀ l ∈ x.response.status :: x.response.headers.map headerLine, l.length < 2047
  table : x.response.headers = [] → table s x ≠ none
  body : if s.client.udp then CleanBody x.response.body else x.response.body = []

/-- Nothing is unread, and the lines tested were the status lines. -/
structure InSync (s : Session) (statuses : List Bytes) : Prop where
  unread : s.sock = ⟨[], .idle⟩
  running : s.crashed = false
  tested : s.tested = statuses.map some

theorem SyncCond.okResponse {s : Session} {x : Exchange} (hC : SyncCond s x) :
    OkResponse x.response.status x.response.headers :=
  ⟨x.response.statusPlain, hC.success, x.response.headersOk,
    fun l hl => Nat.lt_trans (hC.short l hl) (by omega)⟩

/-- What is left after the header loop is read in UDP mode, and not there in TCP mode. -/
theorem finish_clean {udp : Bool} {body : Bytes} {arr : List (ℕ × UInt8)} {timeout i : ℕ}
    (hbody : if udp then CleanBody body else body = []) (hp : Prompt 1000 arr body)
    (ht : 1000 ≤ timeout) (t : List KeyData) :
    (finish udp ⟨i, some t, timeout, ⟨arr, .idle⟩⟩).1 = .ret 0 ∧
      (finish udp ⟨i, some t, timeout, ⟨arr, .idle⟩⟩).2.2 = ⟨[], .idle⟩ := by
  refine ⟨rfl, ?_⟩
  cases udp with
  | true => exact readBody_clean hbody (hp.mono ht)
  | false =>
    obtain rfl : body = [] := hbody
    obtain rfl : arr = [] := by simpa using hp.1
    rfl

/-- **One call** reads its response to the end. -/
theorem inSync_step {s : Session} {x : Exchange} {statuses : List Bytes} (h : InSync s statuses)
    (hC : SyncCond s x) :
    ∃ s', step s x = some s' ∧ InSync s' (statuses ++ [x.response.status]) := by
  obtain ⟨hunread, hrun, htested⟩ := h
  obtain ⟨a, b, hab, ha, hb⟩ := hC.inTime
  have hq : x.request.getResponse ≠ 0 := by
    rcases x.wantsResponse with hq | hq <;> omega
  have hself := seenAfter_eq_self_iff.mpr fun l hl => hC.short l (List.dropLast_subset _ hl)
  obtain ⟨timeout, sock, ht, hsock, hx⟩ := execRequest_ok hq hC.okResponse ha
    { s.client with session := x.session, exthds := x.exthds } x.memory (table s x) b .idle
  obtain ⟨t, hkd⟩ := exists_table x.memory hC.table
  rw [hself, hsock hC.short] at hx
  simp only [hkd] at hx
  obtain ⟨hret, hempty⟩ := finish_clean hC.body hb ht t
  refine ⟨_, by rw [step, if_neg (by simp [hrun])], ?_⟩
  rw [hunread]
  simp only [List.nil_append, hab, hx]
  exact ⟨hempty, by simp [hret], by rw [htested, List.map_append]; rfl⟩

/-- **The status lines.** -/
theorem tested_status_lines {client : Rtspcl} {xs : List Exchange}
    (hC : AllSteps step SyncCond { client } xs) :
    ∃ s, run step { client } xs = some s ∧ s.crashed = false ∧ s.sock.arriving = [] ∧
      s.tested = xs.map fun x => some x.response.status := by
  have h₀ : InSync { client } [] := ⟨rfl, rfl, rfl⟩
  obtain ⟨s, hs, hunread, hrun, htested⟩ :=
    run_refines_total (f := fun statuses x => statuses ++ [x.response.status])
      (fun _ _ _ => inSync_step) h₀ hC
  refine ⟨s, hs, hrun, by rw [hunread], ?_⟩
  rw [htested, List.foldl_append_eq_append, List.nil_append, ← List.flatMap_def, ← List.map_eq_flatMap,
    List.map_map]
  rfl

/-- Bytes that come at once. -/
def now (bs : Bytes) : List (ℕ × UInt8) := bs.map fun ch => (0, ch)

def ok : Response :=
  { status := ascii "RTSP/1.0 200 OK"
    headers := [(ascii "Content-Length", ascii " 4")]
    body := ascii "a\r\nb"
    statusPlain := by decide +kernel
    code := by decide +kernel
    headersOk := by decide +kernel
    length := by decide +kernel }

def notFound : Response :=
  { status := ascii "RTSP/1.0 404 Not Found"
    headers := [(ascii "Server", ascii " x")]
    statusPlain := by decide +kernel
    code := by decide +kernel
    headersOk := by decide +kernel
    length := by decide +kernel }

/-- A request with the response `x`. -/
def exchange (x : Response) : Exchange :=
  { request := { cmd := ascii "OPTIONS", url := some (ascii "*") }
    wantsResponse := .inl rfl
    response := x
    arriving := now x.text
    bytes := by rw [now, List.map_map]; exact List.map_id _
    memory := ⟨fun _ _ => ⟨none, none⟩, fun _ => []⟩ }

/-- A connection in UDP mode. -/
def client : Rtspcl := { url := ascii "rtsp://10.0.0.2/1", useragent := ascii "RTSPClient", udp := true }

theorem syncCond_ok {s : Session} (hudp : s.client.udp = true) : SyncCond s (exchange ok) where
  success := by decide +kernel
  inTime := ⟨now (responseText ok.status ok.headers), now ok.body, List.map_append,
    inTime_of_prompt (by decide +kernel), by decide +kernel⟩
  short := by decide +kernel
  table := fun h => absurd h (by decide +kernel)
  body := by
    rw [hudp, if_pos rfl]
    exact ⟨[ascii "a\r"], ascii "b", by decide +kernel⟩

theorem tested_status_lines_ok :
    ∃ s, run step { client } [exchange ok, exchange ok] = some s ∧ s.crashed = false ∧
      s.sock.arriving = [] ∧ s.tested = [some ok.status, some ok.status] := by
  have h₁ : ∃ s, step { client } (exchange ok) = some s ∧ s.client.udp = true := ⟨_, rfl, rfl⟩
  obtain ⟨s, hs, hudp⟩ := h₁
  exact tested_status_lines (allSteps_cons (syncCond_ok rfl) hs ⟨syncCond_ok hudp, fun _ _ => trivial⟩)

/-- After a response that is not a `200` its header is taken for the next status line. -/
theorem tested_header :
    ∃ s, run step { client } [exchange notFound, exchange ok] = some s ∧
      s.tested = [some notFound.status, some (ascii "Server: x")] :=
  ⟨_, rfl, by decide +kernel⟩

end Waveplay.RaopPlay.RtspSession
