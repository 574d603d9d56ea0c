import Waveplay.RaopPlay.ExtraHeaders

/-! # `exec_request` of `rtsp_client.c`

A request is written to the connection, and its response read line by line: the status line, the header
lines into the table `*kd`, and in UDP mode what follows up to an empty line. The buffers of the request
are taken to be large enough, and memory to be there. A block of memory has unspecified contents, so a
new table has the entries `Memory.fresh`, except for the seventeen that are cleared. -/

namespace Waveplay.RaopPlay.RtspClient

open Waveplay.RaopPlay.AexclLib Waveplay.RaopPlay.ExtraHeaders

/-! ### The request -/

/-- `rtspcl_data_t`, without `kd`. -/
structure Rtspcl where
  url : Bytes
  useragent : Bytes
  udp : Bool
  cseq : ℤ := 0
  session : Option Bytes := none
  exthds : ExtHds := {}

/-- The arguments of `exec_request`. -/
structure Request where
  cmd : Bytes
  contentType : Option Bytes := none
  content : Option Bytes := none
  length : ℕ := 0
  getResponse : ℕ := 1
  hds : List (Bytes × Bytes) := []
  url : Option Bytes := none

def crlf : Bytes := [CR, LF]

/-- A header of the request. -/
def field (key data : Bytes) : Bytes := key ++ ascii ": " ++ data ++ crlf

/-- The content of a request: its type, the length in the header, and the bytes. Without a length it is a
string, and ends at a zero. -/
def sentContent (q : Request) : Option (Bytes × ℕ × Bytes) :=
  match q.contentType, q.content with
  | some type, some content =>
    some (type, if q.length = 0 then ((cstr content).length, cstr content)
      else (q.length, content.take q.length))
  | _, _ => none

/-- The text written for a request, where `cseq` is the number of the request. -/
def requestText (r : Rtspcl) (q : Request) (cseq : ℤ) : Bytes :=
  let url := if r.udp then q.url.getD r.url else r.url
  let number := field (ascii "CSeq") (ascii (toString cseq))
  let session := (r.session.map (field (ascii "Session"))).getD []
  let contentHeaders := (sentContent q).map fun c =>
    field (ascii "Content-Type") c.1 ++ field (ascii "Content-Length") (ascii (toString c.2.1))
  q.cmd ++ ascii " " ++ url ++ ascii " RTSP/1.0" ++ crlf ++
    (if r.udp then [] else number) ++ session ++ q.hds.flatMap (fun h => field h.1 h.2) ++
    contentHeaders.getD [] ++
    (if r.udp then number else []) ++ field (ascii "User-Agent") r.useragent ++
    r.exthds.emitted.flatMap (fun h => field h.1 (h.2.getD (ascii "(null)"))) ++
    (if r.udp then session else []) ++ crlf ++ ((sentContent q).map (·.2.2)).getD []

/-! ### The response -/

def SP : UInt8 := 32
def COLON : UInt8 := 58

/-- `strtok` at spaces: the next token, and the rest. -/
def strtok (line : Bytes) : Option (Bytes × Bytes) :=
  let line := line.dropWhile (· = SP)
  if line = [] then none else some (line.takeWhile (· ≠ SP), line.dropWhile (· ≠ SP))

/-- The second token of a status line. -/
def statusCode (line : Bytes) : Option Bytes :=
  ((strtok line).bind fun t => strtok t.2).map Prod.fst

/-- A header line, cut at its first colon. -/
def splitHeader (line : Bytes) : Option (Bytes × Bytes) :=
  if COLON ∈ line then some (line.takeWhile (· ≠ COLON), (line.dropWhile (· ≠ COLON)).tail) else none

/-- What new blocks of memory hold: the entries of a table made at header `i`, and the string in the
block for a continued header. -/
structure Memory where
  fresh : ℕ → ℕ → KeyData
  string : ℕ → Bytes

/-- The table made at header `i`, with the entries from `16 * (i / 16)` on cleared. -/
def newTable (m : Memory) (i : ℕ) : List KeyData :=
  (List.range (reallocSize ((16 * (i / 16 + 1) + 1) * sizeofKeyData) / sizeofKeyData)).map fun j =>
    if 16 * (i / 16) ≤ j ∧ j < 16 * (i / 16) + 17 then ⟨none, none⟩ else m.fresh i j

/-- The variables of the header loop. -/
structure Headers where
  i : ℕ
  kd : Option (List KeyData)
  timeout : ℕ
  sock : Socket

/-- What the loop does with a line; `none` for a bad header. -/
def Headers.add (m : Memory) (h : Headers) (line : Bytes) (sock : Socket) : Option Headers :=
  let kd := if h.i % 16 = 0 then some (newTable m h.i) else h.kd
  if h.i ≠ 0 ∧ line.head? = some SP then
    let data := m.string h.i ++ line.dropWhile (· = SP)
    some { h with
      kd := kd.map fun t => t.set h.i ⟨(t.getD h.i ⟨none, none⟩).key, some data⟩
      timeout := 1000
      sock }
  else
    (splitHeader line).map fun (name, value) =>
      { i := h.i + 1
        kd := kd.map fun t => t.set h.i ⟨some name, some value⟩
        timeout := 1000
        sock }

/-- How the header loop ends: at a line that `read_line` does not return, or at a bad header. -/
inductive HeadersEnd
  | ended (h : Headers)
  | bad (sock : Socket)

/-- The header loop. Every turn takes a byte of the socket. -/
def readHeaders (m : Memory) : ℕ → Headers → HeadersEnd
  | 0, h => .ended h
  | fuel + 1, h =>
    let l := readLine h.sock 2048 h.timeout
    if l.rval ≤ 0 then .ended { h with sock := l.sock }
    else
      match h.add m l.line l.sock with
      | none => .bad l.sock
      | some h => readHeaders m fuel h

/-- The loop that reads a body, in UDP mode. -/
def readBody (timeout : ℕ) : ℕ → Socket → Socket
  | 0, s => s
  | fuel + 1, s =>
    let l := readLine s 2048 timeout
    if l.rval ≤ 0 then l.sock else readBody timeout fuel l.sock

/-- `exec_request` returns, or writes through `NULL`. -/
inductive Outcome
  | ret (rval : ℤ)
  | crash
  deriving DecidableEq, Repr

/-- What a call does: the text it writes, how it ends, `*kd` and the socket then, and the line it took
for the status line. -/
structure Executed where
  sent : Bytes
  client : Rtspcl
  outcome : Outcome
  kd : Option (List KeyData)
  sock : Socket
  tested : Option Bytes

/-- The end of `exec_request`, after the header loop. -/
def finish (udp : Bool) (h : Headers) : Outcome × Option (List KeyData) × Socket :=
  let sock := if udp then readBody h.timeout (h.sock.arriving.length + 1) h.sock else h.sock
  match h.kd with
  | none => (.crash, none, sock)
  | some t => (.ret 0, some (t.set h.i ⟨none, (t.getD h.i ⟨none, none⟩).data⟩), sock)

/-- **`exec_request`**, where `sock` has what comes after the request was written. -/
def execRequest (r : Rtspcl) (q : Request) (kd : Option (List KeyData)) (sock : Socket) (m : Memory) :
    Executed :=
  let client := { r with cseq := r.cseq + 1 }
  let sent := requestText r q (r.cseq + 1)
  let failed : Outcome := .ret (if q.getResponse = 1 then -1 else 0)
  if q.getResponse = 0 then ⟨sent, client, .ret 0, kd, sock, none⟩
  else
    let l := readLine sock 2048 5000
    if l.rval ≤ 0 then ⟨sent, client, failed, kd, l.sock, none⟩
    else if statusCode l.line ≠ some (ascii "200") then
      ⟨sent, client, failed, kd, l.sock, some l.line⟩
    else
      match readHeaders m (l.sock.arriving.length + 1) ⟨0, kd, 5000, l.sock⟩ with
      | .bad sock => ⟨sent, client, .ret (-1), none, sock, some l.line⟩
      | .ended h =>
        let out := finish r.udp h
        ⟨sent, client, out.1, out.2.1, out.2.2, some l.line⟩

/-! ### Responses -/

theorem statusCode_pos {status code : Bytes} (h : statusCode status = some code) : 0 < status.length := by
  refine List.length_pos_iff.mpr fun hnil => ?_
  rw [hnil] at h
  cases h

/-- The line of a header. -/
def headerLine (h : Bytes × Bytes) : Bytes := h.1 ++ COLON :: h.2

/-- A header with its name and value on one line. -/
structure HeaderOk (h : Bytes × Bytes) : Prop where
  name : Plain h.1
  value : Plain h.2
  colon : COLON ∉ h.1
  unfolded : h.1.head? ≠ some SP

instance (h : Bytes × Bytes) : Decidable (HeaderOk h) :=
  decidable_of_iff (Plain h.1 ∧ Plain h.2 ∧ COLON ∉ h.1 ∧ h.1.head? ≠ some SP)
    ⟨fun ⟨h₁, h₂, h₃, h₄⟩ => ⟨h₁, h₂, h₃, h₄⟩, fun ⟨h₁, h₂, h₃, h₄⟩ => ⟨h₁, h₂, h₃, h₄⟩⟩

theorem HeaderOk.plain {h : Bytes × Bytes} (hh : HeaderOk h) : Plain (headerLine h) := by
  intro ch hch
  rcases List.mem_append.mp hch with hch | hch
  · exact hh.name ch hch
  · rcases List.mem_cons.mp hch with rfl | hch
    · decide
    · exact hh.value ch hch

theorem HeaderOk.splitHeader {h : Bytes × Bytes} (hh : HeaderOk h) :
    splitHeader (headerLine h) = some h := by
  have hall : ∀ ch ∈ h.1, decide (ch ≠ COLON) = true := by
    intro ch hch
    simp only [decide_eq_true_eq]
    exact fun heq => hh.colon (heq ▸ hch)
  have hmem : COLON ∈ headerLine h := List.mem_append_right _ List.mem_cons_self
  rw [RtspClient.splitHeader, if_pos hmem, headerLine, List.takeWhile_append_of_pos hall,
    List.dropWhile_append_of_pos hall]
  simp

theorem HeaderOk.head {h : Bytes × Bytes} (hh : HeaderOk h) : (headerLine h).head? ≠ some SP := by
  obtain ⟨name, value⟩ := h
  cases name with
  | nil => simp [headerLine, COLON, SP]
  | cons ch name => simpa [headerLine] using hh.unfolded

theorem headerLine_pos (h : Bytes × Bytes) : 0 < (headerLine h).length := by
  rw [headerLine, List.length_append, List.length_cons]
  omega

/-! ### The header loop -/

/-- What a line does to the index and the table, `none` for a bad header. -/
def addLine (m : Memory) (s : ℕ × Option (List KeyData)) (line : Bytes) :
    Option (ℕ × Option (List KeyData)) :=
  (Headers.add m ⟨s.1, s.2, 0, { arriving := [] }⟩ line { arriving := [] }).map fun h => (h.i, h.kd)

theorem add_eq_addLine (m : Memory) (i timeout : ℕ) (kd : Option (List KeyData)) (line : Bytes)
    (s s' : Socket) : Headers.add m ⟨i, kd, timeout, s⟩ line s' =
      (addLine m (i, kd) line).map fun t => ⟨t.1, t.2, 1000, s'⟩ := by
  unfold addLine Headers.add
  dsimp only
  split_ifs
  · rfl
  · rfl
  · cases splitHeader line <;> rfl
  · cases splitHeader line <;> rfl

/-- The lines the loop gets to see: one that fills the buffer is the last. -/
def seenLines : List Bytes → List Bytes
  | [] => []
  | l :: ls => if l.length < 2047 then l :: seenLines ls else [l]

theorem readHeaders_crlf {arr : List (ℕ × UInt8)} {timeout : ℕ} (h : Prompt timeout arr crlf)
    (m : Memory) (fuel i : ℕ) (kd : Option (List KeyData)) (rest : List (ℕ × UInt8)) (e : End) :
    readHeaders m (fuel + 1) ⟨i, kd, timeout, ⟨arr ++ rest, e⟩⟩ =
      .ended ⟨i, kd, timeout, ⟨rest, e⟩⟩ := by
  rw [readHeaders, readLine_line (l := []) (by simp [Plain]) h (by simp)]
  rfl

theorem readHeaders_line {l : Bytes} (hpos : 0 < l.length) {m : Memory} {i : ℕ}
    {kd : Option (List KeyData)} {t : ℕ × Option (List KeyData)} (hadd : addLine m (i, kd) l = some t)
    {fuel timeout : ℕ} {s s' : Socket} (hl : readLine s 2048 timeout = ⟨l.length, l, s'⟩) :
    readHeaders m (fuel + 1) ⟨i, kd, timeout, s⟩ = readHeaders m fuel ⟨t.1, t.2, 1000, s'⟩ := by
  simp only [readHeaders, hl]
  rw [if_neg (by omega), add_eq_addLine, hadd]
  rfl

/-- A line that fills the buffer ends the loop, whenever its end comes. -/
theorem readHeaders_full {l : Bytes} (hplain : Plain l) (hlen : l.length = 2047) {m : Memory} {i : ℕ}
    {kd : Option (List KeyData)} {t : ℕ × Option (List KeyData)} (hadd : addLine m (i, kd) l = some t)
    {timeout : ℕ} {arr : List (ℕ × UInt8)} (hp : Prompt timeout arr (l ++ crlf)) (fuel : ℕ)
    (rest : List (ℕ × UInt8)) (e : End) :
    ∃ sock, readHeaders m (fuel + 2) ⟨i, kd, timeout, ⟨arr ++ rest, e⟩⟩ =
      .ended ⟨t.1, t.2, 1000, sock⟩ := by
  obtain ⟨b, b', rfl, hb, hb'⟩ := prompt_append hp
  have hl := readLine_full hplain hb (show _ = 2048 by omega) (by omega) (b' ++ rest) e
  have hend : (readLine ⟨b' ++ rest, e⟩ 2048 1000).rval = 0 := readLine_crlf_rval hb'.1 rest e
  refine ⟨(readLine ⟨b' ++ rest, e⟩ 2048 1000).sock, ?_⟩
  rw [List.append_assoc, readHeaders_line (by omega) hadd hl, readHeaders]
  simp only [hend, Int.le_refl, if_true]

/-- The text of lines, with the empty one. -/
def linesText (ls : List Bytes) : Bytes := ls.flatMap (· ++ crlf) ++ crlf

/-- The lines come within the timeouts of the loop: that of the first line, then a second. -/
def Timely (timeout : ℕ) (arr : List (ℕ × UInt8)) (ls : List Bytes) : Prop :=
  ∃ a b, arr = a ++ b ∧ Prompt timeout a (ls.head?.getD [] ++ crlf) ∧
    Prompt 1000 b (if ls = [] then [] else linesText ls.tail)

theorem linesText_cons (l : Bytes) (ls : List Bytes) : linesText (l :: ls) = l ++ crlf ++ linesText ls := by
  rw [linesText, linesText, List.flatMap_cons, List.append_assoc]

theorem timely_of_prompt {timeout : ℕ} (ht : 1000 ≤ timeout) {arr : List (ℕ × UInt8)} {ls : List Bytes}
    (h : Prompt 1000 arr (linesText ls)) : Timely timeout arr ls := by
  cases ls with
  | nil => exact ⟨arr, [], (List.append_nil _).symm, h.mono ht, rfl, by simp⟩
  | cons l ls =>
    rw [linesText_cons] at h
    obtain ⟨a, b, rfl, ha, hb⟩ := prompt_append h
    exact ⟨a, b, rfl, ha.mono ht, hb⟩

theorem Timely.length_le {timeout : ℕ} {arr : List (ℕ × UInt8)} {ls : List Bytes}
    (h : Timely timeout arr ls) : ls.length ≤ arr.length := by
  obtain ⟨a, b, rfl, ha, hb⟩ := h
  cases ls with
  | nil => exact Nat.zero_le _
  | cons l ls =>
    have hlater : ls.length ≤ (ls.flatMap fun l => l ++ crlf).length :=
      length_le_flatMap fun l _ => by rw [List.length_append]; exact Nat.le_add_left ..
    have hfirst : (a.map Prod.snd).length = (l ++ crlf).length := congrArg List.length ha.1
    have hrest : (b.map Prod.snd).length = (linesText ls).length := congrArg List.length hb.1
    rw [List.length_map, List.length_append] at hfirst
    rw [List.length_map, linesText, List.length_append] at hrest
    have hcrlf : crlf.length = 2 := rfl
    rw [List.length_append, List.length_cons]
    omega

/-- A line of text that fits the buffer. -/
structure LineOk (l : Bytes) : Prop where
  plain : Plain l
  pos : 0 < l.length
  fits : l.length ≤ 2047

/-- **The header loop** adds the lines it sees; if they are short these are all of them, and it stops
after the empty line. -/
theorem readHeaders_eq (m : Memory) (rest : List (ℕ × UInt8)) (e : End) :
    ∀ {ls : List Bytes} {arr : List (ℕ × UInt8)} {fuel timeout i : ℕ} {kd : Option (List KeyData)}
      {t : ℕ × Option (List KeyData)}, (∀ l ∈ ls, LineOk l) → Timely timeout arr ls → 1000 ≤ timeout →
    ls.length < fuel → (seenLines ls).foldlM (addLine m) (i, kd) = some t →
    ∃ timeout' sock', readHeaders m fuel ⟨i, kd, timeout, ⟨arr ++ rest, e⟩⟩ =
        .ended ⟨t.1, t.2, timeout', sock'⟩ ∧ 1000 ≤ timeout' ∧
      ((∀ l ∈ ls, l.length < 2047) → sock' = ⟨rest, e⟩)
  | [], arr, fuel, timeout, i, kd, t, _, hp, ht, hf, hfold => by
    obtain ⟨fuel, rfl⟩ : ∃ k, fuel = k + 1 := ⟨fuel - 1, by simp at hf; omega⟩
    obtain ⟨a, b, rfl, ha, hb⟩ := hp
    obtain rfl : b = [] := List.map_eq_nil_iff.mp hb.1
    obtain rfl : (i, kd) = t := Option.some.inj hfold
    rw [List.append_nil]
    exact ⟨timeout, ⟨rest, e⟩, readHeaders_crlf ha .., ht, fun _ => rfl⟩
  | l :: ls, arr, fuel, timeout, i, kd, t, hall, hp, ht, hf, hfold => by
    rw [List.length_cons] at hf
    obtain ⟨fuel, rfl⟩ : ∃ k, fuel = k + 2 := ⟨fuel - 2, by omega⟩
    obtain ⟨hplain, hpos, hlen⟩ := hall l List.mem_cons_self
    obtain ⟨a, b, rfl, ha, hb⟩ := hp
    rw [List.head?_cons, Option.getD_some] at ha
    rw [if_neg (List.cons_ne_nil l ls), List.tail_cons] at hb
    rw [seenLines] at hfold
    rw [List.append_assoc]
    split_ifs at hfold with hshort
    · rw [List.foldlM_cons, Option.bind_eq_bind, Option.bind_eq_some_iff] at hfold
      obtain ⟨s, hadd, hfold⟩ := hfold
      have hl := readLine_line hplain ha (show _ ≤ 2048 by omega) (b ++ rest) e
      obtain ⟨t', s', hr, ht', hs'⟩ := readHeaders_eq m rest e
        (fun x hx => hall x (List.mem_cons_of_mem l hx)) (timely_of_prompt (Nat.le_refl 1000) hb)
        (Nat.le_refl 1000) (show ls.length < fuel + 1 by omega) hfold
      refine ⟨t', s', ?_, ht', fun hshort => hs' fun x hx => hshort x (List.mem_cons_of_mem l hx)⟩
      rw [readHeaders_line hpos hadd hl]
      exact hr
    · obtain ⟨s, hadd, hfold⟩ := Option.bind_eq_some_iff.mp hfold
      obtain rfl : s = t := Option.some.inj hfold
      obtain ⟨sock, hr⟩ := readHeaders_full hplain (by omega) hadd ha fuel (b ++ rest) e
      exact ⟨1000, sock, hr, Nat.le_refl 1000, fun hall => absurd (hall l List.mem_cons_self) hshort⟩

/-- **`exec_request` on a `200` response**, line by line. -/
theorem execRequest_lines {status : Bytes} {ls : List Bytes} {a b : List (ℕ × UInt8)} {q : Request}
    (hq : q.getResponse ≠ 0) (hstatus : LineOk status) (hcode : statusCode status = some (ascii "200"))
    (hls : ∀ l ∈ ls, LineOk l) (ha : Prompt 5000 a (status ++ crlf)) (hb : Timely 5000 b ls)
    (r : Rtspcl) {m : Memory} {kd : Option (List KeyData)} {t : ℕ × Option (List KeyData)}
    (hfold : (if status.length < 2047 then seenLines ls else []).foldlM (addLine m) (0, kd) = some t)
    (rest : List (ℕ × UInt8)) (e : End) :
    ∃ timeout sock, 1000 ≤ timeout ∧ ((∀ l ∈ status :: ls, l.length < 2047) → sock = ⟨rest, e⟩) ∧
      let out := finish r.udp ⟨t.1, t.2, timeout, sock⟩
      execRequest r q kd ⟨a ++ b ++ rest, e⟩ m = ⟨requestText r q (r.cseq + 1),
        { r with cseq := r.cseq + 1 }, out.1, out.2.1, out.2.2, some status⟩ := by
  obtain ⟨hplain, hpos, hlen⟩ := hstatus
  have hread : ∃ sock timeout' sock',
      readLine ⟨a ++ b ++ rest, e⟩ 2048 5000 = ⟨status.length, status, sock⟩ ∧
      readHeaders m (sock.arriving.length + 1) ⟨0, kd, 5000, sock⟩ =
        .ended ⟨t.1, t.2, timeout', sock'⟩ ∧ 1000 ≤ timeout' ∧
      ((∀ l ∈ status :: ls, l.length < 2047) → sock' = ⟨rest, e⟩) := by
    rw [List.append_assoc]
    split_ifs at hfold with hshort
    · have hl := readLine_line hplain ha (show _ ≤ 2048 by omega) (b ++ rest) e
      have hfuel : ls.length < (b ++ rest).length + 1 := by
        have hle := hb.length_le
        rw [List.length_append]
        omega
      obtain ⟨t', s', hrh, ht', hs'⟩ := readHeaders_eq m rest e hls hb (show 1000 ≤ 5000 by omega)
        hfuel hfold
      exact ⟨_, t', s', hl, hrh, ht', fun hall => hs' fun l hl => hall l (List.mem_cons_of_mem _ hl)⟩
    · -- the end of the status line is taken for the empty line
      obtain rfl : (0, kd) = t := Option.some.inj hfold
      obtain ⟨c, c', rfl, hc, hc'⟩ := prompt_append ha
      have hl := readLine_full hplain hc (show _ = 2048 by omega) (by omega) (c' ++ (b ++ rest)) e
      refine ⟨_, 5000, ⟨b ++ rest, e⟩, by rw [List.append_assoc]; exact hl, readHeaders_crlf hc' ..,
        by omega, fun hall => absurd (hall status List.mem_cons_self) hshort⟩
  obtain ⟨s₁, timeout, s₂, hl, hrh, ht, hs₂⟩ := hread
  refine ⟨timeout, s₂, ht, hs₂, ?_⟩
  simp only [execRequest, hl, hrh]
  rw [if_neg hq, if_neg (by omega), if_neg (not_not.mpr hcode)]

/-! ### Header lines -/

/-- What a header does to the index and the table. -/
def addHeader (m : Memory) (s : ℕ × Option (List KeyData)) (h : Bytes × Bytes) :
    ℕ × Option (List KeyData) :=
  (s.1 + 1, (if s.1 % 16 = 0 then some (newTable m s.1) else s.2).map
    (·.set s.1 ⟨some h.1, some h.2⟩))

theorem addLine_headerLine {h : Bytes × Bytes} (hh : HeaderOk h) (m : Memory)
    (s : ℕ × Option (List KeyData)) : addLine m s (headerLine h) = some (addHeader m s h) := by
  rw [addLine, Headers.add, if_neg (fun hc => hh.head hc.2), hh.splitHeader]
  rfl

theorem foldlM_headerLine (m : Memory) : ∀ {hs : List (Bytes × Bytes)} (s : ℕ × Option (List KeyData)),
    (∀ h ∈ hs, HeaderOk h) → (hs.map headerLine).foldlM (addLine m) s = some (hs.foldl (addHeader m) s)
  | [], _, _ => rfl
  | h :: hs, s, hall => by
    rw [List.map_cons, List.foldlM_cons, addLine_headerLine (hall h List.mem_cons_self), List.foldl_cons]
    exact foldlM_headerLine m _ fun x hx => hall x (List.mem_cons_of_mem h hx)

/-- The headers the loop gets to see: a line that fills the buffer is the last. -/
def seen : List (Bytes × Bytes) → List (Bytes × Bytes)
  | [] => []
  | h :: hs => if (headerLine h).length < 2047 then h :: seen hs else [h]

theorem seen_subset : ∀ hs : List (Bytes × Bytes), seen hs ⊆ hs
  | [] => List.Subset.refl _
  | h :: hs => by
    rw [seen]
    split_ifs
    · exact List.cons_subset_cons h (seen_subset hs)
    · simp

theorem seenLines_headerLine : ∀ hs : List (Bytes × Bytes),
    seenLines (hs.map headerLine) = (seen hs).map headerLine
  | [] => rfl
  | h :: hs => by
    rw [List.map_cons, seenLines, seen, seenLines_headerLine hs]
    split_ifs <;> rfl

theorem seen_eq_self_iff : ∀ {hs : List (Bytes × Bytes)},
    seen hs = hs ↔ ∀ l ∈ (hs.map headerLine).dropLast, l.length < 2047
  | [] => by simp [seen]
  | [h] => by
    rw [seen, seen]
    simp
  | h :: h' :: hs => by
    rw [seen, List.map_cons, List.map_cons, List.dropLast_cons_cons, List.forall_mem_cons,
      ← List.map_cons, ← seen_eq_self_iff]
    split_ifs with hshort
    · simp [hshort]
    · simp [hshort]

/-- The lines from the first header on. -/
def headerLines (hs : List (Bytes × Bytes)) : Bytes := hs.flatMap (fun h => headerLine h ++ crlf) ++ crlf

/-- The first of these lines, and the others. -/
def firstLine : List (Bytes × Bytes) → Bytes
  | [] => crlf
  | h :: _ => headerLine h ++ crlf

def laterLines : List (Bytes × Bytes) → Bytes
  | [] => []
  | _ :: hs => headerLines hs

theorem headerLines_eq (hs : List (Bytes × Bytes)) : headerLines hs = linesText (hs.map headerLine) := by
  rw [headerLines, linesText, List.flatMap_map]

/-- The lines come within the timeouts of the loop: that of the first line, then a second. -/
def LinesInTime (timeout : ℕ) (arr : List (ℕ × UInt8)) (hs : List (Bytes × Bytes)) : Prop :=
  ∃ a b, arr = a ++ b ∧ Prompt timeout a (firstLine hs) ∧ Prompt 1000 b (laterLines hs)

theorem linesInTime_iff {timeout : ℕ} {arr : List (ℕ × UInt8)} {hs : List (Bytes × Bytes)} :
    LinesInTime timeout arr hs ↔ Timely timeout arr (hs.map headerLine) := by
  unfold LinesInTime Timely
  cases hs with
  | nil => rfl
  | cons h hs =>
    rw [laterLines, headerLines_eq, if_neg (by simp)]
    rfl

/-! ### A `200` response -/

/-- A `200` response, in lines shorter than the buffer. -/
structure OkResponse (status : Bytes) (hs : List (Bytes × Bytes)) : Prop where
  plain : Plain status
  code : statusCode status = some (ascii "200")
  headers : ∀ h ∈ hs, HeaderOk h
  fits : ∀ l ∈ status :: hs.map headerLine, l.length < 2048

instance (status : Bytes) (hs : List (Bytes × Bytes)) : Decidable (OkResponse status hs) :=
  decidable_of_iff (Plain status ∧ statusCode status = some (ascii "200") ∧ (∀ h ∈ hs, HeaderOk h) ∧
      ∀ l ∈ status :: hs.map headerLine, l.length < 2048)
    ⟨fun ⟨h₁, h₂, h₃, h₄⟩ => ⟨h₁, h₂, h₃, h₄⟩, fun ⟨h₁, h₂, h₃, h₄⟩ => ⟨h₁, h₂, h₃, h₄⟩⟩

theorem OkResponse.status_pos {status : Bytes} {hs : List (Bytes × Bytes)}
    (hr : OkResponse status hs) : 0 < status.length :=
  statusCode_pos hr.code

theorem OkResponse.header {status : Bytes} {hs : List (Bytes × Bytes)} (hr : OkResponse status hs) :
    ∀ h ∈ hs, HeaderOk h ∧ (headerLine h).length ≤ 2047 := by
  intro h hh
  have hfits := hr.fits _ (List.mem_cons_of_mem _ (List.mem_map_of_mem hh))
  exact ⟨hr.headers h hh, by omega⟩

/-- The headers seen after a status line. -/
def seenAfter (status : Bytes) (hs : List (Bytes × Bytes)) : List (Bytes × Bytes) :=
  if status.length < 2047 then seen hs else []

theorem seenAfter_eq_self_iff {status : Bytes} {hs : List (Bytes × Bytes)} :
    seenAfter status hs = hs ↔
      ∀ l ∈ (status :: hs.map headerLine).dropLast, l.length < 2047 := by
  rw [seenAfter]
  cases hs with
  | nil => simp [seen]
  | cons h hs =>
    rw [List.map_cons, List.dropLast_cons_cons, List.forall_mem_cons, ← List.map_cons,
      ← seen_eq_self_iff]
    split_ifs with hshort
    · simp [hshort]
    · simp [hshort]

/-- The lines of a response, with the empty line at the end. -/
def responseText (status : Bytes) (hs : List (Bytes × Bytes)) : Bytes :=
  status ++ crlf ++ headerLines hs

/-- The response comes within the timeouts: five seconds for a byte up to the end of the first header
line, then a second. -/
def InTime (arr : List (ℕ × UInt8)) (status : Bytes) (hs : List (Bytes × Bytes)) : Prop :=
  ∃ a b, arr = a ++ b ∧ Prompt 5000 a (status ++ crlf) ∧ LinesInTime 5000 b hs

theorem inTime_of_prompt {arr : List (ℕ × UInt8)} {status : Bytes} {hs : List (Bytes × Bytes)}
    (h : Prompt 1000 arr (responseText status hs)) : InTime arr status hs := by
  obtain ⟨a, b, rfl, ha, hb⟩ := prompt_append h
  rw [headerLines_eq] at hb
  exact ⟨a, b, rfl, ha.mono (by omega), linesInTime_iff.mpr (timely_of_prompt (by omega) hb)⟩

/-- **`exec_request` on a `200` response.** -/
theorem execRequest_ok {status : Bytes} {hs : List (Bytes × Bytes)} {arr : List (ℕ × UInt8)}
    {q : Request} (hq : q.getResponse ≠ 0) (hr : OkResponse status hs)
    (hp : InTime arr status hs) (r : Rtspcl) (m : Memory)
    (kd : Option (List KeyData)) (rest : List (ℕ × UInt8)) (e : End) :
    ∃ timeout sock, 1000 ≤ timeout ∧
      ((∀ l ∈ status :: hs.map headerLine, l.length < 2047) → sock = ⟨rest, e⟩) ∧
      let s := (seenAfter status hs).foldl (addHeader m) (0, kd)
      let out := finish r.udp ⟨s.1, s.2, timeout, sock⟩
      execRequest r q kd ⟨arr ++ rest, e⟩ m = ⟨requestText r q (r.cseq + 1),
        { r with cseq := r.cseq + 1 }, out.1, out.2.1, out.2.2, some status⟩ := by
  have hlen := hr.fits status List.mem_cons_self
  have hlines : ∀ l ∈ hs.map headerLine, LineOk l := by
    intro l hl
    obtain ⟨h, hh, rfl⟩ := List.mem_map.mp hl
    obtain ⟨hok, hfits⟩ := hr.header h hh
    exact ⟨hok.plain, headerLine_pos h, hfits⟩
  have hseen : (if status.length < 2047 then seenLines (hs.map headerLine) else []) =
      (seenAfter status hs).map headerLine := by
    rw [seenAfter, seenLines_headerLine]
    split_ifs <;> rfl
  have hall : ∀ h ∈ seenAfter status hs, HeaderOk h := by
    intro h hh
    rw [seenAfter] at hh
    split_ifs at hh
    · exact hr.headers h (seen_subset hs hh)
    · simp at hh
  obtain ⟨a, b, rfl, ha, hb⟩ := hp
  exact execRequest_lines hq ⟨hr.plain, hr.status_pos, by omega⟩ hr.code hlines ha (linesInTime_iff.mp hb) r
    (by rw [hseen]; exact foldlM_headerLine m (0, kd) hall) rest e

end Waveplay.RaopPlay.RtspClient
