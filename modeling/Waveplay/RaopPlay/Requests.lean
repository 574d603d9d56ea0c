import Waveplay.Lib.HeaderLines
import Waveplay.RaopPlay.RtspClient

/-! # The requests of `rtsp_client.c`

`exec_request` writes a request piece by piece, and the order of the pieces depends on the mode. The
calls that make requests are here, and what is read back from the text of one:

* **`request_readBack`**: the command, the URL, the headers of the call and the extra headers, one number,
  and the content with its length.

The number is the one header that `exec_request` always adds, and the length one that it adds to a
content. Nothing keeps a caller from adding an extra header of the same name (`number_twice`). -/

namespace Waveplay.RaopPlay.Requests

open Waveplay.Lib.HeaderLines Waveplay.RaopPlay.AexclLib Waveplay.RaopPlay.ExtraHeaders
  Waveplay.RaopPlay.RtspClient

/-! ### The calls -/

/-- `rtspcl_annouce_sdp`. -/
def rtspclAnnouceSdp (sdp : Bytes) : Request :=
  { cmd := ascii "ANNOUNCE", contentType := some (ascii "application/sdp"), content := some sdp }

/-- The request of `rtspcl_setup`. -/
def rtspclSetupRequest (udp : Bool) : Request :=
  { cmd := ascii "SETUP"
    hds := [(ascii "Transport",
      if udp then ascii ("RTP/AVP/UDP;unicast;interleaved=0-1;mode=record;" ++
        "control_port=6001;timing_port=6002")
      else ascii "RTP/AVP/TCP;unicast;interleaved=0-1;mode=record")] }

/-- `rtspcl_record`, in a session. -/
def rtspclRecord : Request :=
  { cmd := ascii "RECORD"
    hds := [(ascii "Range", ascii "npt=0-"), (ascii "RTP-Info", ascii "seq=0;rtptime=0")] }

/-- `rtspcl_set_parameter`. -/
def rtspclSetParameter (para : Bytes) : Request :=
  { cmd := ascii "SET_PARAMETER", contentType := some (ascii "text/parameters"), content := some para }

/-- `rtspcl_set_daap`, where `%ld` prints a `long` of 32 bits. -/
def rtspclSetDaap (para : Bytes) (timestamp : UInt32) (count : ℕ) : Request :=
  { cmd := ascii "SET_PARAMETER", contentType := some (ascii "application/x-dmap-tagged")
    content := some para, length := count, getResponse := 2
    hds := [(ascii "RTP-Info", ascii ("rtptime=" ++ toString timestamp.toBitVec.toInt))] }

/-- `rtspcl_options`. -/
def rtspclOptions : Request := { cmd := ascii "OPTIONS", url := some (ascii "*") }

/-- `rtspcl_auth_setup`. -/
def rtspclAuthSetup : Request :=
  { cmd := ascii "POST", contentType := some (ascii "application/octet-stream")
    content := some [0x01, 0xad, 0xb2, 0xa4, 0xc7, 0xd5, 0x5c, 0x97, 0x6c, 0x34, 0xf9,
      0x2e, 0x0e, 0x05, 0x48, 0x90, 0x3b, 0x3a, 0x2f, 0xc6, 0x72, 0x2b,
      0x88, 0x58, 0x08, 0x76, 0xd2, 0x9c, 0x61, 0x94, 0x18, 0x52, 0x50]
    length := 33, url := some (ascii "/auth-setup") }

/-- `rtspcl_flush`. -/
def rtspclFlush : Request :=
  { cmd := ascii "FLUSH", hds := [(ascii "RTP-Info", ascii "seq=0;rtptime=0")] }

/-- `rtspcl_teardown`. -/
def rtspclTeardown : Request := { cmd := ascii "TEARDOWN", getResponse := 0 }

/-- The commands of these calls. -/
def commands : List Bytes :=
  [ascii "ANNOUNCE", ascii "SETUP", ascii "RECORD", ascii "SET_PARAMETER", ascii "OPTIONS",
    ascii "POST", ascii "FLUSH", ascii "TEARDOWN"]

/-- What these calls pass to `exec_request`: a content comes with its type, and a length only with a
content that has as many bytes. -/
structure Arguments (q : Request) : Prop where
  cmd : q.cmd ∈ commands
  content : q.contentType.isSome = q.content.isSome
  length : q.length ≠ 0 → ∃ content, q.content = some content ∧ q.length ≤ content.length

/-- **The calls of `rtsp_client.c`.** -/
inductive Call : Request → Prop
  | annouceSdp (sdp : Bytes) : Call (rtspclAnnouceSdp sdp)
  | setup (udp : Bool) : Call (rtspclSetupRequest udp)
  | record : Call rtspclRecord
  | setParameter (para : Bytes) : Call (rtspclSetParameter para)
  | setDaap (para : Bytes) (timestamp : UInt32) (count : ℕ) (h : count ≤ para.length) :
      Call (rtspclSetDaap para timestamp count)
  | options : Call rtspclOptions
  | authSetup : Call rtspclAuthSetup
  | flush : Call rtspclFlush
  | teardown : Call rtspclTeardown

theorem Call.arguments {q : Request} (h : Call q) : Arguments q := by
  cases h with
  | annouceSdp sdp => exact ⟨show ascii "ANNOUNCE" ∈ commands by decide, rfl, fun h => absurd rfl h⟩
  | setup udp => exact ⟨show ascii "SETUP" ∈ commands by decide, rfl, fun h => absurd rfl h⟩
  | record => exact ⟨by decide, rfl, fun h => absurd rfl h⟩
  | setParameter para =>
    exact ⟨show ascii "SET_PARAMETER" ∈ commands by decide, rfl, fun h => absurd rfl h⟩
  | setDaap para timestamp count h =>
    exact ⟨show ascii "SET_PARAMETER" ∈ commands by decide, rfl, fun _ => ⟨para, rfl, h⟩⟩
  | options => exact ⟨by decide, rfl, fun h => absurd rfl h⟩
  | authSetup => exact ⟨by decide, rfl, fun _ => ⟨_, rfl, by decide⟩⟩
  | flush => exact ⟨by decide, rfl, fun h => absurd rfl h⟩
  | teardown => exact ⟨by decide, rfl, fun h => absurd rfl h⟩

/-! ### The parts of a request -/

/-- The characters of RTSP. -/
def marks : Marks UInt8 := ⟨CR, LF, COLON, SP⟩

/-- The URL on the request line: the one of the call counts in UDP mode only. -/
def chosenUrl (r : Rtspcl) (q : Request) : Bytes := if r.udp then q.url.getD r.url else r.url

def version : Bytes := ascii " RTSP/1.0"

def requestLine (r : Rtspcl) (q : Request) : Bytes := q.cmd ++ SP :: (chosenUrl r q ++ version)

/-- The bytes of the content: as many as the length says, or a string. -/
def contentBytes (q : Request) (content : Bytes) : Bytes :=
  if q.length = 0 then cstr content else content.take q.length

/-- The content with its type. -/
def typed (q : Request) : Option (Bytes × Bytes) :=
  q.contentType.bind fun type => q.content.map fun content => (type, contentBytes q content)

/-- The header with the number of the request. -/
def number (n : ℤ) : Bytes × Bytes := (ascii "CSeq", ascii (toString n))

/-- The session header, if there is a session. -/
def session (r : Rtspcl) : List (Bytes × Bytes) := (r.session.map fun s => (ascii "Session", s)).toList

/-- The headers of a content. -/
def contentHeaders (c : Bytes × Bytes) : List (Bytes × Bytes) :=
  [(ascii "Content-Type", c.1), (ascii "Content-Length", ascii (toString c.2.length))]

/-- The extra headers. -/
def extra (r : Rtspcl) : List (Bytes × Bytes) :=
  r.exthds.emitted.map fun h => (h.1, h.2.getD (ascii "(null)"))

/-- The headers of a request, in their order. -/
def headers (r : Rtspcl) (q : Request) (n : ℤ) : List (Bytes × Bytes) :=
  (if r.udp then [] else [number n]) ++ session r ++ q.hds ++ ((typed q).map contentHeaders).getD [] ++
    (if r.udp then [number n] else []) ++ [(ascii "User-Agent", r.useragent)] ++ extra r ++
    (if r.udp then session r else [])

def message (r : Rtspcl) (q : Request) (n : ℤ) : Message UInt8 :=
  ⟨requestLine r q, headers r q n, ((typed q).map Prod.snd).getD []⟩

theorem field_eq (key data : Bytes) : field key data = marks.line (key, data) ++ marks.eol := by
  rw [field, List.append_assoc key, Marks.line]
  rfl

theorem lines_append (a b : List (Bytes × Bytes)) : marks.lines (a ++ b) = marks.lines a ++ marks.lines b :=
  List.flatMap_append

theorem lines_singleton (h : Bytes × Bytes) : marks.lines [h] = field h.1 h.2 := by
  rw [Marks.lines, List.flatMap_singleton, field_eq]

theorem lines_map {α : Type*} (f : α → Bytes × Bytes) (l : List α) :
    marks.lines (l.map f) = l.flatMap fun a => field (f a).1 (f a).2 := by
  rw [Marks.lines, List.flatMap_map]
  exact List.flatMap_congr fun a _ => (field_eq (f a).1 (f a).2).symm

theorem lines_session (r : Rtspcl) :
    marks.lines (session r) = (r.session.map (field (ascii "Session"))).getD [] := by
  rw [session]
  cases r.session with
  | none => rfl
  | some s => exact lines_singleton _

theorem length_contentBytes {q : Request} (hq : Arguments q) {content : Bytes}
    (hc : q.content = some content) (hlen : q.length ≠ 0) :
    (contentBytes q content).length = q.length := by
  obtain ⟨content', hc', hle⟩ := hq.length hlen
  obtain rfl : content' = content := Option.some.inj (hc'.symm.trans hc)
  rw [contentBytes, if_neg hlen, List.length_take, Nat.min_eq_left hle]

theorem sentContent_eq {q : Request} (hq : Arguments q) :
    sentContent q = (typed q).map fun c => (c.1, c.2.length, c.2) := by
  rw [sentContent, typed]
  cases hct : q.contentType with
  | none => rfl
  | some type =>
    cases hc : q.content with
    | none => rfl
    | some content =>
      by_cases hlen : q.length = 0
      · simp [contentBytes, hlen]
      · have hbytes := length_contentBytes hq hc hlen
        rw [contentBytes, if_neg hlen] at hbytes
        simp [contentBytes, hlen, hbytes]

theorem lines_contentHeaders (c : Option (Bytes × Bytes)) :
    marks.lines ((c.map contentHeaders).getD []) = (c.map fun c => field (ascii "Content-Type") c.1 ++
      field (ascii "Content-Length") (ascii (toString c.2.length))).getD [] := by
  cases c with
  | none => rfl
  | some c =>
    rw [Option.map_some, Option.getD_some, contentHeaders, ← List.singleton_append, lines_append,
      lines_singleton, lines_singleton]
    rfl

/-- **The text that is written** is the text of the message. -/
theorem requestText_eq {q : Request} (hq : Arguments q) (r : Rtspcl) (n : ℤ) :
    requestText r q n = (message r q n).text marks := by
  have hline : q.cmd ++ ascii " " ++ chosenUrl r q ++ ascii " RTSP/1.0" = requestLine r q := by
    rw [List.append_assoc, List.append_assoc]
    rfl
  have hnumber : marks.lines [number n] = field (ascii "CSeq") (ascii (toString n)) := lines_singleton _
  have hds : marks.lines q.hds = q.hds.flatMap fun h => field h.1 h.2 := by
    simpa using lines_map id q.hds
  have hextra : marks.lines (extra r) =
      r.exthds.emitted.flatMap fun h => field h.1 (h.2.getD (ascii "(null)")) := lines_map _ _
  rw [requestText, sentContent_eq hq, Message.text, message, ← hline]
  simp only [headers, lines_append, apply_ite marks.lines, hnumber, lines_session, hds, hextra,
    lines_contentHeaders, lines_singleton, Option.map_map]
  simp only [chosenUrl, List.append_assoc]
  rfl

/-! ### Reading a request -/

/-- A request as it is read. -/
structure Parsed where
  cmd : Bytes
  url : Bytes
  headers : List (Bytes × Bytes)
  body : Bytes
  deriving DecidableEq

/-- The command and the URL on a request line, which ends with the version. -/
def parseRequestLine (line : Bytes) : Option (Bytes × Bytes) :=
  let rest := (line.dropWhile (· ≠ SP)).tail
  if rest.drop (rest.length - version.length) = version then
    some (line.takeWhile (· ≠ SP), rest.take (rest.length - version.length))
  else none

/-- Read a request: the line up to CRLF, headers up to an empty line, and the rest. -/
def parseRequest (text : Bytes) : Option Parsed :=
  (parse marks text).bind fun m =>
    (parseRequestLine m.first).map fun l => ⟨l.1, l.2, m.fields, m.body⟩

/-- A header that stays on its line. -/
structure HeaderClean (h : Bytes × Bytes) : Prop where
  name : Plain h.1
  value : Plain h.2
  colon : COLON ∉ h.1

instance (h : Bytes × Bytes) : Decidable (HeaderClean h) :=
  decidable_of_iff (Plain h.1 ∧ Plain h.2 ∧ COLON ∉ h.1)
    ⟨fun ⟨h₁, h₂, h₃⟩ => ⟨h₁, h₂, h₃⟩, fun ⟨h₁, h₂, h₃⟩ => ⟨h₁, h₂, h₃⟩⟩

/-- The strings of a request have no CR and no LF, and no key has a colon. -/
structure Clean (r : Rtspcl) (q : Request) : Prop where
  url : Plain (chosenUrl r q)
  useragent : Plain r.useragent
  session : ∀ s ∈ r.session, Plain s
  contentType : ∀ type ∈ q.contentType, Plain type
  hds : ∀ h ∈ q.hds, HeaderClean h
  exthds : ∀ h ∈ extra r, HeaderClean h

theorem Plain.cr {l : Bytes} (h : Plain l) : CR ∉ l := fun hm => (h CR hm).1 rfl

theorem HeaderClean.fieldOk {h : Bytes × Bytes} (hh : HeaderClean h) : FieldOk marks h :=
  ⟨Plain.cr hh.name, Plain.cr hh.value, hh.colon⟩

theorem plain_toString (n : ℕ) : Plain (ascii (toString n)) := by
  intro ch hch
  obtain ⟨c, hc, rfl⟩ := List.mem_map.mp hch
  have hdigit : c.isDigit = true := by
    refine Nat.isDigit_of_mem_toDigits (b := 10) (n := n) (by decide) (by decide) ?_
    rw [← Nat.toList_repr]
    exact hc
  obtain ⟨hlow, hhigh⟩ := Bool.and_eq_true_iff.mp hdigit
  have hlow : 48 ≤ c.toNat := of_decide_eq_true hlow
  have hhigh : c.toNat ≤ 57 := of_decide_eq_true hhigh
  have hval : (UInt8.ofNat c.toNat).toNat = c.toNat := by
    rw [UInt8.toNat_ofNat']
    omega
  have hne : ∀ k : UInt8, k.toNat < 48 → UInt8.ofNat c.toNat ≠ k := by
    rintro k hk rfl
    omega
  exact ⟨hne CR (by decide), hne LF (by decide), hne 0 (by decide)⟩

theorem plain_number (n : ℤ) : Plain (ascii (toString n)) := by
  rw [Int.toString_eq_repr, Int.repr_eq_if]
  split_ifs with hneg
  · exact plain_toString n.toNat
  · have hminus : Plain (ascii "-") := by
      intro ch hch
      rw [show ascii "-" = [45] by decide] at hch
      rw [List.mem_singleton.mp hch]
      decide
    have hdigits := plain_toString (-n).toNat
    rw [ascii, String.toList_append, List.map_append]
    exact List.forall_mem_append.mpr ⟨hminus, hdigits⟩

theorem headerClean_number (n : ℤ) : HeaderClean (number n) := by
  refine ⟨?_, plain_number n, ?_⟩
  · show Plain (ascii "CSeq")
    decide +kernel
  · show COLON ∉ ascii "CSeq"
    decide

theorem HeaderClean.of_value {key value : Bytes} (hkey : Plain key ∧ COLON ∉ key) (hv : Plain value) :
    HeaderClean (key, value) :=
  ⟨hkey.1, hv, hkey.2⟩

/-- The headers that `exec_request` adds to those of the call and the extra headers. -/
def own (r : Rtspcl) (q : Request) (n : ℤ) : List (Bytes × Bytes) :=
  [number n, (ascii "User-Agent", r.useragent)] ++ ((typed q).map contentHeaders).getD [] ++
    (session r ++ if r.udp then session r else [])

theorem headers_perm (r : Rtspcl) (q : Request) (n : ℤ) :
    (headers r q n).Perm (own r q n ++ q.hds ++ extra r) := by
  rw [List.perm_iff_count]
  intro h
  rw [headers, own]
  cases r.udp with
  | false =>
    simp only [Bool.false_eq_true, if_false, List.count_append, List.count_cons, List.count_nil]
    omega
  | true =>
    simp only [if_true, List.count_append, List.count_cons, List.count_nil]
    omega

theorem session_clean {r : Rtspcl} (h : ∀ s ∈ r.session, Plain s) : ∀ f ∈ session r, HeaderClean f := by
  intro f hf
  obtain ⟨s, hs, rfl⟩ := Option.map_eq_some_iff.mp (Option.mem_toList.mp hf)
  exact .of_value (by decide +kernel) (h s hs)

theorem own_clean {r : Rtspcl} {q : Request} (hc : Clean r q) (n : ℤ) :
    ∀ f ∈ own r q n, HeaderClean f := by
  have hsession := session_clean hc.session
  have hcontent : ∀ f ∈ ((typed q).map contentHeaders).getD [], HeaderClean f := by
    rw [typed]
    cases htype : q.contentType with
    | none => simp
    | some type =>
      cases q.content with
      | none => simp
      | some content =>
        refine List.forall_mem_cons.mpr ⟨.of_value (by decide +kernel) (hc.contentType type htype), ?_⟩
        exact List.forall_mem_singleton.mpr (.of_value (by decide +kernel) (plain_toString _))
  rw [own, List.forall_mem_append, List.forall_mem_append, List.forall_mem_append]
  refine ⟨⟨?_, hcontent⟩, hsession, ?_⟩
  · refine List.forall_mem_cons.mpr ⟨headerClean_number n, ?_⟩
    exact List.forall_mem_singleton.mpr (.of_value (by decide +kernel) hc.useragent)
  · split_ifs
    · exact hsession
    · simp

theorem headers_clean {r : Rtspcl} {q : Request} (hc : Clean r q) (n : ℤ) :
    ∀ f ∈ headers r q n, HeaderClean f := by
  intro f hf
  rcases List.mem_append.mp ((headers_perm r q n).mem_iff.mp hf) with hf | hf
  · rcases List.mem_append.mp hf with hf | hf
    · exact own_clean hc n f hf
    · exact hc.hds f hf
  · exact hc.exthds f hf

theorem commands_word {cmd : Bytes} (h : cmd ∈ commands) : CR ∉ cmd ∧ SP ∉ cmd := by
  have hall : ∀ cmd ∈ commands, CR ∉ cmd ∧ SP ∉ cmd := by decide
  exact hall cmd h

theorem parseRequestLine_requestLine {q : Request} (hq : Arguments q) (r : Rtspcl) :
    parseRequestLine (requestLine r q) = some (q.cmd, chosenUrl r q) := by
  have hall : ∀ ch ∈ q.cmd, decide (ch ≠ SP) = true := by
    intro ch hch
    rw [decide_eq_true_eq]
    exact fun heq => (commands_word hq.cmd).2 (heq ▸ hch)
  have hlen : (chosenUrl r q ++ version).length - version.length = (chosenUrl r q).length := by
    rw [List.length_append, Nat.add_sub_cancel]
  have htail : ((requestLine r q).dropWhile (· ≠ SP)).tail = chosenUrl r q ++ version := by
    rw [requestLine, List.dropWhile_append_of_pos hall]
    simp
  have hcmd : (requestLine r q).takeWhile (· ≠ SP) = q.cmd := by
    rw [requestLine, List.takeWhile_append_of_pos hall]
    simp
  simp only [parseRequestLine, htail, hcmd, hlen, List.drop_left, List.take_left, if_true]

theorem parseRequest_requestText {r : Rtspcl} {q : Request} (hq : Arguments q) (hc : Clean r q) (n : ℤ) :
    parseRequest (requestText r q n) =
      some ⟨q.cmd, chosenUrl r q, headers r q n, ((typed q).map Prod.snd).getD []⟩ := by
  have hfirst : CR ∉ requestLine r q := by
    have hversion : CR ∉ version := by decide
    rw [requestLine, List.mem_append, List.mem_cons, List.mem_append]
    rintro (hm | hm | hm | hm)
    · exact (commands_word hq.cmd).1 hm
    · exact absurd hm (by decide)
    · exact Plain.cr hc.url hm
    · exact hversion hm
  have hparse : parse marks ((message r q n).text marks) = some (message r q n) :=
    parse_text (by decide) (by decide) hfirst fun f hf => (headers_clean hc n f hf).fieldOk
  rw [parseRequest, requestText_eq hq, hparse, Option.bind_some]
  show (parseRequestLine (requestLine r q)).map _ = _
  rw [parseRequestLine_requestLine hq]
  rfl

theorem execRequest_sent (r : Rtspcl) (q : Request) (kd : Option (List KeyData)) (sock : Socket)
    (m : RtspClient.Memory) :
    (execRequest r q kd sock m).sent = requestText r q (r.cseq + 1) ∧
      (execRequest r q kd sock m).client = { r with cseq := r.cseq + 1 } := by
  unfold execRequest
  dsimp only
  split
  · exact ⟨rfl, rfl⟩
  · split
    · exact ⟨rfl, rfl⟩
    · split
      · exact ⟨rfl, rfl⟩
      · split
        · exact ⟨rfl, rfl⟩
        · exact ⟨rfl, rfl⟩

/-! ### What is added -/

theorem filter_session (r : Rtspcl) {key : Bytes} (hkey : ascii "Session" ≠ key) :
    (session r).filter (·.1 = key) = [] := by
  rw [session]
  cases r.session with
  | none => rfl
  | some s => simp [hkey]

/-- Only the number and the headers of a content may have other names than these two. -/
theorem own_filter (r : Rtspcl) (q : Request) (n : ℤ) {key : Bytes} (hsession : ascii "Session" ≠ key)
    (hagent : ascii "User-Agent" ≠ key) :
    (own r q n).filter (·.1 = key) =
      [number n].filter (·.1 = key) ++ (((typed q).map contentHeaders).getD []).filter (·.1 = key) := by
  have hsession := filter_session r hsession
  rw [own, List.filter_append, List.filter_append, List.filter_append, hsession]
  split_ifs
  · simp [hagent, hsession, List.filter_cons]
  · simp [hagent, List.filter_cons]

theorem own_number (r : Rtspcl) (q : Request) (n : ℤ) :
    (own r q n).filter (·.1 = ascii "CSeq") = [number n] := by
  rw [own_filter r q n (by decide) (by decide)]
  cases typed q with
  | none => simp [number]
  | some c =>
    have htype : ascii "Content-Type" ≠ ascii "CSeq" := by decide
    have hlength : ascii "Content-Length" ≠ ascii "CSeq" := by decide
    simp [number, contentHeaders, htype, hlength]

theorem own_length (r : Rtspcl) (q : Request) (n : ℤ) :
    (own r q n).filter (·.1 = ascii "Content-Length") =
      ((typed q).map fun c => (ascii "Content-Length", ascii (toString c.2.length))).toList := by
  have hnumber : ascii "CSeq" ≠ ascii "Content-Length" := by decide
  rw [own_filter r q n (by decide) (by decide)]
  cases typed q with
  | none => simp [number, hnumber]
  | some c =>
    have htype : ascii "Content-Type" ≠ ascii "Content-Length" := by decide
    simp [number, hnumber, contentHeaders, htype]

/-- A content has its type, so it is sent. -/
theorem typed_eq {q : Request} (hq : Arguments q) :
    ((typed q).map Prod.snd) = q.content.map (contentBytes q) := by
  have hsome := hq.content
  rw [typed]
  cases hct : q.contentType with
  | none =>
    rw [hct] at hsome
    have hnone : q.content = none := Option.not_isSome_iff_eq_none.mp (by rw [← hsome]; decide)
    rw [hnone]
    rfl
  | some type =>
    cases q.content with
    | none => rfl
    | some content => rfl

/-- **A request is read back from what `exec_request` writes.** The headers are those of the call, the
extra ones and some `own`: among these there is one number, that of the client, which is one more than
before the request, and the length of the content, if there is one. -/
theorem request_readBack {r : Rtspcl} {q : Request} (hq : Arguments q) (hc : Clean r q)
    (kd : Option (List KeyData)) (sock : Socket) (m : RtspClient.Memory) :
    let x := execRequest r q kd sock m
    x.client.cseq = r.cseq + 1 ∧ ∃ p own, parseRequest x.sent = some p ∧
      p.cmd = q.cmd ∧ p.url = chosenUrl r q ∧
      p.headers.Perm (own ++ q.hds ++ extra r) ∧
      own.filter (·.1 = ascii "CSeq") = [(ascii "CSeq", ascii (toString x.client.cseq))] ∧
      own.filter (·.1 = ascii "Content-Length") =
        (q.content.map fun _ => (ascii "Content-Length", ascii (toString p.body.length))).toList ∧
      p.body = (q.content.map (contentBytes q)).getD [] ∧ (q.length ≠ 0 → p.body.length = q.length) := by
  obtain ⟨hsent, hclient⟩ := execRequest_sent r q kd sock m
  dsimp only
  rw [hsent, hclient]
  have htyped := typed_eq hq
  have hlength : ((typed q).map fun c => (ascii "Content-Length", ascii (toString c.2.length))) =
      q.content.map fun _ => (ascii "Content-Length",
        ascii (toString (((typed q).map Prod.snd).getD []).length)) := by
    have hmap := congrArg (Option.map fun b : Bytes =>
      (ascii "Content-Length", ascii (toString b.length))) htyped
    rw [Option.map_map, Option.map_map] at hmap
    rw [htyped]
    refine hmap.trans ?_
    cases q.content with
    | none => rfl
    | some content => rfl
  refine ⟨rfl, _, own r q (r.cseq + 1), parseRequest_requestText hq hc _, rfl, rfl,
    headers_perm r q _, own_number r q _, ?_, ?_, ?_⟩
  · rw [own_length, hlength]
  · exact congrArg (Option.getD · []) htyped
  · intro hlen
    obtain ⟨content, hcontent, -⟩ := hq.length hlen
    show (((typed q).map Prod.snd).getD []).length = q.length
    rw [htyped, hcontent]
    exact length_contentBytes hq hcontent hlen

/-- A client in a session, and its request for the volume. -/
def playing (exthds : ExtHds) : Rtspcl :=
  { url := ascii "rtsp://10.0.0.2/1", useragent := ascii "iTunes/7.6.2 (Windows; N;)", udp := true
    cseq := 4, session := some (ascii "1"), exthds }

def volume : Request := rtspclSetParameter (ascii "volume: -15.000000\r\n")

theorem clean_playing {s : ExtHds} (h : ∀ h ∈ extra (playing s), HeaderClean h) :
    Clean (playing s) volume where
  url := show Plain (ascii "rtsp://10.0.0.2/1") by decide +kernel
  useragent := show Plain (ascii "iTunes/7.6.2 (Windows; N;)") by decide +kernel
  session := by
    intro s hs
    obtain rfl := Option.mem_some_iff.mp hs
    decide +kernel
  contentType := by
    intro type htype
    obtain rfl := Option.mem_some_iff.mp htype
    decide +kernel
  hds := fun h hh => absurd hh List.not_mem_nil
  exthds := h

/-- One extra header. -/
def extraHeader (key data : String) : ExtHds :=
  (rtspclAddExthds {} (ascii key) (ascii data) ⟨fun _ => ⟨none, none⟩, true, true, true⟩).2

theorem clean_instance : Clean (playing (extraHeader "Client-Instance" "0123456789ABCDEF")) volume :=
  clean_playing (by decide +kernel)

theorem request_readBack_volume :
    let r := playing (extraHeader "Client-Instance" "0123456789ABCDEF")
    let x := execRequest r volume none ⟨[], .eof⟩ ⟨fun _ _ => ⟨none, none⟩, fun _ => []⟩
    Arguments volume ∧ Clean r volume ∧ ∃ p, parseRequest x.sent = some p ∧ p.cmd = ascii "SET_PARAMETER" ∧
      p.body = ascii "volume: -15.000000\r\n" := by
  have hargs : Arguments volume := (Call.setParameter _).arguments
  obtain ⟨-, p, own, hp, hcmd, -, -, -, -, hbody, -⟩ := request_readBack hargs clean_instance none
    ⟨[], .eof⟩ ⟨fun _ _ => ⟨none, none⟩, fun _ => []⟩
  exact ⟨hargs, clean_instance, p, hp, hcmd, hbody.trans (by decide)⟩

/-- An extra header may have the name of the number, and then there are two. -/
theorem number_twice :
    let r := playing (extraHeader "CSeq" "1")
    let x := execRequest r volume none ⟨[], .eof⟩ ⟨fun _ _ => ⟨none, none⟩, fun _ => []⟩
    Arguments volume ∧ Clean r volume ∧
      (parseRequest x.sent).map (fun p => p.headers.filter (·.1 = ascii "CSeq")) =
        some [(ascii "CSeq", ascii "5"), (ascii "CSeq", ascii "1")] :=
  ⟨(Call.setParameter _).arguments, clean_playing (by decide +kernel), by decide +kernel⟩

end Waveplay.RaopPlay.Requests
