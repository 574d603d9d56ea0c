import Waveplay.RaopPlay.Dmap
import Waveplay.RaopPlay.RtspSetup

/-! # The buffers of `exec_request`

A request is put together in `req`, of 1024 bytes. All but its first lines are printed into `reql`, of 128
bytes, and appended; the bound given to `strncat` is the size of `req`, not what is left of it.

* `Later.client`: the client when a request is made. Its `session` points into the table of the response,
  which `raopcl_connect` frees after `RECORD`.
* **`fits_iff`**: a later request of `raop_client.c` fits if and only if the text that `session` then points
  to has at most 116 characters. -/

namespace Waveplay.RaopPlay.RequestBuffers

open Waveplay.RaopPlay.AexclLib Waveplay.RaopPlay.Dmap Waveplay.RaopPlay.RtspClient
  Waveplay.RaopPlay.Requests Waveplay.RaopPlay.RtspSetup

/-! ### What is printed -/

/-- The text of a header. -/
def headerText (h : Bytes × Bytes) : Bytes := field h.1 h.2

/-- The text of the headers of a content, which are printed together. -/
def contentText (c : Bytes × ℕ × Bytes) : Bytes :=
  field (ascii "Content-Type") c.1 ++ field (ascii "Content-Length") (ascii (toString c.2.1))

/-- The text printed into `req`. -/
def firstText (r : Rtspcl) (q : Request) (n : ℤ) : Bytes :=
  q.cmd ++ ascii " " ++ chosenUrl r q ++ ascii " RTSP/1.0" ++ crlf ++
    (if r.udp then [] else headerText (number n))

/-- The texts printed into `reql`, in their order. -/
def printed (r : Rtspcl) (q : Request) (n : ℤ) : List Bytes :=
  (session r).map headerText ++ q.hds.map headerText ++ ((sentContent q).map contentText).toList ++
    (if r.udp then [headerText (number n)] else []) ++ [headerText (ascii "User-Agent", r.useragent)] ++
    (extra r).map headerText ++ (if r.udp then (session r).map headerText else [])

/-- The body. -/
def body (q : Request) : Bytes := ((sentContent q).map (·.2.2)).getD []

theorem flatten_session (r : Rtspcl) :
    ((session r).map headerText).flatten = (r.session.map (field (ascii "Session"))).getD [] := by
  rw [session]
  cases r.session with
  | none => rfl
  | some s => exact List.flatten_singleton

theorem flatten_toList (t : Option Bytes) : t.toList.flatten = t.getD [] := by
  cases t with
  | none => rfl
  | some t => exact List.flatten_singleton

/-- **The request is what was printed**, an empty line and the body. -/
theorem requestText_printed (r : Rtspcl) (q : Request) (n : ℤ) :
    requestText r q n = firstText r q n ++ (printed r q n).flatten ++ crlf ++ body q := by
  have hhds : (q.hds.map headerText).flatten = q.hds.flatMap fun h => field h.1 h.2 := rfl
  have hextra : ((extra r).map headerText).flatten =
      r.exthds.emitted.flatMap fun h => field h.1 (h.2.getD (ascii "(null)")) := by
    rw [extra, List.map_map]
    rfl
  have hnumber : ([headerText (number n)] : List Bytes).flatten = headerText (number n) :=
    List.flatten_singleton
  simp only [requestText, printed, List.flatten_append, apply_ite List.flatten, flatten_session, hhds, hextra,
    flatten_toList, hnumber, List.flatten_singleton, List.flatten_nil, firstText, List.append_assoc]
  rfl

/-- **The buffers are large enough**: `reql` for every text, with its zero, and `req` for all. -/
def Fits (r : Rtspcl) (q : Request) (n : ℤ) : Prop :=
  (∀ l ∈ printed r q n, l.length ≤ 127) ∧ (requestText r q n).length < 1024

instance (r : Rtspcl) (q : Request) (n : ℤ) : Decidable (Fits r q n) :=
  inferInstanceAs (Decidable (_ ∧ _))

/-! ### The later requests -/

/-- The requests that `raop_client.c` makes after `rtspcl_setup`. -/
inductive Later
  | record
  | flush
  | updateVolume (volume : BitVec 32)
  | setContent (a : Bytes) (timestamp : UInt32) (totalSize : ℕ)

def Later.request : Later → Request
  | .record => rtspclRecord
  | .flush => rtspclFlush
  | .updateVolume volume => rtspclSetParameter (ascii ("volume: " ++ toString volume.toInt ++ ".000000\r\n"))
  | .setContent a timestamp totalSize => rtspclSetDaap a timestamp totalSize

/-- The client as the request finds it. Before `RECORD` nothing writes to the table of the response, in
which `session` points; the other requests come after `raopcl_connect` has freed it, and find there
whatever the memory then holds. -/
def Later.client (r : Rtspcl) (freed : Bytes) : Later → Rtspcl
  | .record => r
  | _ => { r with session := some freed }

/-- The names of a song are those that `raopcl_set_content` puts into its buffer. -/
def Later.Ok : Later → Prop
  | .setContent a _ totalSize => ∃ sizeofPtr itemname songartist songalbum,
    raopclSetContent sizeofPtr itemname songartist songalbum = some (a, totalSize) ∧ totalSize ≤ a.length
  | _ => True

theorem length_field (key data : Bytes) : (field key data).length = key.length + data.length + 4 := by
  have hcolon : (ascii ": ").length = 2 := rfl
  have hcrlf : crlf.length = 2 := rfl
  rw [field, List.length_append, List.length_append, List.length_append, hcolon, hcrlf]
  omega

/-- A request whose own texts are short. -/
structure Light (q : Request) : Prop where
  url : q.url = none
  hds : ∀ h ∈ q.hds, (headerText h).length ≤ 127
  content : ∀ c ∈ sentContent q, (contentText c).length ≤ 127
  total : q.cmd.length + (q.hds.map headerText).flatten.length +
    (((sentContent q).map contentText).getD []).length + (body q).length ≤ 618

theorem length_contentText_le {c : Bytes × ℕ × Bytes} (hc : c.2.1 ≤ 512) :
    (contentText c).length ≤ c.1.length + 37 := by
  have hlength := length_toString_le (show 0 < 3 by omega) (show c.2.1 < 10 ^ 3 by omega)
  have htype : (ascii "Content-Type").length = 12 := rfl
  have hlen : (ascii "Content-Length").length = 14 := rfl
  rw [contentText, List.length_append, length_field, length_field, htype, hlen, length_ascii]
  omega

theorem length_headerText_le {q : Request} {h : Bytes × Bytes} (hh : h ∈ q.hds) :
    (headerText h).length ≤ (q.hds.map headerText).flatten.length :=
  (List.sublist_flatten_of_mem (List.mem_map_of_mem hh)).length_le

theorem light_of_noContent {q : Request} (hurl : q.url = none) (hnone : sentContent q = none)
    (htotal : q.cmd.length + (q.hds.map headerText).flatten.length ≤ 127) : Light q := by
  refine ⟨hurl, ?_, ?_, ?_⟩
  · intro h hh
    have hle := length_headerText_le hh
    omega
  · intro c hc
    rw [hnone] at hc
    cases hc
  · rw [body, hnone]
    simp only [Option.map_none, Option.getD_none, List.length_nil]
    omega

theorem light_of_content {q : Request} {c : Bytes × ℕ × Bytes} (hurl : q.url = none)
    (hcontent : sentContent q = some c) (hlength : c.2.1 ≤ 512) (hbody : c.2.2.length ≤ 512)
    (htype : c.1.length ≤ 25) (hcmd : q.cmd.length ≤ 13) (hhds : (q.hds.map headerText).flatten.length ≤ 31) :
    Light q := by
  have htext := length_contentText_le hlength
  refine ⟨hurl, ?_, ?_, ?_⟩
  · intro h hh
    have hle := length_headerText_le hh
    omega
  · intro c' hc'
    obtain rfl := Option.mem_unique hc' hcontent
    omega
  · rw [body, hcontent]
    simp only [Option.map_some, Option.getD_some]
    omega

theorem light_updateVolume (volume : BitVec 32) : Light (Later.updateVolume volume).request := by
  let text := ascii ("volume: " ++ toString volume.toInt ++ ".000000\r\n")
  have htext : (cstr text).length ≤ 28 := by
    have hint := length_toInt_le volume
    have hstart : "volume: ".length = 8 := rfl
    have hend : ".000000\r\n".length = 9 := rfl
    refine Nat.le_trans (List.takeWhile_sublist _).length_le ?_
    rw [length_ascii, String.length_append, String.length_append]
    omega
  have hcontent : sentContent (Later.updateVolume volume).request =
      some (ascii "text/parameters", (cstr text).length, cstr text) := rfl
  refine light_of_content rfl hcontent (by dsimp only; omega) (by dsimp only; omega) ?_ ?_ ?_
  · show (ascii "text/parameters").length ≤ 25
    decide
  · show (ascii "SET_PARAMETER").length ≤ 13
    decide
  · exact Nat.zero_le _

theorem light_setContent {a : Bytes} {totalSize : ℕ} (ha : a.length = 512) (hsize : totalSize ≤ a.length)
    (timestamp : UInt32) : Light (Later.setContent a timestamp totalSize).request := by
  have hcontent : ∃ c, sentContent (Later.setContent a timestamp totalSize).request = some c ∧
      c.1 = ascii "application/x-dmap-tagged" ∧ c.2.1 ≤ 512 ∧ c.2.2.length ≤ 512 := by
    have hstr : (cstr a).length ≤ a.length := (List.takeWhile_sublist _).length_le
    refine ⟨_, rfl, rfl, ?_⟩
    show (if totalSize = 0 then ((cstr a).length, cstr a) else (totalSize, a.take totalSize)).1 ≤ 512 ∧
      (if totalSize = 0 then ((cstr a).length, cstr a) else (totalSize, a.take totalSize)).2.length ≤ 512
    split_ifs
    · exact ⟨by omega, Nat.le_trans hstr (Nat.le_of_eq ha)⟩
    · exact ⟨by omega, by rw [List.length_take]; omega⟩
  obtain ⟨c, hc, htype, hlength, hbody⟩ := hcontent
  refine light_of_content rfl hc hlength hbody ?_ ?_ ?_
  · rw [htype]
    decide
  · show (ascii "SET_PARAMETER").length ≤ 13
    decide
  · have hint := length_toInt_le timestamp.toBitVec
    have hkey : (ascii "RTP-Info").length = 8 := rfl
    have hfix : "rtptime=".length = 8 := rfl
    show (headerText (ascii "RTP-Info", ascii ("rtptime=" ++ toString timestamp.toBitVec.toInt)) ++ []).length ≤
      31
    rw [List.append_nil, headerText, length_field, hkey, length_ascii, String.length_append]
    omega

/-- The later requests are short but for the session. -/
theorem Later.light {l : Later} (h : l.Ok) : Light l.request := by
  cases l with
  | record => exact light_of_noContent rfl rfl (by decide +kernel)
  | flush => exact light_of_noContent rfl rfl (by decide +kernel)
  | updateVolume volume => exact light_updateVolume volume
  | setContent a timestamp totalSize =>
    obtain ⟨sizeofPtr, itemname, songartist, songalbum, hset, hsize⟩ := h
    exact light_setContent (length_raopclSetContent hset) hsize timestamp

/-! ### The client -/

/-- The client of `raopcl_connect` in a session. -/
structure InSession (r : Rtspcl) (s : Bytes) : Prop where
  session : r.session = some s
  url : r.url.length ≤ if r.udp then 32 else 34
  useragent : r.useragent = ascii "iTunes/7.6.2 (Windows; N;)"
  exthds : ∃ sci, extra r = [(ascii "Client-Instance", sci)] ∧ sci.length = 16

/-- **The client after `rtspcl_setup`**, at a later request. -/
theorem inSession_of_setup {longBits : ℕ} {c : Connection} {r r' : Rtspcl} {sock : Socket}
    {m : RtspClient.Memory} (hr : c.client = some r) (h : rtspclSetup longBits r sock m = some r')
    (l : Later) (freed : Bytes) : ∃ s, InSession (l.client r' freed) s := by
  obtain ⟨e, he, rfl⟩ := Option.map_eq_some_iff.mp hr
  obtain ⟨temp, rfl⟩ := rtspclSetup_client h
  have hextra : e.emitted.map (fun h => (h.1, h.2.getD (ascii "(null)"))) =
      [(ascii "Client-Instance", c.sci)] := by
    rw [Connection.emitted he]
    rfl
  cases l with
  | record => exact ⟨trim temp, rfl, c.length_url_le, rfl, c.sci, hextra, c.length_sci⟩
  | _ => exact ⟨freed, rfl, c.length_url_le, rfl, c.sci, hextra, c.length_sci⟩

theorem length_number (n : ℤ) : (headerText (number n)).length = (toString n).length + 8 := by
  have hkey : (ascii "CSeq").length = 4 := rfl
  rw [headerText, number, length_field, hkey, length_ascii]
  omega

theorem length_session (s : Bytes) : (headerText (ascii "Session", s)).length = s.length + 11 := by
  have hkey : (ascii "Session").length = 7 := rfl
  rw [headerText, length_field, hkey]
  dsimp only
  omega

theorem InSession.printed_eq {r : Rtspcl} {s : Bytes} (h : InSession r s) (q : Request) (n : ℤ) :
    ∃ agent inst : Bytes, agent.length = 40 ∧ inst.length = 35 ∧
      printed r q n = [headerText (ascii "Session", s)] ++ q.hds.map headerText ++
        ((sentContent q).map contentText).toList ++ (if r.udp then [headerText (number n)] else []) ++
        [agent] ++ [inst] ++ (if r.udp then [headerText (ascii "Session", s)] else []) := by
  obtain ⟨sci, hextra, hsci⟩ := h.exthds
  have hsession : (Requests.session r).map headerText = [headerText (ascii "Session", s)] := by
    rw [Requests.session, h.session]
    rfl
  have hagent : (headerText (ascii "User-Agent", r.useragent)).length = 40 := by
    rw [h.useragent]
    decide
  have hinst : (headerText (ascii "Client-Instance", sci)).length = 35 := by
    have hkey : (ascii "Client-Instance").length = 15 := rfl
    rw [headerText, length_field, hkey, hsci]
  refine ⟨_, _, hagent, hinst, ?_⟩
  rw [printed, hsession, hextra]
  rfl

theorem length_firstText {r : Rtspcl} {q : Request} (hurl : q.url = none) (n : ℤ) :
    (firstText r q n).length =
      q.cmd.length + r.url.length + 12 + if r.udp then 0 else (toString n).length + 8 := by
  have hchosen : chosenUrl r q = r.url := by
    rw [chosenUrl, hurl, Option.getD_none, ite_self]
  have hspace : (ascii " ").length = 1 := rfl
  have hversion : (ascii " RTSP/1.0").length = 9 := rfl
  have hcrlf : crlf.length = 2 := rfl
  simp only [firstText, hchosen, List.length_append, hspace, hversion, hcrlf]
  split_ifs
  · rw [List.length_nil]
    omega
  · rw [length_number]
    omega

theorem InSession.length_request {r : Rtspcl} {s : Bytes} (h : InSession r s) {q : Request}
    (hurl : q.url = none) (n : ℤ) :
    (requestText r q n).length =
      q.cmd.length + (q.hds.map headerText).flatten.length +
        (((sentContent q).map contentText).getD []).length + (body q).length +
        r.url.length + (toString n).length + (if r.udp then 2 else 1) * (s.length + 11) + 97 := by
  obtain ⟨agent, inst, hagent, hinst, hprinted⟩ := h.printed_eq q n
  have hsession := length_session s
  have hnumber := length_number n
  have hcrlf : crlf.length = 2 := rfl
  rw [requestText_printed, List.length_append, List.length_append, List.length_append,
    length_firstText hurl, hprinted, hcrlf]
  simp only [List.flatten_append, List.length_append, List.flatten_singleton, flatten_toList, hagent, hinst,
    hsession, apply_ite List.flatten, List.flatten_nil]
  cases r.udp with
  | false =>
    simp only [Bool.false_eq_true, if_false, List.length_nil]
    omega
  | true =>
    simp only [if_true, hnumber, hsession]
    omega

/-- `reql` is large enough if it is for the session. -/
theorem InSession.reql_le {r : Rtspcl} {s : Bytes} (h : InSession r s) {q : Request} (hq : Light q) {n : ℤ}
    (hn : (toString n).length ≤ 11) (hs : s.length ≤ 116) : ∀ t ∈ printed r q n, t.length ≤ 127 := by
  obtain ⟨agent, inst, hagent, hinst, hprinted⟩ := h.printed_eq q n
  have hsession : (headerText (ascii "Session", s)).length ≤ 127 := by
    rw [length_session]
    omega
  have hnumber : (headerText (number n)).length ≤ 127 := by
    rw [length_number]
    omega
  have hhds : ∀ t ∈ q.hds.map headerText, t.length ≤ 127 := by
    intro t ht
    obtain ⟨f, hf, rfl⟩ := List.mem_map.mp ht
    exact hq.hds f hf
  have hcontent : ∀ t ∈ ((sentContent q).map contentText).toList, t.length ≤ 127 := by
    intro t ht
    obtain ⟨c, hc, rfl⟩ := Option.map_eq_some_iff.mp (Option.mem_toList.mp ht)
    exact hq.content c hc
  rw [hprinted]
  simp only [List.forall_mem_append, List.forall_mem_singleton]
  refine ⟨⟨⟨⟨⟨⟨hsession, hhds⟩, hcontent⟩, ?_⟩, by omega⟩, by omega⟩, ?_⟩
  · split_ifs
    · exact List.forall_mem_singleton.mpr hnumber
    · exact fun t ht => absurd ht List.not_mem_nil
  · split_ifs
    · exact List.forall_mem_singleton.mpr hsession
    · exact fun t ht => absurd ht List.not_mem_nil

/-- **When the buffers are large enough**: in the session that an accepted response starts, a later request
fits if and only if the text that `session` points to has at most 116 characters. For `RECORD` that is the
identifier in the response. The number of the request is any `int`. -/
theorem fits_iff {longBits : ℕ} {c : Connection} {r r' : Rtspcl} {sock : Socket} {m : RtspClient.Memory}
    (hr : c.client = some r) (hsetup : rtspclSetup longBits r sock m = some r') {l : Later} (hl : l.Ok)
    (freed : Bytes) (n : BitVec 32) :
    Fits (l.client r' freed) l.request n.toInt ↔ ∀ s ∈ (l.client r' freed).session, s.length ≤ 116 := by
  obtain ⟨s, h⟩ := inSession_of_setup hr hsetup l freed
  have hlight := Later.light hl
  have hdigits := length_toInt_le n
  have hsession : (∀ t ∈ some s, t.length ≤ 116) ↔ s.length ≤ 116 := by simp
  rw [h.session, hsession]
  constructor
  · rintro ⟨hreql, -⟩
    obtain ⟨agent, inst, -, -, hprinted⟩ := h.printed_eq l.request n.toInt
    have hle := hreql (headerText (ascii "Session", s)) (by rw [hprinted]; simp)
    rw [length_session] at hle
    omega
  · intro hs
    refine ⟨h.reql_le hlight hdigits hs, ?_⟩
    have htotal := hlight.total
    have hurl := h.url
    rw [h.length_request hlight.url]
    split_ifs at hurl ⊢ with hudp
    · omega
    · omega

/-- A connection in UDP mode. -/
def connection : Connection :=
  { udp := true, address := (10, 0, 0, 2), buf := (1, 2, 3), sac := ascii "AAECAwQFBgcICQoLDA0ODw"
    memory := (⟨fun _ => ⟨none, none⟩, true, true, true⟩, ⟨fun _ => ⟨none, none⟩, true, true, true⟩) }

/-- The response with a session. -/
def response (session : Bytes) : Socket :=
  { arriving := (responseText (ascii "RTSP/1.0 200 OK") [(ascii "Session", SP :: session),
      (ascii "Transport", ascii " RTP/AVP/UDP;unicast;server_port=6000")]).map fun ch => (0, ch) }

/-- The client after that response, with a `long` of 32 bits. -/
def setUp (session : Bytes) : Option Rtspcl :=
  connection.client.bind fun r =>
    rtspclSetup 32 r (response session) ⟨fun _ _ => ⟨none, none⟩, fun _ => []⟩

theorem fits_iff_short : ∃ r', setUp (ascii "DEADBEEF") = some r' ∧
    r'.session = some (ascii "DEADBEEF") ∧ Fits r' Later.record.request 4 := by
  have hsession : (setUp (ascii "DEADBEEF")).bind Rtspcl.session = some (ascii "DEADBEEF") := by
    decide +kernel
  obtain ⟨r', hr', hs⟩ := Option.bind_eq_some_iff.mp hsession
  obtain ⟨r, hr, hsetup⟩ := Option.bind_eq_some_iff.mp hr'
  refine ⟨r', hr', hs, (fits_iff hr hsetup (l := .record) trivial [] 4).mpr ?_⟩
  intro t ht
  obtain rfl := Option.mem_unique ht hs
  decide

/-- An identifier of 117 characters is accepted, and the first request after it does not fit. -/
theorem not_fits_long :
    (setUp (List.replicate 117 65)).map (fun r => decide (Fits r Later.record.request 4)) =
      some false := by
  decide +kernel

end Waveplay.RaopPlay.RequestBuffers
