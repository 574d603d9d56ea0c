import Mathlib.Data.List.DropRight
import Waveplay.RaopPlay.Requests

/-! # The session: `rtspcl_setup`

`raopcl_connect` makes a client with one extra header, and asks for a session with `rtspcl_setup`. Of the
response the client keeps the identifier of the session, without the spaces around it, as a pointer into
the table of the response. A response is accepted if it has a port; the number of bits of a `long`, which
bounds what `atoi` reads, is a parameter. -/

namespace Waveplay.RaopPlay.RtspSetup

open Waveplay.RaopPlay.AexclLib Waveplay.RaopPlay.ExtraHeaders Waveplay.RaopPlay.RtspClient
  Waveplay.RaopPlay.Requests

/-! ### The client -/

/-- `inet_ntoa` -/
def inetNtoa (a b c d : UInt8) : Bytes :=
  ascii (toString a.toNat ++ "." ++ toString b.toNat ++ "." ++ toString c.toNat ++ "." ++ toString d.toNat)

/-- A digit of `%x`. -/
def hexDigit (n : ℕ) : UInt8 := UInt8.ofNat (if n < 10 then 48 + n else 87 + n)

/-- `%08x` -/
def hex (n : UInt32) : Bytes := [28, 24, 20, 16, 12, 8, 4, 0].map fun k => hexDigit (n.toNat >>> k % 16)

/-- The local address of the connection, the random numbers of `raopcl_connect`, which are the first
three words of `buf` and the rest in Base64, and memory for two headers. -/
structure Connection where
  udp : Bool
  address : UInt8 × UInt8 × UInt8 × UInt8
  buf : UInt32 × UInt32 × UInt32
  sac : Bytes
  memory : ExtraHeaders.Memory × ExtraHeaders.Memory

/-- The number of the stream: `"%d%hu"` of `3420` and two bytes of `buf`, or `"%d"` of four. -/
def Connection.sid (c : Connection) : Bytes :=
  if c.udp then ascii ("3420" ++ toString (c.buf.1.toNat % 2 ^ 16))
  else ascii (toString c.buf.1.toBitVec.toInt)

def Connection.sci (c : Connection) : Bytes := hex c.buf.2.1 ++ hex c.buf.2.2

def Connection.url (c : Connection) : Bytes :=
  ascii "rtsp://" ++ inetNtoa c.address.1 c.address.2.1 c.address.2.2.1 c.address.2.2.2 ++ ascii "/" ++ c.sid

/-- The extra headers after the announcement; `none` for a return. -/
def Connection.exthds (c : Connection) : Option ExtHds :=
  let first := rtspclAddExthds {} (ascii "Client-Instance") c.sci c.memory.1
  if !first.1 then none
  else
    let second := rtspclAddExthds first.2 (ascii "Apple-Challenge") c.sac c.memory.2
    if !second.1 then none else rtspclMarkDelExthds second.2 (ascii "Apple-Challenge")

/-- The client of `raopcl_connect` at its call of `rtspcl_setup`, after one request, or two in UDP mode. -/
def Connection.client (c : Connection) : Option Rtspcl :=
  c.exthds.map fun exthds =>
    { url := c.url, useragent := ascii "iTunes/7.6.2 (Windows; N;)", udp := c.udp
      cseq := if c.udp then 2 else 1, exthds }

/-! ### The response -/

/-- `isspace` -/
def isspace (ch : UInt8) : Bool := ch = 32 || (9 ≤ ch && ch ≤ 13)

/-- `ltrim` -/
def ltrim (s : Bytes) : Bytes := s.dropWhile isspace

/-- `rtrim`, of a string with another character than spaces, or of an empty one. -/
def rtrim (s : Bytes) : Bytes := s.rdropWhile isspace

/-- `trim` -/
def trim (s : Bytes) : Bytes := rtrim (ltrim s)

def isdigit (ch : UInt8) : Bool := 48 ≤ ch && ch ≤ 57

/-- The value of digits. -/
def digits (s : Bytes) : ℕ := (s.takeWhile isdigit).foldl (fun n ch => 10 * n + (ch.toNat - 48)) 0

/-- The number `strtol` finds in base ten. -/
def numeral (s : Bytes) : ℤ :=
  match s.dropWhile isspace with
  | [] => 0
  | ch :: s =>
    if ch = 45 then -(digits s : ℤ) else if ch = 43 then digits s else digits (ch :: s)

/-- `strtol`, which stops at the ends of a `long` of `longBits` bits. -/
def strtol (longBits : ℕ) (s : Bytes) : ℤ :=
  max (-2 ^ (longBits - 1)) (min (numeral s) (2 ^ (longBits - 1) - 1))

/-- `atoi`: the `int` that is left of the `long`. -/
def atoi (longBits : ℕ) (s : Bytes) : ℤ := (strtol longBits s).bmod (2 ^ 32)

/-- The tokens between semicolons. -/
def tokens (transport : Bytes) : List Bytes := (transport.splitOn 59).filter (· ≠ [])

/-- The loop over the tokens: the last port given as `server_port`, in sixteen bits, zero if there is none. -/
def serverPort (longBits : ℕ) (transport : Bytes) : ℕ :=
  (tokens transport).foldl (fun port token =>
    if token.contains 61 && token.takeWhile (· ≠ 61) = ascii "server_port" then
      (atoi longBits (token.dropWhile (· ≠ 61)).tail % 2 ^ 16).toNat
    else port) 0

/-- **`rtspcl_setup`**: the client after a response that is accepted. -/
def rtspclSetup (longBits : ℕ) (r : Rtspcl) (sock : Socket) (m : RtspClient.Memory) : Option Rtspcl :=
  let x := execRequest r (rtspclSetupRequest r.udp) none sock m
  if x.outcome ≠ .ret 0 then none
  else
    (kdLookup (x.kd.getD []) (ascii "Session")).bind fun temp =>
      (kdLookup (x.kd.getD []) (ascii "Transport")).bind fun transport =>
        if serverPort longBits transport = 0 then none
        else some { x.client with session := some (trim temp) }

theorem rtspclSetup_client {longBits : ℕ} {r r' : Rtspcl} {sock : Socket} {m : RtspClient.Memory}
    (h : rtspclSetup longBits r sock m = some r') :
    ∃ temp, r' = { r with cseq := r.cseq + 1, session := some (trim temp) } := by
  unfold rtspclSetup at h
  dsimp only at h
  split_ifs at h with hret
  obtain ⟨temp, -, h⟩ := Option.bind_eq_some_iff.mp h
  obtain ⟨transport, -, h⟩ := Option.bind_eq_some_iff.mp h
  split_ifs at h with hport
  obtain rfl := Option.some.inj h
  rw [(execRequest_sent r _ _ _ _).2]
  exact ⟨temp, rfl⟩

/-! ### The extra headers -/

theorem fillSlot_exthds {s : ExtHds} {t : List KeyData} {i : ℕ} {key data : Bytes}
    {m : ExtraHeaders.Memory} (h : (fillSlot s t i key data m).1 = true) :
    ∃ d, (fillSlot s t i key data m).2.exthds =
      some ((t.set i ⟨some key, some data⟩).set (i + 1) ⟨none, d⟩) := by
  unfold fillSlot at h ⊢
  dsimp only at h ⊢
  split_ifs at h ⊢
  exact ⟨_, rfl⟩

theorem addExthds_first {key data : Bytes} {m : ExtraHeaders.Memory}
    (h : (rtspclAddExthds {} key data m).1 = true) :
    ∃ d rest, (rtspclAddExthds {} key data m).2.exthds =
      some (⟨some key, some data⟩ :: ⟨none, d⟩ :: rest) ∧ rest ≠ [] := by
  simp only [rtspclAddExthds] at h ⊢
  split_ifs at h ⊢ with htable
  obtain ⟨d, hd⟩ := fillSlot_exthds h
  refine ⟨d, ((List.range tableSize).map m.fresh).drop 2, hd.trans ?_, ?_⟩
  · rw [set_set_succ (by simp [tableSize]; decide)]
    rfl
  · rw [← List.length_pos_iff, List.length_drop, List.length_map, List.length_range]
    decide

/-- A second header is put where the first ends. -/
theorem addExthds_second {s : ExtHds} {e : KeyData} {k : Bytes} {d : Option Bytes} {rest : List KeyData}
    (hs : s.exthds = some (e :: ⟨none, d⟩ :: rest)) (hrest : rest ≠ []) (hk : e.key = some k)
    (hmark : marked k = false) {key data : Bytes} {m : ExtraHeaders.Memory}
    (h : (rtspclAddExthds s key data m).1 = true) :
    ∃ d rest, (rtspclAddExthds s key data m).2.exthds =
      some (e :: ⟨some key, some data⟩ :: ⟨none, d⟩ :: rest) := by
  have hslot : findSlot (e :: ⟨none, d⟩ :: rest) = some 1 := by simp [findSlot, hk, hmark]
  have hadd : rtspclAddExthds s key data m = fillSlot s (e :: ⟨none, d⟩ :: rest) 1 key data m := by
    simp [rtspclAddExthds, hs, hslot]
  obtain ⟨a, rest, rfl⟩ := List.exists_cons_of_ne_nil hrest
  rw [hadd] at h ⊢
  obtain ⟨d', hd'⟩ := fillSlot_exthds h
  exact ⟨d', rest, hd'⟩

theorem Connection.emitted {c : Connection} {e : ExtHds} (h : c.exthds = some e) :
    e.emitted = [(ascii "Client-Instance", some c.sci)] := by
  simp only [Connection.exthds, Bool.not_eq_true'] at h
  split_ifs at h with hfirst hsecond
  obtain ⟨d, rest, hs, hrest⟩ := addExthds_first (Bool.not_eq_false _ ▸ hfirst)
  obtain ⟨d', rest', hs'⟩ := addExthds_second hs hrest rfl (by decide) (Bool.not_eq_false _ ▸ hsecond)
  have hne : ascii "Client-Instance" ≠ ascii "Apple-Challenge" := by decide
  have hmark : marked (ascii "Client-Instance") = false := by decide
  rw [rtspclMarkDelExthds, hs', Option.bind_some] at h
  simp only [markFirst, if_neg hne, if_true, Option.map_some, Option.some.injEq] at h
  subst h
  simp [ExtHds.emitted, emit, hmark, marked_cons]

/-! ### Lengths -/

theorem length_ascii (s : String) : (ascii s).length = s.length := by
  rw [ascii, List.length_map, String.length_toList]

theorem length_toString_le {n k : ℕ} (hk : 0 < k) (h : n < 10 ^ k) : (toString n).length ≤ k :=
  (Nat.length_repr_le_iff hk).mpr h

theorem length_toInt_le (v : BitVec 32) : (toString v.toInt).length ≤ 11 := by
  have hlow := BitVec.le_toInt v
  have hhigh := BitVec.toInt_lt (x := v)
  rw [Int.toString_eq_repr, Int.repr_eq_if]
  split_ifs with hneg
  · have hnat := length_toString_le (show 0 < 10 by omega) (show v.toInt.toNat < 10 ^ 10 by omega)
    exact Nat.le_trans hnat (by omega)
  · have hnat := length_toString_le (show 0 < 10 by omega) (show (-v.toInt).toNat < 10 ^ 10 by omega)
    rw [Nat.toString_eq_repr] at hnat
    rw [String.length_append]
    have hminus : "-".length = 1 := rfl
    omega

theorem length_inetNtoa_le (a b c d : UInt8) : (inetNtoa a b c d).length ≤ 15 := by
  have hbyte : ∀ x : UInt8, (toString x.toNat).length ≤ 3 := fun x =>
    length_toString_le (by omega) (by have := x.toNat_lt; omega)
  have hdot : ".".length = 1 := rfl
  have ha := hbyte a
  have hb := hbyte b
  have hc := hbyte c
  have hd := hbyte d
  rw [inetNtoa, length_ascii]
  simp only [String.length_append]
  omega

theorem Connection.length_sci (c : Connection) : c.sci.length = 16 := by
  rw [Connection.sci, List.length_append]
  rfl

theorem Connection.length_url_le (c : Connection) : c.url.length ≤ if c.udp then 32 else 34 := by
  have hip := length_inetNtoa_le c.address.1 c.address.2.1 c.address.2.2.1 c.address.2.2.2
  have hscheme : (ascii "rtsp://").length = 7 := rfl
  have hslash : (ascii "/").length = 1 := rfl
  rw [Connection.url, Connection.sid, List.length_append, List.length_append, List.length_append,
    hscheme, hslash]
  split_ifs with hudp
  · have hport := length_toString_le (show 0 < 5 by omega)
      (show c.buf.1.toNat % 2 ^ 16 < 10 ^ 5 by omega)
    have hfix : "3420".length = 4 := rfl
    rw [length_ascii, String.length_append]
    omega
  · have hint := length_toInt_le c.buf.1.toBitVec
    rw [length_ascii]
    omega

end Waveplay.RaopPlay.RtspSetup
