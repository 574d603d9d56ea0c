import Waveplay.Jmdns.QualifiedName

/-! # DNS messages

`DNSOutgoing.data` writes a message of questions and records, with compressed names, and the constructor
of `DNSIncoming` parses one. An exception is `none`; the flag `USE_DOMAIN_NAME_FORMAT_FOR_SRV_TARGET` has
its value, `true`. That what is sent is received is proved in `MessageRoundTrip`. -/

namespace Waveplay.Jmdns.Message

open Waveplay.Lib.Codec Waveplay.Lib.Search Waveplay.Jmdns.Stream Waveplay.Jmdns.QualifiedName

/-! ### Constants -/

/-- `DNSRecordType`. -/
inductive DNSRecordType
  | TYPE_IGNORE | TYPE_A | TYPE_NS | TYPE_MD | TYPE_MF | TYPE_CNAME | TYPE_SOA | TYPE_MB | TYPE_MG
  | TYPE_MR | TYPE_NULL | TYPE_WKS | TYPE_PTR | TYPE_HINFO | TYPE_MINFO | TYPE_MX | TYPE_TXT | TYPE_RP
  | TYPE_AFSDB | TYPE_X25 | TYPE_ISDN | TYPE_RT | TYPE_NSAP | TYPE_NSAP_PTR | TYPE_SIG | TYPE_KEY
  | TYPE_PX | TYPE_GPOS | TYPE_AAAA | TYPE_LOC | TYPE_NXT | TYPE_EID | TYPE_NIMLOC | TYPE_SRV | TYPE_ATMA
  | TYPE_NAPTR | TYPE_KX | TYPE_CERT | TYPE_A6 | TYPE_DNAME | TYPE_SINK | TYPE_OPT | TYPE_APL | TYPE_DS
  | TYPE_SSHFP | TYPE_RRSIG | TYPE_NSEC | TYPE_DNSKEY | TYPE_UINFO | TYPE_UID | TYPE_GID | TYPE_UNSPEC
  | TYPE_TKEY | TYPE_TSIG | TYPE_IXFR | TYPE_AXFR | TYPE_MAILA | TYPE_MAILB | TYPE_ANY
  deriving DecidableEq, Repr

/-- `values`. -/
def DNSRecordType.values : List DNSRecordType :=
  [.TYPE_IGNORE, .TYPE_A, .TYPE_NS, .TYPE_MD, .TYPE_MF, .TYPE_CNAME, .TYPE_SOA, .TYPE_MB, .TYPE_MG,
    .TYPE_MR, .TYPE_NULL, .TYPE_WKS, .TYPE_PTR, .TYPE_HINFO, .TYPE_MINFO, .TYPE_MX, .TYPE_TXT, .TYPE_RP,
    .TYPE_AFSDB, .TYPE_X25, .TYPE_ISDN, .TYPE_RT, .TYPE_NSAP, .TYPE_NSAP_PTR, .TYPE_SIG, .TYPE_KEY,
    .TYPE_PX, .TYPE_GPOS, .TYPE_AAAA, .TYPE_LOC, .TYPE_NXT, .TYPE_EID, .TYPE_NIMLOC, .TYPE_SRV,
    .TYPE_ATMA, .TYPE_NAPTR, .TYPE_KX, .TYPE_CERT, .TYPE_A6, .TYPE_DNAME, .TYPE_SINK, .TYPE_OPT,
    .TYPE_APL, .TYPE_DS, .TYPE_SSHFP, .TYPE_RRSIG, .TYPE_NSEC, .TYPE_DNSKEY, .TYPE_UINFO, .TYPE_UID,
    .TYPE_GID, .TYPE_UNSPEC, .TYPE_TKEY, .TYPE_TSIG, .TYPE_IXFR, .TYPE_AXFR, .TYPE_MAILA, .TYPE_MAILB,
    .TYPE_ANY]

/-- `indexValue`. -/
def DNSRecordType.indexValue : DNSRecordType → ℤ
  | .TYPE_IGNORE => 0 | .TYPE_A => 1 | .TYPE_NS => 2 | .TYPE_MD => 3 | .TYPE_MF => 4 | .TYPE_CNAME => 5
  | .TYPE_SOA => 6 | .TYPE_MB => 7 | .TYPE_MG => 8 | .TYPE_MR => 9 | .TYPE_NULL => 10 | .TYPE_WKS => 11
  | .TYPE_PTR => 12 | .TYPE_HINFO => 13 | .TYPE_MINFO => 14 | .TYPE_MX => 15 | .TYPE_TXT => 16
  | .TYPE_RP => 17 | .TYPE_AFSDB => 18 | .TYPE_X25 => 19 | .TYPE_ISDN => 20 | .TYPE_RT => 21
  | .TYPE_NSAP => 22 | .TYPE_NSAP_PTR => 23 | .TYPE_SIG => 24 | .TYPE_KEY => 25 | .TYPE_PX => 26
  | .TYPE_GPOS => 27 | .TYPE_AAAA => 28 | .TYPE_LOC => 29 | .TYPE_NXT => 30 | .TYPE_EID => 31
  | .TYPE_NIMLOC => 32 | .TYPE_SRV => 33 | .TYPE_ATMA => 34 | .TYPE_NAPTR => 35 | .TYPE_KX => 36
  | .TYPE_CERT => 37 | .TYPE_A6 => 38 | .TYPE_DNAME => 39 | .TYPE_SINK => 40 | .TYPE_OPT => 41
  | .TYPE_APL => 42 | .TYPE_DS => 43 | .TYPE_SSHFP => 44 | .TYPE_RRSIG => 46 | .TYPE_NSEC => 47
  | .TYPE_DNSKEY => 48 | .TYPE_UINFO => 100 | .TYPE_UID => 101 | .TYPE_GID => 102 | .TYPE_UNSPEC => 103
  | .TYPE_TKEY => 249 | .TYPE_TSIG => 250 | .TYPE_IXFR => 251 | .TYPE_AXFR => 252 | .TYPE_MAILA => 253
  | .TYPE_MAILB => 254 | .TYPE_ANY => 255

/-- `typeForIndex`. -/
def DNSRecordType.typeForIndex (index : ℤ) : DNSRecordType :=
  (values.find? fun aType => aType.indexValue = index).getD .TYPE_IGNORE

theorem typeForIndex_indexValue (t : DNSRecordType) : DNSRecordType.typeForIndex t.indexValue = t := by
  cases t <;> rfl

/-- `DNSRecordClass`. -/
inductive DNSRecordClass
  | CLASS_UNKNOWN | CLASS_IN | CLASS_CS | CLASS_CH | CLASS_HS | CLASS_NONE | CLASS_ANY
  deriving DecidableEq, Repr

/-- `values`. -/
def DNSRecordClass.values : List DNSRecordClass :=
  [.CLASS_UNKNOWN, .CLASS_IN, .CLASS_CS, .CLASS_CH, .CLASS_HS, .CLASS_NONE, .CLASS_ANY]

/-- `indexValue`. -/
def DNSRecordClass.indexValue : DNSRecordClass → ℤ
  | .CLASS_UNKNOWN => 0 | .CLASS_IN => 1 | .CLASS_CS => 2 | .CLASS_CH => 3 | .CLASS_HS => 4
  | .CLASS_NONE => 254 | .CLASS_ANY => 255

/-- `classForIndex`, with the bits of `CLASS_MASK`. -/
def DNSRecordClass.classForIndex (index : ℤ) : DNSRecordClass :=
  let maskedIndex := index % 0x8000
  (values.find? fun aClass => aClass.indexValue = maskedIndex).getD .CLASS_UNKNOWN

/-- `isUnique`, by the bit of `CLASS_UNIQUE`. -/
def DNSRecordClass.isUnique (c : DNSRecordClass) (index : ℤ) : Bool :=
  c ≠ .CLASS_UNKNOWN ∧ index / 0x8000 % 2 ≠ 0

/-! ### Questions and records -/

/-- The addresses of `java.net`. -/
inductive InetAddress
  | inet4 (address : {b : List UInt8 // b.length = 4})
  | inet6 (address : {b : List UInt8 // b.length = 16})
  deriving DecidableEq

/-- `InetAddress.getByAddress`: an IPv4 address that is mapped to IPv6 is an IPv4 address. -/
def InetAddress.getByAddress (raw : List UInt8) : Option InetAddress :=
  if h : raw.length = 4 then some (.inet4 ⟨raw, h⟩)
  else if h : raw.length = 16 then
    if raw.take 12 = List.replicate 10 0 ++ [0xFF, 0xFF] then
      some (.inet4 ⟨raw.drop 12, by rw [List.length_drop, h]⟩)
    else some (.inet6 ⟨raw, h⟩)
  else none

/-- What the subclasses of `DNSRecord` have of their own; an address may be `null`. -/
inductive Data
  | ipv4Address (addr : Option InetAddress)
  | ipv6Address (addr : Option InetAddress)
  | pointer (target : Text)
  | text (bytes : {b : List UInt8 // b ≠ []})
  | service (priority weight port : ℤ) (server : Text)
  | hostInformation (cpu os : Text)
  deriving DecidableEq

/-- The type that the constructors of the subclasses set. -/
def Data.recordType : Data → DNSRecordType
  | .ipv4Address _ => .TYPE_A
  | .ipv6Address _ => .TYPE_AAAA
  | .pointer _ => .TYPE_PTR
  | .text _ => .TYPE_TXT
  | .service .. => .TYPE_SRV
  | .hostInformation .. => .TYPE_HINFO

/-- The text of a record, not empty. -/
def Data.ofText (text : List UInt8) : Data :=
  if h : text ≠ [] then .text ⟨text, h⟩ else .text ⟨[0], by simp⟩

section

variable (lower : Text → Text)

/-- A `DNSQuestion`; there is none with a name that cannot be taken apart. -/
structure Question where
  name : Text
  recordType : DNSRecordType
  recordClass : DNSRecordClass
  unique : Bool
  decodes : (decodeQualifiedNameMapForType lower name).isSome

/-- A `DNSRecord`. -/
structure Record where
  name : Text
  recordClass : DNSRecordClass
  unique : Bool
  ttl : ℤ
  created : ℤ
  data : Data
  decodes : (decodeQualifiedNameMapForType lower name).isSome

end

variable {lower : Text → Text}

/-- `getExpirationTime`: the product of the two `int`s wraps. -/
def Record.getExpirationTime (r : Record lower) (percent : ℤ) : ℤ :=
  r.created + (percent * r.ttl).bmod (2 ^ 32) * 10

/-- `getRemainingTTL`. -/
def Record.getRemainingTTL (r : Record lower) (now : ℤ) : ℤ :=
  (max 0 ((r.getExpirationTime 100 - now).tdiv 1000)).bmod (2 ^ 32)

/-! ### `DNSOutgoing` -/

/-- `' '`. -/
def blank : UInt16 := 32

/-- `write` of the subclasses. An IPv6 record of an IPv4 address reads the array of the address at `-12`. -/
def Data.write : Data → Option (Emitter UInt8 Names)
  | .ipv4Address (some (.inet4 address)) => some (.const address.val)
  | .ipv4Address (some (.inet6 address)) => some (.const (address.val.drop 12))
  | .ipv6Address (some (.inet4 _)) => none
  | .ipv6Address (some (.inet6 address)) => some (.const address.val)
  | .ipv4Address none | .ipv6Address none => some (.const [])
  | .pointer target => some (writeName target)
  | .text bytes => some (.const bytes.val)
  | .service priority weight port server =>
    some ((Emitter.const (writeShort priority)).andThen ((Emitter.const (writeShort weight)).andThen
      ((Emitter.const (writeShort port)).andThen (writeName server))))
  | .hostInformation cpu os => some (.const (writeUTF (cpu ++ [blank] ++ os)))

/-- The length of what is written in front of it. -/
def sized (w : Emitter UInt8 Names) : Emitter UInt8 Names := fun names pos =>
  let out := w names (pos + 2)
  (writeShort out.1.length ++ out.1, out.2)

/-- `writeQuestion`. -/
def writeQuestion (question : Question lower) : Emitter UInt8 Names :=
  (writeName question.name).andThen
    ((Emitter.const (writeShort question.recordType.indexValue)).andThen
      (.const (writeShort question.recordClass.indexValue)))

/-- `writeRecord`. The bit of `CLASS_UNIQUE` is free in the indices of all classes. -/
def writeRecord (multicast : Bool) (now : ℤ) (record : Record lower) : Option (Emitter UInt8 Names) :=
  record.data.write.map fun w =>
    (writeName record.name).andThen
      ((Emitter.const (writeShort record.data.recordType.indexValue)).andThen
        ((Emitter.const (writeShort (record.recordClass.indexValue +
            if record.unique && multicast then 0x8000 else 0))).andThen
          ((Emitter.const (writeInt (if now = 0 then record.ttl else record.getRemainingTTL now))).andThen
            (sized w))))

/-- A `DNSOutgoing`, as far as `data` uses it. -/
structure Outgoing (lower : Text → Text) where
  id : ℤ
  flags : ℤ
  multicast : Bool
  questions : List (Question lower)
  answers : List (Record lower)
  authoritativeAnswers : List (Record lower)
  additionals : List (Record lower)

/-- The header of a message. -/
def Outgoing.header (out : Outgoing lower) : List (Emitter UInt8 Names) :=
  [if out.multicast then 0 else out.id, out.flags, out.questions.length, out.answers.length,
    out.authoritativeAnswers.length, out.additionals.length].map fun value => .const (writeShort value)

/-- **`data`**, at the time `now`. -/
def Outgoing.data (out : Outgoing lower) (now : ℤ) : Option (List UInt8) := do
  let answers ← out.answers.mapM (writeRecord out.multicast now)
  let authoritativeAnswers ← out.authoritativeAnswers.mapM (writeRecord out.multicast now)
  let additionals ← out.additionals.mapM (writeRecord out.multicast now)
  let message := (Emitter.all out.header).andThen ((Emitter.all (out.questions.map writeQuestion)).andThen
    ((Emitter.all answers).andThen ((Emitter.all authoritativeAnswers).andThen (.all additionals))))
  return (message (fun _ => none) 0).1

/-! ### `DNSIncoming` -/

/-- `newQuestion`; the constructor of `DNSEntry` takes the name apart. -/
def newQuestion (name : Text) (recordType : DNSRecordType) (recordClass : DNSRecordClass) (unique : Bool) :
    Option (Question lower) :=
  if h : (decodeQualifiedNameMapForType lower name).isSome then
    some ⟨name, recordType, recordClass, unique, h⟩
  else none

/-- The constructors of the subclasses of `DNSRecord`. -/
def newRecord (name : Text) (recordClass : DNSRecordClass) (unique : Bool) (ttl created : ℤ) (data : Data) :
    Option (Record lower) :=
  if h : (decodeQualifiedNameMapForType lower name).isSome then
    some ⟨name, recordClass, unique, ttl, created, data, h⟩
  else none

/-- `readQuestion`. -/
def readQuestion (s : In) : Option (Question lower × In) := do
  let (domain, s) ← s.readName
  let (typeIndex, s) := s.readUnsignedShort
  let (recordClassIndex, s) := s.readUnsignedShort
  let recordClass := DNSRecordClass.classForIndex recordClassIndex
  let question ← newQuestion domain (.typeForIndex typeIndex) recordClass (recordClass.isUnique recordClassIndex)
  return (question, s)

/-- The loop over the options of an OPT record, for at most `fuel` turns. -/
def readOptions : ℕ → In → In
  | 0, s => s
  | fuel + 1, s =>
    if s.available ≥ 2 then
      let (_, s) := s.readUnsignedShort
      if s.available ≥ 2 then
        let (optionLength, s) := s.readUnsignedShort
        readOptions fuel (if s.available ≥ optionLength then s.skipBytes optionLength else s)
      else s
    else s

/-- The `switch` of `readAnswer`: the data of the record, if there is one. -/
def readData (type : DNSRecordType) (ttl len : ℤ) (s : In) : Option (Option Data × In) :=
  match type with
  | .TYPE_A => (s.readBytes len).map fun (bytes, s) => (some (.ipv4Address (InetAddress.getByAddress bytes)), s)
  | .TYPE_AAAA => (s.readBytes len).map fun (bytes, s) => (some (.ipv6Address (InetAddress.getByAddress bytes)), s)
  | .TYPE_CNAME | .TYPE_PTR =>
    s.readName.map fun (service, s) => (if service.length > 0 then some (.pointer service) else none, s)
  | .TYPE_TXT => (s.readBytes len).map fun (bytes, s) => (some (.ofText bytes), s)
  | .TYPE_SRV =>
    let (priority, s) := s.readUnsignedShort
    let (weight, s) := s.readUnsignedShort
    let (port, s) := s.readUnsignedShort
    s.readName.map fun (target, s) => (some (.service priority weight port target), s)
  | .TYPE_HINFO =>
    -- there is no `StringBuilder` of a negative length
    if len < 0 then none
    else
      let (buf, s) := s.readUTF len.toNat
      let index := indexOf [blank] buf
      let cpu := trim (if index > 0 then buf.take index.toNat else buf)
      let os := trim (if index > 0 then buf.drop (index.toNat + 1) else [])
      some (some (.hostInformation cpu os), s)
  | .TYPE_OPT =>
    let version := ttl / 0x10000 % 0x100
    some (none, if version = 0 then readOptions s.available s else s)
  | _ => some (none, s.skipBytes len)

/-- What `readAnswer` gives: a record, if there is one, and the UDP payload of an OPT record. -/
structure Answer (lower : Text → Text) where
  record : Option (Record lower)
  senderUDPPayload : Option ℤ

/-- The record that `readAnswer` makes of what it has read, at the time `now`. -/
def newAnswer (now : ℤ) (domain : Text) (type : DNSRecordType) (recordClassIndex ttl : ℤ) (data : Option Data) :
    Option (Answer lower) :=
  let recordClass := if type = .TYPE_OPT then .CLASS_UNKNOWN else .classForIndex recordClassIndex
  let unique := DNSRecordClass.isUnique recordClass recordClassIndex
  let version := ttl / 0x10000 % 0x100
  let senderUDPPayload := if type = .TYPE_OPT ∧ version = 0 then some recordClassIndex else none
  match data with
  | some data => (newRecord domain recordClass unique ttl now data).map fun record =>
    ⟨some record, senderUDPPayload⟩
  | none => some ⟨none, senderUDPPayload⟩

/-- `readAnswer`, at the time `now`. -/
def readAnswer (now : ℤ) (s : In) : Option (Answer lower × In) := do
  let (domain, s) ← s.readName
  let (typeIndex, s) := s.readUnsignedShort
  let type := DNSRecordType.typeForIndex typeIndex
  let (recordClassIndex, s) := s.readUnsignedShort
  let (ttl, s) := s.readInt
  let (len, s) := s.readUnsignedShort
  let (data, s) ← readData type ttl len s
  let answer ← newAnswer now domain type recordClassIndex ttl data
  return (answer, s)

/-- A `DNSIncoming`. -/
structure Incoming (lower : Text → Text) where
  id : ℤ
  flags : ℤ
  senderUDPPayload : ℤ
  questions : List (Question lower)
  answers : List (Record lower)
  authoritativeAnswers : List (Record lower)
  additionals : List (Record lower)

/-- **The constructor of `DNSIncoming`**, at the time `now`; `MAX_MSG_TYPICAL` is the payload of a message
without OPT records. -/
def incoming (now : ℤ) (packet : List UInt8) : Option (Incoming lower) := do
  let s : In := ⟨packet, 0, fun _ => none⟩
  let (id, s) := s.readUnsignedShort
  let (flags, s) := s.readUnsignedShort
  let (numQuestions, s) := s.readUnsignedShort
  let (numAnswers, s) := s.readUnsignedShort
  let (numAuthorities, s) := s.readUnsignedShort
  let (numAdditionals, s) := s.readUnsignedShort
  let (questions, s) ← readAll readQuestion numQuestions.toNat s
  let (answers, s) ← readAll (readAnswer now) numAnswers.toNat s
  let (authorities, s) ← readAll (readAnswer now) numAuthorities.toNat s
  let (additionals, _) ← readAll (readAnswer now) numAdditionals.toNat s
  let payloads := (answers ++ authorities ++ additionals).filterMap Answer.senderUDPPayload
  return ⟨id, flags, payloads.getLastD 1460, questions, answers.filterMap Answer.record,
    authorities.filterMap Answer.record, additionals.filterMap Answer.record⟩

end Waveplay.Jmdns.Message
