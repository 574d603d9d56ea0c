import Waveplay.Jmdns.Message

/-! # Messages are received as they were sent

The names of a message refer back to names before them, in the questions as in the data of the records.
The parser comes to the same places with the same names, so that it reads every question and every record
as it was written.

* `incoming_data`: a message that is written is parsed, and has the questions and the records that were
  sent, with what the format keeps of them (`Question.received`, `Record.received`). -/

namespace Waveplay.Jmdns.MessageRoundTrip

open Waveplay.Lib.Codec Waveplay.Jmdns.Stream Waveplay.Jmdns.QualifiedName Waveplay.Jmdns.Message

variable {lower : Text → Text}

/-! ### What is received -/

/-- The data that a receiver has: numbers have 16 bits, a record that points nowhere is dropped, and
addresses are made from their bytes. -/
def receivedData : Data → Option Data
  | .ipv4Address (some (.inet6 address)) =>
    some (.ipv4Address (InetAddress.getByAddress (address.val.drop 12)))
  | .ipv6Address (some (.inet6 address)) => some (.ipv6Address (InetAddress.getByAddress address.val))
  | .pointer target => if target.length > 0 then some (.pointer target) else none
  | .service priority weight port server =>
    some (.service (priority % 65536) (weight % 65536) (port % 65536) server)
  | data => some data

/-- A question: the bit for unique answers is not written. -/
def Question.received (q : Question lower) : Question lower := { q with unique := false }

/-- A record, if it is not dropped: its life is what is left of it, and it is unique only by multicast. -/
def Record.received (multicast : Bool) (now later : ℤ) (r : Record lower) : Option (Record lower) :=
  (receivedData r.data).map fun data => { r with
    unique := r.recordClass ≠ .CLASS_UNKNOWN && (r.unique && multicast)
    ttl := r.getRemainingTTL now
    created := later
    data := data }

/-- Data whose names are domain names. -/
inductive Sendable : Data → Prop
  | ipv4Address (addr : Option InetAddress) : Sendable (.ipv4Address addr)
  | ipv6Address (addr : Option InetAddress) : Sendable (.ipv6Address addr)
  | pointer (d : Domain) : Sendable (.pointer d.text)
  | text (bytes : {b : List UInt8 // b ≠ []}) : Sendable (.text bytes)
  | service (priority weight port : ℤ) (d : Domain) : Sendable (.service priority weight port d.text)

/-! ### The data of a record -/

/-- `readData` reads `x` off what `w` writes, with the length of it. -/
def ReadsData (w : Emitter UInt8 Names) (type : DNSRecordType) (ttl : ℤ) (x : Option Data) : Prop :=
  ∀ (names : Names) (pos : ℕ) (s : In) (rest : List UInt8), Agree names pos s →
    s.rest = (w names pos).1 ++ rest → ∃ s', readData type ttl (w names pos).1.length s = some (x, s') ∧
      s'.rest = rest ∧ Agree (w names pos).2 (pos + (w names pos).1.length) s'

theorem getByAddress_inet4 (address : {b : List UInt8 // b.length = 4}) :
    InetAddress.getByAddress address.val = some (.inet4 address) := by
  rw [InetAddress.getByAddress, dif_pos address.property]

theorem readsData_const {bs : List UInt8} {type : DNSRecordType} {f : List UInt8 → Data} (ttl : ℤ)
    (h : ∀ len s, readData type ttl len s = (s.readBytes len).map fun out => (some (f out.1), out.2)) :
    ReadsData (.const bs) type ttl (some (f bs)) := by
  intro names pos s rest hagree hrest
  rw [h]
  exact ((reads_bytes bs).map fun bytes => some (f bytes)) names pos s rest hagree hrest

/-- The target of a service, after the numbers. -/
def readTarget (priority weight port : ℤ) (s : In) : Option (Option Data × In) :=
  s.readName.map fun out => (some (.service priority weight port out.1), out.2)

theorem readData_srv (ttl len : ℤ) (s : In) : readData .TYPE_SRV ttl len s =
    (some s.readUnsignedShort).bind fun out => (some out.2.readUnsignedShort).bind fun out' =>
      (some out'.2.readUnsignedShort).bind fun out'' => readTarget out.1 out'.1 out''.1 out''.2 := by
  simp only [readData, Option.bind_some, readTarget]

theorem reads_service (priority weight port : ℤ) (d : Domain) :
    Reads Agree In.rest ((Emitter.const (writeShort priority)).andThen ((Emitter.const (writeShort weight)).andThen
        ((Emitter.const (writeShort port)).andThen (writeName d.text))))
      (fun s => (some s.readUnsignedShort).bind fun out => (some out.2.readUnsignedShort).bind fun out' =>
        (some out'.2.readUnsignedShort).bind fun out'' => readTarget out.1 out'.1 out''.1 out''.2)
      (some (.service (priority % 65536) (weight % 65536) (port % 65536) d.text)) := by
  have htarget : Reads Agree In.rest (writeName d.text)
      (readTarget (priority % 65536) (weight % 65536) (port % 65536))
      (some (.service (priority % 65536) (weight % 65536) (port % 65536) d.text)) :=
    (reads_name d).map fun target =>
      some (Data.service (priority % 65536) (weight % 65536) (port % 65536) target)
  have hport := (reads_short port).andThen (q := readTarget (priority % 65536) (weight % 65536)) htarget
  have hweight := (reads_short weight).andThen
    (q := fun weight s => (some (In.readUnsignedShort s)).bind fun out =>
      readTarget (priority % 65536) weight out.1 out.2) hport
  exact (reads_short priority).andThen
    (q := fun priority s => (some (In.readUnsignedShort s)).bind fun out =>
      (some out.2.readUnsignedShort).bind fun out' => readTarget priority out.1 out'.1 out'.2) hweight

theorem readsData {data : Data} (h : Sendable data) {w : Emitter UInt8 Names} (hw : data.write = some w)
    (ttl : ℤ) : ReadsData w data.recordType ttl (receivedData data) := by
  cases h with
  | ipv4Address addr =>
    have hbytes : ∀ bs, Emitter.const bs = w →
        ReadsData w .TYPE_A ttl (some (.ipv4Address (InetAddress.getByAddress bs))) := by
      rintro bs rfl
      exact readsData_const (f := fun bs => .ipv4Address (InetAddress.getByAddress bs)) ttl fun _ _ => rfl
    rcases addr with _ | address | address
    · exact hbytes [] (Option.some.inj hw)
    · have := hbytes address.val (Option.some.inj hw)
      rwa [getByAddress_inet4] at this
    · exact hbytes (address.val.drop 12) (Option.some.inj hw)
  | ipv6Address addr =>
    have hbytes : ∀ bs, Emitter.const bs = w →
        ReadsData w .TYPE_AAAA ttl (some (.ipv6Address (InetAddress.getByAddress bs))) := by
      rintro bs rfl
      exact readsData_const (f := fun bs => .ipv6Address (InetAddress.getByAddress bs)) ttl fun _ _ => rfl
    rcases addr with _ | address | address
    · exact hbytes [] (Option.some.inj hw)
    · exact absurd hw (by simp [Data.write])
    · exact hbytes address.val (Option.some.inj hw)
  | pointer d =>
    obtain rfl : writeName d.text = w := Option.some.inj hw
    exact (reads_name d).map fun service => if service.length > 0 then some (Data.pointer service) else none
  | text bytes =>
    obtain rfl : Emitter.const bytes.val = w := Option.some.inj hw
    have hread : ReadsData (.const bytes.val) .TYPE_TXT ttl (some (Data.ofText bytes.val)) :=
      readsData_const ttl fun _ _ => rfl
    rw [Data.ofText, dif_pos bytes.property] at hread
    exact hread
  | service priority weight port d =>
    obtain rfl := Option.some.inj hw
    intro names pos s rest hagree hrest
    rw [Data.recordType, readData_srv]
    exact reads_service priority weight port d names pos s rest hagree hrest

theorem reads_sized {w : Emitter UInt8 Names} {type : DNSRecordType} {ttl : ℤ} {x : Option Data}
    (h : ReadsData w type ttl x) : Reads Agree In.rest (sized w)
      (fun s => readData type ttl s.readUnsignedShort.1 s.readUnsignedShort.2) x := by
  intro names pos s rest hagree hrest
  simp only [sized] at hrest ⊢
  generalize hout : w names (pos + 2) = out at hrest ⊢
  rw [List.append_assoc] at hrest
  have hlen : out.1.length ≤ 0x4000 := by
    have hall := congrArg List.length hrest
    have hsmall := hagree.small
    rw [In.rest, List.length_drop, List.length_append, List.length_append] at hall
    omega
  have hread := readUnsignedShort_of_rest hrest
  have hmod : (out.1.length : ℤ) % 65536 = out.1.length := by omega
  rw [hread, hmod]
  have hskip : (s.skip 2).rest = (w names (pos + 2)).1 ++ rest := hout ▸ rest_skip hrest
  obtain ⟨s', hdata, hrest', hagree'⟩ := h names (pos + 2) (s.skip 2) rest (hagree.skip 2) hskip
  rw [hout] at hdata hagree'
  refine ⟨s', hdata, hrest', ?_⟩
  rw [List.length_append, ← Nat.add_assoc]
  exact hagree'

/-! ### Questions and records -/

theorem classForIndex_indexValue (c : DNSRecordClass) (unique : Bool) :
    DNSRecordClass.classForIndex ((c.indexValue + if unique then 0x8000 else 0) % 65536) = c ∧
      c.isUnique ((c.indexValue + if unique then 0x8000 else 0) % 65536) =
        (c ≠ .CLASS_UNKNOWN && unique) := by
  cases c <;> cases unique <;> decide

theorem indexValue_mod (t : DNSRecordType) : t.indexValue % 65536 = t.indexValue := by
  cases t <;> rfl

/-- The question that is made of what was read. -/
def questionOf (domain : Text) (typeIndex recordClassIndex : ℤ) : Option (Question lower) :=
  newQuestion domain (.typeForIndex typeIndex) (.classForIndex recordClassIndex)
    ((DNSRecordClass.classForIndex recordClassIndex).isUnique recordClassIndex)

theorem readQuestion_eq : (readQuestion : In → Option (Question lower × In)) = fun s =>
    s.readName.bind fun out => (some out.2.readUnsignedShort).bind fun out' =>
      (some out'.2.readUnsignedShort).bind fun out'' =>
        (questionOf out.1 out'.1 out''.1).map (·, out''.2) := by
  funext s
  simp only [readQuestion, questionOf, Option.bind_eq_bind, Option.bind_some, Option.map_eq_bind]
  rfl

theorem reads_question {q : Question lower} {d : Domain} (hname : q.name = d.text) :
    Reads Agree In.rest (writeQuestion q) readQuestion (Question.received q) := by
  have hquestion : questionOf d.text (q.recordType.indexValue % 65536) (q.recordClass.indexValue % 65536) =
      some (Question.received q) := by
    obtain ⟨hclass, hunique⟩ := classForIndex_indexValue q.recordClass false
    simp only [Bool.false_eq_true, if_false, Int.add_zero, Bool.and_false] at hclass hunique
    rw [questionOf, hclass, hunique, indexValue_mod, typeForIndex_indexValue, ← hname, newQuestion,
      dif_pos q.decodes]
    rfl
  rw [readQuestion_eq, writeQuestion, hname]
  have hclass := (reads_short q.recordClass.indexValue).bind hquestion
  have htype := (reads_short q.recordType.indexValue).andThen
    (q := fun typeIndex s => (some (In.readUnsignedShort s)).bind fun out =>
      (questionOf d.text typeIndex out.1).map (·, out.2)) hclass
  exact (reads_name d).andThen
    (q := fun domain s => (some (In.readUnsignedShort s)).bind fun out =>
      (some (In.readUnsignedShort out.2)).bind fun out' =>
        (questionOf domain out.1 out'.1).map (·, out'.2)) htype

theorem readAnswer_eq (now : ℤ) : (readAnswer now : In → Option (Answer lower × In)) = fun s =>
    s.readName.bind fun out => (some out.2.readUnsignedShort).bind fun out₁ =>
      (some out₁.2.readUnsignedShort).bind fun out₂ => (some out₂.2.readInt).bind fun out₃ =>
        (readData (.typeForIndex out₁.1) out₃.1 out₃.2.readUnsignedShort.1 out₃.2.readUnsignedShort.2).bind
          fun out₄ => (newAnswer now out.1 (.typeForIndex out₁.1) out₂.1 out₃.1 out₄.1).map (·, out₄.2) := by
  funext s
  simp only [readAnswer, Option.bind_eq_bind, Option.bind_some, Option.map_eq_bind]
  rfl

theorem newAnswer_received (multicast : Bool) (now later : ℤ) (r : Record lower) :
    newAnswer later r.name r.data.recordType
        ((r.recordClass.indexValue + if r.unique && multicast then 0x8000 else 0) % 65536)
        (r.getRemainingTTL now) (receivedData r.data) =
      some ⟨Record.received multicast now later r, none⟩ := by
  have hopt : r.data.recordType ≠ .TYPE_OPT := by cases r.data <;> simp [Data.recordType]
  obtain ⟨hclass, hunique⟩ := classForIndex_indexValue r.recordClass (r.unique && multicast)
  cases hdata : receivedData r.data with
  | none =>
    simp only [newAnswer, Record.received, hdata, hopt, false_and, if_false]
    rfl
  | some data =>
    simp only [newAnswer, Record.received, hdata, hopt, false_and, if_false, hclass, hunique, newRecord,
      r.decodes, dif_pos]
    rfl

theorem reads_record {multicast : Bool} {now : ℤ} (later : ℤ) (hnow : now ≠ 0) {r : Record lower} {d : Domain}
    (hname : r.name = d.text) (hdata : Sendable r.data) {w : Emitter UInt8 Names}
    (hw : writeRecord multicast now r = some w) :
    Reads Agree In.rest w (readAnswer later) ⟨Record.received multicast now later r, none⟩ := by
  obtain ⟨w', hw', rfl⟩ := Option.map_eq_some_iff.mp hw
  have hanswer := newAnswer_received multicast now later r
  have httl : (r.getRemainingTTL now).bmod (2 ^ 32) = r.getRemainingTTL now := Int.bmod_bmod
  have htype : DNSRecordType.typeForIndex (r.data.recordType.indexValue % 65536) = r.data.recordType := by
    rw [indexValue_mod, typeForIndex_indexValue]
  rw [readAnswer_eq, hname, if_neg hnow]
  rw [hname] at hanswer
  have hsized := (reads_sized (readsData hdata hw' (r.getRemainingTTL now))).bind hanswer
  have hint := (httl ▸ reads_int (r.getRemainingTTL now)).andThen
    (q := fun ttl s => (readData r.data.recordType ttl (In.readUnsignedShort s).1 s.readUnsignedShort.2).bind
      fun out => (newAnswer later d.text r.data.recordType _ ttl out.1).map (·, out.2)) hsized
  have hclass := (reads_short (r.recordClass.indexValue + if r.unique && multicast then 0x8000 else 0)).andThen
    (q := fun classIndex s => (some (In.readInt s)).bind fun out =>
      (readData r.data.recordType out.1 out.2.readUnsignedShort.1 out.2.readUnsignedShort.2).bind
        fun out' => (newAnswer later d.text r.data.recordType classIndex out.1 out'.1).map (·, out'.2)) hint
  rw [← htype] at hclass
  have htype' := (reads_short r.data.recordType.indexValue).andThen
    (q := fun typeIndex s => (some (In.readUnsignedShort s)).bind fun out₂ =>
      (some out₂.2.readInt).bind fun out₃ =>
        (readData (.typeForIndex typeIndex) out₃.1 out₃.2.readUnsignedShort.1 out₃.2.readUnsignedShort.2).bind
          fun out₄ => (newAnswer later d.text (.typeForIndex typeIndex) out₂.1 out₃.1 out₄.1).map (·, out₄.2))
    hclass
  exact (reads_name d).andThen
    (q := fun domain s => (some (In.readUnsignedShort s)).bind fun out₁ =>
      (some out₁.2.readUnsignedShort).bind fun out₂ => (some out₂.2.readInt).bind fun out₃ =>
        (readData (.typeForIndex out₁.1) out₃.1 out₃.2.readUnsignedShort.1 out₃.2.readUnsignedShort.2).bind
          fun out₄ => (newAnswer later domain (.typeForIndex out₁.1) out₂.1 out₃.1 out₄.1).map (·, out₄.2))
    htype'

/-! ### Messages -/

/-- The message that is made of what was read. -/
def messageOf (header : List ℤ) (questions : List (Question lower))
    (answers authorities additionals : List (Answer lower)) : Incoming lower :=
  ⟨header.getD 0 0, header.getD 1 0,
    ((answers ++ authorities ++ additionals).filterMap Answer.senderUDPPayload).getLastD 1460,
    questions, answers.filterMap Answer.record, authorities.filterMap Answer.record,
    additionals.filterMap Answer.record⟩

/-- The part of a message after the header. -/
def readSections (now : ℤ) (header : List ℤ) (s : In) : Option (Incoming lower × In) :=
  (readAll readQuestion (header.getD 2 0).toNat s).bind fun out =>
    (readAll (readAnswer now) (header.getD 3 0).toNat out.2).bind fun out₁ =>
      (readAll (readAnswer now) (header.getD 4 0).toNat out₁.2).bind fun out₂ =>
        (readAll (readAnswer now) (header.getD 5 0).toNat out₂.2).map fun out₃ =>
          (messageOf header out.1 out₁.1 out₂.1 out₃.1, out₃.2)

theorem incoming_eq (now : ℤ) (packet : List UInt8) : (incoming now packet : Option (Incoming lower)) =
    ((readAll (fun s => some (In.readUnsignedShort s)) 6 ⟨packet, 0, fun _ => none⟩).bind fun out =>
      readSections now out.1 out.2).map Prod.fst := by
  have hheader : ∀ s : In, readAll (fun s => some (In.readUnsignedShort s)) 6 s = _ := fun s => by
    simp only [readAll, Option.bind_some, Option.map_some]
    rfl
  rw [hheader, Option.bind_some, readSections]
  simp only [incoming, List.getD_cons_zero, List.getD_cons_succ, Function.comp_def, Option.bind_eq_bind,
    Option.map_eq_bind, Option.pure_def, Option.bind_assoc, Option.bind_some, messageOf]

/-- All names of a message are domain names. -/
structure Named (out : Outgoing lower) : Prop where
  questions : ∀ q ∈ out.questions, ∃ d : Domain, q.name = d.text
  answers : ∀ r ∈ out.answers, Sendable r.data ∧ ∃ d : Domain, r.name = d.text
  authoritativeAnswers : ∀ r ∈ out.authoritativeAnswers, Sendable r.data ∧ ∃ d : Domain, r.name = d.text
  additionals : ∀ r ∈ out.additionals, Sendable r.data ∧ ∃ d : Domain, r.name = d.text

theorem reads_records {multicast : Bool} {now : ℤ} (later : ℤ) (hnow : now ≠ 0) {rs : List (Record lower)}
    (hrs : ∀ r ∈ rs, Sendable r.data ∧ ∃ d : Domain, r.name = d.text) {ws : List (Emitter UInt8 Names)}
    (hws : rs.mapM (writeRecord multicast now) = some ws) :
    Reads Agree In.rest (.all ws) (readAll (readAnswer later) rs.length)
      (rs.map fun r => ⟨Record.received multicast now later r, none⟩) := by
  refine Reads.mapM hws fun r hr w hw => ?_
  obtain ⟨hdata, d, hname⟩ := hrs r hr
  exact reads_record later hnow hname hdata hw

theorem filterMap_record (f : Record lower → Option (Record lower)) (rs : List (Record lower)) :
    (rs.map fun r => (⟨f r, none⟩ : Answer lower)).filterMap Answer.record = rs.filterMap f := by
  rw [List.filterMap_map]
  rfl

theorem filterMap_payload (f : Record lower → Option (Record lower)) (rs : List (Record lower)) :
    (rs.map fun r => (⟨f r, none⟩ : Answer lower)).filterMap Answer.senderUDPPayload = [] := by
  rw [List.filterMap_map, List.filterMap_eq_nil_iff]
  intros
  rfl

theorem writeRecord_ne_nil {multicast : Bool} {now : ℤ} {r : Record lower} {d : Domain} (hname : r.name = d.text)
    {w : Emitter UInt8 Names} (hw : writeRecord multicast now r = some w) (names : Names) (pos : ℕ) :
    (w names pos).1 ≠ [] := by
  obtain ⟨w', -, rfl⟩ := Option.map_eq_some_iff.mp hw
  intro h
  rw [hname] at h
  exact writeName_ne_nil d names pos (List.append_eq_nil_iff.mp h).1

theorem length_records_le {multicast : Bool} {now : ℤ} {rs : List (Record lower)}
    (hrs : ∀ r ∈ rs, Sendable r.data ∧ ∃ d : Domain, r.name = d.text) {ws : List (Emitter UInt8 Names)}
    (hws : rs.mapM (writeRecord multicast now) = some ws) (names : Names) (pos : ℕ) :
    rs.length ≤ (Emitter.all ws names pos).1.length := by
  refine length_le_mapM (fun r hr w hw names pos => ?_) hws names pos
  obtain ⟨-, d, hname⟩ := hrs r hr
  exact writeRecord_ne_nil hname hw names pos

theorem length_questions_le {qs : List (Question lower)} (hqs : ∀ q ∈ qs, ∃ d : Domain, q.name = d.text)
    (names : Names) (pos : ℕ) : qs.length ≤ (Emitter.all (qs.map writeQuestion) names pos).1.length := by
  have hws : qs.mapM (fun q => some (writeQuestion q)) = some (qs.map writeQuestion) := List.mapM_pure
  refine length_le_mapM (fun q hq w hw names pos h => ?_) hws names pos
  obtain ⟨d, hname⟩ := hqs q hq
  obtain rfl := Option.some.inj hw
  rw [writeQuestion, hname] at h
  exact writeName_ne_nil d names pos (List.append_eq_nil_iff.mp h).1

/-- What is received of a message. -/
def Outgoing.received (now later : ℤ) (out : Outgoing lower) : Incoming lower where
  id := (if out.multicast then 0 else out.id) % 65536
  flags := out.flags % 65536
  senderUDPPayload := 1460
  questions := out.questions.map Question.received
  answers := out.answers.filterMap (Record.received out.multicast now later)
  authoritativeAnswers := out.authoritativeAnswers.filterMap (Record.received out.multicast now later)
  additionals := out.additionals.filterMap (Record.received out.multicast now later)

/-- The numbers of the header, as they are read. -/
def Outgoing.numbers (out : Outgoing lower) : List ℤ :=
  [(if out.multicast then 0 else out.id) % 65536, out.flags % 65536, out.questions.length, out.answers.length,
    out.authoritativeAnswers.length, out.additionals.length]

theorem reads_sections {out : Outgoing lower} (hout : Named out) {now : ℤ} (hnow : now ≠ 0) (later : ℤ)
    {ws₁ ws₂ ws₃ : List (Emitter UInt8 Names)}
    (hws₁ : out.answers.mapM (writeRecord out.multicast now) = some ws₁)
    (hws₂ : out.authoritativeAnswers.mapM (writeRecord out.multicast now) = some ws₂)
    (hws₃ : out.additionals.mapM (writeRecord out.multicast now) = some ws₃) :
    Reads Agree In.rest ((Emitter.all (out.questions.map writeQuestion)).andThen
        ((Emitter.all ws₁).andThen ((Emitter.all ws₂).andThen (.all ws₃))))
      (readSections later (Outgoing.numbers out)) (Outgoing.received now later out) := by
  have hquestions : Reads Agree In.rest (.all (out.questions.map writeQuestion))
      (readAll readQuestion out.questions.length) (out.questions.map Question.received) := by
    refine Reads.all fun q hq => ?_
    obtain ⟨d, hname⟩ := hout.questions q hq
    exact reads_question hname
  have hanswers := reads_records later hnow hout.answers hws₁
  have hauthorities := reads_records later hnow hout.authoritativeAnswers hws₂
  have hadditionals := reads_records later hnow hout.additionals hws₃
  have hvalue : Outgoing.received now later out = messageOf (Outgoing.numbers out)
      (out.questions.map Question.received)
      (out.answers.map fun r => ⟨Record.received out.multicast now later r, none⟩)
      (out.authoritativeAnswers.map fun r => ⟨Record.received out.multicast now later r, none⟩)
      (out.additionals.map fun r => ⟨Record.received out.multicast now later r, none⟩) := by
    simp only [messageOf, List.filterMap_append, filterMap_record, filterMap_payload]
    rfl
  rw [hvalue]
  have h₃ := hadditionals.map (messageOf (Outgoing.numbers out) (out.questions.map Question.received)
    (out.answers.map fun r => ⟨Record.received out.multicast now later r, none⟩)
    (out.authoritativeAnswers.map fun r => ⟨Record.received out.multicast now later r, none⟩))
  have h₂ := hauthorities.andThen
    (q := fun bs s => (readAll (readAnswer later) out.additionals.length s).map fun out₃ =>
      (messageOf (Outgoing.numbers out) (out.questions.map Question.received)
        (out.answers.map fun r => ⟨Record.received out.multicast now later r, none⟩) bs out₃.1, out₃.2)) h₃
  have h₁ := hanswers.andThen
    (q := fun as s => (readAll (readAnswer later) out.authoritativeAnswers.length s).bind fun out₂ =>
      (readAll (readAnswer later) out.additionals.length out₂.2).map fun out₃ =>
        (messageOf (Outgoing.numbers out) (out.questions.map Question.received) as out₂.1 out₃.1, out₃.2)) h₂
  exact hquestions.andThen
    (q := fun qs s => (readAll (readAnswer later) out.answers.length s).bind fun out₁ =>
      (readAll (readAnswer later) out.authoritativeAnswers.length out₁.2).bind fun out₂ =>
        (readAll (readAnswer later) out.additionals.length out₂.2).map fun out₃ =>
          (messageOf (Outgoing.numbers out) qs out₁.1 out₂.1 out₃.1, out₃.2)) h₁

/-- **What is sent is received.** The parser takes a message of at most 16384 bytes, and has its questions
and its records. -/
theorem incoming_data {out : Outgoing lower} (hout : Named out) {now : ℤ} (hnow : now ≠ 0) (later : ℤ)
    {packet : List UInt8} (hdata : out.data now = some packet) (hsmall : packet.length ≤ 0x4000) :
    incoming later packet = some (Outgoing.received now later out) := by
  simp only [Outgoing.data, Option.bind_eq_bind, Option.bind_eq_some_iff] at hdata
  obtain ⟨ws₁, hws₁, ws₂, hws₂, ws₃, hws₃, hpacket⟩ := hdata
  obtain rfl := Option.some.inj hpacket
  have hsections := reads_sections hout hnow later hws₁ hws₂ hws₃
  have hquestions : out.questions.length ≤ 0x4000 :=
    (le_andThen_right (le_andThen_left (length_questions_le hout.questions)) _ _).trans hsmall
  have hanswers : out.answers.length ≤ 0x4000 :=
    (le_andThen_right (le_andThen_right (le_andThen_left (length_records_le hout.answers hws₁))) _ _).trans hsmall
  have hauthorities : out.authoritativeAnswers.length ≤ 0x4000 :=
    (le_andThen_right (le_andThen_right (le_andThen_right
      (le_andThen_left (length_records_le hout.authoritativeAnswers hws₂)))) _ _).trans hsmall
  have hadditionals : out.additionals.length ≤ 0x4000 :=
    (le_andThen_right (le_andThen_right (le_andThen_right
      (le_andThen_right (length_records_le hout.additionals hws₃)))) _ _).trans hsmall
  generalize hbody : (Emitter.all (out.questions.map writeQuestion)).andThen
    ((Emitter.all ws₁).andThen ((Emitter.all ws₂).andThen (.all ws₃))) = body at *
  have hheader : Reads Agree In.rest (.all out.header) (readAll (fun s => some (In.readUnsignedShort s)) 6)
      (Outgoing.numbers out) := by
    have hmod : ∀ n : ℕ, n ≤ 0x4000 → (n : ℤ) % 65536 = n := by omega
    have hall : Reads Agree In.rest (.all out.header) (readAll (fun s => some (In.readUnsignedShort s)) 6)
        ([if out.multicast then 0 else out.id, out.flags, out.questions.length, out.answers.length,
          out.authoritativeAnswers.length, out.additionals.length].map fun v => v % 65536) :=
      Reads.all fun v _ => reads_short v
    simp only [List.map_cons, List.map_nil, hmod _ hquestions, hmod _ hanswers, hmod _ hauthorities,
      hmod _ hadditionals] at hall
    exact hall
  have hagree : Agree (fun _ => none) 0 ⟨((Emitter.all out.header).andThen body (fun _ => none) 0).1, 0,
      fun _ => none⟩ := ⟨rfl, hsmall, fun t o h => by simp at h⟩
  obtain ⟨s', hread, -, -⟩ := hheader.andThen (q := readSections later) hsections _ _ _ [] hagree
    (by rw [List.append_nil]; rfl)
  rw [incoming_eq]
  exact congrArg (Option.map Prod.fst) hread

end Waveplay.Jmdns.MessageRoundTrip
