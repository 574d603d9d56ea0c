import Waveplay.Jmdns.MessageRoundTrip
import Waveplay.Jmdns.MessageSize

/-! # Messages of a task

A `DNSTask` adds questions and records to a `DNSOutgoing`. If there is no room, it sends the message and
begins a new one. The room is reckoned from bytes that are written with the names of the calls so far,
while the message is written again when it is sent, in the order of its sections.

* `run_delivers`: whatever a task adds, in whatever order, is in the messages, nothing twice and nothing
  lost, and every packet is shorter than the payload it was made for;
* `run_received`: every packet is parsed, with all that is in it. -/

namespace Waveplay.Jmdns.Outbox

open Waveplay.Lib.Codec Waveplay.Lib.Dictionary Waveplay.Jmdns.Stream Waveplay.Jmdns.QualifiedName
open Waveplay.Jmdns.Message Waveplay.Jmdns.MessageSize Waveplay.Jmdns.MessageRoundTrip

variable {lower : Text → Text}

/-! ### Known answers -/

/-- `getKey`. -/
def recordKey (r : Record lower) : Text :=
  (decodeQualifiedNameMapForType lower r.name).elim [] (Fields.entryKey lower)

/-- `equals` of addresses; there is a `NullPointerException` if the first of them is `null` and the other
one is, too. -/
def sameAddress : Option InetAddress → Option InetAddress → Option Bool
  | none, some _ => some false
  | none, none => none
  | some a, b => some (some a = b)

/-- `sameValue`. -/
def sameValue : Data → Data → Option Bool
  | .ipv4Address a, .ipv4Address b | .ipv4Address a, .ipv6Address b => sameAddress a b
  | .ipv6Address a, .ipv4Address b | .ipv6Address a, .ipv6Address b => sameAddress a b
  | .pointer a, .pointer b => some (a = b)
  | .text a, .text b => some (a = b)
  | .service priority weight port server, .service priority' weight' port' server' =>
    some (priority = priority' ∧ weight = weight' ∧ port = port' ∧ server = server')
  | .hostInformation cpu os, .hostInformation cpu' os' => some (cpu = cpu' ∧ os = os')
  | _, _ => some false

/-- `equals`. -/
def equals (r other : Record lower) : Option Bool :=
  if recordKey r = recordKey other ∧ r.data.recordType = other.data.recordType ∧
      r.recordClass = other.recordClass then sameValue r.data other.data
  else some false

/-- `suppressedBy` of a message. -/
def suppressedBy (msg : Incoming lower) (r : Record lower) : Option Bool :=
  (msg.answers ++ msg.authoritativeAnswers ++ msg.additionals).anyM fun answer =>
    (equals r answer).map fun same => same && answer.ttl > r.ttl.tdiv 2

/-- `isExpired`. -/
def isExpired (now : ℤ) (r : Record lower) : Prop := r.getExpirationTime 100 ≤ now

instance (now : ℤ) (r : Record lower) : Decidable (isExpired now r) := Int.decLe _ _

/-! ### `DNSOutgoing` -/

/-- A `DNSOutgoing`. -/
structure Draft (lower : Text → Text) where
  message : Outgoing lower
  names : Names
  maxUDPPayload : ℤ
  questionsBytes : List UInt8
  answersBytes : List UInt8
  authoritativeAnswersBytes : List UInt8
  additionalsAnswersBytes : List UInt8

/-- `_maxUDPPayload`. -/
def maxPayload (senderUDPPayload : ℤ) : ℤ := if senderUDPPayload > 0 then senderUDPPayload else 1460

/-- The constructor; there are no streams of a negative size. -/
def newOutgoing (flags : ℤ) (multicast : Bool) (senderUDPPayload : ℤ) : Option (Draft lower) :=
  if senderUDPPayload < 0 then none
  else some {
    message := ⟨0, flags, multicast, [], [], [], []⟩
    names := fun _ => none
    maxUDPPayload := maxPayload senderUDPPayload
    questionsBytes := []
    answersBytes := []
    authoritativeAnswersBytes := []
    additionalsAnswersBytes := [] }

/-- `availableSpace`. -/
def Draft.availableSpace (d : Draft lower) : ℤ :=
  d.maxUDPPayload - 12 - d.questionsBytes.length - d.answersBytes.length - d.authoritativeAnswersBytes.length -
    d.additionalsAnswersBytes.length

/-- `addQuestion`, and whether the message was not full. -/
def Draft.addQuestion (q : Question lower) (d : Draft lower) : Draft lower × Bool :=
  let byteArray := writeQuestion q d.names 0
  let d := { d with names := byteArray.2 }
  if (byteArray.1.length : ℤ) < d.availableSpace then
    ({ d with
      message := { d.message with questions := d.message.questions ++ [q] }
      questionsBytes := d.questionsBytes ++ byteArray.1 }, true)
  else (d, false)

/-- The lists of records. -/
inductive Section
  | answers
  | authoritativeAnswers
  | additionals
  deriving DecidableEq

/-- Add a record to its list, and its bytes. -/
def Draft.put (r : Record lower) (byteArray : List UInt8) (d : Draft lower) : Section → Draft lower
  | .answers => { d with
    message := { d.message with answers := d.message.answers ++ [r] }
    answersBytes := d.answersBytes ++ byteArray }
  | .authoritativeAnswers => { d with
    message := { d.message with authoritativeAnswers := d.message.authoritativeAnswers ++ [r] }
    authoritativeAnswersBytes := d.authoritativeAnswersBytes ++ byteArray }
  | .additionals => { d with
    message := { d.message with additionals := d.message.additionals ++ [r] }
    additionalsAnswersBytes := d.additionalsAnswersBytes ++ byteArray }

/-- What the methods that add a record have in common. -/
def Draft.addRecord (list : Section) (now : ℤ) (r : Record lower) (d : Draft lower) :
    Option (Draft lower × Bool) :=
  (writeRecord d.message.multicast now r).map fun w =>
    let byteArray := w d.names 0
    let d := { d with names := byteArray.2 }
    if (byteArray.1.length : ℤ) < d.availableSpace then (d.put r byteArray.1 list, true) else (d, false)

/-- `addAnswer`, at a time. -/
def Draft.addAnswerAt (r : Record lower) (now : ℤ) (d : Draft lower) : Option (Draft lower × Bool) :=
  if now = 0 ∨ ¬ isExpired now r then d.addRecord .answers now r else some (d, true)

/-- `addAnswer`, to a query. -/
def Draft.addAnswer (query : Option (Incoming lower)) (r : Record lower) (d : Draft lower) :
    Option (Draft lower × Bool) := do
  let suppressed ← query.elim (some false) (suppressedBy · r)
  if suppressed then some (d, true) else d.addAnswerAt r 0

/-- `addAuthorativeAnswer`. -/
def Draft.addAuthorativeAnswer (r : Record lower) (d : Draft lower) : Option (Draft lower × Bool) :=
  d.addRecord .authoritativeAnswers 0 r

/-- `addAdditionalAnswer`. -/
def Draft.addAdditionalAnswer (r : Record lower) (d : Draft lower) : Option (Draft lower × Bool) :=
  d.addRecord .additionals 0 r

/-! ### `DNSTask` -/

/-- A call of one of the methods that add something to a message. -/
inductive Call (lower : Text → Text)
  | question (q : Question lower)
  | answer (query : Option (Incoming lower)) (r : Record lower)
  | answerAt (r : Record lower) (now : ℤ)
  | authoritativeAnswer (r : Record lower)
  | additionalAnswer (r : Record lower)

/-- The method of `DNSOutgoing` that is called. -/
def Draft.add (d : Draft lower) : Call lower → Option (Draft lower × Bool)
  | .question q => some (d.addQuestion q)
  | .answer query r => d.addAnswer query r
  | .answerAt r now => d.addAnswerAt r now
  | .authoritativeAnswer r => d.addAuthorativeAnswer r
  | .additionalAnswer r => d.addAdditionalAnswer r

/-- `isEmpty`. -/
def isEmpty (message : Outgoing lower) : Prop :=
  message.questions.length + message.answers.length + message.authoritativeAnswers.length +
    message.additionals.length = 0

instance (message : Outgoing lower) : Decidable (isEmpty message) := Nat.decEq _ _

/-- A message that was sent. -/
structure Packet (lower : Text → Text) where
  message : Outgoing lower
  time : ℤ
  bytes : List UInt8
  data : message.data time = some bytes

/-- `send`, at a time: an empty message is not sent. -/
def send (time : ℤ) (message : Outgoing lower) (sent : List (Packet lower)) : Option (List (Packet lower)) :=
  if isEmpty message then some sent
  else
    match h : message.data time with
    | some bytes => some (sent ++ [⟨message, time, bytes, h⟩])
    | none => none

/-- A task with its message, and what it has sent. -/
structure Task (lower : Text → Text) where
  out : Draft lower
  sent : List (Packet lower)

/-- The message that is sent if there is no room: `FLAGS_TC` is set. -/
def truncated (message : Outgoing lower) : Outgoing lower := { message with
  flags := if message.flags / 0x200 % 2 = 0 then message.flags + 0x200 else message.flags
  id := if message.multicast then 0 else message.id }

/-- **The methods of `DNSTask`**, at a time. -/
def Task.add (time : ℤ) (c : Call lower) (t : Task lower) : Option (Task lower) := do
  let (out, added) ← t.out.add c
  if added then return { t with out := out }
  let sent ← send time (truncated out.message) t.sent
  let newOut ← newOutgoing out.message.flags out.message.multicast out.maxUDPPayload
  let (newOut, added) ← newOut.add c
  if added then return ⟨newOut, sent⟩
  -- the message is full again
  none

/-- Calls, with the times at which they are made. -/
def Task.run (calls : List (ℤ × Call lower)) (t : Task lower) : Option (Task lower) :=
  calls.foldlM (fun t call => t.add call.1 call.2) t

/-- All that is sent in the end, with the last message. -/
def Task.finish (time : ℤ) (t : Task lower) : Option (List (Packet lower)) := send time t.out.message t.sent

/-! ### What is added -/

/-- The question that a call adds. -/
def Call.questions : Call lower → List (Question lower)
  | .question q => [q]
  | _ => []

/-- The record that a call adds to a list; known answers and expired records are left out. -/
def Call.records : Call lower → Section → List (Record lower)
  | .answer query r, .answers => if query.elim (some false) (suppressedBy · r) = some false then [r] else []
  | .answerAt r now, .answers => if now = 0 ∨ ¬ isExpired now r then [r] else []
  | .authoritativeAnswer r, .authoritativeAnswers => [r]
  | .additionalAnswer r, .additionals => [r]
  | _, _ => []

/-- The records of a list of a message. -/
def records (message : Outgoing lower) : Section → List (Record lower)
  | .answers => message.answers
  | .authoritativeAnswers => message.authoritativeAnswers
  | .additionals => message.additionals

/-! ### One call -/

/-- The bytes of the four lists. -/
def Draft.total (d : Draft lower) : ℕ :=
  d.questionsBytes.length + d.answersBytes.length + d.authoritativeAnswersBytes.length +
    d.additionalsAnswersBytes.length

/-- The names are those of the message, and the bytes are as many as the message will have. -/
structure Inv (d : Draft lower) : Prop where
  knows : Knows d.names (messageSuffixes d.message)
  size : 12 + d.total = messageLength d.message
  fits : isEmpty d.message ∨ (messageLength d.message : ℤ) < d.maxUDPPayload

section

variable {d d' : Draft lower}

theorem newOutgoing_eq_some {flags senderUDPPayload : ℤ} {multicast : Bool}
    (h : newOutgoing flags multicast senderUDPPayload = some d) :
    Inv d ∧ d.maxUDPPayload = maxPayload senderUDPPayload ∧ d.message = ⟨0, flags, multicast, [], [], [], []⟩ := by
  rw [newOutgoing] at h
  split_ifs at h
  obtain rfl := Option.some.inj h
  exact ⟨⟨knows_empty, rfl, .inl rfl⟩, rfl, rfl⟩

theorem Inv.add {w : Emitter UInt8 Names} {S : Finset Text} {c : ℕ} (hw : Weighs Knows weight w S c) (h : Inv d)
    (hnames : d'.names = (w d.names 0).2) (hS : messageSuffixes d'.message = messageSuffixes d.message ∪ S)
    (hcost : messageCost d'.message = messageCost d.message + c)
    (htotal : d'.total = d.total + (w d.names 0).1.length)
    (hroom : ((w d.names 0).1.length : ℤ) < d.availableSpace) (hmax : d'.maxUDPPayload = d.maxUDPPayload) :
    Inv d' := by
  obtain ⟨hlen, hknows⟩ := hw d.names 0 _ h.knows
  have hsize : 12 + d'.total = messageLength d'.message := by
    have := h.size
    rw [messageLength] at this ⊢
    rw [hS, hcost]
    omega
  refine ⟨?_, hsize, .inr ?_⟩
  · rw [hnames, hS]
    exact hknows
  · rw [Draft.availableSpace] at hroom
    rw [hmax, ← hsize, htotal, Draft.total]
    omega

/-- What a call that is not turned down does to a message. -/
structure Adds (d d' : Draft lower) (qs : List (Question lower)) (rs : Section → List (Record lower)) : Prop where
  questions : d'.message.questions = d.message.questions ++ qs
  records : ∀ list, records d'.message list = records d.message list ++ rs list
  multicast : d'.message.multicast = d.message.multicast
  max : d'.maxUDPPayload = d.maxUDPPayload
  inv : Inv d → Inv d'

theorem Adds.refl (d : Draft lower) : Adds d d [] fun _ => [] :=
  ⟨(List.append_nil _).symm, fun _ => (List.append_nil _).symm, rfl, rfl, id⟩

/-- A call adds something, or leaves the message as it is. -/
def Result (d d' : Draft lower) (added : Bool) (qs : List (Question lower))
    (rs : Section → List (Record lower)) : Prop :=
  if added then Adds d d' qs rs else d'.message = d.message ∧ d'.maxUDPPayload = d.maxUDPPayload

theorem result_addQuestion (q : Question lower) (d : Draft lower) :
    Result d (d.addQuestion q).1 (d.addQuestion q).2 [q] fun _ => [] := by
  rw [Draft.addQuestion]
  simp only
  split_ifs with hroom
  · refine ⟨rfl, fun list => ?_, rfl, rfl, fun h => Inv.add (weighs_question q) h rfl ?_ ?_ ?_ hroom rfl⟩
    · cases list <;> exact (List.append_nil _).symm
    · simp only [messageSuffixes, entries_append, entries_singleton]
      ac_rfl
    · simp only [messageCost, List.map_append, List.sum_append, List.map_singleton, List.sum_singleton]
      omega
    · simp only [Draft.total, List.length_append]
      omega
  · exact ⟨rfl, rfl⟩

theorem result_addRecord {list : Section} {now : ℤ} {r : Record lower} {added : Bool}
    (h : d.addRecord list now r = some (d', added)) :
    Result d d' added [] fun list' => if list' = list then [r] else [] := by
  obtain ⟨w, hw, h⟩ := Option.map_eq_some_iff.mp h
  simp only at h
  split_ifs at h with hroom
  · obtain ⟨rfl, rfl⟩ := Prod.mk.inj h
    refine ⟨?_, fun list' => ?_, ?_, ?_, fun hinv => Inv.add (weighs_record hw) hinv ?_ ?_ ?_ ?_ hroom ?_⟩
    · cases list <;> exact (List.append_nil _).symm
    · cases list <;> cases list' <;> simp [Draft.put, records]
    all_goals cases list <;> try rfl
    all_goals
      simp only [Draft.put, messageSuffixes, messageCost, Draft.total, recordSuffixes, entries_append,
        entries_singleton, List.map_append, List.sum_append, List.map_singleton, List.sum_singleton,
        List.length_append]
      first | omega | ac_rfl
  · obtain ⟨rfl, rfl⟩ := Prod.mk.inj h
    exact ⟨rfl, rfl⟩

theorem result_addAnswerAt {r : Record lower} {now : ℤ} {added : Bool}
    (h : d.addAnswerAt r now = some (d', added)) : Result d d' added [] (Call.answerAt r now).records := by
  rw [Draft.addAnswerAt] at h
  split_ifs at h with halive
  · have hrecords : (Call.answerAt r now).records = fun list => if list = .answers then [r] else [] := by
      funext list
      cases list <;> simp [Call.records, halive]
    exact hrecords ▸ result_addRecord h
  · obtain ⟨rfl, rfl⟩ := Prod.mk.inj (Option.some.inj h)
    have hrecords : (Call.answerAt r now).records = fun _ => [] := by
      funext list
      cases list <;> simp [Call.records, halive]
    exact hrecords ▸ Adds.refl d

theorem result_addAnswer {query : Option (Incoming lower)} {r : Record lower} {added : Bool}
    (h : d.addAnswer query r = some (d', added)) : Result d d' added [] (Call.answer query r).records := by
  obtain ⟨suppressed, hsuppressed, h⟩ := Option.bind_eq_some_iff.mp h
  cases suppressed with
  | true =>
    obtain ⟨rfl, rfl⟩ := Prod.mk.inj (Option.some.inj h)
    have hrecords : (Call.answer query r).records = fun _ => [] := by
      funext list
      cases list <;> simp [Call.records, hsuppressed]
    exact hrecords ▸ Adds.refl d
  | false =>
    have hrecords : (Call.answer query r).records = (Call.answerAt r 0).records := by
      funext list
      cases list <;> simp [Call.records, hsuppressed]
    exact hrecords ▸ result_addAnswerAt h

/-- **What a call of a method of `DNSOutgoing` does.** -/
theorem result_add {c : Call lower} {added : Bool} (h : d.add c = some (d', added)) :
    Result d d' added c.questions c.records := by
  cases c with
  | question q =>
    have hrecords : (Call.question q).records = fun _ => [] := by
      funext list
      cases list <;> rfl
    obtain ⟨rfl, rfl⟩ := Prod.mk.inj (Option.some.inj h)
    exact hrecords ▸ result_addQuestion q d
  | answer query r => exact result_addAnswer h
  | answerAt r now => exact result_addAnswerAt h
  | authoritativeAnswer r =>
    have hrecords : (Call.authoritativeAnswer r).records =
        fun list => if list = .authoritativeAnswers then [r] else [] := by
      funext list
      cases list <;> rfl
    exact hrecords ▸ result_addRecord h
  | additionalAnswer r =>
    have hrecords : (Call.additionalAnswer r).records = fun list => if list = .additionals then [r] else [] := by
      funext list
      cases list <;> rfl
    exact hrecords ▸ result_addRecord h

end

/-! ### Runs -/

/-- All questions of a task, sent or not. -/
def Task.questions (t : Task lower) : List (Question lower) :=
  t.sent.flatMap (fun p => p.message.questions) ++ t.out.message.questions

/-- All records of a list, sent or not. -/
def Task.records (t : Task lower) (list : Section) : List (Record lower) :=
  t.sent.flatMap (fun p => Outbox.records p.message list) ++ Outbox.records t.out.message list

/-- What a task keeps: its message can be sent, and what it has sent was short. -/
structure TaskInv (payload : ℤ) (t : Task lower) : Prop where
  inv : Inv t.out
  max : t.out.maxUDPPayload = payload
  pos : 0 < payload
  sent : ∀ p ∈ t.sent, p.time ≠ 0 ∧ (p.bytes.length : ℤ) < payload

theorem send_eq {time : ℤ} {message : Outgoing lower} {sent sent' : List (Packet lower)}
    (h : send time message sent = some sent') : (isEmpty message ∧ sent' = sent) ∨
      ∃ p : Packet lower, p.message = message ∧ p.time = time ∧ sent' = sent ++ [p] ∧ ¬ isEmpty message := by
  rw [send] at h
  split_ifs at h with hempty
  · exact .inl ⟨hempty, (Option.some.inj h).symm⟩
  · split at h
    · exact .inr ⟨_, rfl, rfl, (Option.some.inj h).symm, hempty⟩
    · cases h

theorem records_of_isEmpty {message : Outgoing lower} (h : isEmpty message) :
    message.questions = [] ∧ ∀ list, records message list = [] := by
  rw [isEmpty] at h
  refine ⟨List.length_eq_zero_iff.mp (by omega), fun list => List.length_eq_zero_iff.mp ?_⟩
  cases list <;> rw [records] <;> omega

theorem send_spec {time payload : ℤ} {message : Outgoing lower} {sent sent' : List (Packet lower)}
    (h : send time message sent = some sent') (htime : time ≠ 0)
    (hfits : isEmpty message ∨ (messageLength message : ℤ) < payload)
    (hsent : ∀ p ∈ sent, p.time ≠ 0 ∧ (p.bytes.length : ℤ) < payload) :
    (∀ p ∈ sent', p.time ≠ 0 ∧ (p.bytes.length : ℤ) < payload) ∧
      sent'.flatMap (fun p => p.message.questions) =
        sent.flatMap (fun p => p.message.questions) ++ message.questions ∧
      ∀ list, sent'.flatMap (fun p => records p.message list) =
        sent.flatMap (fun p => records p.message list) ++ records message list := by
  rcases send_eq h with ⟨hempty, rfl⟩ | ⟨p, rfl, rfl, rfl, hne⟩
  · obtain ⟨hqs, hrs⟩ := records_of_isEmpty hempty
    exact ⟨hsent, by rw [hqs, List.append_nil], fun list => by rw [hrs, List.append_nil]⟩
  · refine ⟨fun p' hp' => ?_, by simp, fun list => by simp⟩
    rcases List.mem_append.mp hp' with hp' | hp'
    · exact hsent p' hp'
    · obtain rfl := List.mem_singleton.mp hp'
      rw [length_data p'.data]
      exact ⟨htime, hfits.resolve_left hne⟩

/-- **One call** keeps the invariant, and adds what it adds. -/
theorem Task.add_spec {payload time : ℤ} {c : Call lower} {t t' : Task lower} (hinv : TaskInv payload t)
    (htime : time ≠ 0) (h : t.add time c = some t') : TaskInv payload t' ∧ t'.questions = t.questions ++ c.questions ∧
      ∀ list, t'.records list = t.records list ++ c.records list := by
  obtain ⟨⟨out, added⟩, hadd, h⟩ := Option.bind_eq_some_iff.mp h
  have hresult := result_add hadd
  cases added with
  | true =>
    obtain rfl : { t with out := out } = t' := Option.some.inj h
    have hadds : Adds t.out out c.questions c.records := hresult
    refine ⟨⟨hadds.inv hinv.inv, hadds.max.trans hinv.max, hinv.pos, hinv.sent⟩, ?_, fun list => ?_⟩
    · rw [Task.questions, Task.questions, hadds.questions, List.append_assoc]
    · rw [Task.records, Task.records, hadds.records, List.append_assoc]
  | false =>
    obtain ⟨hmessage, hmax⟩ : out.message = t.out.message ∧ out.maxUDPPayload = t.out.maxUDPPayload := hresult
    obtain ⟨sent, hsend, h⟩ := Option.bind_eq_some_iff.mp h
    obtain ⟨new, hnew, h⟩ := Option.bind_eq_some_iff.mp h
    obtain ⟨⟨newOut, added⟩, hadded, h⟩ := Option.bind_eq_some_iff.mp h
    obtain ⟨hinvNew, hmaxNew, hmessageNew⟩ := newOutgoing_eq_some hnew
    cases added with
    | false => cases h
    | true =>
      obtain rfl : ⟨newOut, sent⟩ = t' := Option.some.inj h
      have hadds : Adds new newOut c.questions c.records := result_add hadded
      obtain ⟨hshort, hqs, hrs⟩ := send_spec hsend htime (hmessage ▸ hinv.max ▸ hinv.inv.fits) hinv.sent
      have hpayload : newOut.maxUDPPayload = payload := by
        rw [hadds.max, hmaxNew, hmax, hinv.max, maxPayload, if_pos hinv.pos]
      refine ⟨⟨hadds.inv hinvNew, hpayload, hinv.pos, hshort⟩, ?_, fun list => ?_⟩
      · rw [Task.questions, Task.questions, hqs, hadds.questions, truncated, hmessage, hmessageNew]
        rfl
      · have htruncated : Outbox.records (truncated out.message) list = Outbox.records t.out.message list := by
          rw [hmessage]
          cases list <;> rfl
        have hnone : Outbox.records new.message list = [] := by
          rw [hmessageNew]
          cases list <;> rfl
        rw [Task.records, Task.records, hrs, hadds.records, htruncated, hnone, List.nil_append]

/-- **Any number of calls.** -/
theorem Task.run_spec {payload : ℤ} {calls : List (ℤ × Call lower)} {t t' : Task lower}
    (hinv : TaskInv payload t) (htimes : ∀ call ∈ calls, call.1 ≠ 0) (h : t.run calls = some t') :
    TaskInv payload t' ∧ t'.questions = t.questions ++ calls.flatMap (fun call => call.2.questions) ∧
      ∀ list, t'.records list = t.records list ++ calls.flatMap fun call => call.2.records list := by
  induction calls generalizing t with
  | nil =>
    obtain rfl : t = t' := Option.some.inj h
    exact ⟨hinv, (List.append_nil _).symm, fun _ => (List.append_nil _).symm⟩
  | cons call calls ih =>
    rw [Task.run, List.foldlM_cons] at h
    obtain ⟨t₁, hadd, h⟩ := Option.bind_eq_some_iff.mp h
    obtain ⟨hinv₁, hqs₁, hrs₁⟩ := Task.add_spec hinv (htimes call List.mem_cons_self) hadd
    obtain ⟨hinv', hqs, hrs⟩ := ih hinv₁ (fun c hc => htimes c (List.mem_cons_of_mem call hc)) h
    refine ⟨hinv', ?_, fun list => ?_⟩
    · rw [hqs, hqs₁, List.append_assoc, List.flatMap_cons]
    · rw [hrs, hrs₁, List.append_assoc, List.flatMap_cons]

/-- A task with a new message. -/
def Task.start (id flags : ℤ) (multicast : Bool) (senderUDPPayload : ℤ) : Option (Task lower) :=
  (newOutgoing flags multicast senderUDPPayload).map fun out =>
    ⟨{ out with message := { out.message with id := id } }, []⟩

theorem start_eq_some {id flags senderUDPPayload : ℤ} {multicast : Bool} {t : Task lower}
    (h : Task.start id flags multicast senderUDPPayload = some t) :
    TaskInv (maxPayload senderUDPPayload) t ∧ t.questions = [] ∧ ∀ list, t.records list = [] := by
  obtain ⟨out, hout, rfl⟩ := Option.map_eq_some_iff.mp h
  obtain ⟨hinv, hmax, hmessage⟩ := newOutgoing_eq_some hout
  have hpos : 0 < maxPayload senderUDPPayload := by
    rw [maxPayload]
    split <;> omega
  refine ⟨⟨⟨?_, ?_, .inl ?_⟩, hmax, hpos, fun p hp => absurd hp List.not_mem_nil⟩, ?_, fun list => ?_⟩
  · exact hinv.knows
  · exact hinv.size
  · rw [hmessage]
    rfl
  · rw [Task.questions, hmessage]
    rfl
  · rw [Task.records, hmessage]
    cases list <;> rfl

section

variable {id flags senderUDPPayload time : ℤ} {multicast : Bool} {calls : List (ℤ × Call lower)}
  {t : Task lower} {packets : List (Packet lower)}

theorem finish_spec (hrun : (Task.start id flags multicast senderUDPPayload).bind (Task.run calls) = some t)
    (hfinish : t.finish time = some packets) (htimes : ∀ call ∈ calls, call.1 ≠ 0) (htime : time ≠ 0) :
    (∀ p ∈ packets, p.time ≠ 0 ∧ (p.bytes.length : ℤ) < maxPayload senderUDPPayload) ∧
      packets.flatMap (fun p => p.message.questions) = calls.flatMap (fun call => call.2.questions) ∧
      ∀ list, packets.flatMap (fun p => records p.message list) =
        calls.flatMap fun call => call.2.records list := by
  obtain ⟨started, hstart, hrun⟩ := Option.bind_eq_some_iff.mp hrun
  obtain ⟨hstarted, hquestions, hrecords⟩ := start_eq_some hstart
  obtain ⟨hinv, hqs, hrs⟩ := Task.run_spec hstarted htimes hrun
  obtain ⟨hsent, hqs', hrs'⟩ := send_spec hfinish htime (hinv.max ▸ hinv.inv.fits) hinv.sent
  refine ⟨hsent, ?_, fun list => ?_⟩
  · rw [hqs', ← Task.questions, hqs, hquestions, List.nil_append]
  · rw [hrs', ← Task.records, hrs, hrecords, List.nil_append]

/-- **Whatever a task adds is sent**, in its order, nothing twice and nothing lost, and every packet is
shorter than the payload. -/
theorem run_delivers (hrun : (Task.start id flags multicast senderUDPPayload).bind (Task.run calls) = some t)
    (hfinish : t.finish time = some packets) (htimes : ∀ call ∈ calls, call.1 ≠ 0) (htime : time ≠ 0) :
    (∀ p ∈ packets, (p.bytes.length : ℤ) < maxPayload senderUDPPayload) ∧
      packets.flatMap (fun p => p.message.questions) = calls.flatMap (fun call => call.2.questions) ∧
      ∀ list, packets.flatMap (fun p => records p.message list) =
        calls.flatMap fun call => call.2.records list := by
  obtain ⟨hsent, hqs, hrs⟩ := finish_spec hrun hfinish htimes htime
  exact ⟨fun p hp => (hsent p hp).2, hqs, hrs⟩

end

/-- Three questions for loudspeakers, with room for two in a packet. -/
def threeQuestions : List (ℤ × Call asciiLower) :=
  List.replicate 3 (1000, .question ⟨text "_raop._tcp.local.", .TYPE_PTR, .CLASS_IN, false, by decide +kernel⟩)

theorem run_delivers_threeQuestions : ∃ (t : Task asciiLower) (packets : List (Packet asciiLower)),
    (Task.start 0 0 true 45).bind (Task.run threeQuestions) = some t ∧ t.finish 2000 = some packets ∧ packets.length = 2 ∧
      (∀ p ∈ packets, (p.bytes.length : ℤ) < 45) ∧
      (packets.flatMap fun p => p.message.questions).length = 3 := by
  have heval : (((Task.start 0 0 true 45).bind (Task.run threeQuestions)).bind fun t =>
      (t.finish 2000).map List.length) = some 2 := by decide +kernel
  obtain ⟨t, hrun, heval⟩ := Option.bind_eq_some_iff.mp heval
  obtain ⟨packets, hfinish, hlength⟩ := Option.map_eq_some_iff.mp heval
  obtain ⟨hshort, hqs, -⟩ := run_delivers hrun hfinish (by decide) (by decide)
  exact ⟨t, packets, hrun, hfinish, hlength, hshort, by rw [hqs]; rfl⟩

section

variable {id flags senderUDPPayload time : ℤ} {multicast : Bool} {calls : List (ℤ × Call lower)}
  {t : Task lower} {packets : List (Packet lower)}

/-- All names that a call adds are domain names. -/
structure Call.Named (c : Call lower) : Prop where
  questions : ∀ q ∈ c.questions, ∃ d : Domain, q.name = d.text
  records : ∀ list, ∀ r ∈ c.records list, Sendable r.data ∧ ∃ d : Domain, r.name = d.text

/-- **Every packet is received as it was sent**, if the payload is not more than 16384 bytes. -/
theorem run_received (hrun : (Task.start id flags multicast senderUDPPayload).bind (Task.run calls) = some t)
    (hfinish : t.finish time = some packets) (htimes : ∀ call ∈ calls, call.1 ≠ 0) (htime : time ≠ 0)
    (hnamed : ∀ call ∈ calls, call.2.Named) (hpayload : senderUDPPayload ≤ 0x4000) (later : ℤ) :
    ∀ p ∈ packets, incoming later p.bytes = some (Outgoing.received p.time later p.message) := by
  obtain ⟨hsent, hqs, hrs⟩ := finish_spec hrun hfinish htimes htime
  intro p hp
  have hquestions : ∀ q ∈ p.message.questions, ∃ d : Domain, q.name = d.text := by
    intro q hq
    have hmem : q ∈ packets.flatMap fun p => p.message.questions := List.mem_flatMap.mpr ⟨p, hp, hq⟩
    rw [hqs] at hmem
    obtain ⟨call, hcall, hq⟩ := List.mem_flatMap.mp hmem
    exact (hnamed call hcall).questions q hq
  have hrecords : ∀ list, ∀ r ∈ records p.message list, Sendable r.data ∧ ∃ d : Domain, r.name = d.text := by
    intro list r hr
    have hmem : r ∈ packets.flatMap fun p => records p.message list := List.mem_flatMap.mpr ⟨p, hp, hr⟩
    rw [hrs] at hmem
    obtain ⟨call, hcall, hr⟩ := List.mem_flatMap.mp hmem
    exact (hnamed call hcall).records list r hr
  obtain ⟨htime, hlength⟩ := hsent p hp
  refine incoming_data ⟨hquestions, hrecords .answers, hrecords .authoritativeAnswers, hrecords .additionals⟩
    htime later p.data ?_
  rw [maxPayload] at hlength
  split at hlength <;> omega

end

/-- The domain of loudspeakers. -/
def speakers : Domain :=
  [⟨text "_raop", by decide, by decide, by decide⟩, ⟨text "_tcp", by decide, by decide, by decide⟩,
    ⟨text "local", by decide, by decide, by decide⟩]

/-- A loudspeaker is announced. -/
def announcement : List (ℤ × Call asciiLower) :=
  [(1000, .answerAt ⟨text "_raop._tcp.local.", .CLASS_IN, false, 3600, 1000,
    .pointer (text "Kitchen._raop._tcp.local."), by decide +kernel⟩ 0)]

theorem run_received_announcement : ∃ (t : Task asciiLower) (packets : List (Packet asciiLower)),
    (Task.start 0 0x8400 true 1460).bind (Task.run announcement) = some t ∧ t.finish 2000 = some packets ∧
      packets.length = 1 ∧
      ∀ p ∈ packets, incoming 3000 p.bytes = some (Outgoing.received p.time 3000 p.message) := by
  have heval : (((Task.start 0 0x8400 true 1460).bind (Task.run announcement)).bind fun t =>
      (t.finish 2000).map List.length) = some 1 := by decide +kernel
  obtain ⟨t, hrun, heval⟩ := Option.bind_eq_some_iff.mp heval
  obtain ⟨packets, hfinish, hlength⟩ := Option.map_eq_some_iff.mp heval
  have htarget : Sendable (.pointer (text "Kitchen._raop._tcp.local.")) :=
    .pointer (⟨text "Kitchen", by decide, by decide, by decide⟩ :: speakers)
  have hname : text "_raop._tcp.local." = speakers.text := by decide
  refine ⟨t, packets, hrun, hfinish, hlength, run_received hrun hfinish (by decide) (by decide) ?_ (by decide) 3000⟩
  intro call hcall
  obtain rfl := List.mem_singleton.mp hcall
  refine ⟨fun q hq => absurd hq List.not_mem_nil, fun list r hr => ?_⟩
  cases list with
  | answers =>
    obtain rfl := List.mem_singleton.mp hr
    exact ⟨htarget, speakers, hname⟩
  | authoritativeAnswers => exact absurd hr List.not_mem_nil
  | additionals => exact absurd hr List.not_mem_nil

end Waveplay.Jmdns.Outbox
