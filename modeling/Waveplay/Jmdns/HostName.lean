import Waveplay.Lib.Lexicographic
import Waveplay.Jmdns.StateMachine
import Waveplay.Jmdns.UniqueName

/-! # The name of the host

A host probes for its name with its address records. A record with its name and another address is a
conflict; the host that loses the comparison of the two records takes another name while it is probing.

* `name_iterate_incrementHostName`: the names that a host takes one after the other;
* `tie_break`: of two hosts that probe for one name, exactly one takes its next name, which is another one
  unless it is `Numbered` already. -/

namespace Waveplay.Jmdns.HostName

open Waveplay.Lib.Lexicographic Waveplay.Lib.Search Waveplay.Jmdns.Stream Waveplay.Jmdns.QualifiedName
open Waveplay.Jmdns.Message Waveplay.Jmdns.Outbox Waveplay.Jmdns.StateMachine Waveplay.Jmdns.UniqueName

/-! ### Addresses -/

/-- `isLinkLocalAddress`: `169.254/16` and `fe80::/10`. -/
def isLinkLocalAddress : InetAddress → Bool
  | .inet4 address => address.1.take 2 = [169, 254]
  | .inet6 address => address.1.head? = some 254 && (address.1.tail.head?.map (· &&& 192)) = some 128

/-- `isLoopbackAddress`: `127/8` and `::1`. -/
def isLoopbackAddress : InetAddress → Bool
  | .inet4 address => address.1.head? = some 127
  | .inet6 address => address.1 = List.replicate 15 0 ++ [1]


/-- What the conflicts read of a `DNSRecord.Address`; the address may be `null`. -/
structure Address where
  name : Text
  recordType : DNSRecordType
  recordClass : DNSRecordClass
  addr : Option InetAddress
  deriving DecidableEq

/-- `getAddress` of `InetAddress`. -/
def getAddress : InetAddress → List UInt8
  | .inet4 address => address.1
  | .inet6 address => address.1

/-- `isIPv4CompatibleAddress`. -/
def isIPv4CompatibleAddress (address : List UInt8) : Bool := address.take 12 = List.replicate 12 0

section

variable (getBytes : Text → List UInt8)

/-- `toByteArray`, where `getBytes` gives the UTF-8 of a name; there is an exception without an address. -/
def toByteArray (r : Address) : Option (List UInt8) :=
  r.addr.map fun addr => getBytes r.name ++ writeShort r.recordType.indexValue ++
    writeShort r.recordClass.indexValue ++ getAddress addr

/-- A `byte` as an `int`. -/
def signed (b : UInt8) : ℤ := b.toInt8.toInt

/-- `compareTo`. -/
def compareTo (r that : Address) : Option ℤ := do
  let thisBytes ← toByteArray getBytes r
  let thatBytes ← toByteArray getBytes that
  some (compareBy signed thisBytes thatBytes)

end

/-- `equalsIgnoreCase`, where `fold` gives the lower case of the upper case of a character. -/
def equalsIgnoreCase (fold : UInt16 → UInt16) (a b : Text) : Bool := a.map fold = b.map fold

/-! ### `HostInfo` -/

/-- `".local."`. -/
def localDomain : Text := text ".local."

/-- The names that `newHostInfo` makes, with the dots replaced. -/
def IsLocal (name : Text) : Prop := ∃ base, dot ∉ base ∧ name = base ++ localDomain

/-- The name after `hostNameCount` others. -/
def nextHostName (name : Text) (hostNameCount : ℤ) : Option Text :=
  let plocal := indexOf localDomain name
  let punder := lastIndexOf [minus] name
  (substring name 0 (if punder = -1 then plocal else punder)).map
    (· ++ [minus] ++ intToString hostNameCount ++ localDomain)

/-- The name without its number: what is before the last hyphen. -/
def stem (base : Text) : Text := if minus ∈ base then base.take (lastIndexOf [minus] base).toNat else base

theorem stem_append {a b : Text} (h : minus ∉ b) : stem (a ++ minus :: b) = a := by
  rw [stem, if_pos (by simp), lastIndexOf_singleton h, Int.toNat_natCast, List.take_left]

theorem substring_zero (a b : Text) : substring (a ++ b) 0 a.length = some a := by
  have h := substring_append [] a b
  rwa [List.length_nil, Nat.zero_add] at h

theorem indexOf_localDomain {base : Text} (h : dot ∉ base) :
    indexOf localDomain (base ++ localDomain) = base.length := by
  have hdomain : localDomain = dot :: text "local." := by decide +kernel
  have hfound : indexOf localDomain (base ++ (localDomain ++ [])) = base.length := by
    refine indexOf_append fun i hi hpre => h ?_
    rw [List.drop_append_of_le_length (by omega), List.drop_eq_getElem_cons hi, List.cons_append, hdomain,
      List.cons_prefix_cons] at hpre
    rw [hpre.1]
    exact List.getElem_mem hi
  rwa [List.append_nil] at hfound

theorem nextHostName_append {base : Text} (h : dot ∉ base) (n : ℤ) :
    nextHostName (base ++ localDomain) n = some (stem base ++ [minus] ++ intToString n ++ localDomain) := by
  have hdomain : minus ∉ localDomain := by decide +kernel
  rw [nextHostName]
  by_cases hminus : minus ∈ base
  · obtain ⟨a, b, rfl, hb⟩ := exists_eq_append_cons_notMem hminus
    have hlast : lastIndexOf [minus] (a ++ minus :: b ++ localDomain) = a.length := by
      rw [List.append_assoc, List.cons_append]
      exact lastIndexOf_singleton (by simp [hb, hdomain])
    simp only [hlast]
    rw [if_neg (by omega), List.append_assoc, substring_zero, stem_append hb, Option.map_some]
  · simp only [lastIndexOf_of_notMem (c := minus) (t := base ++ localDomain) (by simp [hminus, hdomain])]
    rw [if_pos trivial, indexOf_localDomain h, substring_zero, stem, if_neg hminus, Option.map_some]

theorem dot_notMem_stem {base : Text} (h : dot ∉ base) : dot ∉ stem base := by
  rw [stem]
  split
  · exact fun hmem => h (List.mem_of_mem_take hmem)
  · exact h

theorem dot_notMem_intToString (n : ℤ) : dot ∉ intToString n := by
  intro h
  rcases mem_intToString h with h | h
  · exact absurd h (by decide)
  · exact absurd h (by decide)

theorem isSome_nextHostName {name : Text} (h : IsLocal name) (n : ℤ) : (nextHostName name n).isSome := by
  obtain ⟨base, hbase, rfl⟩ := h
  rw [nextHostName_append hbase, Option.isSome_some]

theorem isLocal_nextHostName {name : Text} (h : IsLocal name) (n : ℤ) :
    IsLocal ((nextHostName name n).get (isSome_nextHostName h n)) := by
  obtain ⟨base, hbase, rfl⟩ := h
  refine ⟨stem base ++ [minus] ++ intToString n, ?_, by simp only [nextHostName_append hbase, Option.get_some]⟩
  have hminus : dot ∉ [minus] := by decide
  rw [List.mem_append, List.mem_append, not_or, not_or]
  exact ⟨⟨dot_notMem_stem hbase, hminus⟩, dot_notMem_intToString n⟩

/-- A `HostInfo`: its name is one that `newHostInfo` or `incrementHostName` has made. -/
structure HostInfo where
  name : Text
  address : Option InetAddress
  hostNameCount : ℤ
  isLocal : IsLocal name
  deriving DecidableEq

namespace HostInfo

/-- `incrementHostName`. -/
def incrementHostName (h : HostInfo) : HostInfo where
  hostNameCount := (h.hostNameCount + 1).bmod (2 ^ 32)
  name := (nextHostName h.name ((h.hostNameCount + 1).bmod (2 ^ 32))).get (isSome_nextHostName h.isLocal _)
  address := h.address
  isLocal := isLocal_nextHostName h.isLocal _

/-- `getDNS4AddressRecord`. -/
def getDNS4AddressRecord (h : HostInfo) : Option Address :=
  match h.address with
  | some (.inet4 address) => some ⟨h.name, .TYPE_A, .CLASS_IN, some (.inet4 address)⟩
  | some (.inet6 address) =>
    if isIPv4CompatibleAddress address.1 then some ⟨h.name, .TYPE_A, .CLASS_IN, some (.inet6 address)⟩ else none
  | none => none

/-- `getDNS6AddressRecord`. -/
def getDNS6AddressRecord (h : HostInfo) : Option Address :=
  match h.address with
  | some (.inet6 address) => some ⟨h.name, .TYPE_AAAA, .CLASS_IN, some (.inet6 address)⟩
  | _ => none

/-- `getDNSAddressRecord`. -/
def getDNSAddressRecord (type : DNSRecordType) (h : HostInfo) : Option Address :=
  match type with
  | .TYPE_A => h.getDNS4AddressRecord
  | .TYPE_A6 | .TYPE_AAAA => h.getDNS6AddressRecord
  | _ => none

/-- `answers`. -/
def answers (h : HostInfo) : List Address := h.getDNS4AddressRecord.toList ++ h.getDNS6AddressRecord.toList

/-- `conflictWithRecord`. The address of the host is not `null`, so `sameValue` always has an answer. -/
def conflictWithRecord (fold : UInt16 → UInt16) (r : Address) (h : HostInfo) : Bool :=
  match h.getDNSAddressRecord r.recordType with
  | some hostAddress => hostAddress.recordType = r.recordType && equalsIgnoreCase fold hostAddress.name r.name &&
      sameAddress hostAddress.addr r.addr = some false
  | none => false

/-- `shouldIgnorePacket`, where `source` is the address that the packet comes from. -/
def shouldIgnorePacket (source : Option InetAddress) (h : HostInfo) : Bool :=
  match h.address, source with
  | some address, some source => isLinkLocalAddress source && !isLinkLocalAddress address ||
      isLoopbackAddress source && !isLoopbackAddress address
  | _, _ => false

/-! ### The names of a host -/

/-- The name ends in the number that comes next: `incrementHostName` leaves it as it is. -/
def Numbered (h : HostInfo) : Prop :=
  ∃ base, h.name = base ++ [minus] ++ intToString h.incrementHostName.hostNameCount ++ localDomain

theorem name_incrementHostName_ne {h : HostInfo} (hn : ¬ h.Numbered) : h.incrementHostName.name ≠ h.name := by
  obtain ⟨base, hbase, hname⟩ := h.isLocal
  refine fun heq => hn ⟨stem base, heq.symm.trans ?_⟩
  simp only [incrementHostName, hname, nextHostName_append hbase, Option.get_some]

theorem name_incrementHostName {h : HostInfo} {base : Text} (hbase : dot ∉ base)
    (hname : h.name = base ++ localDomain) (hcount : 0 ≤ h.hostNameCount) (hlt : h.hostNameCount + 1 < 2 ^ 31) :
    h.incrementHostName.name = stem base ++ [minus] ++ intToString (h.hostNameCount + 1) ++ localDomain ∧
      h.incrementHostName.hostNameCount = h.hostNameCount + 1 := by
  have hmod : (h.hostNameCount + 1).bmod (2 ^ 32) = h.hostNameCount + 1 := by
    rw [Int.bmod_eq_of_le] <;> omega
  simp only [incrementHostName, hmod, hname, nextHostName_append hbase, Option.get_some, and_self]

theorem minus_notMem_intToString {n : ℤ} (hn : 0 ≤ n) : minus ∉ intToString n := by
  rw [intToString, if_neg (by omega)]
  intro h
  exact absurd (mem_write h) (by decide)

theorem digits_asciiDigit : Digits asciiDigit := by
  unfold Digits
  decide

theorem intToString_inj {m n : ℤ} (hm : -2 ^ 31 ≤ m ∧ m < 2 ^ 31) (hn : -2 ^ 31 ≤ n ∧ n < 2 ^ 31)
    (h : intToString m = intToString n) : m = n := by
  have hparse := parseInt_intToString digits_asciiDigit hm
  rw [h, parseInt_intToString digits_asciiDigit hn] at hparse
  exact (Option.some.inj hparse).symm

theorem name_iterate {h : HostInfo} {base : Text} (hbase : dot ∉ base) (hname : h.name = base ++ localDomain)
    (hcount : 0 ≤ h.hostNameCount) (k : ℕ) (hlt : h.hostNameCount + (k + 1 : ℕ) < 2 ^ 31) :
    (incrementHostName^[k + 1] h).name =
        stem base ++ [minus] ++ intToString (h.hostNameCount + (k + 1 : ℕ)) ++ localDomain ∧
      (incrementHostName^[k + 1] h).hostNameCount = h.hostNameCount + (k + 1 : ℕ) := by
  induction k with
  | zero => exact name_incrementHostName hbase hname hcount hlt
  | succ k ih =>
    obtain ⟨ihname, ihcount⟩ := ih (by omega)
    have hnumber : 0 ≤ h.hostNameCount + (k + 1 : ℕ) := by omega
    have hstem : stem (stem base ++ [minus] ++ intToString (h.hostNameCount + (k + 1 : ℕ))) = stem base := by
      rw [List.append_assoc]
      exact stem_append (minus_notMem_intToString hnumber)
    have hdot : dot ∉ stem base ++ [minus] ++ intToString (h.hostNameCount + (k + 1 : ℕ)) := by
      have hminus : dot ∉ [minus] := by decide
      rw [List.mem_append, List.mem_append, not_or, not_or]
      exact ⟨⟨dot_notMem_stem hbase, hminus⟩, dot_notMem_intToString _⟩
    have hnext := name_incrementHostName hdot ihname (by omega) (by omega)
    rw [hstem, ihcount, show h.hostNameCount + (k + 1 : ℕ) + 1 = h.hostNameCount + (k + 1 + 1 : ℕ) by omega] at hnext
    rwa [Function.iterate_succ_apply']

/-- **A host that loses one name after the other is called by the same stem and the numbers that follow, and
never gets one of these names twice.** -/
theorem name_iterate_incrementHostName (h : HostInfo) (base : Text) (hbase : dot ∉ base)
    (hname : h.name = base ++ localDomain) (hcount : 0 ≤ h.hostNameCount) (k : ℕ) (hk : 0 < k)
    (hlt : h.hostNameCount + k < 2 ^ 31) :
    (incrementHostName^[k] h).name = stem base ++ [minus] ++ intToString (h.hostNameCount + k) ++ localDomain ∧
      ∀ j, 0 < j → j < k → (incrementHostName^[j] h).name ≠ (incrementHostName^[k] h).name := by
  obtain ⟨k, rfl⟩ := Nat.exists_eq_succ_of_ne_zero hk.ne'
  have hlast := (name_iterate hbase hname hcount k hlt).1
  refine ⟨hlast, fun j hj hjk heq => ?_⟩
  obtain ⟨j, rfl⟩ := Nat.exists_eq_succ_of_ne_zero hj.ne'
  have hfirst := (name_iterate hbase hname hcount j (by omega)).1
  rw [Nat.succ_eq_add_one, Nat.succ_eq_add_one, hfirst, hlast] at heq
  have hnumber := List.append_cancel_left (List.append_cancel_right heq)
  have := intToString_inj (by omega) (by omega) hnumber
  omega

/-- A host with two words in its name. -/
def livingRoom : HostInfo :=
  ⟨text "living-room.local.", none, 0, text "living-room", by decide +kernel, by decide +kernel⟩

theorem name_iterate_livingRoom : (incrementHostName^[2] livingRoom).name = text "living-2.local." := by
  have h := (name_iterate_incrementHostName livingRoom (text "living-room") (by decide +kernel) (by decide +kernel)
    (by decide) 2 (by decide) (by decide)).1
  rw [h]
  decide +kernel

end HostInfo

/-! ### Conflicts -/

/-- What the conflicts read and change of `JmDNSImpl`, its cache apart. -/
structure Dns (ι : Type*) where
  localHost : HostInfo
  services : List ι
  system : System ι

section Handlers

variable {ι : Type*} [DecidableEq ι]

variable (getBytes : Text → List UInt8) (fold : UInt16 → UInt16) (host : ι)

/-- `isProbing`. -/
def Dns.isProbing (d : Dns ι) : Bool := (d.system.objects host).state.stateClass = .probing

/-- The host takes another name, and its services begin again. -/
def Dns.giveUpName (d : Dns ι) : Dns ι :=
  { d with
    localHost := d.localHost.incrementHostName
    system := d.services.foldl (fun s o => revertState o s) d.system }

/-- `revertState` of `JmDNSImpl`. -/
def Dns.revert (d : Dns ι) : Dns ι := { d with system := revertState host d.system }

/-- `handleQuery` of an address record; there is an exception without an address. -/
def handleQuery (r : Address) (d : Dns ι) : Option (Dns ι × Bool) :=
  if d.localHost.conflictWithRecord fold r then
    (d.localHost.getDNSAddressRecord r.recordType).bind fun localAddress =>
      (compareTo getBytes r localAddress).bind fun comparison =>
        if comparison = 0 then some (d, false)
        else some ((if d.isProbing host ∧ 0 < comparison then d.giveUpName else d).revert host, true)
  else some (d, false)

/-- `handleResponse` of an address record. -/
def handleResponse (r : Address) (d : Dns ι) : Dns ι × Bool :=
  if d.localHost.conflictWithRecord fold r then
    ((if d.isProbing host then d.giveUpName else d).revert host, true)
  else (d, false)

end Handlers

section Conflicts

variable {ι : Type*} [DecidableEq ι] {getBytes : Text → List UInt8} {fold : UInt16 → UInt16} {host : ι}
  {d e : Dns ι} {r : Address}

theorem signed_injective : Function.Injective signed := by
  intro a b h
  have hbits := congrArg Int8.toUInt8 (Int8.toInt_inj.mp h)
  rwa [UInt8.toUInt8_toInt8, UInt8.toUInt8_toInt8] at hbits

theorem compareTo_swap {r that : Address} {c : ℤ} (h : compareTo getBytes r that = some c) :
    compareTo getBytes that r = some (-c) := by
  rw [compareTo] at h ⊢
  obtain ⟨bytes, hbytes, h⟩ := Option.bind_eq_some_iff.mp h
  obtain ⟨bytes', hbytes', h⟩ := Option.bind_eq_some_iff.mp h
  rw [← Option.some.inj h, ← compareBy_swap, hbytes, hbytes']
  rfl

theorem compareTo_ne_zero (getBytes : Text → List UInt8) (name name' : Text)
    {a b : {b : List UInt8 // b.length = 4}} (hne : a ≠ b) :
    ∃ c, c ≠ 0 ∧ compareTo getBytes ⟨name, .TYPE_A, .CLASS_IN, some (.inet4 a)⟩
      ⟨name', .TYPE_A, .CLASS_IN, some (.inet4 b)⟩ = some c := by
  refine ⟨_, fun h => hne (Subtype.ext ?_), rfl⟩
  exact (List.append_inj' (compareBy_eq_zero signed_injective h) (a.2.trans b.2.symm)).2

theorem answers_inet4 {h : HostInfo} {a : {b : List UInt8 // b.length = 4}} (ha : h.address = some (.inet4 a)) :
    h.answers = [⟨h.name, .TYPE_A, .CLASS_IN, some (.inet4 a)⟩] := by
  rw [HostInfo.answers, HostInfo.getDNS4AddressRecord, HostInfo.getDNS6AddressRecord, ha]
  rfl

theorem getDNSAddressRecord_inet4 {h : HostInfo} {a : {b : List UInt8 // b.length = 4}}
    (ha : h.address = some (.inet4 a)) :
    h.getDNSAddressRecord .TYPE_A = some ⟨h.name, .TYPE_A, .CLASS_IN, some (.inet4 a)⟩ := by
  rw [HostInfo.getDNSAddressRecord, HostInfo.getDNS4AddressRecord, ha]

/-- A host with an IPv4 address has a conflict with its name at another IPv4 address. -/
theorem conflictWithRecord_inet4 {h : HostInfo} {name : Text} {a b : {b : List UInt8 // b.length = 4}}
    (hb : h.address = some (.inet4 b)) (hne : a ≠ b) :
    h.conflictWithRecord fold ⟨name, .TYPE_A, .CLASS_IN, some (.inet4 a)⟩ = equalsIgnoreCase fold h.name name := by
  rw [HostInfo.conflictWithRecord, getDNSAddressRecord_inet4 hb]
  simp [sameAddress, hne.symm]

/-- What a conflict does that is no record of the host itself. -/
theorem handleQuery_eq (host : ι) {localAddress : Address} {c : ℤ}
    (hconflict : d.localHost.conflictWithRecord fold r = true)
    (hlocal : d.localHost.getDNSAddressRecord r.recordType = some localAddress)
    (hcompare : compareTo getBytes r localAddress = some c) (hc : c ≠ 0) :
    handleQuery getBytes fold host r d =
      some ((if d.isProbing host ∧ 0 < c then d.giveUpName else d).revert host, true) := by
  rw [handleQuery, if_pos hconflict, hlocal, Option.bind_some, hcompare, Option.bind_some, if_neg hc]

/-- What a host that has lost the comparison is left with: its next name. -/
structure Renamed (h h' : HostInfo) : Prop where
  next : h' = h.incrementHostName
  another : ¬ h.Numbered → h'.name ≠ h.name

theorem renamed_incrementHostName (h : HostInfo) : Renamed h h.incrementHostName :=
  ⟨rfl, HostInfo.name_incrementHostName_ne⟩

/-- **Of two hosts that probe for one name, each of which gets the probe of the other, exactly one takes its
next name.** That is another name unless the old one has the next number already. -/
theorem tie_break {host host' : ι} {a b : {b : List UInt8 // b.length = 4}}
    (hd : d.localHost.address = some (.inet4 a)) (he : e.localHost.address = some (.inet4 b)) (hne : a ≠ b)
    (hname : equalsIgnoreCase fold d.localHost.name e.localHost.name = true) (hprobing : d.isProbing host = true)
    (hprobing' : e.isProbing host' = true) :
    ∃ rd re d' e', d.localHost.answers = [rd] ∧ e.localHost.answers = [re] ∧
      handleQuery getBytes fold host re d = some (d', true) ∧
      handleQuery getBytes fold host' rd e = some (e', true) ∧
      (Renamed d.localHost d'.localHost ∧ e'.localHost = e.localHost ∨
        d'.localHost = d.localHost ∧ Renamed e.localHost e'.localHost) := by
  obtain ⟨c, hc, hcompare⟩ := compareTo_ne_zero getBytes d.localHost.name e.localHost.name hne
  have hname' : equalsIgnoreCase fold e.localHost.name d.localHost.name = true := by
    rw [equalsIgnoreCase, decide_eq_true_iff] at hname ⊢
    exact hname.symm
  have hquery := handleQuery_eq host ((conflictWithRecord_inet4 hd hne.symm).trans hname)
    (getDNSAddressRecord_inet4 hd) (compareTo_swap hcompare) (neg_ne_zero.mpr hc)
  have hquery' := handleQuery_eq host' ((conflictWithRecord_inet4 he hne).trans hname')
    (getDNSAddressRecord_inet4 he) hcompare hc
  refine ⟨_, _, _, _, answers_inet4 hd, answers_inet4 he, hquery, hquery', ?_⟩
  rw [hprobing, hprobing']
  rcases lt_or_gt_of_ne hc with hlt | hgt
  · rw [if_pos ⟨rfl, neg_pos.mpr hlt⟩, if_neg (fun h => lt_asymm h.2 hlt)]
    exact .inl ⟨renamed_incrementHostName d.localHost, rfl⟩
  · rw [if_neg (fun h => lt_asymm (neg_pos.mp h.2) hgt), if_pos ⟨rfl, hgt⟩]
    exact .inr ⟨rfl, renamed_incrementHostName e.localHost⟩

/-- A host that has just come to the network, with an address of four bytes. -/
def newcomer (address : {b : List UInt8 // b.length = 4}) : Dns Unit :=
  ⟨⟨text "kitchen.local.", some (.inet4 address), 0, text "kitchen", by decide +kernel, by decide +kernel⟩, [],
    start Unit⟩

theorem tie_break_newcomers : ∃ rd re d' e',
    (newcomer ⟨[10, 0, 0, 7], rfl⟩).localHost.answers = [rd] ∧
    (newcomer ⟨[192, 168, 0, 7], rfl⟩).localHost.answers = [re] ∧
    handleQuery (List.map fun c => UInt8.ofNat c.toNat) asciiLowerChar () re (newcomer ⟨[10, 0, 0, 7], rfl⟩) =
      some (d', true) ∧
    handleQuery (List.map fun c => UInt8.ofNat c.toNat) asciiLowerChar () rd (newcomer ⟨[192, 168, 0, 7], rfl⟩) =
      some (e', true) ∧
    (Renamed (newcomer ⟨[10, 0, 0, 7], rfl⟩).localHost d'.localHost ∧
        e'.localHost = (newcomer ⟨[192, 168, 0, 7], rfl⟩).localHost ∨
      d'.localHost = (newcomer ⟨[10, 0, 0, 7], rfl⟩).localHost ∧
        Renamed (newcomer ⟨[192, 168, 0, 7], rfl⟩).localHost e'.localHost) :=
  tie_break rfl rfl (by decide) (by decide +kernel) rfl rfl

/-- A host that is called by a number from the start keeps its name when it loses it for the first time. -/
example : (HostInfo.mk (text "kitchen-1.local.") none 0 ⟨text "kitchen-1", by decide +kernel,
    by decide +kernel⟩).incrementHostName.name = text "kitchen-1.local." := by
  decide +kernel

theorem objects_revertState_self {o : ι} {s : System ι} :
    (revertState o s).objects o = (s.objects o).revertState := by
  rw [revertState]
  split
  · next h => rw [StatefulObject.revertState, if_pos h]
  · exact objects_put_self

end Conflicts

end Waveplay.Jmdns.HostName
