import Waveplay.Lib.Decimal
import Waveplay.Lib.Search
import Waveplay.Jmdns.Cache
import Mathlib.Data.List.Perm.Subperm

/-! # Names for services

`makeServiceNameUnique` gives a service another number until no other service has its name, in the cache or
among the services of the host. The numbers are `int`s that wrap.

* `incrementName_numbered`: the next name after one with a number;
* `makeServiceNameUnique_spec`: the loop comes to an end, and the name is free. -/

namespace Waveplay.Jmdns.UniqueName

open Waveplay.Lib Waveplay.Lib.Search Waveplay.Jmdns.Stream Waveplay.Jmdns.QualifiedName
open Waveplay.Jmdns.Message Waveplay.Jmdns.Outbox Waveplay.Jmdns.Cache

/-! ### Numbers -/

/-- `'('`. -/
def openParen : UInt16 := 40

/-- `')'`. -/
def closeParen : UInt16 := 41

/-- `'-'`. -/
def minus : UInt16 := 45

/-- `'+'`. -/
def plus : UInt16 := 43

/-- The character of a digit. -/
def digitChar (d : ℕ) : UInt16 := UInt16.ofNat (48 + d)

/-- `Integer.toString`. -/
def intToString (n : ℤ) : Text :=
  if n < 0 then minus :: Decimal.write digitChar n.natAbs else Decimal.write digitChar n.natAbs

/-- The `int` of a number, if it is one. -/
def toInt (n : ℤ) : Option ℤ := if -2 ^ 31 ≤ n ∧ n < 2 ^ 31 then some n else none

/-- `Integer.parseInt`, where `digit` is `Character.digit` for base 10. -/
def parseInt (digit : UInt16 → Option ℕ) (s : Text) : Option ℤ :=
  match s with
  | [] => none
  | c :: t =>
    if c = minus then if t = [] then none else (Decimal.read digit t).bind fun n => toInt (-n)
    else if c = plus then if t = [] then none else (Decimal.read digit t).bind fun n => toInt n
    else (Decimal.read digit s).bind fun n => toInt n

/-! ### `JmDNSImpl` -/

section

variable (digit : UInt16 → Option ℕ)

/-- `incrementName`. -/
def incrementName (name : Text) : Text :=
  let l := lastIndexOf [openParen] name
  let r := lastIndexOf [closeParen] name
  if 0 ≤ l ∧ l < r then
    match (substring name (l + 1) r).bind (parseInt digit) with
    | some n => name.take l.toNat ++ [openParen] ++ intToString ((n + 1).bmod (2 ^ 32)) ++ [closeParen]
    | none => name ++ text " (2)"
  else name ++ text " (2)"

variable {lower : Text → Text} {ι : Type*} [DecidableEq ι]

/-- What `makeServiceNameUnique` looks at: the cache, the services by their keys, the time, and the service
itself with its port and its host. -/
structure Registry (lower : Text → Text) (ι : Type*) where
  cache : DNSCache lower
  services : LinkedMap Text ι
  now : ℤ
  self : ι
  port : ℤ
  host : Text

/-- A cached service with another port or host has the name. -/
def Registry.inCache (g : Registry lower ι) (q : Fields) : Bool :=
  (getDNSEntryList g.cache (q.serviceKey lower)).any fun e =>
    match e.data with
    | .service _ _ port server => !decide (isExpired g.now e) && (port ≠ g.port || server ≠ g.host)
    | _ => false

/-- Another service of the host has the name. -/
def Registry.inServices (g : Registry lower ι) (q : Fields) : Bool :=
  match g.services.get (q.serviceKey lower) with
  | some service => service ≠ g.self
  | none => false

/-- The next name. -/
def setNextName (q : Fields) : Fields := { q with inst := incrementName digit q.inst }

/-- One turn of the loop of `makeServiceNameUnique`, and whether there was a collision. -/
def uniqueTurn (g : Registry lower ι) (q : Fields) : Fields × Bool :=
  let q' := if g.inCache q then setNextName digit q else q
  if g.inServices q' then (setNextName digit q', true) else (q', g.inCache q)

/-- **`makeServiceNameUnique`**, with at most `fuel` turns. -/
def makeServiceNameUnique (g : Registry lower ι) : ℕ → Fields → Option Fields
  | 0, _ => none
  | fuel + 1, q =>
    match uniqueTurn digit g q with
    | (q', true) => makeServiceNameUnique g fuel q'
    | (q', false) => some q'

end

/-! ### Numbered names -/

/-- A name with a number at its end. -/
def numbered (base : Text) (n : ℤ) : Text := base ++ [openParen] ++ intToString n ++ [closeParen]

/-- What `Character.digit` says of the ten digits. -/
def Digits (digit : UInt16 → Option ℕ) : Prop := ∀ d < 10, digit (digitChar d) = some d

variable {digit : UInt16 → Option ℕ}

theorem mem_write {n : ℕ} {c : UInt16} (h : c ∈ Decimal.write digitChar n) : 48 ≤ c.toNat ∧ c.toNat < 58 := by
  obtain ⟨d, hd, rfl⟩ := List.mem_map.mp h
  have hlt := Decimal.digits_lt_ten hd
  rw [digitChar, UInt16.toNat_ofNat']
  omega

theorem mem_intToString {n : ℤ} {c : UInt16} (h : c ∈ intToString n) :
    c = minus ∨ 48 ≤ c.toNat ∧ c.toNat < 58 := by
  rw [intToString] at h
  split at h
  · rcases List.mem_cons.mp h with h | h
    · exact .inl h
    · exact .inr (mem_write h)
  · exact .inr (mem_write h)

theorem write_ne_nil (n : ℕ) : Decimal.write digitChar n ≠ [] := by
  rw [Decimal.write, Ne, List.map_eq_nil_iff]
  exact Decimal.digits_ne_nil n

/-- **Numbers are read back.** -/
theorem parseInt_intToString (hdigit : Digits digit) {n : ℤ} (hn : -2 ^ 31 ≤ n ∧ n < 2 ^ 31) :
    parseInt digit (intToString n) = some n := by
  have hread := Decimal.read_write hdigit n.natAbs
  rw [intToString]
  split
  · next hneg =>
    have habs : -(n.natAbs : ℤ) = n := by omega
    rw [parseInt, if_pos rfl, if_neg (write_ne_nil _), hread, Option.bind_some, habs, toInt, if_pos hn]
  · next hneg =>
    obtain ⟨c, t, hct⟩ := List.exists_cons_of_ne_nil (write_ne_nil n.natAbs)
    have hc := mem_write (hct ▸ List.mem_cons_self : c ∈ Decimal.write digitChar n.natAbs)
    have hminus : c ≠ minus := by
      rintro rfl
      exact absurd hc (by decide)
    have hplus : c ≠ plus := by
      rintro rfl
      exact absurd hc (by decide)
    have habs : (n.natAbs : ℤ) = n := by omega
    rw [hct] at hread ⊢
    rw [parseInt, if_neg hminus, if_neg hplus, hread, Option.bind_some, habs, toInt, if_pos hn]

theorem openParen_notMem (n : ℤ) : openParen ∉ intToString n ++ [closeParen] := by
  intro h
  rcases List.mem_append.mp h with h | h
  · exact absurd (mem_intToString h) (by decide)
  · exact absurd (List.mem_singleton.mp h) (by decide)

theorem incrementName_numbered (hdigit : Digits digit) (base : Text) {n : ℤ} (hn : -2 ^ 31 ≤ n ∧ n < 2 ^ 31) :
    incrementName digit (numbered base n) = numbered base ((n + 1).bmod (2 ^ 32)) := by
  have hsplit : numbered base n = base ++ openParen :: (intToString n ++ [closeParen]) := by
    simp [numbered]
  have hl : lastIndexOf [openParen] (numbered base n) = base.length := by
    rw [hsplit]
    exact lastIndexOf_singleton (openParen_notMem n)
  have hr : lastIndexOf [closeParen] (numbered base n) = (base.length + 1 + (intToString n).length : ℕ) := by
    have h := lastIndexOf_singleton (a := base ++ [openParen] ++ intToString n) (b := [])
      (List.not_mem_nil (a := closeParen))
    rw [numbered, h, List.length_append, List.length_append, List.length_singleton]
  have hnumber : substring (numbered base n) (base.length + 1) (base.length + 1 + (intToString n).length : ℕ) =
      some (intToString n) := by
    have h := substring_append (base ++ [openParen]) (intToString n) [closeParen]
    rw [List.length_append, List.length_singleton] at h
    rw [numbered, List.append_assoc _ (intToString n)]
    exact h
  rw [incrementName]
  simp only [hl, hr]
  rw [if_pos (by omega), hnumber, Option.bind_some, parseInt_intToString hdigit hn]
  simp only
  rw [Int.toNat_natCast, hsplit, List.take_left]
  rfl

/-- Every name has a number after the first turn, and at most a blank more in front of it. -/
theorem incrementName_eq_numbered (digit : UInt16 → Option ℕ) (name : Text) :
    ∃ base n, incrementName digit name = numbered base n ∧ base ⊆ name ++ [32] ∧ -2 ^ 31 ≤ n ∧ n < 2 ^ 31 := by
  have hother : ∃ base n, name ++ text " (2)" = numbered base n ∧ base ⊆ name ++ [32] ∧ (-2 ^ 31 : ℤ) ≤ n ∧
      n < 2 ^ 31 := by
    refine ⟨name ++ [32], 2, ?_, List.Subset.refl _, by decide, by decide⟩
    rw [numbered, List.append_assoc, List.append_assoc, List.append_assoc]
    exact congrArg (name ++ ·) (by decide +kernel)
  rw [incrementName]
  split
  · split
    · next n _ =>
      refine ⟨_, (n + 1).bmod (2 ^ 32), rfl, fun c hc => List.mem_append_left _ (List.mem_of_mem_take hc), ?_, ?_⟩
      · have := Int.le_bmod (x := n + 1) (m := 2 ^ 32) (by decide)
        omega
      · have := Int.bmod_lt (x := n + 1) (m := 2 ^ 32) (by decide)
        omega
    · exact hother
  · exact hother

/-! ### The names of the loop -/

/-- The name `j` turns after `numbered base n`. -/
def nameAt (base : Text) (n : ℤ) (j : ℕ) : Text := numbered base ((n + j).bmod (2 ^ 32))

theorem incrementName_nameAt (hdigit : Digits digit) (base : Text) (n : ℤ) (j : ℕ) :
    incrementName digit (nameAt base n j) = nameAt base n (j + 1) := by
  have hle := Int.le_bmod (x := n + j) (m := 2 ^ 32) (by decide)
  have hlt := Int.bmod_lt (x := n + j) (m := 2 ^ 32) (by decide)
  rw [nameAt, incrementName_numbered hdigit base (by omega), nameAt, Int.bmod_add_bmod, Nat.cast_succ,
    Int.add_assoc]

theorem nameAt_zero (base : Text) {n : ℤ} (hn : -2 ^ 31 ≤ n ∧ n < 2 ^ 31) :
    nameAt base n 0 = numbered base n := by
  rw [nameAt, Nat.cast_zero, Int.add_zero, Int.bmod_eq_of_le] <;> omega

section Loop

variable {S : UInt16 → Prop} {f : UInt16 → UInt16} {lower : Text → Text} {ι : Type*} [DecidableEq ι]
  {g : Registry lower ι} {q : Fields} {base : Text} {n : ℤ}

theorem uncapital_intToString (n : ℤ) : Over Uncapital (intToString n) := by
  intro c hc
  rcases mem_intToString hc with rfl | ⟨hle, hlt⟩
  · decide
  · have hc : c.toNat < 65 := by omega
    refine ⟨UInt16.lt_iff_toNat_lt.mpr (Nat.lt_of_lt_of_le hc (by decide)), if_neg ?_⟩
    rintro ⟨h, -⟩
    exact Nat.not_le_of_lt hc h

theorem over_numbered (hf : Folds S f lower) (hbase : Over S base) (n : ℤ) : Over S (numbered base n) := by
  have hnumber : Over S (intToString n) := hf.over_ascii (uncapital_intToString n)
  simp only [numbered, over_append, over_cons, over_nil, hbase, hnumber, (hf.ascii openParen (by decide)).1,
    (hf.ascii closeParen (by decide)).1, and_self]

theorem serviceKey_numbered (hf : Folds S f lower) (hbase : Over S base) (htype : Over S q.getType) (n : ℤ) :
    Fields.serviceKey lower { q with inst := numbered base n } =
      lower (base ++ [openParen]) ++ (intToString n ++ lower ([closeParen] ++ ([dot] ++ q.getType))) := by
  have hnumber : Over S (intToString n) := hf.over_ascii (uncapital_intToString n)
  have hfront : Over S (base ++ [openParen]) := by
    simp only [over_append, over_cons, over_nil, hbase, (hf.ascii openParen (by decide)).1, and_self]
  have hback : Over S ([closeParen] ++ ([dot] ++ q.getType)) := by
    simp only [over_append, over_cons, over_nil, htype, hf.of_dot.1, (hf.ascii closeParen (by decide)).1, and_self]
  have hname : Fields.getQualifiedName { q with inst := numbered base n } =
      base ++ [openParen] ++ (intToString n ++ ([closeParen] ++ ([dot] ++ q.getType))) := by
    rw [Fields.getQualifiedName, if_pos (by simp [numbered]), numbered]
    simp only [List.append_assoc]
    rfl
  rw [Fields.serviceKey, hname, hf.append hfront (over_append.mpr ⟨hnumber, hback⟩), hf.append hnumber hback,
    hf.ascii_text (uncapital_intToString n)]

theorem numbered_injective (hf : Folds S f lower) (hbase : Over S base) (htype : Over S q.getType)
    (hdigit : Digits digit) {m m' : ℤ} (hm : -2 ^ 31 ≤ m ∧ m < 2 ^ 31) (hm' : -2 ^ 31 ≤ m' ∧ m' < 2 ^ 31)
    (h : Fields.serviceKey lower { q with inst := numbered base m } =
      Fields.serviceKey lower { q with inst := numbered base m' }) : m = m' := by
  rw [serviceKey_numbered hf hbase htype, serviceKey_numbered hf hbase htype] at h
  have hnumber := List.append_cancel_right (List.append_cancel_left h)
  have hparse := parseInt_intToString hdigit hm
  rw [hnumber, parseInt_intToString hdigit hm'] at hparse
  exact (Option.some.inj hparse).symm

/-- The service with the name `j` turns later. -/
def renamed (q : Fields) (base : Text) (n : ℤ) (j : ℕ) : Fields := { q with inst := nameAt base n j }

theorem setNextName_renamed (hdigit : Digits digit) (j : ℕ) :
    setNextName digit (renamed q base n j) = renamed q base n (j + 1) := by
  rw [setNextName, renamed, incrementName_nameAt hdigit]
  rfl

/-- The keys that are in the cache or among the services. -/
def Registry.taken (g : Registry lower ι) : List Text :=
  g.cache.entries.map Prod.fst ++ g.services.entries.map Prod.fst

theorem free_of_notMem (hf : Folds S f lower) (hover : Over S q.getQualifiedName) (h : q.serviceKey lower ∉ g.taken) :
    g.inCache q = false ∧ g.inServices q = false := by
  obtain ⟨hcache, hservices⟩ := List.mem_append.not.mp h |> not_or.mp
  have hlower : lower (q.serviceKey lower) = q.serviceKey lower := hf.lower_lower hover
  constructor
  · rw [Registry.inCache, getDNSEntryList, hlower, LinkedMap.get_eq_none_iff.mpr hcache]
    rfl
  · rw [Registry.inServices, LinkedMap.get_eq_none_iff.mpr hservices]

omit [DecidableEq ι] in
/-- One of the first names is free: there are more of them than there are keys. -/
theorem exists_free (n : ℤ) (hf : Folds S f lower) (hbase : Over S base) (htype : Over S q.getType)
    (hdigit : Digits digit) (hsize : g.taken.length < 2 ^ 32) :
    ∃ j ≤ g.taken.length, (renamed q base n j).serviceKey lower ∉ g.taken := by
  by_contra hall
  simp only [not_exists, not_and, not_not] at hall
  have hnodup : ((List.range (g.taken.length + 1)).map fun j => (renamed q base n j).serviceKey lower).Nodup := by
    refine List.Nodup.map_on ?_ List.nodup_range
    intro i hi j hj h
    have hi := List.mem_range.mp hi
    have hj := List.mem_range.mp hj
    have hle := fun k : ℕ => Int.le_bmod (x := n + k) (m := 2 ^ 32) (by decide)
    have hlt := fun k : ℕ => Int.bmod_lt (x := n + k) (m := 2 ^ 32) (by decide)
    have heq := numbered_injective hf hbase htype hdigit (by have := hle i; have := hlt i; omega)
      (by have := hle j; have := hlt j; omega) h
    have hi' := Int.bmod_emod (x := n + i) (m := 2 ^ 32)
    have hj' := Int.bmod_emod (x := n + j) (m := 2 ^ 32)
    omega
  have hsub : ((List.range (g.taken.length + 1)).map fun j => (renamed q base n j).serviceKey lower) ⊆ g.taken := by
    intro key hkey
    obtain ⟨j, hj, rfl⟩ := List.mem_map.mp hkey
    exact hall j (Nat.le_of_lt_succ (List.mem_range.mp hj))
  have hlength := (hnodup.subperm hsub).length_le
  rw [List.length_map, List.length_range] at hlength
  omega

/-- One turn: it ends the loop at a free name, or it goes on, but never past a free name. -/
theorem uniqueTurn_renamed (hdigit : Digits digit) {i j : ℕ} (hij : i ≤ j)
    (hfree : g.inCache (renamed q base n j) = false ∧ g.inServices (renamed q base n j) = false) :
    (uniqueTurn digit g (renamed q base n i) = (renamed q base n i, false) ∧
        g.inCache (renamed q base n i) = false ∧ g.inServices (renamed q base n i) = false) ∨
      ∃ i', i < i' ∧ i' ≤ j ∧ uniqueTurn digit g (renamed q base n i) = (renamed q base n i', true) := by
  have hlt (k : ℕ) (hk : k ≤ j)
      (h : g.inCache (renamed q base n k) = true ∨ g.inServices (renamed q base n k) = true) : k < j := by
    refine lt_of_le_of_ne hk ?_
    rintro rfl
    simp [hfree] at h
  rw [uniqueTurn]
  cases hcache : g.inCache (renamed q base n i) with
  | false =>
    cases hservices : g.inServices (renamed q base n i) with
    | false => exact .inl ⟨by simp [hservices], rfl, rfl⟩
    | true =>
      exact .inr ⟨i + 1, by omega, hlt i hij (.inr hservices), by simp [hservices, setNextName_renamed hdigit]⟩
  | true =>
    have hi := hlt i hij (.inl hcache)
    cases hservices : g.inServices (renamed q base n (i + 1)) with
    | false => exact .inr ⟨i + 1, by omega, hi, by simp [hservices, setNextName_renamed hdigit]⟩
    | true =>
      exact .inr ⟨i + 2, by omega, hlt (i + 1) hi (.inr hservices), by simp [hservices, setNextName_renamed hdigit]⟩

theorem makeServiceNameUnique_renamed (hdigit : Digits digit) {j : ℕ}
    (hfree : g.inCache (renamed q base n j) = false ∧ g.inServices (renamed q base n j) = false) (fuel i : ℕ)
    (hij : i ≤ j) (hfuel : j < i + fuel) :
    ∃ k ≤ j, makeServiceNameUnique digit g fuel (renamed q base n i) = some (renamed q base n k) ∧
      g.inCache (renamed q base n k) = false ∧ g.inServices (renamed q base n k) = false := by
  induction fuel generalizing i with
  | zero => omega
  | succ fuel ih =>
    rcases uniqueTurn_renamed hdigit hij hfree with ⟨hturn, hcur⟩ | ⟨i', hi, hi', hturn⟩
    · exact ⟨i, hij, by rw [makeServiceNameUnique, hturn], hcur⟩
    · obtain ⟨k, hk, hloop, hcur⟩ := ih i' hi' (by omega)
      exact ⟨k, hk, by rw [makeServiceNameUnique, hturn]; exact hloop, hcur⟩

/-- **The loop of `makeServiceNameUnique` ends, after at most as many turns as there are keys and two more, and
then the name of the service is taken neither in the cache nor among the services; nothing but the name has
changed.** -/
theorem makeServiceNameUnique_spec (hf : Folds S f lower) (hdigit : Digits digit) (g : Registry lower ι)
    (q : Fields) (hinst : Over S q.inst) (htype : Over S q.getType) (hsize : g.taken.length < 2 ^ 32) :
    ∃ name, makeServiceNameUnique digit g (g.taken.length + 2) q = some { q with inst := name } ∧
      g.inCache { q with inst := name } = false ∧ g.inServices { q with inst := name } = false := by
  obtain ⟨base, n, hname, hsub, hn⟩ := incrementName_eq_numbered digit q.inst
  have hbase : Over S base := fun c hc =>
    over_append.mpr ⟨hinst, over_cons.mpr ⟨(hf.ascii 32 (by decide)).1, over_nil⟩⟩ c (hsub hc)
  have hnext : setNextName digit q = renamed q base n 0 := by
    rw [setNextName, hname, renamed, nameAt_zero base hn]
  obtain ⟨j, hj, hfree⟩ := exists_free n hf hbase htype hdigit hsize
  have hover : Over S (renamed q base n j).getQualifiedName := by
    rw [Fields.getQualifiedName, if_pos (by simp [renamed, nameAt, numbered])]
    exact over_append.mpr ⟨over_append.mpr ⟨over_numbered hf hbase _, hf.over_dot⟩, htype⟩
  have hfree := free_of_notMem hf hover hfree
  have hloop (i : ℕ) (hi : i ≤ j) (hturn : uniqueTurn digit g q = (renamed q base n i, true)) :
      ∃ name, makeServiceNameUnique digit g (g.taken.length + 2) q = some { q with inst := name } ∧
        g.inCache { q with inst := name } = false ∧ g.inServices { q with inst := name } = false := by
    obtain ⟨k, -, hk, hcur⟩ := makeServiceNameUnique_renamed hdigit hfree (g.taken.length + 1) i hi (by omega)
    exact ⟨nameAt base n k, by rw [makeServiceNameUnique, hturn]; exact hk, hcur⟩
  cases hcache : g.inCache q with
  | false =>
    cases hservices : g.inServices q with
    | false => exact ⟨q.inst, by simp [makeServiceNameUnique, uniqueTurn, hcache, hservices], hcache, hservices⟩
    | true => exact hloop 0 (Nat.zero_le j) (by simp [uniqueTurn, hcache, hservices, hnext])
  | true =>
    cases hservices : g.inServices (renamed q base n 0) with
    | false => exact hloop 0 (Nat.zero_le j) (by simp [uniqueTurn, hcache, hservices, hnext])
    | true =>
      have hpos : j ≠ 0 := by
        rintro rfl
        simp [hfree] at hservices
      exact hloop 1 (by omega) (by simp [uniqueTurn, hcache, hservices, hnext, setNextName_renamed hdigit])

/-- The ten digits of ASCII. -/
def asciiDigit (c : UInt16) : Option ℕ := if 48 ≤ c.toNat ∧ c.toNat < 58 then some (c.toNat - 48) else none

/-- A host that has given away two names of the loudspeaker. -/
def twoSpeakers : Registry asciiLower ℕ where
  cache := LinkedMap.empty
  services := (LinkedMap.empty.put (speaker.serviceKey asciiLower) 0).put
    (Fields.serviceKey asciiLower { speaker with inst := text "Kitchen 1 (2)" }) 1
  now := 0
  self := 2
  port := 5000
  host := text "player.local."

theorem makeServiceNameUnique_spec_twoSpeakers : twoSpeakers.inServices speaker = true ∧
    ∃ name, makeServiceNameUnique asciiDigit twoSpeakers (twoSpeakers.taken.length + 2) speaker =
        some { speaker with inst := name } ∧
      twoSpeakers.inCache { speaker with inst := name } = false ∧
      twoSpeakers.inServices { speaker with inst := name } = false := by
  exact ⟨by decide +kernel, makeServiceNameUnique_spec folds_asciiLower (by unfold Digits; decide) twoSpeakers
    speaker (by decide +kernel) (by decide +kernel) (by decide +kernel)⟩

end Loop

end Waveplay.Jmdns.UniqueName
