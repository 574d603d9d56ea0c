import Waveplay.Lib.LinkedMap
import Waveplay.Lib.Runs
import Waveplay.Jmdns.Outbox

/-! # The cache of records

`handleRecord` puts the records of responses into the `DNSCache`, and `cleanCache` takes those out that
have expired. The cache is a map from names to lists of records; `view` reads it as a function, and
`handleList` says what a record does to the list of its name.

* `view_handleRecord`: the cache is that function, for names that are not changed by `trim`. -/

namespace Waveplay.Jmdns.Cache

open Waveplay.Lib Waveplay.Lib.Runs Waveplay.Jmdns.Stream Waveplay.Jmdns.QualifiedName
open Waveplay.Jmdns.Message Waveplay.Jmdns.Outbox

variable {lower : Text → Text}

/-! ### `DNSRecord` -/

/-- The qualified name map. -/
def fields (r : Record lower) : Fields := (decodeQualifiedNameMapForType lower r.name).get r.decodes

/-- `isServicesDiscoveryMetaQuery`. -/
def isServicesDiscoveryMetaQuery (r : Record lower) : Bool :=
  (fields r).application = text "dns-sd" && (fields r).inst = text "_services"

/-- `isDomainDiscoveryQuery`. -/
def isDomainDiscoveryQuery (r : Record lower) : Bool :=
  (fields r).application = text "dns-sd" &&
    (fields r).inst ∈ [text "b", text "db", text "r", text "dr", text "lb"]

/-- `isSameEntry`, which `Pointer` overrides. -/
def isSameEntry (r entry : Record lower) : Bool :=
  decide (recordKey r = recordKey entry ∧ r.data.recordType = entry.data.recordType ∧
    (entry.recordClass = .CLASS_ANY ∨ r.recordClass = entry.recordClass)) &&
  match r.data, entry.data with
  | .pointer target, .pointer target' => target = target'
  | _, _ => true

/-- `isSingleValued`. -/
def isSingleValued : Data → Bool
  | .ipv4Address _ | .ipv6Address _ | .pointer _ => false
  | .text _ | .service .. | .hostInformation .. => true

/-- `setWillExpireSoon`, by `RECORD_EXPIRY_DELAY`. -/
def setWillExpireSoon (now : ℤ) (r : Record lower) : Record lower := { r with created := now, ttl := 1 }

/-- `resetTTL`. -/
def resetTTL (other r : Record lower) : Record lower := { r with created := other.created, ttl := other.ttl }

/-! ### `DNSCache` -/

/-- A `DNSCache`. Its entries are in a `HashSet`; their order is of no account. -/
abbrev DNSCache (lower : Text → Text) := LinkedMap Text (List (Record lower))

/-- The key of a `_CacheEntry`, which `getEntry` looks for. -/
def cacheKey (lower : Text → Text) (key : Text) : Text := lower (trim key)

/-- `getDNSEntryList` of a name: the key is not trimmed. -/
def getDNSEntryList (cache : DNSCache lower) (name : Text) : List (Record lower) :=
  (cache.get (lower name)).getD []

/-- `getDNSEntryList` of a name, a type and a class. -/
def getDNSEntryListOf (cache : DNSCache lower) (name : Text) (type : DNSRecordType)
    (recordClass : DNSRecordClass) : List (Record lower) :=
  (getDNSEntryList cache name).filter fun e =>
    e.data.recordType = type ∧ (recordClass = .CLASS_ANY ∨ e.recordClass = recordClass)

/-- `getDNSEntry`. -/
def getDNSEntry (cache : DNSCache lower) (r : Record lower) : Option (Record lower) :=
  (getDNSEntryList cache (recordKey r)).find? (isSameEntry · r)

/-- `addDNSEntry`. -/
def addDNSEntry (r : Record lower) (cache : DNSCache lower) : DNSCache lower :=
  let key := cacheKey lower (recordKey r)
  cache.put key ((cache.get key).getD [] ++ [r])

/-- `remove` of a list, which takes out the first record that equals `r`. -/
def removeFirst (r : Record lower) : List (Record lower) → Option (List (Record lower))
  | [] => some []
  | e :: value => do
    let same ← equals r e
    if same then some value else (removeFirst r value).map (e :: ·)

/-- `removeDNSEntry`. -/
def removeDNSEntry (r : Record lower) (cache : DNSCache lower) : Option (DNSCache lower) :=
  let key := cacheKey lower (recordKey r)
  match cache.get key with
  | none => some cache
  | some value => (removeFirst r value).map fun value =>
    if value = [] then cache.remove key else cache.put key value

/-- `replaceDNSEntry`. -/
def replaceDNSEntry (r existing : Record lower) (cache : DNSCache lower) : Option (DNSCache lower) :=
  if recordKey r = recordKey existing then
    let key := cacheKey lower (recordKey r)
    (removeFirst existing ((cache.get key).getD [])).map fun value => cache.put key (value ++ [r])
  else some cache

/-- The records of a list are objects: the first that meets `p` and the others are changed in place. -/
def updateFirst (p : Record lower → Bool) (f g : Record lower → Record lower) :
    List (Record lower) → List (Record lower)
  | [] => []
  | e :: value => if p e then f e :: value.map g else g e :: updateFirst p f g value

/-- The records of a name are changed in place. -/
def modify (name : Text) (f : List (Record lower) → List (Record lower)) (cache : DNSCache lower) :
    DNSCache lower :=
  match cache.get (lower name) with
  | none => cache
  | some value => cache.put (lower name) (f value)

/-! ### `JmDNSImpl` -/

/-- `Operation`. -/
inductive Operation
  | remove
  | update
  | add
  | noop
  deriving DecidableEq, Repr

/-- A unique record lets the others of its type and class expire soon. -/
def flush (now : ℤ) (r entry : Record lower) : Record lower :=
  if r.data.recordType = entry.data.recordType ∧ r.recordClass = entry.recordClass then
    setWillExpireSoon now entry
  else entry

/-- A record with another value than the cached one, or for another subtype. -/
def differs (r cached : Record lower) : Option Bool :=
  (sameValue r.data cached.data).map fun same =>
    !same || ((fields r).subtype ≠ (fields cached).subtype && (fields r).subtype.length > 0)

/-- `handleRecord`, up to the operation that the listeners are told. -/
def handleRecord (now : ℤ) (r : Record lower) (cache : DNSCache lower) :
    Option (DNSCache lower × Operation) :=
  if isServicesDiscoveryMetaQuery r || isDomainDiscoveryQuery r then some (cache, .noop)
  else
    let cachedRecord := getDNSEntry cache r
    let cache :=
      if r.unique then modify (recordKey r) (updateFirst (isSameEntry · r) id (flush now r)) cache else cache
    match cachedRecord with
    | some cached =>
      if isExpired now r then
        if r.ttl = 0 then
          some (modify (recordKey r) (updateFirst (isSameEntry · r) (setWillExpireSoon now) id) cache, .noop)
        else (removeDNSEntry cached cache).map (·, .remove)
      else do
        let differs ← differs r cached
        if differs then
          if isSingleValued r.data then (replaceDNSEntry r cached cache).map (·, .update)
          else some (addDNSEntry r cache, .add)
        else some (modify (recordKey r) (updateFirst (isSameEntry · r) (resetTTL r) id) cache, .noop)
    | none => if isExpired now r then some (cache, .noop) else some (addDNSEntry r cache, .add)

/-- The body of the loop of `cleanCache`: an exception leaves the record in the cache. -/
def reap (now : ℤ) (r : Record lower) (cache : DNSCache lower) : DNSCache lower :=
  if isExpired now r then (removeDNSEntry r cache).getD cache else cache

/-- What happens to the cache: the next record of a response is handled, or `cleanCache`, called by the
`RecordReaper`, comes to the next of the records it has found. The two threads take turns in any order. -/
inductive Input (lower : Text → Text)
  | handle (now : ℤ) (r : Record lower)
  | reap (now : ℤ) (r : Record lower)

/-- The record of an input. -/
def Input.record : Input lower → Record lower
  | handle _ r | reap _ r => r

/-- One of the threads goes on. -/
def step (cache : DNSCache lower) : Input lower → Option (DNSCache lower)
  | .handle now r => (handleRecord now r cache).map Prod.fst
  | .reap now r => some (reap now r cache)

/-! ### The cache as a function -/

/-- The records of a name. -/
def view (cache : DNSCache lower) (key : Text) : List (Record lower) := (cache.get key).getD []

/-- A record whose name is looked for as it is stored. -/
structure Settled (r : Record lower) : Prop where
  trim : trim (recordKey r) = recordKey r
  lower : lower (recordKey r) = recordKey r

theorem Settled.cacheKey {r : Record lower} (h : Settled r) : cacheKey lower (recordKey r) = recordKey r := by
  rw [Cache.cacheKey, h.trim, h.lower]

theorem view_put (cache : DNSCache lower) (key : Text) (value : List (Record lower)) :
    view (cache.put key value) = Function.update (view cache) key value := by
  funext j
  rw [view, LinkedMap.get_put, Function.update_apply]
  by_cases hj : key = j
  · rw [if_pos hj, if_pos hj.symm]
    rfl
  · rw [if_neg hj, if_neg fun h => hj h.symm]
    rfl

theorem view_remove (cache : DNSCache lower) (key : Text) :
    view (cache.remove key) = Function.update (view cache) key [] := by
  funext j
  rw [view, LinkedMap.get_remove, Function.update_apply]
  by_cases hj : key = j
  · rw [if_pos hj, if_pos hj.symm]
    rfl
  · rw [if_neg hj, if_neg fun h => hj h.symm]
    rfl

variable {r : Record lower} {cache : DNSCache lower}

theorem view_addDNSEntry (hr : Settled r) :
    view (addDNSEntry r cache) = Function.update (view cache) (recordKey r) (view cache (recordKey r) ++ [r]) := by
  rw [addDNSEntry, hr.cacheKey, view_put]
  rfl

theorem view_modify (hr : Settled r) {f : List (Record lower) → List (Record lower)} (hf : f [] = []) :
    view (modify (recordKey r) f cache) =
      Function.update (view cache) (recordKey r) (f (view cache (recordKey r))) := by
  rw [modify, hr.lower]
  cases hget : cache.get (recordKey r) with
  | none =>
    have hview : view cache (recordKey r) = [] := by rw [view, hget]; rfl
    rw [hview, hf, ← hview, Function.update_eq_self]
  | some value =>
    have hview : view cache (recordKey r) = value := by rw [view, hget]; rfl
    rw [hview, view_put]

theorem view_removeDNSEntry (cache : DNSCache lower) (hr : Settled r) :
    (removeDNSEntry r cache).map view =
      (removeFirst r (view cache (recordKey r))).map (Function.update (view cache) (recordKey r)) := by
  rw [removeDNSEntry, hr.cacheKey]
  cases hget : cache.get (recordKey r) with
  | none =>
    have hview : view cache (recordKey r) = [] := by rw [view, hget]; rfl
    rw [hview, removeFirst, Option.map_some, Option.map_some, ← hview, Function.update_eq_self]
  | some value =>
    have hview : view cache (recordKey r) = value := by rw [view, hget]; rfl
    rw [hview, Option.map_map]
    refine congrArg (Option.map · (removeFirst r value)) (funext fun value' => ?_)
    rw [Function.comp_apply]
    split_ifs with hnil
    · rw [hnil, view_remove]
    · rw [view_put]

theorem view_replaceDNSEntry (cache : DNSCache lower) (hr : Settled r) {existing : Record lower}
    (hkey : recordKey existing = recordKey r) :
    (replaceDNSEntry r existing cache).map view =
      (removeFirst existing (view cache (recordKey r))).map fun value =>
        Function.update (view cache) (recordKey r) (value ++ [r]) := by
  rw [replaceDNSEntry, if_pos hkey.symm, hr.cacheKey, Option.map_map]
  exact congrArg (Option.map · _) (funext fun value => view_put cache _ _)

/-- The records of the name after the others have been flushed. -/
def flushed (now : ℤ) (r : Record lower) (value : List (Record lower)) : List (Record lower) :=
  if r.unique then updateFirst (isSameEntry · r) id (flush now r) value else value

/-- What a record does to the records of its name. -/
def handleList (now : ℤ) (r : Record lower) (value : List (Record lower)) :
    Option (List (Record lower) × Operation) :=
  let value' := flushed now r value
  match value.find? (isSameEntry · r) with
  | some cached =>
    if isExpired now r then
      if r.ttl = 0 then some (updateFirst (isSameEntry · r) (setWillExpireSoon now) id value', .noop)
      else (removeFirst cached value').map (·, .remove)
    else do
      let differs ← differs r cached
      if differs then
        if isSingleValued r.data then (removeFirst cached value').map (· ++ [r], .update)
        else some (value' ++ [r], .add)
      else some (updateFirst (isSameEntry · r) (resetTTL r) id value', .noop)
  | none => if isExpired now r then some (value', .noop) else some (value' ++ [r], .add)

theorem recordKey_of_isSameEntry {e : Record lower} (h : isSameEntry e r = true) : recordKey e = recordKey r := by
  rw [isSameEntry, Bool.and_eq_true] at h
  exact (of_decide_eq_true h.1).1

theorem map_pair {α β γ : Type*} (o : Option α) (c : γ) (f : α → β) :
    (o.map (·, c)).map (Prod.map f id) = (o.map f).map (·, c) := by
  cases o <;> rfl

theorem view_flush (cache : DNSCache lower) (hr : Settled r) (now : ℤ) :
    view (if r.unique then modify (recordKey r) (updateFirst (isSameEntry · r) id (flush now r)) cache else cache) =
      Function.update (view cache) (recordKey r) (flushed now r (view cache (recordKey r))) := by
  rw [flushed]
  split_ifs
  · exact view_modify hr rfl
  · exact (Function.update_eq_self _ _).symm

/-- **The cache is a function.** A record changes the list of its name as `handleList` does, and no other. -/
theorem view_handleRecord (cache : DNSCache lower) (hr : Settled r)
    (hmeta : (isServicesDiscoveryMetaQuery r || isDomainDiscoveryQuery r) = false) (now : ℤ) :
    (handleRecord now r cache).map (Prod.map view id) =
      (handleList now r (view cache (recordKey r))).map
        (Prod.map (Function.update (view cache) (recordKey r)) id) := by
  have hentry : getDNSEntry cache r = (view cache (recordKey r)).find? (isSameEntry · r) := by
    rw [getDNSEntry, getDNSEntryList, hr.lower]
    rfl
  have hflush := view_flush cache hr now
  rw [handleRecord, if_neg (by simp [hmeta]), handleList]
  simp only [hentry]
  generalize (if r.unique then modify (recordKey r) (updateFirst (isSameEntry · r) id (flush now r)) cache
    else cache) = cache' at hflush ⊢
  generalize flushed now r (view cache (recordKey r)) = value' at hflush ⊢
  have hvalue : view cache' (recordKey r) = value' := by rw [hflush, Function.update_self]
  have hupdate (l : List (Record lower)) :
      Function.update (view cache') (recordKey r) l = Function.update (view cache) (recordKey r) l := by
    rw [hflush, Function.update_idem]
  cases hfind : (view cache (recordKey r)).find? (isSameEntry · r) with
  | none =>
    simp only
    split_ifs
    · rw [Option.map_some, Option.map_some, Prod.map, Prod.map, hflush]
    · rw [Option.map_some, Option.map_some, Prod.map, Prod.map, view_addDNSEntry hr, hvalue, hupdate]
  | some cached =>
    have hsame := List.find?_some hfind
    have hkey : recordKey cached = recordKey r := recordKey_of_isSameEntry hsame
    have hcached : Settled cached := ⟨by rw [hkey, hr.trim], by rw [hkey, hr.lower]⟩
    have hremove := view_removeDNSEntry cache' hcached
    have hreplace := view_replaceDNSEntry cache' hr hkey
    rw [hkey, hvalue] at hremove
    rw [hvalue] at hreplace
    simp only
    by_cases hexpired : isExpired now r
    · simp only [if_pos hexpired]
      split_ifs
      · rw [Option.map_some, Option.map_some, Prod.map, Prod.map, view_modify hr rfl, hvalue, hupdate]
      · rw [map_pair, map_pair, hremove]
        exact congrArg (Option.map (·, Operation.remove)) (congrArg (Option.map · _) (funext hupdate))
    · simp only [if_neg hexpired]
      cases differs r cached with
      | none => rfl
      | some differs =>
        simp only [Option.bind_eq_bind, Option.bind_some]
        split_ifs
        · rw [map_pair, hreplace]
          simp only [Option.map_map]
          exact congrArg (Option.map · _) (funext fun l => Prod.ext (hupdate _) rfl)
        · rw [Option.map_some, Option.map_some, Prod.map, Prod.map, view_addDNSEntry hr, hvalue, hupdate]
        · rw [Option.map_some, Option.map_some, Prod.map, Prod.map, view_modify hr rfl, hvalue, hupdate]

end Waveplay.Jmdns.Cache
