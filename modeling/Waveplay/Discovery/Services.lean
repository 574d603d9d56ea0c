import Waveplay.Discovery.Matcher
import Waveplay.Lib.Runs
import Waveplay.Lib.Wrap

/-! # `Finder`: discovery

The thread of discovery keeps three stores in step: its own set of speakers by host and port, the
properties of the services by name (`PropertyManager`), and the contexts of the services by host or, without
one, by name (`RaopHelper`), from which nothing is ever removed. An iteration takes the result of a scan,
adds the speakers that are new and removes those that are gone. An exception ends the thread.

The service of `zeroconf` is taken as made, speakers are stopped while no player has opened them, and the
observers of `RaopHelper` do not throw. -/

namespace Waveplay.Discovery.Services

open Waveplay.Lib.Wrap
open Waveplay.Discovery.Matcher

/-- A `ZCServiceInfo`. -/
structure Service where
  name : Text
  host : Option Text
  port : ℤ
  protocol : Text
  deriving DecidableEq, Repr

structure SpeakerRef where
  name : Text
  host : Option Text
  port : ℤ
  uid : ℤ
  protocol : Text
  deriving DecidableEq, Repr

/-- The constructor of `SpeakerRef`: the part of the name before an `@` is taken off if it is a number. -/
def Service.ref (jdk : Jdk) (s : Service) : SpeakerRef :=
  let ix := s.name.idxOf '@'
  let uid := if 0 < ix ∧ ix < s.name.length then jdk.parseLong (s.name.take ix) else none
  match uid with
  | some uid => ⟨s.name.drop (ix + 1), s.host, s.port, uid, s.protocol⟩
  | none => ⟨s.name, s.host, s.port, 0, s.protocol⟩

/-! ### Sets of speakers -/

def SpeakerRef.hash (jdk : Jdk) (r : SpeakerRef) : BitVec 32 :=
  jdk.hashCode (r.host.getD []) ^^^ BitVec.ofInt 32 r.port

/-- A search in a `HashSet`: `equals` is called on the entries with the same hash, and calls a method of
the host of the entry. If `own` is set, `ref` is the object of an entry, and that entry is found without
`equals`; no other entry has the same fields, for it would not have been added. -/
def contains (jdk : Jdk) (own : Bool) (ref : SpeakerRef) : List SpeakerRef → Except Exception Bool
  | [] => .ok false
  | r :: rs =>
    if r.hash jdk = ref.hash jdk then
      if own ∧ r = ref then .ok true
      else
        match r.host with
        | none => .error .nullPointer
        | some host =>
          if some host = ref.host ∧ r.port = ref.port then .ok true else contains jdk own ref rs
    else contains jdk own ref rs

def add (jdk : Jdk) (set : List SpeakerRef) (ref : SpeakerRef) :
    Except Exception (List SpeakerRef) := do
  if ← contains jdk false ref set then .ok set else .ok (set ++ [ref])

def remove (jdk : Jdk) (own : Bool) (set : List SpeakerRef) (ref : SpeakerRef) :
    Except Exception (List SpeakerRef × Bool) := do
  if ← contains jdk own ref set then
    .ok (set.eraseP fun r => r.host = ref.host && r.port = ref.port, true)
  else .ok (set, false)

/-! ### Services -/

/-- What kind of service a context is of. -/
inductive Kind
  | speaker
  | factory
  | other
  deriving DecidableEq, Repr

structure Context where
  servicename : Text
  kind : Kind
  active : Bool
  deriving DecidableEq, Repr

/-- The three stores, and the delay of new speakers. -/
structure Finder where
  all : List SpeakerRef := []
  props : List (Text × List (Text × Text))
  contexts : List (Text × Context)
  delay : ℤ := 725
  deriving DecidableEq, Repr

/-- The stores that `startDeviceDiscovery` sets up. -/
def initial : Finder where
  props := [("zeroconffactory".toList, []), ("airportfactory".toList, []), ("main".toList, []),
    ("zeroconf.jmdns".toList, [])]
  contexts := [("zeroconffactory".toList, ⟨"zeroconffactory".toList, .factory, true⟩),
    ("airportfactory".toList, ⟨"airportfactory".toList, .other, true⟩),
    ("main".toList, ⟨"main".toList, .other, true⟩),
    ("zeroconf.jmdns".toList, ⟨"zeroconf.jmdns".toList, .other, true⟩)]

/-- `PropertyManager.get`. -/
def Finder.get (m : Finder) (servicename key : Text) : Option Text := do
  let entry ← m.props.find? (·.1 = servicename)
  if key = ['n', 'a', 'm', 'e'] then some servicename
  else (entry.2.find? (·.1 = key)).map (·.2)

/-- `ServiceMatcher.getProperty`. -/
def Finder.property (m : Finder) (c : Context) (key : Text) : Property :=
  if key = ['c', 'l', 'a', 's', 's'] then .clazz
  else if key = ['a', 'l', 'i', 'v', 'e'] then
    .text (if c.active then "true".toList else "false".toList)
  else
    match m.get c.servicename key with
    | some t => .text t
    | none => .null

/-- The properties of the service without a context that `getProperties` asks. -/
def noContext (key : Text) : Property := if key = ['c', 'l', 'a', 's', 's'] then .clazz else .null

/-- The speakers among the services, in the order of the map. -/
def Finder.speakers (jdk : Jdk) (m : Finder) : List (Text × Context) :=
  (jdk.order m.contexts).filter fun c => c.2.kind = .speaker

/-- The first speaker that matches. -/
def firstMatch (jdk : Jdk) (m : Finder) (items : Option (List Item)) :
    List (Text × Context) → Except Exception (Option (Text × Context))
  | [] => .ok none
  | c :: cs => do
    if ← matchesAll (serviceTest jdk (m.property c.2)) items then .ok (some c)
    else firstMatch jdk m items cs

/-- Whether a test for equality has been made, so that `propertymap` is set. -/
def asked (items : Option (List Item)) (speakers : List (Text × Context)) : Bool :=
  speakers ≠ [] && (items.getD []).any fun
    | .test _ op _ => op = ['=']
    | _ => false

/-- `getService(Speaker.class, filter)`. The factory makes no speakers, but is asked with the properties
of the filter. -/
def Finder.getService (jdk : Jdk) (m : Finder) (filter : Text) :
    Except Exception (Option (Text × Context)) := do
  let items ← parse jdk filter
  match ← firstMatch jdk m items (m.speakers jdk) with
  | some c => .ok (some c)
  | none =>
    if m.contexts.any (·.2.kind = .factory) && !asked items (m.speakers jdk) then
      (matchesAll (serviceTest jdk noContext) items).map fun _ => none
    else .ok none

/-- `contexts.put`. -/
def putContext (key : Text) (c : Context) : List (Text × Context) → List (Text × Context)
  | [] => [(key, c)]
  | e :: es => if e.1 = key then (key, c) :: es else e :: putContext key c es

/-! ### An iteration -/

/-- `"speaker.airport."` and the name. -/
def speakerName (name : Text) : Text :=
  ['s', 'p', 'e', 'a', 'k', 'e', 'r', '.', 'a', 'i', 'r', 'p', 'o', 'r', 't', '.'] ++ name

/-- `name=` and a text in quotes. -/
def nameFilter (quote : Char) (name : Text) : Text :=
  ['n', 'a', 'm', 'e', '='] ++ quote :: (name ++ [quote])

/-- The properties of a new speaker; a null host is none. -/
def Finder.properties (m : Finder) (r : SpeakerRef) : List (Text × Text) :=
  [(['d', 'i', 's', 'p', 'l', 'a', 'y'], r.name), (['d', 'e', 'l', 'a', 'y'], (toString m.delay).toList),
    (['u', 'i', 'd'], (toString (toInt r.uid)).toList)] ++
  r.host.toList.map (fun host => (['h', 'o', 's', 't'], host)) ++
  [(['p', 'o', 'r', 't'], (toString r.port).toList),
    (['p', 'r', 'o', 't', 'o', 'c', 'o', 'l'], r.protocol)]

/-- A speaker is entered into the stores. -/
def Finder.register (m : Finder) (r : SpeakerRef) : Finder :=
  { m with
    props := m.props ++ [(speakerName r.name, m.properties r)]
    contexts := putContext (r.host.getD (speakerName r.name)) ⟨speakerName r.name, .speaker, true⟩
      m.contexts }

/-- `addSpeaker`. -/
def Finder.addSpeaker (jdk : Jdk) (m : Finder) (ref : SpeakerRef) : Except Exception Finder := do
  let known ← contains jdk false ref m.all
  let duplicate ← m.getService jdk (nameFilter '\'' ref.name)
  let ref := if duplicate.isSome then { ref with name := ref.name ++ ['+'] } else ref
  if m.props.any (·.1 = speakerName ref.name) then
    .error (.illegalState
      ("Service \"".toList ++ speakerName ref.name ++ "\" already exists".toList))
  else if jdk.resolves ref.host then
    .ok ({ m with all := if known then m.all else m.all ++ [ref] }.register ref)
  else .error .unknownHost

/-- `removeSpeaker`. A speaker that is not found stays in `all`. -/
def Finder.removeSpeaker (jdk : Jdk) (m : Finder) (ref : SpeakerRef) : Except Exception Finder := do
  match ← m.getService jdk (nameFilter '"' (speakerName ref.name)) with
  | none => .ok m
  | some (key, c) =>
    let (all, _) ← remove jdk true m.all ref
    .ok { m with
      all
      props := m.props.filter (·.1 ≠ c.servicename)
      contexts := m.contexts.map fun e =>
        if e.1 = key then (e.1, { e.2 with active := false }) else e }

/-- The loop over the services of a scan. -/
def scanLoop (jdk : Jdk) : List Service → Finder → List SpeakerRef →
    Except Exception (Finder × List SpeakerRef)
  | [], m, copy => .ok (m, copy)
  | s :: services, m, copy => do
    let (copy, known) ← remove jdk false copy (s.ref jdk)
    let m ← if known then .ok m else m.addSpeaker jdk (s.ref jdk)
    scanLoop jdk services m copy

/-- The loop over the speakers that are gone. -/
def removeLoop (jdk : Jdk) : List SpeakerRef → Finder → Except Exception Finder
  | [], m => .ok m
  | r :: refs, m => do
    let m ← m.removeSpeaker jdk r
    removeLoop jdk refs m

/-- An iteration of `run`; without `zeroconf` there are no services. -/
def Finder.iteration (jdk : Jdk) (m : Finder) (services : Option (List Service)) :
    Except Exception Finder := do
  let copy ← m.all.foldlM (add jdk) []
  let (m, copy) ← scanLoop jdk (services.getD []) m copy
  removeLoop jdk (jdk.order copy) m

/-- An iteration, `none` if an exception ends the thread. -/
def iterate (jdk : Jdk) (m : Finder) (services : Option (List Service)) : Option Finder :=
  (m.iteration jdk services).toOption

/-! ### Services for sample runs -/

/-- A service of a sample scan. -/
def listed (name : String) (host : Option String) (port : ℤ) : Service :=
  ⟨name.toList, host.map (·.toList), port, "udp".toList⟩

def kitchen : Service := listed "kitchen" (some "10.0.0.1") 5000

def bath : Service := listed "bath" (some "10.0.0.2") 5000

end Waveplay.Discovery.Services
