import Mathlib.Logic.Function.Basic
import Tapsmith.Lib.OrderedSet

namespace Tapsmith.Device

open Lib.OrderedSet

/-!
# Device claims

The registry of `device-claims.ts`: one record for each device, made by the processes of one
session, merged when they join and leave, and taken over by another session once it is stale.

* `claimDevice`, `releaseDeviceClaim` — what a process does to the record of a device under the lock
  of the registry;
* `Machine.Step` — what the processes of a machine may do, in any order.
-/

/-! ### The records -/

/-- A process.  The start token tells it from an earlier process with its pid. -/
structure ProcessRef where
  pid : ℕ
  startToken : Option String := none
deriving DecidableEq

/-- What the registry reads of a session: its id and its root process. -/
structure SessionIdentity where
  id : String
  root : ProcessRef
deriving DecidableEq

structure DeviceClaim where
  device : String
  session : SessionIdentity
  claimantPid : ℕ
  holders : Option (List ProcessRef)
  daemonAddress : Option String
  daemonAddresses : Option (List String)
  claimedAt : String
deriving DecidableEq

inductive ClaimResult
  | ok (fresh : Bool)
  | refused (holder : DeviceClaim)
deriving DecidableEq

def addressesOf (claim : Option DeviceClaim) : List String :=
  match claim with
  | none => []
  | some claim => addAll [] (claim.daemonAddresses.getD [] ++ claim.daemonAddress.toList)

section Registry

variable (processIsLive : ProcessRef → Bool)

/-- A claim without holders falls back to the root of the session. -/
def claimIsLive (claim : DeviceClaim) : Bool :=
  let holders := claim.holders.getD []
  if holders = [] then processIsLive claim.session.root else holders.any processIsLive

/-! ### The operations -/

/-- The record that a claim by `me` writes. -/
def joinedClaim (me : ProcessRef) (now device : String) (session : SessionIdentity)
    (daemonAddress : Option String) (existing : Option DeviceClaim) : DeviceClaim :=
  let same := existing.filter fun claim => claim.session.id = session.id
  let others := ((same.bind DeviceClaim.holders).getD []).filter fun h =>
    h.pid ≠ me.pid && processIsLive h
  { device, session
    claimantPid := (same.map DeviceClaim.claimantPid).getD me.pid
    holders := some (others ++ [me])
    daemonAddress := daemonAddress.or (same.bind DeviceClaim.daemonAddress)
    daemonAddresses := some (addAll [] (addressesOf same ++ daemonAddress.toList))
    claimedAt := (same.map DeviceClaim.claimedAt).getD now }

/-- `claimDevice` on the record of the device: the record it leaves, and its result. -/
def claimDevice (me : ProcessRef) (now device : String) (session : SessionIdentity)
    (daemonAddress : Option String) (existing : Option DeviceClaim) :
    Option DeviceClaim × ClaimResult :=
  match existing with
  | some holder =>
    if holder.session.id ≠ session.id ∧ claimIsLive processIsLive holder = true then
      (existing, .refused holder)
    else (some (joinedClaim processIsLive me now device session daemonAddress existing),
      .ok (holder.session.id ≠ session.id))
  | none =>
    (some (joinedClaim processIsLive me now device session daemonAddress existing), .ok true)

/-- `releaseDeviceClaim` on the record of the device. -/
def releaseDeviceClaim (me : ProcessRef) (session : SessionIdentity)
    (existing : Option DeviceClaim) : Option DeviceClaim :=
  match existing with
  | none => none
  | some claim =>
    if claim.session.id ≠ session.id then some claim
    else
      let remaining := (claim.holders.getD []).filter fun h => h.pid ≠ me.pid && processIsLive h
      if remaining = [] then none else some { claim with holders := some remaining }

end Registry

/-! ### The processes of a machine -/

/-- The processes that run, those that have ever run, and the registry. -/
structure Machine where
  alive : ProcessRef → Bool := fun _ => false
  started : ProcessRef → Bool := fun _ => false
  registry : String → Option DeviceClaim := fun _ => none

inductive Event
  | start (p : ProcessRef)
  | die (p : ProcessRef)
  | claim (p : ProcessRef) (device : String) (daemonAddress : Option String) (now : String)
      (result : ClaimResult)
  | release (p : ProcessRef) (device : String)

section Machine

variable (sessionOf : ProcessRef → SessionIdentity)

/-- A process claims a device for its session. -/
def Machine.claimAs (s : Machine) (p : ProcessRef) (device now : String)
    (daemonAddress : Option String) : Option DeviceClaim × ClaimResult :=
  claimDevice s.alive p now device (sessionOf p) daemonAddress (s.registry device)

def Machine.setClaim (s : Machine) (device : String) (claim : Option DeviceClaim) : Machine :=
  { s with registry := Function.update s.registry device claim }

/-- One step.  Every process has inherited the identity of its session; the pid of a process is
    free again once it is dead, but its start token is not used again. -/
inductive Machine.Step (s : Machine) : Event → Machine → Prop
  | start {p : ProcessRef} (hnew : s.started p = false)
      (hpid : ∀ q, s.alive q = true → q.pid ≠ p.pid) :
      Step s (.start p) { s with
        alive := Function.update s.alive p true
        started := Function.update s.started p true }
  | die {p : ProcessRef} (halive : s.alive p = true) :
      Step s (.die p) { s with alive := Function.update s.alive p false }
  | claim {p : ProcessRef} {device now : String} {daemonAddress : Option String}
      (halive : s.alive p = true) :
      Step s (.claim p device daemonAddress now (s.claimAs sessionOf p device now daemonAddress).2)
        (s.setClaim device (s.claimAs sessionOf p device now daemonAddress).1)
  | release {p : ProcessRef} {device : String} (halive : s.alive p = true) :
      Step s (.release p device) (s.setClaim device
        (releaseDeviceClaim s.alive p (sessionOf p) (s.registry device)))

end Machine

end Tapsmith.Device
