import Peerward.Lib.Decoder
import Peerward.Lib.Run
import Peerward.Types.Ids

/-!
# Authorization leases

A configuration manifest names six signed parts; a lease authorizes forwarding under one manifest
for a signed number of seconds. `LeaseClock` turns a lease into permission only while both clocks
agree, and `AuthorizationFloor` is what survives a restart.

Instants are nanoseconds and `horizon` is the last one the platform can represent. Ed25519 and
SHA-256 over the canonical JSON are the parameters in `Verifier`.
-/

namespace Peerward.Management

open Std Peerward.Lib
open Peerward.Types (Key MeshId)

inductive ManagementError where
  | invalid (field : String)
  | conflict (configuration : String)
  | signature
  | incomplete
  | expired
  | rollback
  deriving DecidableEq

inductive ConfigurationPart where
  | authorities
  | peers
  | policy
  | resources
  | dns
  | revocations
  deriving DecidableEq

namespace ConfigurationPart

/-- The derived order is the order of declaration. -/
def rank : ConfigurationPart → Nat
  | authorities => 0
  | peers => 1
  | policy => 2
  | resources => 3
  | dns => 4
  | revocations => 5

instance : Ord ConfigurationPart := ⟨compareOn rank⟩

instance : TransOrd ConfigurationPart := inferInstanceAs (TransCmp (compareOn rank))

instance : LawfulEqOrd ConfigurationPart where
  eq_of_compare := by
    intro a b h
    have hrank : a.rank = b.rank := LawfulEqOrd.eq_of_compare (show compare a.rank b.rank = .eq from h)
    cases a <;> cases b <;> first | rfl | cases hrank

end ConfigurationPart

abbrev Digest := BitVec 256

structure ComponentReference where
  version : Nat
  digest : Digest
  deriving DecidableEq

abbrev Parts := ExtTreeMap ConfigurationPart ComponentReference

structure ConfigurationManifest where
  meshId : MeshId
  version : Nat
  parts : Parts

structure AuthorizationLease where
  meshId : MeshId
  configurationDigest : Digest
  sequence : Nat
  issuedAt : Nat
  validUntil : Nat
  deriving DecidableEq

structure SignedManifest where
  manifest : ConfigurationManifest
  signature : Bytes

structure SignedLease where
  lease : AuthorizationLease
  signature : Bytes
  deriving DecidableEq

/-- Signature checks over the transcripts, and `content_digest`. -/
structure Verifier where
  signedManifest : Key → ConfigurationManifest → Bytes → Bool
  signedLease : Key → AuthorizationLease → Bytes → Bool
  manifestDigest : ConfigurationManifest → Digest
  leaseDigest : AuthorizationLease → Digest

def MAX_CLOCK_TOLERANCE_SECONDS : Nat := 30

/-- `u64::saturating_add`. -/
def saturatingAdd (a b : Nat) : Nat := min (a + b) (2 ^ 64 - 1)

/-- Nanoseconds in a `Duration::from_secs(1)`. -/
def SECOND : Nat := 1000000000

def ConfigurationManifest.validate (manifest : ConfigurationManifest) :
    Except ManagementError Unit :=
  rejectIf (manifest.version = 0 || manifest.parts.size ≠ 6
    || manifest.parts.toList.any fun (kind, part) =>
      part.version = 0 && (kind = .resources || kind = .dns)) (.invalid "manifest")

def AuthorizationLease.validate (lease : AuthorizationLease) : Except ManagementError Unit :=
  rejectIf (lease.sequence = 0 || lease.validUntil ≤ lease.issuedAt
    || !([300, 900, 3600].contains (lease.validUntil - lease.issuedAt))) (.invalid "lease")

/-- The signed lifetime, as an `Instant` distance. -/
def AuthorizationLease.lifetime (lease : AuthorizationLease) : Nat :=
  SECOND * (lease.validUntil - lease.issuedAt)

def SignedManifest.verify (v : Verifier) (signed : SignedManifest) (key : Key) (mesh : MeshId) :
    Except ManagementError Unit := do
  signed.manifest.validate
  rejectIf (signed.manifest.meshId ≠ mesh) .signature
  rejectIf (!v.signedManifest key signed.manifest signed.signature) .signature

def SignedLease.verify (v : Verifier) (signed : SignedLease) (key : Key) (mesh : MeshId) :
    Except ManagementError Unit := do
  signed.lease.validate
  rejectIf (signed.lease.meshId ≠ mesh) .signature
  rejectIf (!v.signedLease key signed.lease signed.signature) .signature

/-- Persisted before activation; a restart deliberately loses the live lease. -/
structure AuthorizationFloor where
  configurationVersion : Nat := 0
  configurationDigest : Digest := 0
  leaseSequence : Nat := 0
  leaseDigest : Digest := 0
  timeFloor : Nat := 0
  deriving DecidableEq

/-- `active` and `pending` hold a wall-clock and a monotonic deadline. -/
structure LeaseClock where
  floor : AuthorizationFloor
  active : Option (Nat × Nat)
  pending : Option (Nat × Nat)
  deriving DecidableEq

/-- The arguments of one `install`. -/
structure Delivery where
  manifest : SignedManifest
  lease : SignedLease
  key : Key
  mesh : MeshId
  available : Parts
  wall : Nat
  monotonic : Nat

namespace LeaseClock

variable (v : Verifier) (horizon : Nat)

/-- A clock after a start of the process. -/
def new (floor : AuthorizationFloor) : LeaseClock := { floor, active := none, pending := none }

/-- The checks of `install` that come before any change of state. -/
def check (s : LeaseClock) (d : Delivery) : Except ManagementError Unit := do
  let manifest := d.manifest.manifest
  let lease := d.lease.lease
  let current := s.floor
  d.manifest.verify v d.key d.mesh
  d.lease.verify v d.key d.mesh
  rejectIf (v.manifestDigest manifest ≠ lease.configurationDigest) .signature
  rejectIf (manifest.version < current.configurationVersion
    || (manifest.version = current.configurationVersion
      && v.manifestDigest manifest ≠ current.configurationDigest)
    || lease.sequence < current.leaseSequence
    || (lease.sequence = current.leaseSequence && v.leaseDigest lease ≠ current.leaseDigest))
    .rollback
  rejectIf (saturatingAdd d.wall MAX_CLOCK_TOLERANCE_SECONDS < current.timeFloor
    || saturatingAdd d.wall MAX_CLOCK_TOLERANCE_SECONDS < lease.issuedAt
    || lease.validUntil ≤ max d.wall current.timeFloor) .expired
  rejectIf (d.available.toList.any fun (part, known) =>
    manifest.parts[part]?.any fun required => required.version < known.version
      || (known.version = required.version && known.digest ≠ required.digest)) .rollback

/-- A newer sequence goes into the floor and becomes pending; `Err(Expired)` if the platform cannot
represent its deadline. -/
def record (s : LeaseClock) (d : Delivery) : Except ManagementError LeaseClock :=
  let lease := d.lease.lease
  if s.floor.leaseSequence < lease.sequence then
    let floor := max (max d.wall s.floor.timeFloor) lease.issuedAt
    let deadline := d.monotonic + SECOND * (lease.validUntil - floor)
    if horizon < deadline then .error .expired
    else .ok
      { floor :=
          { configurationVersion := d.manifest.manifest.version
            configurationDigest := v.manifestDigest d.manifest.manifest
            leaseSequence := lease.sequence
            leaseDigest := v.leaseDigest lease
            timeFloor := floor }
        pending := some (lease.validUntil, deadline)
        active := none }
  else .ok s

/-- Everything `install` does before it looks at the dependencies. -/
def observe (s : LeaseClock) (d : Delivery) : Except ManagementError LeaseClock := do
  s.check v d
  s.record v horizon d

/-- Moves the pending lease to `active` once every dependency is there. -/
def activate (s : LeaseClock) (d : Delivery) : Except ManagementError Bool × LeaseClock :=
  if d.manifest.manifest.parts ≠ d.available then (.error .incomplete, s)
  else match s.pending with
    | none => (.ok false, s)
    | some (until_, deadline) =>
      let s := { s with pending := none }
      if until_ ≤ max d.wall s.floor.timeFloor || deadline ≤ d.monotonic then (.error .expired, s)
      else (.ok true, { s with active := some (until_, deadline) })

def install (s : LeaseClock) (d : Delivery) : Except ManagementError Bool × LeaseClock :=
  match s.observe v horizon d with
  | .error failure => (.error failure, s)
  | .ok s => s.activate d

def valid (s : LeaseClock) (wall monotonic : Nat) : Bool × LeaseClock :=
  let s := if saturatingAdd wall MAX_CLOCK_TOLERANCE_SECONDS < s.floor.timeFloor then
      { s with active := none, pending := none } else s
  let s := { s with floor := { s.floor with timeFloor := max s.floor.timeFloor wall } }
  let s := if s.active.any fun (until_, deadline) => until_ ≤ wall || deadline ≤ monotonic then
      { s with active := none } else s
  (s.active.isSome, s)

def invalidate (s : LeaseClock) : LeaseClock := { s with active := none }

/-- Suspend can omit elapsed time from `Instant`; a staged lease must not survive it either. -/
def suspend (s : LeaseClock) : LeaseClock := { s with active := none, pending := none }

/-! ## Runs -/

/-- The operations on a clock, and the restart of its process. -/
inductive Op where
  | install (delivery : Delivery)
  | valid (wall monotonic : Nat)
  | invalidate
  | suspend
  | restart

def step (s : LeaseClock) : Op → LeaseClock
  | .install d => (s.install v horizon d).2
  | .valid wall monotonic => (s.valid wall monotonic).2
  | .invalidate => s.invalidate
  | .suspend => s.suspend
  | .restart => new s.floor

/-- The delivery passes every check; its lease is, or already was, in the floor. -/
def Accepts (s : LeaseClock) (d : Delivery) : Prop := (s.observe v horizon d).isOk = true

/-- The delivery puts its lease into the floor. -/
def Records (s : LeaseClock) (d : Delivery) : Prop :=
  s.floor.leaseSequence < d.lease.lease.sequence ∧ Accepts v horizon s d

/-- The delivery starts the permission to forward. -/
def Activates (s : LeaseClock) (d : Delivery) : Prop := (s.install v horizon d).1 = .ok true

/-- The operation leaves a permission alone: no invalidation, suspension or restart, no newer
sequence, and no `valid` that says no. -/
def Quiet (s : LeaseClock) : Op → Prop
  | .install d => ¬ Records v horizon s d
  | .valid wall monotonic => (s.valid wall monotonic).1 = true
  | _ => False

end LeaseClock

end Peerward.Management
