import Peerward.PeerCore.Connectivity
import Peerward.PeerCore.PolicyEngine
import Peerward.PeerCore.ResourceTraffic
import Peerward.PeerCore.WireguardDirectory
import Peerward.Policy.Codec

/-!
# The WireGuard runtime of one mesh

`WireguardRuntime` owns what one Peer holds of a mesh: the authorization table, the policy engine, the
local credentials with their engines, the checkpoint and the configuration in force. `prune` brings
all of it up to the clocks before anything is used, and `close` is final.

Packet queues and reassembly buffers are left out: no operation here reads them. The readings of the
clocks and the fate of each write are inputs, in `Surroundings`; every reading of the monotonic clock
inside one call is the same instant.
-/

namespace Peerward.PeerCore

open Std Peerward.Lib Peerward.Net Peerward.Directory
open Peerward.Credentials
open Peerward.IdentityPolicy (PeerDescriptor decodePolicyDocument)
open Peerward.Management
open Peerward.Types (Key PeerId)
open Peerward.Wireguard (Engine EngineError)

/-- What the runtime takes from outside: the primitives of the crates below it, and the encoders whose
bytes the stamps hash. -/
structure Outside where
  crypto : Crypto
  checkpoint : Encoding
  leases : Verifier
  digests : ContentDigests
  /-- The last instant the platform can represent. -/
  horizon : Nat
  /-- `VerifyingKey::from_bytes` accepts the bytes. -/
  parsesKey : Key → Bool
  encodePeerDirectory : SignedPeerDirectory → Except DirectoryError Bytes
  encodePolicy : SignedPolicyBundle → Except DirectoryError Bytes
  encodeRevocations : SignedRevocationBundle → Except DirectoryError Bytes
  encodeAuthorities : SignedAuthorityBundle → Except CredentialError Bytes

/-- What one call of `prune` meets. -/
structure Surroundings where
  instant : Nat
  /-- The suspend clock's bounds on the time slept so far. -/
  slept : Int × Int
  /-- Transactions drawn if the path checks start over. -/
  fresh : Key → Transaction
  admissionStored : Bool
  leaseStored : Bool
  expiryStored : Bool

/-- The `?` on a `PolicyError`. -/
def ofPolicy {α : Type} : Except IdentityPolicy.PolicyError α → Except PeerError α
  | .ok a => .ok a
  | .error failure => .error (.policy failure)

/-! ## The policy engine with its signed installs -/

/-- `PolicyEngine` with the verifier it authenticates installs against. -/
structure SignedPolicyEngine extends PolicyEngine where
  verifier : PolicyVerifier
  directoryRevision : Option Nat := none

namespace SignedPolicyEngine

def verifyPolicy (engine : SignedPolicyEngine) (signed : SignedPolicyBundle) :
    Except PeerError Unit := do
  ofDirectory (engine.verifier.verifyPolicy signed engine.meshId engine.state.policyRevision)
  let _ ← ofPolicy (decodePolicyDocument signed.bundle.revision signed.bundle.policy)

/-- Authenticates, decodes, and atomically installs a newer policy revision. -/
def installPolicy (engine : SignedPolicyEngine) (signed : SignedPolicyBundle) :
    Except PeerError SignedPolicyEngine := do
  ofDirectory (engine.verifier.verifyPolicy signed engine.meshId engine.state.policyRevision)
  let policy ← ofPolicy (decodePolicyDocument signed.bundle.revision signed.bundle.policy)
  return { engine with toPolicyEngine := engine.toPolicyEngine.installPolicy policy }

/-- The descriptors a signed directory stands for. -/
def descriptors (directory : PeerDirectory) : List PeerDescriptor :=
  ((directory.entries.map (·.entry)).filter (·.enabled)).flatMap fun entry =>
    entry.addresses.map fun address => { id := entry.peerId, address, labels := entry.labels }

/-- Authenticates and atomically installs a strictly newer Peer directory. -/
def installDirectory (crypto : Crypto) (engine : SignedPolicyEngine)
    (signed : SignedPeerDirectory) : Except PeerError SignedPolicyEngine := do
  ofDirectory (engine.verifier.verifyPeers crypto signed engine.meshId engine.directoryRevision)
  let installed ← engine.installVerifiedPeers (descriptors signed.directory)
  return { engine with
    toPolicyEngine := installed
    directoryRevision := some signed.directory.revision }

def clearConnections (engine : SignedPolicyEngine) : SignedPolicyEngine :=
  { engine with toPolicyEngine := engine.toPolicyEngine.clearConnections }

def setReady (engine : SignedPolicyEngine) (ready : Bool) : SignedPolicyEngine :=
  { engine with toPolicyEngine := engine.toPolicyEngine.setReady ready }

end SignedPolicyEngine

/-! ## Engines under the directory

An engine holds the remote keys of the generations that are valid now. It is made to agree with the table
whenever the table or the clock has moved.
-/

/-- The loop of `reconcile_engine` that installs. -/
def installKeys (crypto : Crypto) (engine : Engine) :
    List Key → Except PeerError Unit × Engine
  | [] => (.ok (), engine)
  | key :: rest =>
    match engine.install crypto key with
    | .error failure => (.error (.packetRuntime failure), engine)
    | .ok engine => installKeys crypto engine rest

namespace WireguardDirectory

variable (crypto : Crypto)

def verifyCredential (s : WireguardDirectory) (credential : SubjectCredential) (now : Nat) :
    Except PeerError Unit := do
  let _ ← ofCredential (s.trust.subjectValidUntil crypto credential (max now s.timeFloor))

/-- The remote generations valid at a time that is not before the floor. -/
def remoteKeys (s : WireguardDirectory) (localPeer : PeerId) (now : Nat) : List Key :=
  (s.keys.toList.filter fun (_, value) => value.peerId ≠ localPeer && value.validAt now).map Prod.fst

/-- Makes an engine hold exactly the remote generations that are valid now. -/
def reconcileEngine (s : WireguardDirectory) (engine : Engine) (localPeer : PeerId) (now : Nat) :
    Except PeerError Unit × Engine :=
  let now := max now s.timeFloor
  if !(s.get engine.publicKey now).any (·.peerId = localPeer) then (.error .revoked, engine.close)
  else if (s.remoteKeys localPeer now).length > engine.peerCapacity then
    (.error .invalidConfig, engine)
  else
    let stale := engine.peers.toList.filter fun key => (s.get key now).all (·.peerId = localPeer)
    installKeys crypto (stale.foldl Engine.remove engine) (s.remoteKeys localPeer now)

end WireguardDirectory

/-- A local credential with the engine that holds its secret. -/
structure LocalCredential where
  credential : SubjectCredential
  engine : Engine
  published : Bool

/-- The loop of `reconcile` over the slots; it stops at the first error. -/
def reconcileSlots (crypto : Crypto) (directory : WireguardDirectory) (localPeer : PeerId)
    (now : Nat) : List LocalCredential → Except PeerError Unit × List LocalCredential
  | [] => (.ok (), [])
  | slot :: rest =>
    if (directory.get slot.engine.publicKey now).isSome then
      match directory.reconcileEngine crypto slot.engine localPeer now with
      | (.error failure, engine) => (.error failure, { slot with engine } :: rest)
      | (.ok (), engine) =>
        let (result, rest) := reconcileSlots crypto directory localPeer now rest
        (result, { slot with engine, published := true } :: rest)
    else
      let (result, rest) := reconcileSlots crypto directory localPeer now rest
      (result, slot :: rest)

/-! ## The runtime

Everything that the clocks end is ended by `prune`, which every entry point calls first: expired
generations, the lease, slots and device admission.
-/

structure WireguardRuntime where
  mesh : Types.MeshId
  localPeer : PeerId
  directory : WireguardDirectory
  policy : SignedPolicyEngine
  slots : List LocalCredential := []
  started : Nat
  authorization : Nat := 0
  closed : Bool := false
  lastValidation : Option Nat := none
  admissionFloor : Nat
  /-- A wall-clock time, and the instant it was read at. -/
  admissionAnchor : Nat × Nat
  admissionPermitted : Option (ExtTreeSet PeerId) := none
  connectivity : Connectivity
  suspendUpper : Int
  updatesStarted : Bool := false
  checkpoint : Option Checkpoint := none
  configurationClock : LeaseClock := LeaseClock.new {}
  configurationActive : Bool := false
  resourcePlatform : PlatformState := .unmanaged
  configurationParts : Parts := ∅
  configurationKey : Key
  configuration : Option ConfigurationDelivery := none
  pendingConfiguration : Option ConfigurationDelivery := none
  preferences : ClientPreferences := {}
  resourceTraffic : ResourceTraffic := ResourceTraffic.new
  gatewayHealth : GatewayHealth := {}

/-- `SuspendClock::observe`: whether the host has slept for more than a millisecond. -/
def observeSleep (upper : Int) (slept : Int × Int) : Bool × Int :=
  if slept.1 > upper + 1000000 then (true, slept.2) else (false, min upper slept.2)

namespace WireguardRuntime

variable (out : Outside)

/-! ### Closing -/

/-- Already encrypted output is fenced by a new authorization number. -/
def flushPacketQueues (s : WireguardRuntime) : WireguardRuntime :=
  if s.authorization + 1 < 2 ^ 64 then { s with authorization := s.authorization + 1 }
  else { s with closed := true }

def clearPending (s : WireguardRuntime) : WireguardRuntime :=
  flushPacketQueues { s with
    resourceTraffic := s.resourceTraffic.clear, policy := s.policy.clearConnections }

/-- `policy.set_ready`. -/
def setReady (s : WireguardRuntime) (ready : Bool) : WireguardRuntime :=
  { s with policy := s.policy.setReady ready }

def close (s : WireguardRuntime) : WireguardRuntime :=
  setReady { s.clearPending with
    connectivity := { s.connectivity with peers := ∅ }
    slots := []
    closed := true
    checkpoint := none } false

/-- A write to the checkpoint, when there is one; a failure closes the runtime. -/
def write (s : WireguardRuntime) (written : Checkpoint → Except PeerError Checkpoint) :
    Except PeerError Unit × WireguardRuntime :=
  match s.checkpoint with
  | none => (.ok (), s)
  | some checkpoint =>
    match written checkpoint with
    | .ok checkpoint => (.ok (), { s with checkpoint := some checkpoint })
    | .error failure => (.error failure, s.close)

/-- A write whose failure is not reported. -/
def orClose (s : WireguardRuntime) (written : Checkpoint → Except PeerError Checkpoint) :
    WireguardRuntime := (s.write written).2

/-! ### Admission -/

/-- `admission_anchor.0` moved on by the seconds since it was taken. -/
def anchored (s : WireguardRuntime) (instant : Nat) : Nat :=
  Management.saturatingAdd s.admissionAnchor.1 ((instant - s.admissionAnchor.2) / SECOND)

def admissionNow (s : WireguardRuntime) (wall instant : Nat) : Nat :=
  max (max (max wall s.admissionFloor) (s.anchored instant))
    (s.checkpoint.elim 0 (·.state.timeFloor))

/-- A data-plane admission restriction. -/
def deviceAdmitted (s : WireguardRuntime) (peer : PeerId) (wall instant : Nat) : Bool :=
  s.configurationActive && s.configuration.any fun delivery =>
    delivery.resources.admission.permits peer (s.admissionNow wall instant)

/-- The Peers an enabled admission permits at a time. -/
def permitted (s : WireguardRuntime) (now : Nat) : Option (ExtTreeSet PeerId) :=
  (s.configuration.filter (·.resources.admission.enabled)).map fun delivery =>
    ExtTreeSet.ofList ((delivery.resources.admission.peers.toList.filter (·.2.permits now)).map
      Prod.fst)

/-- The part of `prune_device_admission` before its comparison. -/
def withAdmissionFloor (s : WireguardRuntime) (now instant : Nat) : WireguardRuntime :=
  { s with
    admissionAnchor := if now > s.anchored instant then (now, instant) else s.admissionAnchor
    admissionFloor := now }

def pruneDeviceAdmission (s : WireguardRuntime) (wall : Nat) (at_ : Surroundings) :
    WireguardRuntime :=
  let s := s.withAdmissionFloor (s.admissionNow wall at_.instant) at_.instant
  let allowed := s.permitted s.admissionFloor
  if s.admissionPermitted = allowed then s
  else
    let s := clearPending { s with admissionPermitted := allowed }
    s.orClose fun checkpoint =>
      checkpoint.advanceExpiryFloor out.checkpoint s.admissionFloor at_.admissionStored

/-! ### Readiness -/

def stateReady (s : WireguardRuntime) : Bool :=
  !s.closed && s.configurationActive && s.checkpoint.all (·.ready true)

/-- `active_local(wall).is_ok()`. -/
def hasActiveLocal (s : WireguardRuntime) (wall instant : Nat) : Bool :=
  s.stateReady && s.deviceAdmitted s.localPeer wall instant
    && (s.directory.activeGeneration s.localPeer wall).any fun active =>
      s.slots.any (·.engine.publicKey = active.credential.wireguardPublicKey)

def refreshReady (s : WireguardRuntime) (wall instant : Nat) : WireguardRuntime :=
  s.setReady (s.hasActiveLocal wall instant)

/-! ### Resource flows -/

def resourceFlowCurrent (s : WireguardRuntime) (flow : ResourceFlow) (wall instant : Nat) : Bool :=
  s.resourcePlatform ≠ .pending && s.deviceAdmitted flow.source wall instant
    && s.deviceAdmitted flow.provider wall instant && wall < flow.validUntil && s.stateReady
    && s.configuration.any fun delivery => delivery.resources.bindings.any fun binding =>
      binding.resourceId = flow.resource && binding.peerId = flow.provider && binding.approved
        && (flow.source ≠ s.localPeer || s.gatewayHealth.selector.eligible binding.id instant)
        && delivery.resources.advertisements.any (·.supports binding wall)

def expireResourceFlows (s : WireguardRuntime) (wall instant : Nat) : WireguardRuntime :=
  let expired := (s.resourceTraffic.flows.toList.filter fun (_, flow) =>
    !s.resourceFlowCurrent flow wall instant).map Prod.fst
  if expired.isEmpty then s
  else flushPacketQueues { s with
    resourceTraffic := expired.foldl ResourceTraffic.forget s.resourceTraffic }

/-! ### Pruning -/

/-- Invalidates transport state whose monotonic lifetime omitted system suspend. -/
def resumeAfterSuspend (s : WireguardRuntime) (fresh : Key → Transaction) : WireguardRuntime :=
  let s := clearPending <| setReady
    { s with configurationActive := false, configurationClock := s.configurationClock.suspend } false
  match s.connectivity.resume fresh with
  | (.ok (), connectivity) => { s with connectivity }
  | (.error _, connectivity) => close { s with connectivity }

/-- `suspend_clock.resumed()` and what follows from it. -/
def pruneSuspend (s : WireguardRuntime) (at_ : Surroundings) : WireguardRuntime :=
  let (resumed, upper) := observeSleep s.suspendUpper at_.slept
  let s := { s with suspendUpper := upper }
  if resumed then s.resumeAfterSuspend at_.fresh else s

/-- What `prune` does once the lease has run out. -/
def endLease (s : WireguardRuntime) (stored : Bool) : WireguardRuntime :=
  let s := setReady (clearPending { s with configurationActive := false }) false
  s.orClose fun checkpoint =>
    checkpoint.commitAuthorization out.checkpoint s.configurationClock.floor stored

def pruneLease (s : WireguardRuntime) (now : Nat) (at_ : Surroundings) : WireguardRuntime :=
  if s.configurationActive then
    let (valid, clock) := s.configurationClock.valid now at_.instant
    let s := { s with configurationClock := clock }
    if valid then s else s.endLease out at_.leaseStored
  else s

/-- Whether a slot outlives `prune`: its credential verifies, and once published it stays listed. -/
def keepsSlot (s : WireguardRuntime) (now : Nat) (slot : LocalCredential) : Bool :=
  (s.directory.verifyCredential out.crypto slot.credential now).isOk
    && (!slot.published || (s.directory.get slot.engine.publicKey now).isSome)

/-- The table and what hangs on it, at a time: expired generations leave the engines, the slots and
the path checks. -/
def withExpired (s : WireguardRuntime) (removed : List Key) (directory : WireguardDirectory)
    (now : Nat) : WireguardRuntime :=
  let s := { s with directory, lastValidation := some now }
  { s with
    slots := (s.slots.filter (s.keepsSlot out now)).map fun slot =>
      { slot with engine := removed.foldl Engine.remove slot.engine }
    connectivity := s.connectivity.retain fun localKey remote =>
      (s.directory.get localKey now).any (·.active) && (s.directory.get remote now).any (·.active) }

def pruneExpired (s : WireguardRuntime) (now : Nat) (at_ : Surroundings) : WireguardRuntime :=
  let (removed, directory) := s.directory.expire now
  let pruned := s.withExpired out removed directory now
  let pruned :=
    if removed.isEmpty && pruned.slots.length = s.slots.length then pruned
    else pruned.clearPending.orClose fun checkpoint =>
      checkpoint.advanceExpiryFloor out.checkpoint now at_.expiryStored
  pruned.refreshReady now at_.instant

/-- Brings the state up to the clocks. -/
def prune (s : WireguardRuntime) (now : Nat) (at_ : Surroundings) : WireguardRuntime :=
  let s := s.pruneDeviceAdmission out now at_
  let s := s.pruneSuspend at_
  let s := s.pruneLease out now at_
  let s := s.expireResourceFlows now at_.instant
  if s.lastValidation.any (now ≤ ·) then s else s.pruneExpired out now at_

def reconcile (s : WireguardRuntime) (now : Nat) (at_ : Surroundings) :
    Except PeerError Unit × WireguardRuntime :=
  let s := prune out { s with lastValidation := none } now at_
  let (result, slots) := reconcileSlots out.crypto s.directory s.localPeer now s.slots
  (result, { s with slots })

/-! ### Construction -/

/-- The slot that makes room: an unpublished or active generation is never displaced. -/
def displaced (s : WireguardRuntime) (now : Nat) : Option Nat :=
  s.slots.findIdx? fun slot =>
    slot.published && (s.directory.get slot.engine.publicKey now).any fun key => !key.active

/-- The end of `stage`: at most two slots, the new one unpublished. -/
def addSlot (s : WireguardRuntime) (slot : LocalCredential) (now : Nat) (at_ : Surroundings) :
    Except PeerError Unit × WireguardRuntime :=
  if s.slots.length = 2 then
    match s.displaced now with
    | some index =>
      let s := clearPending { s with slots := s.slots.eraseIdx index }
      reconcile out { s with slots := s.slots ++ [slot] } now at_
    | none => (.error .queueFull, s)
  else reconcile out { s with slots := s.slots ++ [slot] } now at_

/-- Authenticates new local material; staged keys carry no traffic before directory activation.
`publicKey` belongs to the private key. -/
def stage (s : WireguardRuntime) (credential : SubjectCredential) (publicKey : Key)
    (peerCapacity now : Nat) (pruning reconciling : Surroundings) :
    Except PeerError Unit × WireguardRuntime :=
  if s.closed then (.error .closed, s)
  else match s.directory.verifyCredential out.crypto credential now with
    | .error failure => (.error failure, s)
    | .ok () =>
      if credential.meshId ≠ s.mesh || credential.subject ≠ .peer s.localPeer
          || credential.wireguardPublicKey ≠ publicKey then (.error .invalidConfig, s)
      else match s.slots.find? (·.engine.publicKey = credential.wireguardPublicKey) with
        | some existing =>
          (if existing.credential = credential then .ok () else .error .invalidConfig, s)
        | none => (s.prune out now pruning).addSlot out
          ⟨credential, { publicKey, peerCapacity }, false⟩ now reconciling

/-- `fromBytes` parses the verifier's public key, `generation` is the wall clock in nanoseconds, and
`slept` the first sample of the suspend clock. -/
def new (fromBytes : Key → Except DirectoryError PolicyVerifier) (mesh : Types.MeshId)
    (localPeer : PeerId) (trust : TrustSet) (distribution : DistributionCertificate)
    (credential : SubjectCredential) (publicKey : Key) (peerCapacity stateLimit shards now : Nat)
    (generation : Nat) (slept : Int) (pruning reconciling : Surroundings) :
    Except PeerError WireguardRuntime := do
  let directory ← WireguardDirectory.new out.crypto
    (fun key => (fromBytes key).map (·.toDirectoryPublicKey)) mesh trust distribution now
  let verifier ← ofDirectory (fromBytes distribution.directoryPublicKey)
  let policy ← PolicyEngine.new mesh localPeer stateLimit shards
  let runtime : WireguardRuntime :=
    { mesh, localPeer, directory, policy := { toPolicyEngine := policy, verifier }
      started := pruning.instant, admissionFloor := now, admissionAnchor := (now, pruning.instant)
      connectivity := Connectivity.new generation pruning.instant, suspendUpper := slept
      configurationKey := distribution.directoryPublicKey }
  let (result, runtime) := runtime.stage out credential publicKey peerCapacity now pruning reconciling
  result
  return runtime

end WireguardRuntime

end Peerward.PeerCore
