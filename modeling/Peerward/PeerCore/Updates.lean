import Peerward.PeerCore.WireguardRuntime

/-!
# Signed updates of the runtime

Directories, policies, revocations and Authority bundles reach the runtime one at a time. Each is
verified against the tables in force, persisted, published, and followed by another try of a
configuration that is waiting for its parts.
-/

namespace Peerward.PeerCore

open Std Peerward.Lib Peerward.Directory
open Peerward.Credentials
open Peerward.Management
open Peerward.Types (CredentialSerial Key)

/-- What one update meets: the fate of its own write, and the surroundings of its two prunes. -/
structure UpdateSurroundings where
  snapshotStored : Bool
  reconciling : Surroundings
  authorizationStored : Bool
  retrying : Surroundings

namespace WireguardRuntime

variable (out : Outside)

/-- The `?` on a call that changes the runtime. -/
def andThen {α β : Type} (called : Except PeerError α × WireguardRuntime)
    (next : α → WireguardRuntime → Except PeerError β × WireguardRuntime) :
    Except PeerError β × WireguardRuntime :=
  match called with
  | (.error failure, s) => (.error failure, s)
  | (.ok a, s) => next a s

/-! ## Configurations

A delivery is put in force when all of its parts are there, and held back until then. Its parts are named
by digest, so it is checked against the stamps of what is installed.
-/

/-- The parts a delivery is checked against: the stamps of the installed ones, and its own two. -/
def availableParts (parts : Parts) (delivery : ConfigurationDelivery) : Option Parts := do
  let resources ← delivery.manifest.manifest.parts[ConfigurationPart.resources]?
  let dns ← delivery.manifest.manifest.parts[ConfigurationPart.dns]?
  return (parts.insert .resources resources).insert .dns dns

/-- The arguments of `LeaseClock::install`. -/
def offer (s : WireguardRuntime) (delivery : ConfigurationDelivery) (available : Parts)
    (wall now : Nat) : Delivery where
  manifest := delivery.manifest
  lease := delivery.lease
  key := s.configurationKey
  mesh := s.mesh
  available := available
  wall := wall
  monotonic := now

/-- `Incomplete`: the authenticated set stays pending and traffic stops until every part is there. -/
def holdConfiguration (s : WireguardRuntime) (delivery : ConfigurationDelivery) (stored : Bool) :
    Except PeerError Bool × WireguardRuntime :=
  andThen (s.write (·.commitAuthorization out.checkpoint s.configurationClock.floor stored))
    fun _ s => (.ok false, setReady (clearPending { s with
      pendingConfiguration := some delivery
      configurationActive := false
      configurationClock := s.configurationClock.invalidate }) false)

/-- Whether a new configuration interrupts the flows of the one before it. -/
def interrupts (s : WireguardRuntime) (delivery : ConfigurationDelivery) : Bool :=
  s.configuration.all fun previous =>
    !previous.resources.sameGrants delivery.resources || previous.dns ≠ delivery.dns
      || previous.lease.lease.validUntil - previous.lease.lease.issuedAt
        ≠ delivery.lease.lease.validUntil - delivery.lease.lease.issuedAt

/-- Whether the platform has to apply a configuration anew. -/
def reapplies (s : WireguardRuntime) (delivery : ConfigurationDelivery) : Bool :=
  s.resourcePlatform ≠ .unmanaged && s.configuration.all fun previous =>
    !previous.resources.sameGrants delivery.resources

/-- The part of `install_configuration` that puts a delivery in force. -/
def activateConfiguration (s : WireguardRuntime) (delivery : ConfigurationDelivery) (wall : Nat)
    (stored : Bool) (at_ : Surroundings) : Except PeerError Bool × WireguardRuntime :=
  andThen (s.write (·.commitAuthorization out.checkpoint s.configurationClock.floor stored))
    fun _ s =>
      let s := if s.interrupts delivery then s.clearPending else s
      let s := if s.reapplies delivery then { s with resourcePlatform := .pending } else s
      let s := prune out { s with
        configuration := some delivery
        pendingConfiguration := none
        configurationActive := true
        lastValidation := none } wall at_
      (.ok true, s.refreshReady wall at_.instant)

/-- Installs only after signature, dependency, monotonic lease and durable-floor checks. -/
def installConfiguration (s : WireguardRuntime) (delivery : ConfigurationDelivery) (wall now : Nat)
    (stored : Bool) (at_ : Surroundings) : Except PeerError Bool × WireguardRuntime :=
  if s.closed then (.error .closed, s)
  else if !(delivery.validatePayload out.digests).isOk then (.error .invalidConfig, s)
  else match availableParts s.configurationParts delivery with
    | none => (.error .invalidConfig, s)
    | some parts =>
      if !out.parsesKey s.configurationKey then (.error .invalidConfig, s)
      else if s.pendingConfiguration.any fun pending =>
          pending.lease.lease.sequence > delivery.lease.lease.sequence then (.error .invalidConfig, s)
      else match s.configurationClock.install out.leases out.horizon (s.offer delivery parts wall now) with
        | (.error .incomplete, clock) =>
          { s with configurationClock := clock }.holdConfiguration out delivery stored
        | (.error _, clock) => (.error .invalidConfig, { s with configurationClock := clock })
        | (.ok false, clock) => (.ok false, { s with configurationClock := clock })
        | (.ok true, clock) =>
          { s with configurationClock := clock }.activateConfiguration out delivery wall stored at_

/-- Another try of the delivery that is waiting for its parts. -/
def reconcileConfiguration (s : WireguardRuntime) (wall : Nat) (env : UpdateSurroundings) :
    Except PeerError Unit × WireguardRuntime :=
  match s.pendingConfiguration with
  | none => (.ok (), s)
  | some delivery =>
    andThen (installConfiguration out { s with pendingConfiguration := none } delivery wall
      env.retrying.instant env.authorizationStored env.retrying) fun _ s => (.ok (), s)

/-! ## Stamps -/

/-- The part of a configuration that a snapshot kind stands for. -/
def partOf : SnapshotKind → Option ConfigurationPart
  | .authorities => some .authorities
  | .peers => some .peers
  | .policy => some .policy
  | .revocations => some .revocations
  | .services | .relays => none

/-- The stamps after a snapshot. -/
def stampedParts (parts : Parts) (kind : SnapshotKind) (version : Nat) (bytes : Bytes) : Parts :=
  match partOf kind with
  | none => parts
  | some part => parts.insert part { version, digest := out.checkpoint.sha256 bytes }

/-- Whether a snapshot changes the stamp of its part. -/
def restamps (parts : Parts) (kind : SnapshotKind) (version : Nat) (bytes : Bytes) : Bool :=
  (partOf kind).any fun part =>
    parts[part]? ≠ some { version, digest := out.checkpoint.sha256 bytes }

def recordConfigurationPart (s : WireguardRuntime) (kind : SnapshotKind) (version : Nat)
    (bytes : Bytes) : WireguardRuntime :=
  if restamps out s.configurationParts kind version bytes then
    clearPending <| setReady { s with
      configurationParts := stampedParts out s.configurationParts kind version bytes
      configurationActive := false
      configurationClock := s.configurationClock.invalidate } false
  else s

def needsUpdate (s : WireguardRuntime) (kind : SnapshotKind) (revision : Nat) (bytes : Bytes) :
    Except PeerError Bool :=
  if s.closed then .error .closed
  else match s.checkpoint with
    | none => .ok true
    | some checkpoint => checkpoint.check out.checkpoint kind revision bytes

/-- No previous policy, queued output, session or DNS view may outlive a failed write. -/
def persist (s : WireguardRuntime) (kind : SnapshotKind) (revision : Nat) (bytes : Bytes)
    (now : Nat) (revoked : List CredentialSerial) (stored : Bool) :
    Except PeerError Unit × WireguardRuntime :=
  andThen (write { s with updatesStarted := true }
      (·.commit out.checkpoint kind revision bytes now revoked stored))
    fun _ s => (.ok (), s.recordConfigurationPart out kind revision bytes)

def publishDirectory (s : WireguardRuntime) (candidate : WireguardDirectory) (now : Nat)
    (at_ : Surroundings) : Except PeerError Unit × WireguardRuntime :=
  match (clearPending { s with directory := candidate }).reconcile out now at_ with
  | (.error failure, s) => (.error failure, s.close)
  | (.ok (), s) => (.ok (), s.refreshReady now at_.instant)

/-! ## The four updates

Each update verifies its object against the tables in force, makes the tables that follow, stores the new
stamp, and tries the pending configuration.
-/

/-- A signed object with what its stamp is made of. -/
structure Snapshot where
  kind : SnapshotKind
  revision : Nat
  encoded : Except PeerError Bytes
  revoked : List CredentialSerial := []

/-- What the updates of the authorization table share: `candidate` is the verified table, and
`restores` says that it takes back the sticky revocations of the checkpoint. `ok false` means that
there is nothing to do. -/
def replaceDirectory (s : WireguardRuntime) (snapshot : Snapshot)
    (candidate : Except PeerError (List Key) × WireguardDirectory) (restores : Bool) (now : Nat)
    (env : UpdateSurroundings) : Except PeerError Bool × WireguardRuntime :=
  match snapshot.encoded with
  | .error failure => (.error failure, s)
  | .ok bytes =>
    match s.needsUpdate out snapshot.kind snapshot.revision bytes with
    | .error failure => (.error failure, s)
    | .ok false => (.ok false, s)
    | .ok true =>
      match candidate with
      | (.error failure, _) => (.error failure, s)
      | (.ok _, candidate) =>
        andThen (s.persist out snapshot.kind snapshot.revision bytes now snapshot.revoked
            env.snapshotStored) fun _ s =>
          let candidate := if restores then s.checkpoint.elim candidate candidate.restoreCheckpoint
            else candidate
          andThen (s.publishDirectory out candidate now env.reconciling) fun _ s => (.ok true, s)

def directorySnapshot (signed : SignedPeerDirectory) : Snapshot where
  kind := .peers
  revision := signed.directory.revision
  encoded := ofDirectory (out.encodePeerDirectory signed)

def policySnapshot (signed : SignedPolicyBundle) : Snapshot where
  kind := .policy
  revision := signed.bundle.revision
  encoded := ofDirectory (out.encodePolicy signed)

def revocationSnapshot (signed : SignedRevocationBundle) : Snapshot where
  kind := .revocations
  revision := signed.bundle.revision
  encoded := ofDirectory (out.encodeRevocations signed)
  revoked := signed.bundle.serials

def authoritySnapshot (signed : SignedAuthorityBundle) : Snapshot where
  kind := .authorities
  revision := signed.bundle.revision
  encoded := ofCredential (out.encodeAuthorities signed)
  revoked := signed.bundle.revoked

/-- Whether a directory lists the local Peer as enabled. -/
def listsLocal (s : WireguardRuntime) (signed : SignedPeerDirectory) : Bool :=
  signed.directory.entries.any fun item => item.entry.peerId = s.localPeer && item.entry.enabled

/-- `install_directory` up to the pending configuration. -/
def applyDirectory (s : WireguardRuntime) (signed : SignedPeerDirectory) (now : Nat)
    (env : UpdateSurroundings) : Except PeerError Bool × WireguardRuntime :=
  andThen (s.replaceDirectory out (directorySnapshot out signed)
      (s.directory.install out.crypto signed now) false now env) fun changed s =>
    if !changed then (.ok false, s)
    else if !s.listsLocal signed then (.error .revoked, s.close)
    else match s.policy.installDirectory out.crypto signed with
      | .error failure => (.error failure, s.close)
      | .ok policy => (.ok true, { s with policy })

/-- `last_validation.unwrap_or(UnixTime(0))`. -/
def lastWall (s : WireguardRuntime) : Nat := s.lastValidation.getD 0

/-- `install_policy` up to the pending configuration. -/
def applyPolicy (s : WireguardRuntime) (signed : SignedPolicyBundle) (env : UpdateSurroundings) :
    Except PeerError Bool × WireguardRuntime :=
  match (policySnapshot out signed).encoded with
  | .error failure => (.error failure, s)
  | .ok bytes =>
    match s.needsUpdate out .policy signed.bundle.revision bytes with
    | .error failure => (.error failure, s)
    | .ok false => (.ok false, s)
    | .ok true =>
      match s.policy.verifyPolicy signed with
      | .error failure => (.error failure, s)
      | .ok () =>
        andThen (s.persist out .policy signed.bundle.revision bytes s.lastWall [] env.snapshotStored)
          fun _ s =>
            match s.policy.installPolicy signed with
            | .error failure => (.error failure, s.close)
            | .ok policy =>
              let s := clearPending { s with policy }
              (.ok true, s.refreshReady s.lastWall env.reconciling.instant)

inductive Update where
  | installDirectory (signed : SignedPeerDirectory) (now : Nat)
  | installPolicy (signed : SignedPolicyBundle)
  | revoke (signed : SignedRevocationBundle) (now : Nat)
  | authorities (signed : SignedAuthorityBundle) (now : Nat)

/-- An update up to the pending configuration. -/
def apply (s : WireguardRuntime) (env : UpdateSurroundings) :
    Update → Except PeerError Bool × WireguardRuntime
  | .installDirectory signed now => s.applyDirectory out signed now env
  | .installPolicy signed => s.applyPolicy out signed env
  | .revoke signed now => s.replaceDirectory out (revocationSnapshot out signed)
      (s.directory.revoke signed now) false now env
  | .authorities signed now => s.replaceDirectory out (authoritySnapshot out signed)
      (s.directory.authorities out.crypto signed now) true now env

/-- The time an update reconsiders the pending configuration at, in the state it is in by then. -/
def Update.wall (s : WireguardRuntime) : Update → Nat
  | .installDirectory _ now => now
  | .installPolicy _ => s.lastWall
  | .revoke _ now => now
  | .authorities _ now => now

/-- `install_directory`, `install_policy`, `revoke` and `authorities`. -/
def update (s : WireguardRuntime) (env : UpdateSurroundings) (op : Update) :
    Except PeerError Unit × WireguardRuntime :=
  andThen (s.apply out env op) fun changed s =>
    if changed then s.reconcileConfiguration out (op.wall s) env else (.ok (), s)

end WireguardRuntime

end Peerward.PeerCore
