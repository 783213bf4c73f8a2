import Peerward.PeerCore.Checkpoint

/-!
# The WireGuard authorization table

`WireguardDirectory` holds the credential generations a Peer accepts WireGuard traffic from. Signed
directories replace the table, revocations and Authority bundles cut it down, and a time floor that
never falls decides what has expired.

Curve25519 contributory checks and signatures are the predicates of `Crypto`.
-/

namespace Peerward.PeerCore

open Std Peerward.Lib Peerward.Net Peerward.Directory
open Peerward.Credentials
open Peerward.Types (CredentialSerial Key PeerId)

/-- An exact, verified credential generation and its signed address ownership. -/
structure WireguardPeerAuthorization where
  peerId : PeerId
  address : IpAddr
  secondaryAddress : Option IpAddr
  credential : SubjectCredential
  /-- The earliest credential, Authority or previous-generation deadline. -/
  validUntil : Nat
  active : Bool
  deriving DecidableEq

namespace WireguardPeerAuthorization

def owns (value : WireguardPeerAuthorization) (address : IpAddr) : Bool :=
  value.address = address || value.secondaryAddress = some address

def validAt (value : WireguardPeerAuthorization) (now : Nat) : Bool :=
  value.credential.notBefore ≤ now && now < value.validUntil

end WireguardPeerAuthorization

/-- The four maps a signed directory fills. -/
structure AuthorizationTables where
  keys : ExtTreeMap Key WireguardPeerAuthorization := ∅
  active : ExtTreeMap PeerId Key := ∅
  addresses : ExtTreeMap IpAddr PeerId := ∅
  peers : ExtTreeMap PeerId (List Key) := ∅

/-- A bounded Mesh-wide authorization table. -/
structure WireguardDirectory extends AuthorizationTables where
  meshId : Types.MeshId
  trust : TrustSet
  verifier : DirectoryPublicKey
  revision : Option Nat := none
  revocationRevision : Option Nat := none
  revoked : ExtTreeSet CredentialSerial := ∅
  timeFloor : Nat

/-- The `?` on a `CredentialError`. -/
def ofCredential {α : Type} : Except CredentialError α → Except PeerError α
  | .ok a => .ok a
  | .error failure => .error (.credential failure)

theorem ofCredential_eq_ok {α : Type} {result : Except CredentialError α} {a : α} :
    ofCredential result = .ok a ↔ result = .ok a := by
  cases result <;> simp [ofCredential]

namespace WireguardDirectory

variable (crypto : Crypto)

/-- Authenticates the directory verifier through the supplied Root trust set; `fromBytes` parses the
verifier's public key. -/
def new (fromBytes : Key → Except DirectoryError DirectoryPublicKey) (meshId : Types.MeshId)
    (trust : TrustSet) (distribution : DistributionCertificate) (now : Nat) :
    Except PeerError WireguardDirectory := do
  rejectIf (distribution.meshId ≠ meshId) .invalidConfig
  ofCredential (trust.verifyDistribution crypto distribution now)
  let verifier ← ofDirectory (fromBytes distribution.directoryPublicKey)
  return { meshId, trust, verifier, timeFloor := now }

def restoreCheckpoint (s : WireguardDirectory) (state : Checkpoint) : WireguardDirectory :=
  let trust := state.state.subjects.toList.foldl TrustSet.revokeSubject s.trust
  { s with
    timeFloor := max s.timeFloor state.state.timeFloor
    revoked := s.revoked.insertMany state.state.subjects.toList
    trust := state.state.authorities.toList.foldl TrustSet.revokeAuthority trust }

/-- One turn of the inner loop of `install`: an installable generation goes into all four maps. -/
def installBinding (s : WireguardDirectory) (now : Nat) (entry : PeerEntry)
    (tables : AuthorizationTables) (binding : PeerCredentialBinding) :
    Except PeerError AuthorizationTables :=
  if s.revoked.contains binding.serial then .ok tables
  -- a future generation must not be lost silently: the same revision stays retryable
  else if now < binding.notBefore then .error (.credential .outsideValidity)
  else if !binding.validAt now then .ok tables
  else do
    let credential := binding.subject entry.meshId entry.peerId
    let authorityUntil ← ofCredential (s.trust.subjectValidUntil crypto credential now)
    rejectIf (s.keys[credential.wireguardPublicKey]?.any fun previous =>
      previous.peerId ≠ entry.peerId || previous.credential ≠ credential) .invalidConfig
    rejectIf (!crypto.contributoryWireguardKey binding.wireguardPublicKey) .invalidConfig
    let isActive := binding.serial = entry.credentialSerial
    return {
      keys := tables.keys.insert binding.wireguardPublicKey
        { peerId := entry.peerId
          address := entry.address
          secondaryAddress := entry.secondaryAddress
          credential := credential
          validUntil := min (binding.overlapUntil.getD credential.notAfter) authorityUntil
          active := isActive }
      active := if isActive then tables.active.insert entry.peerId binding.wireguardPublicKey
        else tables.active
      addresses := entry.addresses.foldl (fun addresses address =>
        addresses.insert address entry.peerId) tables.addresses
      peers := tables.peers.insert entry.peerId
        (tables.peers[entry.peerId]?.getD [] ++ [binding.wireguardPublicKey]) }

def installEntry (s : WireguardDirectory) (now : Nat) (tables : AuthorizationTables)
    (entry : PeerEntry) : Except PeerError AuthorizationTables :=
  entry.acceptedCredentials.foldlM (s.installBinding crypto now entry) tables

/-- The part of `install` that reads: the effective time and the tables to publish. -/
def prepareInstall (s : WireguardDirectory) (signed : SignedPeerDirectory) (now : Nat) :
    Except PeerError (Nat × AuthorizationTables) := do
  ofDirectory (s.verifier.verifyPeers crypto signed s.meshId s.revision)
  rejectIf (signed.directory.entries.length > 10000) .invalidConfig
  let now := max now s.timeFloor
  let enabled := (signed.directory.entries.map (·.entry)).filter (·.enabled)
  let tables ← enabled.foldlM (s.installEntry crypto now) {}
  return (now, tables)

/-- The assignments of `install`. -/
def withTables (s : WireguardDirectory) (tables : AuthorizationTables) (now revision : Nat) :
    WireguardDirectory :=
  { s with toAuthorizationTables := tables, timeFloor := now, revision := some revision }

/-- Verifies all installable generations before atomically replacing the table. Returns keys removed
by deletion, disable, replacement or a shortened lifetime. -/
def install (s : WireguardDirectory) (signed : SignedPeerDirectory) (now : Nat) :
    Except PeerError (List Key) × WireguardDirectory :=
  match s.prepareInstall crypto signed now with
  | .error failure => (.error failure, s)
  | .ok (now, tables) =>
    (.ok (s.keys.keys.filter fun key => !tables.keys.contains key),
      s.withTables tables now signed.directory.revision)

/-- Removes expired or revoked generations. -/
def expire (s : WireguardDirectory) (now : Nat) : List Key × WireguardDirectory :=
  let now := max now s.timeFloor
  let keep := fun (_ : Key) (value : WireguardPeerAuthorization) =>
    value.validAt now && !s.revoked.contains value.credential.serial
  let keys := s.keys.filter keep
  let peers := s.peers.filterMap fun _ held =>
    let held := held.filter keys.contains
    if held.isEmpty then none else some held
  ((s.keys.filter fun key value => !keep key value).keys,
    { s with
      timeFloor := now
      keys := keys
      active := s.active.filter fun _ key => keys.contains key
      peers := peers
      addresses := s.addresses.filter fun _ peer => peers.contains peer })

/-- The assignments of `revoke`, before its sweep. -/
def withRevoked (s : WireguardDirectory) (bundle : RevocationBundle) : WireguardDirectory :=
  { s with
    revoked := s.revoked.insertMany bundle.serials
    trust := bundle.serials.foldl TrustSet.revokeSubject s.trust
    revocationRevision := some bundle.revision }

/-- Exact revocations are sticky even when a later snapshot omits a serial. -/
def revoke (s : WireguardDirectory) (signed : SignedRevocationBundle) (now : Nat) :
    Except PeerError (List Key) × WireguardDirectory :=
  match s.verifier.verifyRevocations signed s.meshId s.revocationRevision with
  | .error failure => (.error (.directory failure), s)
  | .ok () => ((s.withRevoked signed.bundle).expire now).map .ok id

/-- What an Authority revision leaves of one deadline. -/
def recheck (trust : TrustSet) (now : Nat) (value : WireguardPeerAuthorization) :
    WireguardPeerAuthorization :=
  { value with
    validUntil := match trust.subjectValidUntil crypto value.credential now with
      | .ok until_ => min value.validUntil until_
      | .error _ => now }

/-- The assignments of `authorities`, before its sweep. -/
def withTrust (s : WireguardDirectory) (trust : TrustSet) (now : Nat) : WireguardDirectory :=
  { s with trust, keys := s.keys.map fun _ value => recheck crypto trust now value }

/-- Installs a Root-verified Authority revision and immediately rechecks every key. -/
def authorities (s : WireguardDirectory) (bundle : SignedAuthorityBundle) (now : Nat) :
    Except PeerError (List Key) × WireguardDirectory :=
  let now := max now s.timeFloor
  match s.trust.installAuthorityBundleAfterResume crypto bundle now with
  | .error failure => (.error (.credential failure), s)
  | .ok trust => ((s.withTrust crypto trust now).expire now).map .ok id

def get (s : WireguardDirectory) (key : Key) (now : Nat) : Option WireguardPeerAuthorization :=
  s.keys[key]?.filter (·.validAt (max now s.timeFloor))

def activeGeneration (s : WireguardDirectory) (peer : PeerId) (now : Nat) :
    Option WireguardPeerAuthorization := s.active[peer]?.bind fun key => s.get key now

/-- Uses the signed IP assignment without scanning every Peer for each packet. -/
def destination (s : WireguardDirectory) (address : IpAddr) (now : Nat) :
    Option WireguardPeerAuthorization :=
  s.addresses[address]?.bind fun peer => s.activeGeneration peer now

/-- At most two live generations for an authenticated Relay source identity. -/
def keysForPeer (s : WireguardDirectory) (peer : PeerId) (now : Nat) : List Key :=
  (s.peers[peer]?.getD []).filter fun key => (s.get key now).isSome

/-- Address attribution runs before application ACL evaluation. -/
def ownsSource (s : WireguardDirectory) (key : Key) (source : IpAddr) (now : Nat) : Bool :=
  (s.get key now).any (·.owns source)

/-! ## Runs -/

inductive Op where
  | install (signed : SignedPeerDirectory) (now : Nat)
  | revoke (signed : SignedRevocationBundle) (now : Nat)
  | authorities (bundle : SignedAuthorityBundle) (now : Nat)
  | expire (now : Nat)
  | restoreCheckpoint (state : Checkpoint)

/-- The result of an operation, and the table it leaves. -/
def perform (s : WireguardDirectory) : Op → Except PeerError (List Key) × WireguardDirectory
  | .install signed now => s.install crypto signed now
  | .revoke signed now => s.revoke signed now
  | .authorities bundle now => s.authorities crypto bundle now
  | .expire now => (s.expire now).map .ok id
  | .restoreCheckpoint state => (.ok [], s.restoreCheckpoint state)

def step (s : WireguardDirectory) (op : Op) : WireguardDirectory := (s.perform crypto op).2

/-- The operation returned `Ok`. -/
def Succeeds (s : WireguardDirectory) (op : Op) : Prop := (s.perform crypto op).1.isOk = true

/-- The time an operation brings. -/
def Op.time : Op → Nat
  | .install _ now => now
  | .revoke _ now => now
  | .authorities _ now => now
  | .expire now => now
  | .restoreCheckpoint state => state.state.timeFloor

end WireguardDirectory

end Peerward.PeerCore
