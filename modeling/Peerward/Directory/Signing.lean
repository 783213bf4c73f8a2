import Peerward.Credentials.Trust
import Peerward.Directory.RelayTopology
import Peerward.Net.Packet
import Peerward.Types.Ids

/-!
# Signed directory objects

The revisioned objects a mesh distributes, and the checks a receiver makes before it believes one:
the mesh it belongs to, a revision above the last accepted one, canonical order, and the signature.
Ed25519 over a canonical transcript is a predicate on the object and its signature bytes.
-/

namespace Peerward.Directory

open Std Peerward.Lib Peerward.Net
open Peerward.Credentials (Crypto SubjectCredential)
open Peerward.Types (CredentialSerial Key PeerId)

/-- Authority-signed credential and its directory-authorized overlap deadline. -/
structure PeerCredentialBinding where
  serial : CredentialSerial
  identityPublicKey : Key
  noisePublicKey : Key
  wireguardPublicKey : Key
  notBefore : Nat
  notAfter : Nat
  /-- `none` for the active credential; exclusive deadline for the previous one. -/
  overlapUntil : Option Nat
  signature : Bytes
  deriving DecidableEq

/-- Both the signed credential lifetime and the directory overlap bound. -/
def PeerCredentialBinding.validAt (binding : PeerCredentialBinding) (now : Nat) : Bool :=
  binding.notBefore ≤ now && now < binding.notAfter && !binding.overlapUntil.any (· ≤ now)

/-- The canonical credential for `meshId` and `peerId`. -/
def PeerCredentialBinding.subject (binding : PeerCredentialBinding) (meshId : Types.MeshId)
    (peerId : PeerId) : SubjectCredential where
  role := .peer
  subject := .peer peerId
  meshId := meshId
  identityPublicKey := binding.identityPublicKey
  publicNoiseKey := binding.noisePublicKey
  wireguardPublicKey := binding.wireguardPublicKey
  serial := binding.serial
  notBefore := binding.notBefore
  notAfter := binding.notAfter
  signature := binding.signature

/-- One peer directory record. -/
structure PeerEntry where
  meshId : Types.MeshId
  peerId : PeerId
  address : IpAddr
  secondaryAddress : Option IpAddr
  identityPublicKey : Key
  noisePublicKey : Key
  credentialSerial : CredentialSerial
  acceptedCredentials : List PeerCredentialBinding
  enabled : Bool
  labels : ExtTreeMap Types.Text Types.Text := ∅
  notAfter : Nat
  deriving DecidableEq

namespace PeerEntry

/-- Exact assignments only. -/
def addresses (entry : PeerEntry) : List IpAddr := entry.address :: entry.secondaryAddress.toList

/-- Finds a generation without substituting the active generation's key. -/
def credential (entry : PeerEntry) (serial : CredentialSerial) : Option PeerCredentialBinding :=
  entry.acceptedCredentials.find? (·.serial = serial)

end PeerEntry

structure SignedPeerEntry where
  entry : PeerEntry
  signature : Bytes
  deriving DecidableEq

structure PeerDirectory where
  meshId : Types.MeshId
  revision : Nat
  entries : List SignedPeerEntry
  deriving DecidableEq

structure SignedPeerDirectory where
  directory : PeerDirectory
  signature : Bytes
  deriving DecidableEq

structure RevocationBundle where
  meshId : Types.MeshId
  revision : Nat
  serials : List CredentialSerial
  deriving DecidableEq

/-- Signed exact-revocation replacement bundle. -/
structure SignedRevocationBundle where
  bundle : RevocationBundle
  signature : Bytes
  deriving DecidableEq

/-- The distribution verifier: which signatures it accepts for which objects. -/
structure DirectoryPublicKey where
  signedEntry : PeerEntry → Bytes → Bool
  signedPeers : PeerDirectory → Bytes → Bool
  signedRevocations : RevocationBundle → Bytes → Bool

def ensureScopeAndRevision (actualMesh expectedMesh : Types.MeshId) (revision : Nat)
    (accepted : Option Nat) : Except DirectoryError Unit :=
  if actualMesh ≠ expectedMesh then .error .wrongMesh
  else if accepted.any (revision ≤ ·) then .error .rollback
  else .ok ()

/-- `verify`. -/
def ensureSigned (valid : Bool) : Except DirectoryError Unit :=
  if valid then .ok () else .error .invalidSignature

/-- `return Err(NonCanonical)` under a condition. -/
def ensureCanonical (bad : Bool) : Except DirectoryError Unit :=
  if bad then .error .nonCanonical else .ok ()

namespace DirectoryPublicKey

/-- The checks `verify_peer` makes on one credential of an entry. -/
def bindingRejected (crypto : Crypto) (entry : PeerEntry) (binding : PeerCredentialBinding) : Bool :=
  !((binding.subject entry.meshId entry.peerId).decodes crypto).isOk || (binding.serial ≠ entry.credentialSerial
    && !binding.overlapUntil.any fun until_ => binding.notBefore < until_ && until_ ≤ binding.notAfter)

/-- Authenticates a peer entry and expected mesh. -/
def verifyPeer (key : DirectoryPublicKey) (crypto : Crypto)
    (signed : SignedPeerEntry) (mesh : Types.MeshId) : Except DirectoryError Unit := do
  let entry := signed.entry
  if entry.meshId ≠ mesh then .error .wrongMesh
  else
    ensureCanonical (entry.identityPublicKey = 0 || entry.noisePublicKey = 0)
    ensureCanonical (entry.secondaryAddress.any fun other => other.isIpv4 = entry.address.isIpv4)
    ensureCanonical !(1 ≤ entry.acceptedCredentials.length && entry.acceptedCredentials.length ≤ 2)
    ensureSortedUnique compare (entry.acceptedCredentials.map (·.serial))
    ensureUnique compare (entry.acceptedCredentials.map (·.wireguardPublicKey))
    ensureCanonical !((entry.credential entry.credentialSerial).any fun active =>
      active.identityPublicKey = entry.identityPublicKey
        && active.noisePublicKey = entry.noisePublicKey
        && active.notAfter = entry.notAfter && active.overlapUntil.isNone)
    ensureCanonical (entry.acceptedCredentials.any (bindingRejected crypto entry))
    ensureSigned (key.signedEntry entry signed.signature)

/-- Authenticates a full peer directory, all entries, and monotonic revision. -/
def verifyPeers (key : DirectoryPublicKey) (crypto : Crypto)
    (signed : SignedPeerDirectory) (mesh : Types.MeshId) (accepted : Option Nat) :
    Except DirectoryError Unit := do
  let directory := signed.directory
  ensureScopeAndRevision directory.meshId mesh directory.revision accepted
  ensureSortedUnique compare (directory.entries.map (·.entry.peerId))
  ensureUnique compare (directory.entries.flatMap fun item =>
    item.entry.acceptedCredentials.map (·.wireguardPublicKey))
  ensureUnique compare (directory.entries.flatMap (·.entry.addresses))
  directory.entries.forM fun item => key.verifyPeer crypto item mesh
  ensureSigned (key.signedPeers directory signed.signature)

/-- Authenticates an exact, canonical revocation set and monotonic revision. -/
def verifyRevocations (key : DirectoryPublicKey) (signed : SignedRevocationBundle)
    (mesh : Types.MeshId) (accepted : Option Nat) : Except DirectoryError Unit := do
  let bundle := signed.bundle
  ensureScopeAndRevision bundle.meshId mesh bundle.revision accepted
  ensureSortedUnique compare bundle.serials
  ensureSigned (key.signedRevocations bundle signed.signature)

end DirectoryPublicKey

/-! ## Policy bundles -/

structure PolicyBundle where
  meshId : Types.MeshId
  revision : Nat
  /-- Validated policy encoding. -/
  policy : Bytes
  deriving DecidableEq

/-- Signed policy update. -/
structure SignedPolicyBundle where
  bundle : PolicyBundle
  signature : Bytes
  deriving DecidableEq

/-- The distribution verifier of an owner that also takes policies. -/
structure PolicyVerifier extends DirectoryPublicKey where
  signedPolicy : PolicyBundle → Bytes → Bool

/-- Authenticates an ordered policy bundle. -/
def PolicyVerifier.verifyPolicy (key : PolicyVerifier) (signed : SignedPolicyBundle)
    (mesh : Types.MeshId) (accepted : Option Nat) : Except DirectoryError Unit := do
  ensureScopeAndRevision signed.bundle.meshId mesh signed.bundle.revision accepted
  ensureSigned (key.signedPolicy signed.bundle signed.signature)

end Peerward.Directory
