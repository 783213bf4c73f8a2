import Peerward.Store.Credentials

/-!
# Issuing credentials

Control holds the private key of an online Authority. It signs the credential of a Join inside the
Join's transaction, and works through the pending rotation requests of its mesh before it publishes.
-/

namespace Peerward.Control

open Peerward.Lib
open Peerward.Credentials (Authority AuthorityCertificate Crypto RotationCrypto RotationId
  RotationRequestProof SubjectCredential UnsignedSubject)
open Peerward.Net (U64_MAX saturatingAdd)
open Peerward.Store
open Peerward.Types (CredentialSerial PeerId)

/-- The failures of a publication pass. -/
inductive ApiError where
  | unavailable (code message : String)
  /-- `publisher_error`. -/
  | publisher
  | store (error : StoreError)
  deriving DecidableEq

/-- An Authority whose key Control holds. -/
structure JoinIssuer where
  authorityId : AuthorityId
  authority : Authority
  authorityCertificate : AuthorityCertificate
  validitySeconds : Nat

namespace JoinIssuer

/-- The row that a signed credential becomes. -/
def issued (issuer : JoinIssuer) (credential : SubjectCredential) : IssuedPeerCredential where
  authorityId := issuer.authorityId
  authorityPublicKey := some issuer.authority.publicKey
  serial := credential.serial
  notBefore := fromUnixTimestamp credential.notBefore
  notAfter := fromUnixTimestamp credential.notAfter
  signature := credential.signature

/-- The last second a credential signed now may have. -/
def notAfter (issuer : JoinIssuer) (nowSeconds : Nat) : Nat :=
  min (saturatingAdd nowSeconds issuer.validitySeconds) issuer.authorityCertificate.notAfter

end JoinIssuer

/-- `admission_until` in seconds, where a Peer has one. -/
def admissionEnd (admissionUntil : Option Timestamp) : Nat :=
  (admissionUntil.map unixTimestamp).getD U64_MAX

section Issue

variable (crypto : Crypto)

/-- The closure of `join_enrollment_issuer`. -/
def joinEnrollmentIssuer (issuer : JoinIssuer) (now : Timestamp) (mesh : Types.MeshId)
    (request : CredentialStore.Enrollment) (serial : CredentialSerial) :
    Except StoreError IssuedPeerCredential := do
  let nowSeconds := unixTimestamp now
  let notAfter := min (issuer.notAfter nowSeconds) (admissionEnd request.admissionUntil)
  rejectIf (nowSeconds + issuer.validitySeconds > U64_MAX) (.invalid "credential validity")
  rejectIf (notAfter ≤ saturatingAdd nowSeconds 60) (.invalid "authority expiry")
  match issuer.authority.issue crypto {
      subject := .peer request.peerId
      meshId := mesh
      identityPublicKey := request.identityPublicKey
      publicNoiseKey := request.publicNoiseKey
      wireguardPublicKey := request.wireguardPublicKey
      serial
      notBefore := nowSeconds - 60
      notAfter } with
  | .error _ => .error (.invalid "credential issuance")
  | .ok credential => .ok (issuer.issued credential)

/-- `claim_public_join` with the issuer of Control. -/
def join (s : CredentialStore) (issuer : JoinIssuer) (now : Timestamp)
    (request : CredentialStore.Enrollment) (serial : CredentialSerial) :
    Except StoreError CredentialStore := do
  let issued ← joinEnrollmentIssuer crypto issuer now s.meshId request serial
  s.claimPublicJoin now request issued

/-- One turn of the loop of `issue_pending_peer_rotations`, which read the clock at `started`. -/
def issueRotation (s : CredentialStore) (issuer : JoinIssuer) (started now : Timestamp)
    (request : RotationRow) (serial : CredentialSerial) : Except ApiError CredentialStore :=
  let nowSeconds := unixTimestamp started
  match s.peers.find? (·.id = request.peerId) with
  | none => .error (.store .database)
  | some peer =>
    let notAfter := min (issuer.notAfter nowSeconds) (admissionEnd peer.admissionUntil)
    if notAfter ≤ saturatingAdd nowSeconds 60 then .ok s
    else match issuer.authority.issue crypto {
        subject := .peer request.peerId
        meshId := s.meshId
        identityPublicKey := request.requestedIdentityPublicKey
        publicNoiseKey := request.requestedSessionPublicKey
        wireguardPublicKey := request.requestedWireguardPublicKey
        serial
        notBefore := nowSeconds
        notAfter } with
      | .error _ => .error .publisher
      | .ok credential =>
        (s.issuePeerRotation now request (issuer.issued credential) credential).mapError .store

/-- The loop of `issue_pending_peer_rotations`. A turn that fails ends it; the turns before it are
committed. -/
def issueRotations (s : CredentialStore) (issuer : JoinIssuer) (now : Timestamp)
    (serials : RotationId → CredentialSerial) : List RotationRow → CredentialStore × Except ApiError Unit
  | [] => (s, .ok ())
  | request :: rest =>
    match issueRotation crypto s issuer now now request (serials request.id) with
    | .error error => (s, .error error)
    | .ok s => issueRotations s issuer now serials rest

/-- `issue_pending_peer_rotations`; `serials` are the random serials it draws. -/
def issuePendingPeerRotations (s : CredentialStore) (issuer : JoinIssuer) (now : Timestamp)
    (serials : RotationId → CredentialSerial) : CredentialStore × Except ApiError Unit :=
  if issuer.notAfter (unixTimestamp now) ≤ saturatingAdd (unixTimestamp now) 60 then
    (s, .error (.unavailable "rotation_authority_expiring"
      "online Authority validity is too short for credential rotation"))
  else issueRotations crypto s issuer now serials (s.pendingPeerRotations 128)

end Issue

/-! ## Runs -/

/-- The operations on the credential rows of a mesh. -/
inductive CredentialOp where
  | stageAuthority (row : AuthorityRow)
  | transitionAuthority (serial : CredentialSerial) (lifecycle : Lifecycle)
  | join (issuer : JoinIssuer) (enrollment : CredentialStore.Enrollment) (serial : CredentialSerial)
  | request (proof : RotationRequestProof) (signature activationChallenge : Bytes)
  /-- One turn of `issue_pending_peer_rotations`. -/
  | issue (issuer : JoinIssuer) (started : Timestamp) (rotation : RotationId) (serial : CredentialSerial)
  | activate (peer : PeerId) (rotation : RotationId) (serial : CredentialSerial) (signature : Bytes)
  | transition (serial : CredentialSerial) (lifecycle : Lifecycle)
  | revokeAccess (peer : PeerId)
  | endPeer (peer : PeerId) (state : AdministrativeState)
  | bulkDisable (ids : List PeerId)
  | expire (authorities credentials : CredentialSerial → Bool)
  | maintain (batch : CredentialStore.MaintenanceBatch)
  | setRotationOverlap (seconds : Nat)
  | setLifecycle (lifecycle : MeshLifecycle)

variable (crypto : RotationCrypto)

/-- One operation as its transaction runs. -/
def CredentialOp.run (s : CredentialStore) (now : Timestamp) : CredentialOp → Except ApiError CredentialStore
  | .stageAuthority row => (s.stageAuthority row).mapError .store
  | .transitionAuthority serial lifecycle => (s.transitionAuthority now serial lifecycle).mapError .store
  | .join issuer enrollment serial =>
    (Control.join crypto.toCrypto s issuer now enrollment serial).mapError .store
  | .request proof signature activationChallenge =>
    (s.requestPeerRotation crypto now proof signature activationChallenge).mapError .store
  | .issue issuer started rotation serial =>
    match s.rotations.find? (·.id = rotation) with
    | none => .ok s
    | some row => issueRotation crypto.toCrypto s issuer (min started now) now row serial
  | .activate peer rotation serial signature =>
    ((s.activatePeerRotation crypto now peer rotation serial signature).map (·.1)).mapError .store
  | .transition serial lifecycle => (s.transitionPeerCredential now serial lifecycle).mapError .store
  | .revokeAccess peer => (s.revokePeerAccess now peer).mapError .store
  | .endPeer peer state => (s.endPeer now peer state).mapError .store
  | .bulkDisable ids => (s.bulkDisablePeers ids).mapError .store
  | .expire authorities credentials => (s.expireCredentials now authorities credentials).mapError .store
  | .maintain batch => .ok (s.maintain now batch)
  | .setRotationOverlap seconds => .ok { s with rotationOverlapSeconds := seconds }
  | .setLifecycle lifecycle => .ok { s with lifecycle }

/-- The rows after an operation at a time; a failed one is rolled back. -/
def step (s : CredentialStore) (event : Timestamp × CredentialOp) : CredentialStore :=
  match CredentialOp.run crypto s event.1 event.2 with
  | .ok s' => s'
  | .error _ => s

end Peerward.Control
