import Peerward.Credentials.Rotation
import Peerward.Lib.Tables
import Peerward.Net.Packet
import Peerward.Store.Presence

/-!
# Credential rows

The rows of one mesh that decide which credentials its Peers hold: Authorities, Peers with their
addresses, Peer credentials, and rotation requests. An operation is one transaction; it holds the
mesh row, so it runs alone, and an error rolls all of it back.

Timestamps count microseconds, the precision of PostgreSQL. Unique indexes, checks and triggers are part
of the insert or update that they guard. Where a statement takes a limited or unlocked part of the
rows that qualify, the part it took is a parameter.
-/

namespace Peerward.Store

open Std Peerward.Lib
open Peerward.Credentials (RotationActivationProof RotationCrypto RotationId RotationRequestProof
  SubjectCredential verifyRotationActivation verifyRotationRequest)
open Peerward.Net (IpAddr)
open Peerward.Types (CredentialSerial Key MeshId PeerId)

/-- `timestamptz`. -/
abbrev Timestamp := Nat

/-- Microseconds in a second. -/
def SECOND : Nat := 1000000

/-- `unix_timestamp`, and `floor(extract(epoch FROM ..))`. -/
def unixTimestamp (time : Timestamp) : Nat := time / SECOND

/-- `from_unix_timestamp`. -/
def fromUnixTimestamp (seconds : Nat) : Timestamp := seconds * SECOND

@[simp] theorem unixTimestamp_fromUnixTimestamp (seconds : Nat) :
    unixTimestamp (fromUnixTimestamp seconds) = seconds :=
  Nat.mul_div_cancel seconds (by decide)

/-! ## Rows -/

inductive Lifecycle where
  | staged
  | active
  | overlap
  | revoked
  deriving DecidableEq

/-- The columns the credential tables share. -/
structure Term where
  lifecycle : Lifecycle
  notBefore : Timestamp
  notAfter : Timestamp
  replacementId : Option CredentialSerial := none
  overlapDeadline : Option Timestamp := none
  deriving DecidableEq

namespace Term

/-- `lifecycle IN ('active','overlap')`. -/
def accepted (term : Term) : Bool := term.lifecycle = .active || term.lifecycle = .overlap

/-- `not_before<=clock_timestamp() AND not_after>clock_timestamp()`. -/
def current (term : Term) (now : Timestamp) : Bool := term.notBefore ≤ now && now < term.notAfter

/-- `lifecycle='active' OR overlap_deadline>clock_timestamp()`. -/
def unexpired (term : Term) (now : Timestamp) : Bool :=
  term.lifecycle = .active || term.overlapDeadline.any (now < ·)

/-- `LEAST(not_after,clock_timestamp()+LEAST(rotation_overlap_seconds,604800))`. -/
def overlapEnd (term : Term) (now : Timestamp) (rotationOverlapSeconds : Nat) : Timestamp :=
  min term.notAfter (now + SECOND * min rotationOverlapSeconds 604800)

/-- `SET lifecycle='overlap',overlap_deadline=..`. -/
def retire (term : Term) (now : Timestamp) (rotationOverlapSeconds : Nat) : Term :=
  { term with lifecycle := .overlap, overlapDeadline := some (term.overlapEnd now rotationOverlapSeconds) }

/-- `SET lifecycle='active',overlap_deadline=NULL`. -/
def activate (term : Term) : Term := { term with lifecycle := .active, overlapDeadline := none }

/-- `SET lifecycle='revoked',overlap_deadline=NULL`. -/
def revoke (term : Term) : Term := { term with lifecycle := .revoked, overlapDeadline := none }

/-- What `expire_credentials` looks for. -/
def expired (term : Term) (now : Timestamp) : Bool :=
  term.accepted && (term.notAfter ≤ now
    || (term.lifecycle = .overlap && term.overlapDeadline.any (· ≤ now)))

end Term

abbrev AuthorityId := Types.Id

/-- A row of `mesh_authorities`. -/
structure AuthorityRow extends Term where
  id : AuthorityId
  serial : CredentialSerial
  publicKey : Key
  deriving DecidableEq

/-- A row of `peer_credentials`; its serial stands for its primary key. -/
structure PeerCredentialRow extends Term where
  peerId : PeerId
  authorityId : AuthorityId
  serial : CredentialSerial
  identityPublicKey : Key
  publicKey : Key
  wireguardPublicKey : Key
  signature : Bytes
  deriving DecidableEq

/-- What `transition_credential` and `expire_credentials` need of a table. -/
class CredentialTable (ρ : Type) where
  serial : ρ → CredentialSerial
  /-- `peer_id`; Authorities have no subject. -/
  subject : ρ → Option PeerId
  term : ρ → Term
  setTerm : ρ → Term → ρ

instance : CredentialTable AuthorityRow where
  serial := (·.serial)
  subject _ := none
  term := (·.toTerm)
  setTerm row term := { row with toTerm := term }

instance : CredentialTable PeerCredentialRow where
  serial := (·.serial)
  subject row := some row.peerId
  term := (·.toTerm)
  setTerm row term := { row with toTerm := term }

inductive RotationStatus where
  | pending
  | issued
  | activated
  | cancelled
  deriving DecidableEq

/-- A row of `peer_credential_rotation_requests`. -/
structure RotationRow where
  id : RotationId
  peerId : PeerId
  authenticatedSerial : CredentialSerial
  requestedIdentityPublicKey : Key
  requestedSessionPublicKey : Key
  requestedWireguardPublicKey : Key
  requestSignature : Bytes
  activationChallenge : Bytes
  status : RotationStatus := .pending
  issuedSerial : Option CredentialSerial := none
  issuedCredential : Option SubjectCredential := none
  createdAt : Timestamp
  issuedAt : Option Timestamp := none
  activatedAt : Option Timestamp := none
  cancelledAt : Option Timestamp := none
  activationSignature : Option Bytes := none
  deriving DecidableEq

namespace RotationRow

/-- `status IN ('pending','issued')`. -/
def isOpen (row : RotationRow) : Bool := row.status = .pending || row.status = .issued

/-- `COALESCE(activated_at,cancelled_at,issued_at,created_at)`. -/
def endedAt (row : RotationRow) : Timestamp :=
  (row.activatedAt <|> row.cancelledAt <|> row.issuedAt).getD row.createdAt

def cancel (row : RotationRow) (now : Timestamp) : RotationRow :=
  { row with status := .cancelled, cancelledAt := some now }

end RotationRow

inductive AdministrativeState where
  | enabled
  | disabled
  | deleted
  deriving DecidableEq

/-- A row of `peers`. -/
structure PeerRow where
  id : PeerId
  labels : ExtTreeMap Types.Text Types.Text := ∅
  administrativeState : AdministrativeState := .enabled
  admissionUntil : Option Timestamp := none

inductive AddressState where
  | active
  | quarantine
  | released
  deriving DecidableEq

/-- A row of `peer_addresses`. -/
structure AddressRow where
  peerId : PeerId
  address : IpAddr
  state : AddressState := .active
  deriving DecidableEq

inductive MeshLifecycle where
  | creating
  | active
  | deleting
  | deleted
  deriving DecidableEq

structure CredentialStore where
  meshId : MeshId
  lifecycle : MeshLifecycle := .active
  rotationOverlapSeconds : Nat
  authorities : List AuthorityRow := []
  peers : List PeerRow := []
  addresses : List AddressRow := []
  credentials : List PeerCredentialRow := []
  rotations : List RotationRow := []

/-- What an issuer hands to the store. -/
structure IssuedPeerCredential where
  authorityId : AuthorityId
  authorityPublicKey : Option Key
  serial : CredentialSerial
  notBefore : Timestamp
  notAfter : Timestamp
  signature : Bytes

namespace CredentialStore

/-! ## Guarded writes -/

/-- `peerward_live_mesh_write` on a table that a mesh under creation does not have yet. -/
def liveWrite (s : CredentialStore) : Except StoreError Unit :=
  rejectIf (s.lifecycle ≠ .active) .database

/-- `UPDATE peer_credentials`; the trigger fires for the rows it finds. -/
def updateCredentials (s : CredentialStore) (p : PeerCredentialRow → Bool)
    (f : PeerCredentialRow → PeerCredentialRow) : Except StoreError CredentialStore := do
  if s.credentials.any p then s.liveWrite
  .ok { s with credentials := updateWhere p f s.credentials }

/-- `UPDATE peer_credential_rotation_requests`. -/
def updateRotations (s : CredentialStore) (p : RotationRow → Bool)
    (f : RotationRow → RotationRow) : Except StoreError CredentialStore := do
  if s.rotations.any p then s.liveWrite
  .ok { s with rotations := updateWhere p f s.rotations }

/-- `credential_admission_bound`: the credential does not outlive the admission of its Peer. -/
def beyondAdmission (s : CredentialStore) (row : PeerCredentialRow) : Bool :=
  s.peers.any fun peer => peer.id = row.peerId && peer.admissionUntil.any (· < row.notAfter)

/-- `INSERT INTO peer_credentials`, with its indexes, checks and triggers. -/
def insertCredential (s : CredentialStore) (row : PeerCredentialRow) :
    Except StoreError CredentialStore := do
  s.liveWrite
  rejectIf (s.beyondAdmission row) .database
  rejectIf (row.notAfter ≤ row.notBefore || row.signature.length ≠ 64) .database
  rejectIf (row.wireguardPublicKey = 0 || row.wireguardPublicKey = row.publicKey
    || row.wireguardPublicKey = row.identityPublicKey) .database
  rejectIf (collides (fun _ => true) (·.serial) s.credentials row) .database
  rejectIf (collides (fun _ => true) (fun row => (row.peerId, row.publicKey)) s.credentials row) .database
  rejectIf (collides (fun _ => true) (·.wireguardPublicKey) s.credentials row) .database
  rejectIf (collides (·.lifecycle = .active) (·.peerId) s.credentials row) .database
  .ok { s with credentials := s.credentials ++ [row] }

/-- `INSERT INTO peer_credential_rotation_requests`, past `ON CONFLICT (id)`. -/
def insertRotation (s : CredentialStore) (row : RotationRow) : Except StoreError CredentialStore := do
  s.liveWrite
  rejectIf (row.requestedWireguardPublicKey = 0
    || row.requestedWireguardPublicKey = row.requestedSessionPublicKey
    || row.requestedWireguardPublicKey = row.requestedIdentityPublicKey) .database
  rejectIf (collides (fun _ => true)
    (fun row => (row.peerId, row.requestedIdentityPublicKey, row.requestedSessionPublicKey))
    s.rotations row) .database
  rejectIf (collides RotationRow.isOpen (·.peerId) s.rotations row) .database
  rejectIf (collides (fun _ => true) (·.requestedWireguardPublicKey) s.rotations row) .database
  .ok { s with rotations := s.rotations ++ [row] }

/-- `INSERT INTO peer_addresses`, one after the other. -/
def insertAddress (s : CredentialStore) (row : AddressRow) : Except StoreError CredentialStore := do
  rejectIf (collides (·.state = .active) (·.address) s.addresses row) .database
  rejectIf (collides (·.state = .active) (fun row => (row.peerId, row.address.isIpv4)) s.addresses row)
    .database
  .ok { s with addresses := s.addresses ++ [row] }

/-! ## Enrollment

A Join inserts the Peer, its addresses and its credential, or nothing. Every insertion is checked by the
unique indexes and by the admission of its Peer.
-/

/-- The `peers` row, the addresses and the credential of one committed Join. -/
structure Enrollment where
  peerId : PeerId
  labels : ExtTreeMap Types.Text Types.Text
  admissionUntil : Option Timestamp
  address : IpAddr
  secondaryAddress : IpAddr
  identityPublicKey : Key
  publicNoiseKey : Key
  wireguardPublicKey : Key

/-- An Authority that may sign now. -/
def authorityValid (s : CredentialStore) (now : Timestamp) (issued : IssuedPeerCredential) : Bool :=
  s.authorities.any fun authority => authority.id = issued.authorityId && authority.accepted
    && issued.authorityPublicKey.all (· = authority.publicKey) && authority.current now

/-- The Peer row of a Join. -/
def Enrollment.peer (request : Enrollment) : PeerRow where
  id := request.peerId
  labels := request.labels
  admissionUntil := request.admissionUntil

/-- The credential row of a Join. -/
def Enrollment.row (request : Enrollment) (issued : IssuedPeerCredential) : PeerCredentialRow where
  lifecycle := .active
  notBefore := issued.notBefore
  notAfter := issued.notAfter
  peerId := request.peerId
  authorityId := issued.authorityId
  serial := issued.serial
  identityPublicKey := request.identityPublicKey
  publicKey := request.publicNoiseKey
  wireguardPublicKey := request.wireguardPublicKey
  signature := issued.signature

/-- The part of `claim_public_join` that enrolls the Peer, for a fresh ticket. -/
def claimPublicJoin (s : CredentialStore) (now : Timestamp) (request : Enrollment)
    (issued : IssuedPeerCredential) : Except StoreError CredentialStore := do
  rejectIf (request.wireguardPublicKey = 0 || request.wireguardPublicKey = request.publicNoiseKey
    || request.wireguardPublicKey = request.identityPublicKey) (.invalid "join identity")
  rejectIf (s.lifecycle ≠ .active) (.invalid "mesh is not active")
  rejectIf (request.admissionUntil.any (· ≤ now)) (.invalid "admission expired")
  rejectIf (issued.signature.length ≠ 64 || issued.notAfter ≤ issued.notBefore) (.invalid "credential")
  rejectIf (!s.authorityValid now issued) .conflict
  rejectIf (collides (fun _ => true) (·.id) s.peers request.peer) .database
  let s := { s with peers := s.peers ++ [request.peer] }
  let s ← s.insertAddress { peerId := request.peerId, address := request.address }
  let s ← s.insertAddress { peerId := request.peerId, address := request.secondaryAddress }
  s.insertCredential (request.row issued)

/-! ## Rotation

A request is stored under its Peer's current credential, issued by Control with a staged one, and activated
by the new identity. Each step is a transaction that may find the rows changed since the step before.
-/

/-- The row lock of an admitted Peer in an active mesh. -/
def lockEnabledPeer (s : CredentialStore) (now : Timestamp) (mesh : MeshId) (peer : PeerId) : Bool :=
  s.meshId = mesh && s.lifecycle = .active && s.peers.any fun row =>
    row.id = peer && row.administrativeState = .enabled && row.admissionUntil.all (now < ·)

/-- The credential that a request is authenticated by. -/
def authenticates (s : CredentialStore) (now : Timestamp) (peer : PeerId) (serial : CredentialSerial)
    (row : PeerCredentialRow) : Bool :=
  row.peerId = peer && row.serial = serial && row.accepted && row.unexpired now && row.current now
    && s.peers.any fun row => row.id = peer && row.administrativeState = .enabled

/-- A data key that the mesh has seen, unless in the credential this request was issued. -/
def reused (s : CredentialStore) (id : RotationId) (wireguardPublicKey : Key) : Bool :=
  (s.credentials.any fun row => row.wireguardPublicKey = wireguardPublicKey
    && !s.rotations.any fun request => request.id = id && request.issuedSerial = some row.serial)
  || s.rotations.any fun request =>
    request.requestedWireguardPublicKey = wireguardPublicKey && request.id ≠ id

/-- The stored row that a retried request repeats. -/
def repeats (row : RotationRow) (proof : RotationRequestProof) (signature : Bytes) : Bool :=
  row.id = proof.rotationId && row.peerId = proof.peerId
    && row.authenticatedSerial = proof.currentSerial
    && row.requestedIdentityPublicKey = proof.identityPublicKey
    && row.requestedSessionPublicKey = proof.sessionPublicKey
    && row.requestSignature = signature
    && row.requestedWireguardPublicKey = proof.wireguardPublicKey

/-- The row of a new request. -/
def requestRow (now : Timestamp) (proof : RotationRequestProof) (signature activationChallenge : Bytes) :
    RotationRow where
  id := proof.rotationId
  peerId := proof.peerId
  authenticatedSerial := proof.currentSerial
  requestedIdentityPublicKey := proof.identityPublicKey
  requestedSessionPublicKey := proof.sessionPublicKey
  requestedWireguardPublicKey := proof.wireguardPublicKey
  requestSignature := signature
  activationChallenge := activationChallenge
  createdAt := now

/-- Persists one in-band request only after its current credential is verified in storage. -/
def requestPeerRotation (s : CredentialStore) (crypto : RotationCrypto) (now : Timestamp)
    (proof : RotationRequestProof) (signature activationChallenge : Bytes) :
    Except StoreError CredentialStore := do
  rejectIf (!s.lockEnabledPeer now proof.meshId proof.peerId) .conflict
  match s.credentials.find? (s.authenticates now proof.peerId proof.currentSerial) with
  | none => .error .conflict
  | some current =>
    match verifyRotationRequest crypto current.identityPublicKey proof signature with
    | .error _ => .error .conflict
    | .ok () =>
      rejectIf (s.reused proof.rotationId proof.wireguardPublicKey) .conflict
      if s.rotations.any (·.id = proof.rotationId) then
        rejectIf (!s.rotations.any (repeats · proof signature)) .conflict
        .ok s
      else
        s.insertRotation (requestRow now proof signature activationChallenge)

/-- `ORDER BY created_at,id`. -/
def olderRotation (a b : RotationRow) : Bool :=
  a.createdAt < b.createdAt || (a.createdAt = b.createdAt && compare a.id b.id ≠ .gt)

/-- Returns bounded requests for the mesh online Authority worker. -/
def pendingPeerRotations (s : CredentialStore) (limit : Nat) : List RotationRow :=
  ((s.rotations.filter (·.status = .pending)).insertionSort (olderRotation · ·)).take limit

/-- The staged credential of an issued request. -/
def stagedRow (request : RotationRow) (issued : IssuedPeerCredential) : PeerCredentialRow where
  lifecycle := .staged
  notBefore := issued.notBefore
  notAfter := issued.notAfter
  peerId := request.peerId
  authorityId := issued.authorityId
  serial := issued.serial
  identityPublicKey := request.requestedIdentityPublicKey
  publicKey := request.requestedSessionPublicKey
  wireguardPublicKey := request.requestedWireguardPublicKey
  signature := issued.signature

/-- `SET status='issued'`. -/
def issueRow (now : Timestamp) (serial : CredentialSerial) (credential : SubjectCredential)
    (row : RotationRow) : RotationRow :=
  { row with
    status := .issued
    issuedSerial := some serial
    issuedCredential := some credential
    issuedAt := some now }

/-- Commits an Authority-issued staged credential and its retriable delivery body atomically. The
encoding of a credential is never empty. -/
def issuePeerRotation (s : CredentialStore) (now : Timestamp) (request : RotationRow)
    (issued : IssuedPeerCredential) (credential : SubjectCredential) :
    Except StoreError CredentialStore := do
  rejectIf (issued.signature.length ≠ 64 || issued.notAfter ≤ issued.notBefore)
    (.invalid "issued rotation credential")
  if !s.lockEnabledPeer now s.meshId request.peerId then .ok s
  else if !s.rotations.any (fun row => row.id = request.id && row.peerId = request.peerId
      && row.status = .pending) then .ok s
  else
    rejectIf (!s.authorityValid now issued) .conflict
    let s ← s.insertCredential (stagedRow request issued)
    s.updateRotations (fun row => row.id = request.id && row.status = .pending)
      (issueRow now issued.serial credential)

/-- The request that an activation names. -/
def activates (peer : PeerId) (rotation : RotationId) (serial : CredentialSerial)
    (row : RotationRow) : Bool :=
  row.id = rotation && row.peerId = peer && row.issuedSerial = some serial
    && (row.status = .issued || row.status = .activated)

/-- The credential tables of an activation: the replacement becomes active, and what it replaces
overlaps. -/
def replaceActive (s : CredentialStore) (now : Timestamp) (peer : PeerId) (serial : CredentialSerial) :
    Except StoreError CredentialStore := do
  rejectIf (!s.credentials.any fun row =>
    row.peerId = peer && row.serial = serial && row.lifecycle = .staged) .conflict
  -- keep at most one previous generation
  let s ← s.updateCredentials (fun row => row.peerId = peer && row.lifecycle = .overlap)
    fun row => { row with lifecycle := .revoked }
  rejectIf (s.credentials.countP (fun row => row.peerId = peer && row.lifecycle = .active) ≠ 1) .conflict
  let s ← s.updateCredentials (fun row => row.peerId = peer && row.lifecycle = .active) fun row =>
    { row with toTerm := { row.retire now s.rotationOverlapSeconds with replacementId := some serial } }
  rejectIf (s.credentials.countP (fun row => row.serial = serial && row.lifecycle = .staged) ≠ 1) .conflict
  s.updateCredentials (fun row => row.serial = serial && row.lifecycle = .staged) fun row =>
    { row with toTerm := row.activate }

/-- `SET status='activated'`. -/
def activateRow (now : Timestamp) (signature : Bytes) (row : RotationRow) : RotationRow :=
  { row with
    status := .activated
    activationSignature := some signature
    activatedAt := some now }

/-- Activates an issued replacement only after the new identity proves possession. -/
def activatePeerRotation (s : CredentialStore) (crypto : RotationCrypto) (now : Timestamp)
    (peer : PeerId) (rotation : RotationId) (serial : CredentialSerial) (signature : Bytes) :
    Except StoreError (CredentialStore × Bool) := do
  if !s.lockEnabledPeer now s.meshId peer then .ok (s, false)
  else match s.rotations.find? (activates peer rotation serial) with
    | none => .ok (s, false)
    | some request =>
      if request.status = .activated then .ok (s, request.activationSignature = some signature)
      else
        let proof : RotationActivationProof := {
          meshId := s.meshId
          peerId := peer
          rotationId := rotation
          issuedSerial := serial
          challenge := request.activationChallenge }
        match verifyRotationActivation crypto request.requestedIdentityPublicKey proof signature with
        | .error _ => .error .conflict
        | .ok () =>
          let s ← s.replaceActive now peer serial
          let s ← s.updateRotations (fun row => row.id = rotation && row.status = .issued)
            (activateRow now signature)
          .ok (s, true)

/-! ## Administration

What an administrator or the passing of time does to credentials. The requests that name a credential are
not always looked at.
-/

section Transition

variable {ρ : Type} [CredentialTable ρ]

/-- Changes the shared columns of the rows that qualify. -/
def updateTerms (p : ρ → Bool) (f : Term → Term) (rows : List ρ) : List ρ :=
  updateWhere p (fun row => CredentialTable.setTerm row (f (CredentialTable.term row))) rows

/-- `transition_credential` on the rows of one table. -/
def transitionCredential (rows : List ρ) (now : Timestamp) (rotationOverlapSeconds : Nat)
    (serial : CredentialSerial) (lifecycle : Lifecycle) : Except StoreError (List ρ) :=
  match rows.find? (CredentialTable.serial · = serial) with
  | none => .error .notFound
  | some row =>
    let current := (CredentialTable.term row).lifecycle
    if current = lifecycle then .ok rows
    else match lifecycle with
      | .active =>
        if current ≠ .staged then .error .conflict
        else
          let previous := updateTerms (fun other =>
            CredentialTable.subject other = CredentialTable.subject row
              && (CredentialTable.term other).lifecycle = .active)
            (fun term => { term.retire now rotationOverlapSeconds with replacementId := some serial }) rows
          .ok (updateTerms (fun other => CredentialTable.serial other = serial
            && (CredentialTable.term other).lifecycle = .staged) Term.activate previous)
      | .overlap =>
        if current ≠ .active then .error .conflict
        else .ok (updateTerms (CredentialTable.serial · = serial)
          (·.retire now rotationOverlapSeconds) rows)
      | .revoked =>
        .ok (updateTerms (fun other => CredentialTable.serial other = serial
          && (CredentialTable.term other).lifecycle ≠ .revoked) Term.revoke rows)
      | .staged => .error .conflict

/-- The rows of one table that `expire_credentials` revokes, of those its limit and the row locks leave
to it. -/
def expireRows (rows : List ρ) (now : Timestamp) (chosen : CredentialSerial → Bool) : List ρ :=
  updateTerms (fun row => (CredentialTable.term row).expired now && chosen (CredentialTable.serial row))
    Term.revoke rows

end Transition

/-- Inserts a rooted authority in staged lifecycle state. -/
def stageAuthority (s : CredentialStore) (row : AuthorityRow) : Except StoreError CredentialStore := do
  rejectIf (row.notAfter ≤ row.notBefore) (.invalid "authority credential")
  rejectIf (collides (fun _ => true) (·.id) s.authorities row
    || collides (fun _ => true) (·.serial) s.authorities row
    || collides (fun _ => true) (·.publicKey) s.authorities row) .database
  .ok { s with authorities := s.authorities ++ [{ row with lifecycle := .staged }] }

def transitionAuthority (s : CredentialStore) (now : Timestamp) (serial : CredentialSerial)
    (lifecycle : Lifecycle) : Except StoreError CredentialStore := do
  let authorities ← transitionCredential s.authorities now s.rotationOverlapSeconds serial lifecycle
  .ok { s with authorities }

def transitionPeerCredential (s : CredentialStore) (now : Timestamp) (serial : CredentialSerial)
    (lifecycle : Lifecycle) : Except StoreError CredentialStore := do
  let credentials ← transitionCredential s.credentials now s.rotationOverlapSeconds serial lifecycle
  if credentials ≠ s.credentials then s.liveWrite
  .ok { s with credentials }

/-- Shared access teardown for administrative stop and automatic retirement. -/
def revokePeerAccess (s : CredentialStore) (now : Timestamp) (peer : PeerId) :
    Except StoreError CredentialStore := do
  let s ← s.updateCredentials (fun row => row.peerId = peer && row.lifecycle ≠ .revoked)
    fun row => { row with lifecycle := .revoked }
  let s ← s.updateRotations (fun row => row.peerId = peer && row.isOpen) (·.cancel now)
  .ok { s with
    addresses := updateWhere (fun row => row.peerId = peer && row.state = .active)
      (fun row => { row with state := .quarantine }) s.addresses }

/-- `UPDATE peers SET administrative_state=..`, then the teardown. -/
def endPeer (s : CredentialStore) (now : Timestamp) (peer : PeerId) (state : AdministrativeState) :
    Except StoreError CredentialStore := do
  rejectIf (state = .enabled) .conflict
  s.liveWrite
  let peers := updateWhere (·.id = peer) (fun row => { row with administrativeState := state }) s.peers
  let s := { s with peers }
  s.revokePeerAccess now peer

/-- `bulk_disable_peers`: no request is cancelled. -/
def bulkDisablePeers (s : CredentialStore) (ids : List PeerId) : Except StoreError CredentialStore := do
  s.liveWrite
  let peers := updateWhere (fun row => row.id ∈ ids && row.administrativeState = .enabled)
    (fun row => { row with administrativeState := .disabled }) s.peers
  let s := { s with peers }
  let s ← s.updateCredentials (fun row => row.peerId ∈ ids && row.lifecycle ≠ .revoked)
    fun row => { row with lifecycle := .revoked }
  .ok { s with
    addresses := updateWhere (fun row => row.peerId ∈ ids && row.state = .active)
      (fun row => { row with state := .quarantine }) s.addresses }

/-- Revokes active or overlap credentials whose acceptance window has elapsed. -/
def expireCredentials (s : CredentialStore) (now : Timestamp)
    (chosenAuthorities chosenCredentials : CredentialSerial → Bool) :
    Except StoreError CredentialStore := do
  let credentials := expireRows s.credentials now chosenCredentials
  if credentials ≠ s.credentials then s.liveWrite
  .ok { s with authorities := expireRows s.authorities now chosenAuthorities, credentials }

/-! ## Maintenance

Rows in a terminal state are deleted when they are old and nothing names them any more.
-/

/-- A terminal request that is old enough to delete. -/
def terminalRotation (now : Timestamp) (terminal : Nat) (row : RotationRow) : Bool :=
  (row.status = .activated || row.status = .cancelled) && row.endedAt + SECOND * terminal < now

/-- A credential row that is old enough to delete and that no other row names. -/
def terminalCredential (s : CredentialStore) (now : Timestamp) (terminal : Nat)
    (claimed : CredentialSerial → Bool) (row : PeerCredentialRow) : Bool :=
  row.lifecycle ≠ .active && row.notAfter + SECOND * terminal < now && !claimed row.serial
    && (!s.rotations.any fun request =>
      request.authenticatedSerial = row.serial || request.issuedSerial = some row.serial)
    && !s.credentials.any fun other => other.replacementId = some row.serial

/-- An Authority row that is old enough to delete and that no other row names. -/
def terminalAuthority (s : CredentialStore) (now : Timestamp) (terminal : Nat)
    (row : AuthorityRow) : Bool :=
  row.lifecycle ≠ .active && row.notAfter + SECOND * terminal < now
    && (!s.credentials.any fun credential => credential.authorityId = row.id)
    && !s.authorities.any fun other => other.replacementId = some row.serial

/-- The rows that one pass of `maintain` takes, and the credentials that join tickets name. -/
structure MaintenanceBatch where
  terminal : Nat
  rotations : RotationId → Bool
  credentials : CredentialSerial → Bool
  authorities : CredentialSerial → Bool
  claimed : CredentialSerial → Bool

/-- Deletes bounded batches of expired operational state. -/
def maintain (s : CredentialStore) (now : Timestamp) (batch : MaintenanceBatch) : CredentialStore :=
  let s := { s with rotations := s.rotations.filter fun row =>
    !(terminalRotation now batch.terminal row && batch.rotations row.id) }
  let s := { s with credentials := s.credentials.filter fun row =>
    !(s.terminalCredential now batch.terminal batch.claimed row && batch.credentials row.serial) }
  { s with authorities := s.authorities.filter fun row =>
    !(s.terminalAuthority now batch.terminal row && batch.authorities row.serial) }

end CredentialStore

end Peerward.Store
