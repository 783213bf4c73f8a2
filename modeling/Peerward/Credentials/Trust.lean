import Peerward.Lib.Decoder
import Peerward.Lib.Ordered
import Peerward.Types.Ids

/-!
# Root-anchored credential trust

A Root certifies online Authorities, Authorities sign the credentials of Peers and Relays, and a
`TrustSet` holds the Authorities accepted now with the serials revoked so far.

Ed25519 over the fixed transcripts, and the X25519 check for low-order points, are the predicates
of `Crypto`. A transcript lists the fields it covers, so the predicates take the fields.
-/

namespace Peerward.Credentials

open Std Peerward.Lib
open Peerward.Types (CredentialSerial Key MeshId PeerId RelayId)

/-- Credential validation failure. -/
inductive CredentialError where
  | invalidSignature
  | invalidKey
  | invalidInterval
  | outsideValidity
  | wrongMesh
  | revoked
  | malformed
  | rollback
  | nonCanonical
  deriving DecidableEq

def validateInterval (start end_ : Nat) : Except CredentialError Unit :=
  rejectIf (end_ ≤ start) .invalidInterval

def validateTime (start end_ now : Nat) : Except CredentialError Unit :=
  rejectIf (!(start ≤ now && now < end_)) .outsideValidity

/-! ## Credentials and certificates -/

inductive SubjectRole where
  | peer
  | relay
  deriving DecidableEq

/-- Strongly typed credential subject. -/
inductive SubjectId where
  | peer (id : PeerId)
  | relay (id : RelayId)
  deriving DecidableEq

def SubjectId.role : SubjectId → SubjectRole
  | .peer _ => .peer
  | .relay _ => .relay

/-- Input fields covered by an Authority signature. -/
structure UnsignedSubject where
  subject : SubjectId
  meshId : MeshId
  identityPublicKey : Key
  publicNoiseKey : Key
  wireguardPublicKey : Key
  serial : CredentialSerial
  notBefore : Nat
  notAfter : Nat
  deriving DecidableEq

/-- Authority-signed peer or relay credential. -/
structure SubjectCredential extends UnsignedSubject where
  role : SubjectRole
  signature : Bytes
  deriving DecidableEq

/-- Input fields covered by Root certification. -/
structure UnsignedAuthority where
  meshId : MeshId
  serial : CredentialSerial
  publicKey : Key
  notBefore : Nat
  notAfter : Nat
  deriving DecidableEq

/-- Root-signed online authority certificate. -/
structure AuthorityCertificate extends UnsignedAuthority where
  signature : Bytes
  deriving DecidableEq

/-- Input fields of a `DistributionCertificate`. -/
structure UnsignedDistribution where
  meshId : MeshId
  authorityPublicKey : Key
  directoryPublicKey : Key
  servicePublicKey : Key
  auditPublicKey : Key
  deriving DecidableEq

/-- Authority-signed binding for online distribution verifiers. -/
structure DistributionCertificate extends UnsignedDistribution where
  signature : Bytes
  deriving DecidableEq

/-- Monotonic Root-anchored lifecycle view for one mesh's online authorities. -/
structure AuthorityBundle where
  meshId : MeshId
  revision : Nat
  active : AuthorityCertificate
  overlap : List AuthorityCertificate
  revoked : List CredentialSerial
  deriving DecidableEq

structure SignedAuthorityBundle where
  bundle : AuthorityBundle
  signature : Bytes
  deriving DecidableEq

/-- The verification primitives: a key, what it signed, and the signature. -/
structure Crypto where
  signedAuthority : Key → UnsignedAuthority → Bytes → Bool
  signedSubject : Key → UnsignedSubject → Bytes → Bool
  signedDistribution : Key → UnsignedDistribution → Bytes → Bool
  signedAuthorityBundle : Key → AuthorityBundle → Bytes → Bool
  contributoryWireguardKey : Key → Bool

/-! ## Checks

What is verified of a credential, a certificate or a bundle by itself, before the trust set is asked. All
fields that decide are under a signature.
-/

section Checks

variable (crypto : Crypto)

def validateSubjectKeys (subject : SubjectId) (identityPublicKey sessionPublicKey
    wireguardPublicKey : Key) : Except CredentialError Unit :=
  let identityValid := match subject with
    | .peer _ => identityPublicKey ≠ 0 && crypto.contributoryWireguardKey wireguardPublicKey
        && wireguardPublicKey ≠ sessionPublicKey && wireguardPublicKey ≠ identityPublicKey
    | .relay _ => identityPublicKey = 0 && wireguardPublicKey = 0
  rejectIf (!(identityValid && sessionPublicKey ≠ 0)) .invalidKey

/-- `SubjectCredential::decode` of what `encode` wrote; the role byte and the subject agree there. -/
def SubjectCredential.decodes (credential : SubjectCredential) : Except CredentialError Unit := do
  match validateSubjectKeys crypto credential.subject credential.identityPublicKey
      credential.publicNoiseKey credential.wireguardPublicKey with
  | .ok () => validateInterval credential.notBefore credential.notAfter
  | .error _ => .error .malformed

/-- Verifies this credential with an already authenticated Authority key. -/
def SubjectCredential.verifyWithAuthority (credential : SubjectCredential)
    (authorityPublicKey : Key) (now : Nat) : Except CredentialError Unit := do
  rejectIf (credential.role ≠ credential.subject.role) .invalidSignature
  validateSubjectKeys crypto credential.subject credential.identityPublicKey
    credential.publicNoiseKey credential.wireguardPublicKey
  validateInterval credential.notBefore credential.notAfter
  validateTime credential.notBefore credential.notAfter now
  rejectIf (!crypto.signedSubject authorityPublicKey credential.toUnsignedSubject
    credential.signature) .invalidSignature

/-- Verifies root certification and its validity at `now`. -/
def verifyAuthority (root : Key) (certificate : AuthorityCertificate) (meshId : MeshId)
    (now : Nat) : Except CredentialError Unit := do
  rejectIf (certificate.meshId ≠ meshId) .wrongMesh
  validateInterval certificate.notBefore certificate.notAfter
  validateTime certificate.notBefore certificate.notAfter now
  rejectIf (!crypto.signedAuthority root certificate.toUnsignedAuthority
    certificate.signature) .invalidSignature

end Checks

def MAX_OVERLAP_AUTHORITIES : Nat := 8
def MAX_REVOKED_AUTHORITIES : Nat := 65536

/-- `strictly_increasing`, on serials. -/
def strictlyIncreasing : List CredentialSerial → Bool
  | first :: second :: rest => compare first second = .lt && strictlyIncreasing (second :: rest)
  | _ => true

def AuthorityBundle.validateShape (bundle : AuthorityBundle) : Except CredentialError Unit :=
  rejectIf (bundle.active.meshId ≠ bundle.meshId
    || bundle.overlap.length > MAX_OVERLAP_AUTHORITIES
    || bundle.revoked.length > MAX_REVOKED_AUTHORITIES
    || bundle.overlap.any (·.meshId ≠ bundle.meshId)
    || !strictlyIncreasing (bundle.overlap.map (·.serial))
    || !strictlyIncreasing bundle.revoked
    || bundle.overlap.any (·.serial = bundle.active.serial)
    || bundle.revoked.contains bundle.active.serial
    || bundle.overlap.any fun certificate => bundle.revoked.contains certificate.serial)
    .nonCanonical

/-! ## The trust set

Authorities come and go with bundles; the revoked serials only grow. An accepted subject is bounded by the
latest deadline that an Authority it verifies under gives it.
-/

/-- Root-anchored active authorities and exact serial revocations. -/
structure TrustSet where
  root : Key
  meshId : MeshId
  authorities : List AuthorityCertificate := []
  revokedAuthoritySerials : ExtTreeSet CredentialSerial := ∅
  revokedSubjectSerials : ExtTreeSet CredentialSerial := ∅
  authorityRevision : Option Nat := none
  authorityRevisionResumed : Bool := false

namespace TrustSet

variable (crypto : Crypto)

def revokeSubject (trust : TrustSet) (serial : CredentialSerial) : TrustSet :=
  { trust with revokedSubjectSerials := trust.revokedSubjectSerials.insert serial }

def revokeAuthority (trust : TrustSet) (serial : CredentialSerial) : TrustSet :=
  { trust with revokedAuthoritySerials := trust.revokedAuthoritySerials.insert serial }

/-- One turn of the loop of `subject_valid_until`. -/
def extendValidity (trust : TrustSet) (credential : SubjectCredential) (now : Nat)
    (validUntil : Option Nat) (authority : AuthorityCertificate) : Option Nat :=
  if trust.revokedAuthoritySerials.contains authority.serial then validUntil
  else if (verifyAuthority crypto trust.root authority trust.meshId now).isOk
      && (credential.verifyWithAuthority crypto authority.publicKey now).isOk then
    let until_ := min credential.notAfter authority.notAfter
    some (validUntil.elim until_ (max · until_))
  else validUntil

/-- Verifies a subject and bounds authorization by its authenticating Authority. -/
def subjectValidUntil (trust : TrustSet) (credential : SubjectCredential) (now : Nat) :
    Except CredentialError Nat := do
  rejectIf (credential.meshId ≠ trust.meshId) .wrongMesh
  rejectIf (credential.role ≠ credential.subject.role) .invalidSignature
  rejectIf (trust.revokedSubjectSerials.contains credential.serial) .revoked
  match trust.authorities.foldl (trust.extendValidity crypto credential now) none with
  | some validUntil => .ok validUntil
  | none => .error .invalidSignature

/-- Verifies that distribution keys are signed by a currently valid, root-certified, non-revoked
authority in this mesh. -/
def verifyDistribution (trust : TrustSet) (certificate : DistributionCertificate) (now : Nat) :
    Except CredentialError Unit := do
  rejectIf (certificate.meshId ≠ trust.meshId) .wrongMesh
  match trust.authorities.find? (·.publicKey = certificate.authorityPublicKey) with
  | none => .error .invalidSignature
  | some authority =>
    rejectIf (trust.revokedAuthoritySerials.contains authority.serial) .revoked
    validateTime authority.notBefore authority.notAfter now
    rejectIf (!crypto.signedDistribution certificate.authorityPublicKey
      certificate.toUnsignedDistribution certificate.signature) .invalidSignature

/-- Verifies and constructs an atomic trust set from a newer authority bundle. -/
def verifyAuthorityBundle (root : Key) (signed : SignedAuthorityBundle) (meshId : MeshId)
    (acceptedRevision : Option Nat) (now : Nat) : Except CredentialError TrustSet := do
  let bundle := signed.bundle
  bundle.validateShape
  rejectIf (bundle.meshId ≠ meshId) .wrongMesh
  rejectIf (acceptedRevision.any (bundle.revision ≤ ·)) .rollback
  verifyAuthority crypto root bundle.active meshId now
  bundle.overlap.forM fun certificate => verifyAuthority crypto root certificate meshId now
  rejectIf (!crypto.signedAuthorityBundle bundle.active.publicKey bundle signed.signature)
    .invalidSignature
  .ok { root, meshId, authorityRevision := some bundle.revision
        authorities := bundle.active :: bundle.overlap
        revokedAuthoritySerials := ExtTreeSet.ofList bundle.revoked }

/-- The tail shared by both installations: revocations outlive the authorities they replace. -/
def inherit (trust replacement : TrustSet) : Except CredentialError TrustSet := do
  rejectIf (replacement.authorities.any fun certificate =>
    trust.revokedAuthoritySerials.contains certificate.serial) .revoked
  .ok { replacement with
    revokedAuthoritySerials :=
      replacement.revokedAuthoritySerials.insertMany trust.revokedAuthoritySerials.toList
    revokedSubjectSerials := trust.revokedSubjectSerials }

/-- Replaces authority trust atomically while retaining exact subject revocations. -/
def installAuthorityBundle (trust : TrustSet) (signed : SignedAuthorityBundle) (now : Nat) :
    Except CredentialError TrustSet := do
  trust.inherit (← verifyAuthorityBundle crypto trust.root signed trust.meshId
    trust.authorityRevision now)

/-- Completes a persisted revision restore from its signed bundle exactly once. -/
def installAuthorityBundleAfterResume (trust : TrustSet) (signed : SignedAuthorityBundle)
    (now : Nat) : Except CredentialError TrustSet := do
  if !trust.authorityRevisionResumed || trust.authorityRevision ≠ some signed.bundle.revision then
    trust.installAuthorityBundle crypto signed now
  else
    let replacement ← verifyAuthorityBundle crypto trust.root signed trust.meshId none now
    rejectIf (replacement.authorities ≠ trust.authorities) .rollback
    trust.inherit replacement

/-! ## What an accepted subject is bounded by -/

variable {crypto} {trust : TrustSet} {credential : SubjectCredential} {now validUntil : Nat}

/-- A deadline comes from an unrevoked Authority that certifies the credential now. -/
def BoundedBy (crypto : Crypto) (trust : TrustSet) (credential : SubjectCredential)
    (now validUntil : Nat) : Prop :=
  ∃ authority ∈ trust.authorities,
    trust.revokedAuthoritySerials.contains authority.serial = false ∧
    (verifyAuthority crypto trust.root authority trust.meshId now).isOk = true ∧
    (credential.verifyWithAuthority crypto authority.publicKey now).isOk = true ∧
    validUntil = min credential.notAfter authority.notAfter

theorem extendValidity_cases (found : Option Nat) (authority : AuthorityCertificate)
    (hmem : authority ∈ trust.authorities)
    (h : ∀ until_, found = some until_ → BoundedBy crypto trust credential now until_) :
    ∀ until_, trust.extendValidity crypto credential now found authority = some until_ →
      BoundedBy crypto trust credential now until_ := by
  intro until_ heq
  unfold extendValidity at heq
  split at heq
  · exact h until_ heq
  · rename_i hrevoked
    split at heq
    · rename_i hok
      rw [Bool.and_eq_true] at hok
      have hnew : BoundedBy crypto trust credential now
          (min credential.notAfter authority.notAfter) :=
        ⟨authority, hmem, Bool.eq_false_iff.mpr hrevoked, hok.1, hok.2, rfl⟩
      cases found with
      | none => exact Option.some.inj heq ▸ hnew
      | some previous =>
          -- the maximum is one of the two
          have hmax : until_ = max previous (min credential.notAfter authority.notAfter) :=
            (Option.some.inj heq).symm
          rcases Nat.le_total previous (min credential.notAfter authority.notAfter) with hle | hle
          · rw [hmax, Nat.max_eq_right hle]
            exact hnew
          · rw [hmax, Nat.max_eq_left hle]
            exact h previous rfl
    · exact h until_ heq

/-- What `subject_valid_until` returns is bounded by an Authority, and the serial is not revoked. -/
theorem subjectValidUntil_ok (h : trust.subjectValidUntil crypto credential now = .ok validUntil) :
    trust.revokedSubjectSerials.contains credential.serial = false ∧
      BoundedBy crypto trust credential now validUntil := by
  unfold subjectValidUntil at h
  obtain ⟨_, _, h⟩ := bind_eq_ok.mp h
  obtain ⟨_, _, h⟩ := bind_eq_ok.mp h
  obtain ⟨_, hrevoked, h⟩ := bind_eq_ok.mp h
  refine ⟨rejectIf_eq_ok.mp hrevoked, ?_⟩
  have hfold : ∀ until_,
      trust.authorities.foldl (trust.extendValidity crypto credential now) none = some until_ →
        BoundedBy crypto trust credential now until_ :=
    List.foldlRecOn trust.authorities _ (motive := fun found => ∀ until_, found = some until_ →
      BoundedBy crypto trust credential now until_) (fun _ hnone => by cases hnone)
      fun found ih authority hmem => extendValidity_cases found authority hmem ih
  split at h
  · rename_i found hfound
    exact Except.ok.inj h ▸ hfold found hfound
  · cases h

theorem BoundedBy.le_notAfter (h : BoundedBy crypto trust credential now validUntil) :
    validUntil ≤ credential.notAfter := by
  obtain ⟨authority, -, -, -, -, rfl⟩ := h
  exact Nat.min_le_left _ _

end TrustSet

end Peerward.Credentials
