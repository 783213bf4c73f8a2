import Peerward.Credentials.Trust

/-!
# Rotation proofs and issuance

A Peer asks for its next credential with a proof signed by the current identity, and turns the issued
credential on with one signed by the new identity. In between an Authority issues it.

The two transcripts list the fields of their proofs, so their signatures are predicates on the proofs.
-/

namespace Peerward.Credentials

open Peerward.Lib
open Peerward.Types (CredentialSerial Key MeshId PeerId)

abbrev RotationId := Types.Id

/-- Immutable fields authorized by the currently active Peer identity. -/
structure RotationRequestProof where
  meshId : MeshId
  peerId : PeerId
  rotationId : RotationId
  currentSerial : CredentialSerial
  identityPublicKey : Key
  sessionPublicKey : Key
  wireguardPublicKey : Key
  deriving DecidableEq

/-- One-time activation fields authorized by the new Peer identity. -/
structure RotationActivationProof where
  meshId : MeshId
  peerId : PeerId
  rotationId : RotationId
  issuedSerial : CredentialSerial
  challenge : Bytes
  deriving DecidableEq

/-- The verification primitives of the rotation proofs. -/
structure RotationCrypto extends Crypto where
  /-- `VerifyingKey::from_bytes` accepts the key. -/
  verifyingKey : Key → Bool
  signedRotationRequest : Key → RotationRequestProof → Bytes → Bool
  signedRotationActivation : Key → RotationActivationProof → Bytes → Bool
  /-- The zero point is of low order. -/
  zero_not_contributory : contributoryWireguardKey 0 = false

section Proofs

variable (crypto : RotationCrypto)

/-- What `rotation_request_transcript` refuses to encode. -/
def rotationRequestTranscript (proof : RotationRequestProof) : Except CredentialError Unit :=
  rejectIf (proof.identityPublicKey = 0
    || proof.sessionPublicKey = 0
    || !crypto.contributoryWireguardKey proof.wireguardPublicKey
    || proof.wireguardPublicKey = proof.sessionPublicKey
    || proof.wireguardPublicKey = proof.identityPublicKey) .invalidKey

/-- Verifies the rotation request against its currently certified identity. -/
def verifyRotationRequest (currentIdentityPublicKey : Key) (proof : RotationRequestProof)
    (signature : Bytes) : Except CredentialError Unit := do
  rejectIf (!crypto.verifyingKey currentIdentityPublicKey) .invalidKey
  rotationRequestTranscript crypto proof
  rejectIf (!crypto.signedRotationRequest currentIdentityPublicKey proof signature) .invalidSignature

/-- Verifies proof of possession of the new Ed25519 identity. -/
def verifyRotationActivation (newIdentityPublicKey : Key) (proof : RotationActivationProof)
    (signature : Bytes) : Except CredentialError Unit := do
  rejectIf (!crypto.verifyingKey newIdentityPublicKey) .invalidKey
  rejectIf (!crypto.signedRotationActivation newIdentityPublicKey proof signature) .invalidSignature

end Proofs

/-- `Authority`: its public key, and the Ed25519 signature it puts under a subject transcript. -/
structure Authority where
  publicKey : Key
  signSubject : UnsignedSubject → Bytes
  length_signSubject : ∀ unsigned, (signSubject unsigned).length = 64

/-- Signs a peer or relay Noise identity. -/
def Authority.issue (authority : Authority) (crypto : Crypto) (unsigned : UnsignedSubject) :
    Except CredentialError SubjectCredential := do
  validateInterval unsigned.notBefore unsigned.notAfter
  validateSubjectKeys crypto unsigned.subject unsigned.identityPublicKey unsigned.publicNoiseKey
    unsigned.wireguardPublicKey
  .ok { unsigned with role := unsigned.subject.role, signature := authority.signSubject unsigned }

/-! ## Keys -/

variable {crypto : RotationCrypto} {proof : RotationRequestProof} {signature : Bytes} {identity : Key}

/-- The keys of a verified request are the keys of a Peer credential. -/
theorem rotationRequestTranscript_eq_ok (h : rotationRequestTranscript crypto proof = .ok ()) :
    validateSubjectKeys crypto.toCrypto (.peer proof.peerId) proof.identityPublicKey
      proof.sessionPublicKey proof.wireguardPublicKey = .ok () := by
  have hkeys := rejectIf_eq_ok.mp h
  simp only [Bool.or_eq_false_iff, decide_eq_false_iff_not, Bool.not_eq_false'] at hkeys
  obtain ⟨⟨⟨⟨hidentity, hsession⟩, hcontributory⟩, hws⟩, hwi⟩ := hkeys
  rw [validateSubjectKeys, rejectIf_eq_ok]
  simpa [hcontributory, hws, hwi] using And.intro hidentity hsession

theorem wireguardPublicKey_ne (h : rotationRequestTranscript crypto proof = .ok ()) :
    proof.wireguardPublicKey ≠ 0 ∧ proof.wireguardPublicKey ≠ proof.sessionPublicKey
      ∧ proof.wireguardPublicKey ≠ proof.identityPublicKey := by
  have hkeys := rejectIf_eq_ok.mp h
  simp only [Bool.or_eq_false_iff, decide_eq_false_iff_not, Bool.not_eq_false'] at hkeys
  obtain ⟨⟨⟨-, hcontributory⟩, hsession⟩, hidentity⟩ := hkeys
  refine ⟨fun hzero => ?_, hsession, hidentity⟩
  rw [hzero, crypto.zero_not_contributory] at hcontributory
  cases hcontributory

theorem verifyRotationRequest_eq_ok
    (h : verifyRotationRequest crypto identity proof signature = .ok ()) :
    rotationRequestTranscript crypto proof = .ok () := by
  unfold verifyRotationRequest at h
  obtain ⟨_, _, h⟩ := bind_eq_ok.mp h
  obtain ⟨_, htranscript, _⟩ := bind_eq_ok.mp h
  exact htranscript

/-- An Authority issues what has an interval and the keys of its subject, and nothing else. -/
theorem Authority.issue_eq_ok {authority : Authority} {crypto : Crypto} {unsigned : UnsignedSubject}
    {credential : SubjectCredential} :
    authority.issue crypto unsigned = .ok credential ↔
      unsigned.notBefore < unsigned.notAfter ∧
      validateSubjectKeys crypto unsigned.subject unsigned.identityPublicKey
        unsigned.publicNoiseKey unsigned.wireguardPublicKey = .ok () ∧
      credential = { unsigned with
        role := unsigned.subject.role, signature := authority.signSubject unsigned } := by
  have hvalid : validateInterval unsigned.notBefore unsigned.notAfter = .ok () ↔
      unsigned.notBefore < unsigned.notAfter := by
    rw [validateInterval, rejectIf_eq_ok]
    simp
  unfold issue
  constructor
  · intro h
    obtain ⟨_, hinterval, h⟩ := bind_eq_ok.mp h
    obtain ⟨_, hkeys, h⟩ := bind_eq_ok.mp h
    exact ⟨hvalid.mp hinterval, hkeys, (Except.ok.inj h).symm⟩
  · intro ⟨hinterval, hkeys, heq⟩
    rw [hvalid.mpr hinterval, hkeys, heq]
    rfl

end Peerward.Credentials
