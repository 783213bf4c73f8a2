import Peerward.Lib.Decoder
import Peerward.Types.Ids

/-!
# Releases and accepted update state

A signed release manifest, the checks on it and its artifacts, and the state an installation keeps of
what it has accepted. `Libraries` are the crates the updater calls: semantic versions, SHA-256,
hexadecimal and JSON. What is written as JSON is read back as it was, so a file here is its value; the
lengths of the encodings, which are bounded, are among the parameters.
-/

namespace Peerward.Updater

open Peerward.Lib
open Peerward.Types (Text)

def MAX_MANIFEST_BYTES : Nat := 4 * 1024 * 1024
def MAX_ARTIFACT_BYTES : Nat := 256 * 1024 * 1024

inductive UpdateError where
  | malformed
  | signature
  | noArtifact
  | digest
  | expired
  | rollback
  | incompatible
  | recoveryRequired
  | io (what : String)
  deriving DecidableEq

inductive Channel where
  | stable
  | canary
  | beta
  | nightly
  deriving DecidableEq

inductive ArtifactKind where
  | binary
  | archive
  | package
  | android
  deriving DecidableEq

/-- Inclusive compatibility interval signed into a release manifest. -/
structure CompatibilityRange where
  min : Nat
  max : Nat
  deriving DecidableEq

namespace CompatibilityRange

def contains (range : CompatibilityRange) (value : Nat) : Bool :=
  range.min ≤ value && value ≤ range.max

def valid (range : CompatibilityRange) : Bool := 0 < range.min && range.min ≤ range.max

end CompatibilityRange

/-- One content-addressed release artifact. -/
structure ReleaseArtifact where
  platform : Text
  architecture : Text
  kind : ArtifactKind
  name : Text
  url : Text
  sha256 : Text
  size : Nat
  deriving DecidableEq

/-- One signed release document. -/
structure ReleaseManifest where
  schemaVersion : Nat
  sequence : Nat
  version : Text
  channel : Channel
  publishedAt : Nat
  expiresAt : Nat
  schemaCompatibility : CompatibilityRange
  wireCompatibility : CompatibilityRange
  rollbackFloor : Text
  artifacts : List ReleaseArtifact
  deriving DecidableEq

structure AcceptedUpdateState where
  schemaVersion : Nat
  highestSequence : Nat
  manifestSha256 : Text
  rollbackFloor : Text
  deriving DecidableEq

/-- What `compatibility.json` says of an installed version. -/
structure InstalledCompatibility where
  version : Text
  artifact : ReleaseArtifact
  schema : CompatibilityRange
  wire : CompatibilityRange
  deriving DecidableEq

inductive Role where
  | control
  | relay
  | peer
  deriving DecidableEq

inductive UpdateStage where
  | prepared
  | restartPending
  | recoveryRequired
  | succeeded
  | rolledBack
  deriving DecidableEq

inductive UpdateDirection where
  | install
  | rollback
  deriving DecidableEq

/-- Private local journal of one role. -/
structure UpdateTransaction where
  format : Nat
  role : Role
  manifest : ReleaseManifest
  artifact : ReleaseArtifact
  previousVersion : Text
  healthUrl : Text
  direction : UpdateDirection
  stage : UpdateStage
  approvedPreview : Option Text
  deriving DecidableEq

/-- What the updater takes from other crates. -/
structure Libraries where
  Version : Type
  parseVersion : Text → Option Version
  versionText : Version → Text
  /-- `Version::cmp_precedence`. -/
  cmpPrecedence : Version → Version → Ordering
  sha256 : Bytes → Bytes
  hexEncode : Bytes → Text
  hexDecode : Text → Option Bytes
  /-- `serde_json::to_vec` of a manifest. -/
  manifestJson : ReleaseManifest → Bytes
  acceptedLength : AcceptedUpdateState → Nat
  compatibilityLength : InstalledCompatibility → Nat
  journalLength : UpdateTransaction → Nat

variable (lib : Libraries)

/-! ## Versions -/

def canonicalVersion (version : Text) : Option lib.Version :=
  (lib.parseVersion version).filter (lib.versionText · = version)

def parsedVersion (version : Text) : Except UpdateError lib.Version :=
  match canonicalVersion lib version with
  | some parsed => .ok parsed
  | none => .error .malformed

/-- `parsed_version(a)?.cmp_precedence(&parsed_version(b)?)`. -/
def comparePrecedence (a b : Text) : Except UpdateError Ordering := do
  let a ← parsedVersion lib a
  let b ← parsedVersion lib b
  return lib.cmpPrecedence a b

/-! ## Manifests -/

/-- `starts_with("https://")`. -/
def isHttps (url : Text) : Bool := ([104, 116, 116, 112, 115, 58, 47, 47] : Bytes).isPrefixOf url.bytes

def artifactMalformed (artifact : ReleaseArtifact) : Bool :=
  artifact.platform.bytes.isEmpty || 32 < artifact.platform.bytes.length
    || artifact.architecture.bytes.isEmpty || 32 < artifact.architecture.bytes.length
    || artifact.name.bytes.isEmpty || 160 < artifact.name.bytes.length
    || artifact.name.bytes.any (fun b => b = 47 || b = 92)
    || !isHttps artifact.url
    || artifact.sha256.bytes.length ≠ 64 || (lib.hexDecode artifact.sha256).isNone
    || artifact.size = 0 || MAX_ARTIFACT_BYTES < artifact.size

def validate (manifest : ReleaseManifest) : Except UpdateError Unit := do
  rejectIf (manifest.schemaVersion ≠ 1 || manifest.sequence = 0
    || (canonicalVersion lib manifest.version).isNone
    || (canonicalVersion lib manifest.rollbackFloor).isNone) .malformed
  let order ← comparePrecedence lib manifest.version manifest.rollbackFloor
  rejectIf (order.isLT || manifest.expiresAt ≤ manifest.publishedAt
    || !manifest.schemaCompatibility.valid || !manifest.wireCompatibility.valid
    || manifest.artifacts.isEmpty || manifest.artifacts.any (artifactMalformed lib)) .malformed

/-- Applies temporal, monotonic-sequence and compatibility release gates. -/
def validateCandidate (manifest : ReleaseManifest) (now highestSequence : Nat) (currentVersion : Text)
    (schemaVersion wireMajor : Nat) : Except UpdateError Unit := do
  validate lib manifest
  rejectIf (now < manifest.publishedAt || manifest.expiresAt ≤ now) .expired
  let current ← parsedVersion lib currentVersion
  let candidate ← parsedVersion lib manifest.version
  let rollbackFloor ← parsedVersion lib manifest.rollbackFloor
  rejectIf (manifest.sequence < highestSequence
    || (lib.cmpPrecedence current rollbackFloor).isLT
    || (lib.cmpPrecedence candidate current).isLT) .rollback
  rejectIf (!manifest.schemaCompatibility.contains schemaVersion
    || !manifest.wireCompatibility.contains wireMajor) .incompatible

/-- Checks an artifact against the signed length and SHA-256 declaration. -/
def verifyArtifact (bytes : Bytes) (artifact : ReleaseArtifact) : Except UpdateError Unit := do
  rejectIf (artifact.size = 0 || MAX_ARTIFACT_BYTES < artifact.size) .digest
  match lib.hexDecode artifact.sha256 with
  | none => .error .digest
  | some expected =>
    rejectIf (expected.length ≠ 32 || bytes.length ≠ artifact.size || lib.sha256 bytes ≠ expected)
      .digest

/-! ## Accepted state -/

/-- `hex::encode(Sha256::digest(serde_json::to_vec(manifest)))`. -/
def manifestDigest (manifest : ReleaseManifest) : Text :=
  lib.hexEncode (lib.sha256 (lib.manifestJson manifest))

def emptyText : Text := ⟨[], rfl⟩

/-- `read_update_state`, of what the file holds. -/
def readUpdateState (file : Option AcceptedUpdateState) : Except UpdateError AcceptedUpdateState :=
  match file with
  | none =>
    .ok { schemaVersion := 2, highestSequence := 0, manifestSha256 := emptyText,
          rollbackFloor := emptyText }
  | some state =>
    if 4096 < lib.acceptedLength state then .error (.io "invalid file size/type")
    else if state.schemaVersion ≠ 2 || (canonicalVersion lib state.rollbackFloor).isNone
        || state.highestSequence = 0 || state.manifestSha256.bytes.length ≠ 64
        || (lib.hexDecode state.manifestSha256).isNone then .error .malformed
    else .ok state

def candidateUpdateState (manifest : ReleaseManifest) (file : Option AcceptedUpdateState) (now : Nat)
    (currentVersion : Text) (schemaVersion wireMajor : Nat) : Except UpdateError AcceptedUpdateState := do
  let previous ← readUpdateState lib file
  validateCandidate lib manifest now previous.highestSequence currentVersion schemaVersion wireMajor
  if 0 < previous.highestSequence then
    let order ← comparePrecedence lib manifest.version previous.rollbackFloor
    rejectIf order.isLT .rollback
  let rollbackFloor ←
    if 0 < previous.highestSequence then do
      let order ← comparePrecedence lib previous.rollbackFloor manifest.rollbackFloor
      pure (if order.isGT then previous.rollbackFloor else manifest.rollbackFloor)
    else pure manifest.rollbackFloor
  let digest := manifestDigest lib manifest
  if manifest.sequence = previous.highestSequence then
    if previous.manifestSha256 = digest then return previous else .error .rollback
  return { schemaVersion := 2, highestSequence := manifest.sequence, manifestSha256 := digest,
           rollbackFloor }

/-- The strongest rollback floor accepted by this installation; absent state is rejected. -/
def acceptedRollbackFloor (file : Option AcceptedUpdateState) : Except UpdateError Text := do
  let state ← readUpdateState lib file
  rejectIf (state.highestSequence = 0) .rollback
  return state.rollbackFloor

end Peerward.Updater
