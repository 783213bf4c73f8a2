import Peerward.Control.Requests
import Peerward.Management.DeviceConditions

/-!
# Deployment previews and reports

A runner beside an installation tells Control what an operation would do, its preview, and how far
the task it was given has come, its reports. Control gets no commands, paths or keys this way, and
takes only what these checks let through.
-/

namespace Peerward.Control

open Peerward.Lib
open Peerward.Management (Semver nameValid)
open Peerward.Types (Text Uuid versionNum)

def deploymentInvalid : RequestError :=
  .invalid "invalid_deployment_operation"
    "use the fixed operation, current preview and bounded public fields"

/-- `b.is_ascii_lowercase() || b == b'_'`. -/
def isCodeByte (b : UInt8) : Bool := (97 ≤ b && b ≤ 122) || b = 95

def deploymentDigest (value : Text) : Bool :=
  value.bytes.length = 64 && value.bytes.all fun b => (48 ≤ b && b ≤ 57) || (97 ≤ b && b ≤ 102)

/-! ## Previews -/

inductive DeploymentOperation where
  | installationBackup
  | nativeUpgrade
  deriving DecidableEq

inductive NativeUpgradeRole where
  | control
  | relay
  | peer
  deriving DecidableEq

structure NativeUpgradePreview where
  role : NativeUpgradeRole
  currentVersion : Text
  version : Text
  manifestSha256 : Text
  artifactSha256 : Text
  artifactBytes : Nat
  rollbackFloor : Text
  repair : Bool
  deriving DecidableEq

structure DeploymentPreview where
  digest : Text
  servicesToPause : List Text
  onlineFiles : Nat
  meshes : Nat
  relayHosts : Nat
  upgrade : Option NativeUpgradePreview := none
  deriving DecidableEq

section Preview

variable (semver : Semver)

def deploymentVersion (value : Text) : Except RequestError semver.Version := do
  rejectIf (value.bytes.length > 128) deploymentInvalid
  match semver.parse value with
  | none => .error deploymentInvalid
  | some version =>
      rejectIf (semver.toText version ≠ value) deploymentInvalid
      return version

def validateNativeUpgradePreview (value : NativeUpgradePreview) : Except RequestError Unit := do
  let current ← deploymentVersion semver value.currentVersion
  let target ← deploymentVersion semver value.version
  let floor ← deploymentVersion semver value.rollbackFloor
  rejectIf ((semver.cmpPrecedence target current).isLT || (semver.cmpPrecedence target floor).isLT
    || value.currentVersion = value.version
    || !deploymentDigest value.manifestSha256 || !deploymentDigest value.artifactSha256
    || value.artifactBytes = 0 || value.artifactBytes > 256 * 1024 * 1024) deploymentInvalid

def validateDeploymentPreview (preview : DeploymentPreview) : Except RequestError Unit := do
  rejectIf (!deploymentDigest preview.digest
    || preview.servicesToPause.isEmpty || preview.servicesToPause.length > 258
    || preview.servicesToPause.any (!nameValid ·)
    || preview.onlineFiles = 0 || preview.onlineFiles > 100000
    || preview.meshes > 10000
    || (preview.relayHosts = 0 && preview.upgrade.isNone)
    || preview.relayHosts > 256) deploymentInvalid
  match preview.upgrade with
  | none => .ok ()
  | some upgrade => validateNativeUpgradePreview semver upgrade

end Preview

/-! ## Reports

A report names a task, its operation and its progress. An upgrade's result is checked against the report
that carries it, so that neither can say what the other denies.
-/

inductive DeploymentTaskStatus where
  | running
  | succeeded
  | failed
  | recoveryRequired
  deriving DecidableEq

structure DeploymentArtifact where
  sha256 : Text
  bytes : Nat
  files : Nat
  deriving DecidableEq

inductive NativeUpgradeState where
  | succeeded
  | rolledBack
  | recoveryRequired
  deriving DecidableEq

structure NativeUpgradeResult where
  role : NativeUpgradeRole
  version : Text
  manifestSha256 : Text
  currentSha256 : Text
  state : NativeUpgradeState
  runtimeChecked : Bool
  deriving DecidableEq

structure DeploymentTaskReport where
  taskId : Uuid
  localVersion : Nat
  status : DeploymentTaskStatus
  stage : Text
  errorCode : Option Text := none
  artifact : Option DeploymentArtifact := none
  upgrade : Option NativeUpgradeResult := none
  deriving DecidableEq

def validateDeploymentReport (report : DeploymentTaskReport) : Except RequestError Unit :=
  rejectIf (versionNum report.taskId ≠ 4
    || report.localVersion = 0 || report.localVersion > I64_MAX
    || report.stage.bytes.isEmpty || report.stage.bytes.length > 64
    || !report.stage.bytes.all isCodeByte
    || report.errorCode.any (fun s =>
        s.bytes.length > 128 || s.bytes.isEmpty || !s.bytes.all isCodeByte)
    || report.artifact.any (fun a =>
        !deploymentDigest a.sha256 || a.bytes = 0 || a.bytes > 128 * 1024 * 1024 * 1024
          || a.files = 0 || a.files > 100000)
    || (report.status = .succeeded && (report.artifact.isNone || report.errorCode.isSome)))
    deploymentInvalid

/-- The result of an upgrade agrees with the report that carries it. -/
def consistentResult (expected : NativeUpgradePreview) (report : DeploymentTaskReport)
    (result : NativeUpgradeResult) : Bool :=
  match result.state with
  | .succeeded =>
      report.status = .succeeded && result.runtimeChecked
        && result.version = expected.version && result.currentSha256 = expected.artifactSha256
        && report.artifact.any fun a =>
          a.sha256 = expected.artifactSha256 && a.bytes = expected.artifactBytes && a.files = 1
  | .rolledBack =>
      report.status = .failed && result.runtimeChecked && result.role ≠ .control
        && result.version = expected.currentVersion
        && report.artifact.any fun a => a.sha256 = result.currentSha256 && a.files = 1
  | .recoveryRequired => report.status = .recoveryRequired && !result.runtimeChecked

def validateNativeUpgradeReport (semver : Semver) (operation : DeploymentOperation)
    (preview : DeploymentPreview) (report : DeploymentTaskReport) : Except RequestError Unit :=
  match operation with
  | .installationBackup => rejectIf report.upgrade.isSome deploymentInvalid
  | .nativeUpgrade =>
    match preview.upgrade with
    | none => .error deploymentInvalid
    | some expected =>
      match report.upgrade with
      | none => rejectIf (report.status = .succeeded) deploymentInvalid
      | some result => do
          let _ ← deploymentVersion semver result.version
          rejectIf (result.role ≠ expected.role || result.manifestSha256 ≠ expected.manifestSha256
            || !deploymentDigest result.currentSha256) deploymentInvalid
          rejectIf (!consistentResult expected report result) deploymentInvalid

end Peerward.Control
