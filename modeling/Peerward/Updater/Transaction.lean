import Peerward.Updater.Installation

/-!
# Update transactions

Durable intent for a single role. The caller holds the installation lock, so between two writes of one
operation nobody else writes. The handle `record` of an operation is what its caller has in memory; it
must still be the journal.
-/

namespace Peerward.Updater

open Peerward.Lib Durable
open Peerward.Types (Text)

namespace UpdateTransaction

def isTerminal (record : UpdateTransaction) : Bool :=
  record.stage = .succeeded || record.stage = .rolledBack

def selectedVersion (record : UpdateTransaction) : Text :=
  match record.direction with
  | .install => record.manifest.version
  | .rollback => record.previousVersion

/-- The version the `previous` link keeps. -/
def retainedVersion (record : UpdateTransaction) : Text :=
  match record.direction with
  | .install => record.previousVersion
  | .rollback => record.manifest.version

end UpdateTransaction

variable (lib : Libraries)

/-- The checks `load` makes on a journal. -/
def checkJournal (role : Role) (record : UpdateTransaction) : Except UpdateError Unit := do
  rejectIf (MAX_MANIFEST_BYTES < lib.journalLength record) (.io "invalid file size/type")
  validate lib record.manifest
  rejectIf (record.format ≠ 1 || record.role ≠ role
    || (canonicalVersion lib record.previousVersion).isNone
    || !record.manifest.artifacts.contains record.artifact
    || 4096 < record.healthUrl.bytes.length) .malformed

def load (s : Installation) : Except UpdateError (Option UpdateTransaction) :=
  match s.journal .transaction with
  | none => .ok none
  | some record => do
    checkJournal lib s.role record
    return some record

def saveAt (pid : Nat) (file : JournalFile) (record : UpdateTransaction) : Program Unit := do
  ask fun _ => rejectIf (MAX_MANIFEST_BYTES < lib.journalLength record) .malformed
  let temporary ← uniqueSibling (.journal file pid)
  put (.createFile temporary)
  put (.renameJournal temporary file record)

def save (pid : Nat) (record : UpdateTransaction) : Program Unit := saveAt lib pid .transaction record

def requireCurrentRecord (record : UpdateTransaction) (s : Installation) : Except UpdateError Unit := do
  let journal ← load lib s
  rejectIf (journal ≠ some record) .recoveryRequired

/-- Validated request context persisted with the initial intent. -/
structure TransactionOptions where
  healthUrl : Text
  repair : Bool
  approvedPreview : Option Text

/-- 64 lowercase hexadecimal digits. -/
def isPreviewDigest (digest : Text) : Bool :=
  digest.bytes.length = 64
    && digest.bytes.all fun b => (48 ≤ b && b ≤ 57) || (97 ≤ b && b ≤ 102)

/-- The request is the one the journal was prepared for. -/
def sameRequest (existing : UpdateTransaction) (artifact : ReleaseArtifact)
    (manifest : ReleaseManifest) (options : TransactionOptions) : Bool :=
  existing.manifest = manifest && existing.artifact = artifact
    && existing.healthUrl = options.healthUrl && existing.approvedPreview = options.approvedPreview

/-- What `prepare_approved` checks before it stages anything: `none` when the journal is of the same
request, otherwise the previous version and the journal there is. -/
def prepareChecks (bytes : Bytes) (artifact : ReleaseArtifact) (manifest : ReleaseManifest)
    (options : TransactionOptions) (s : Installation) :
    Except UpdateError (Option UpdateTransaction × Option Text) := do
  rejectIf (options.approvedPreview.any (!isPreviewDigest ·)) .malformed
  rejectIf (4096 < options.healthUrl.bytes.length) .malformed
  validate lib manifest
  rejectIf (!manifest.artifacts.contains artifact) .malformed
  verifyArtifact lib bytes artifact
  let accepted ← readUpdateState lib s.accepted
  rejectIf (accepted.highestSequence ≠ manifest.sequence
    || accepted.manifestSha256 ≠ manifestDigest lib manifest) .rollback
  let existing ← load lib s
  rejectIf (options.repair && existing.all (·.stage ≠ .recoveryRequired)) .recoveryRequired
  match existing with
  | none =>
    let previousVersion ← targetVersion lib (s.link .current)
    rejectIf (previousVersion = manifest.version) .incompatible
    return (none, some previousVersion)
  | some record =>
    if sameRequest record artifact manifest options then
      if options.repair then .error .recoveryRequired else return (some record, none)
    else
      if options.repair then
        rejectIf (manifest.sequence ≤ record.manifest.sequence
          || manifest.version = record.manifest.version) .rollback
        let order ← comparePrecedence lib manifest.version record.manifest.version
        rejectIf order.isLT .rollback
      else rejectIf (!record.isTerminal) .recoveryRequired
      let previousVersion ← targetVersion lib (s.link .current)
      rejectIf (previousVersion = manifest.version) .incompatible
      return (some record, some previousVersion)

/-- Stages authenticated bytes before any pointer change. -/
def prepareApproved (pid : Nat) (bytes : Bytes) (artifact : ReleaseArtifact)
    (manifest : ReleaseManifest) (options : TransactionOptions) : Program (Option UpdateTransaction) := do
  let (existing, previousVersion) ← ask (prepareChecks lib bytes artifact manifest options)
  match previousVersion with
  | none => return existing
  | some previousVersion =>
    stageVersioned lib pid bytes artifact manifest.version (some manifest)
    let role ← ask fun s => .ok s.role
    let record : UpdateTransaction := {
      format := 1
      role
      manifest
      artifact
      previousVersion
      healthUrl := options.healthUrl
      direction := .install
      stage := .prepared
      approvedPreview := options.approvedPreview }
    if options.repair then
      match existing with
      | none => fail .recoveryRequired
      | some existing => saveAt lib pid .previousTransaction existing
    save lib pid record
    return some record

def prepare (pid : Nat) (bytes : Bytes) (artifact : ReleaseArtifact) (manifest : ReleaseManifest)
    (healthUrl : Text) : Program (Option UpdateTransaction) :=
  prepareApproved lib pid bytes artifact manifest { healthUrl, repair := false, approvedPreview := none }

/-- Explicitly supersedes failed work with a newer authenticated release. -/
def prepareRepair (pid : Nat) (bytes : Bytes) (artifact : ReleaseArtifact) (manifest : ReleaseManifest)
    (healthUrl : Text) : Program (Option UpdateTransaction) :=
  prepareApproved lib pid bytes artifact manifest { healthUrl, repair := true, approvedPreview := none }

/-- Retains the approved preview. -/
def bindPreview (pid : Nat) (record : UpdateTransaction) (digest : Text) :
    Program UpdateTransaction := do
  ask (requireCurrentRecord lib record)
  if !isPreviewDigest digest then fail .malformed
  else if record.approvedPreview = some digest then return record
  else if record.stage ≠ .prepared || record.approvedPreview.isSome then fail .recoveryRequired
  else
    let record := { record with approvedPreview := some digest }
    save lib pid record
    return record

/-- What `activate` checks before it switches a link; `false` when there is nothing to switch. -/
def activateChecks (record : UpdateTransaction) (schema wire : Nat) (s : Installation) :
    Except UpdateError Bool := do
  requireCurrentRecord lib record s
  let floor ← acceptedRollbackFloor lib s.accepted
  verifyInstalledVersion lib record.selectedVersion schema wire floor s
  let current ← targetVersion lib (s.link .current)
  rejectIf (current ≠ record.previousVersion && current ≠ record.manifest.version) .recoveryRequired
  if record.isTerminal then
    if current = record.selectedVersion then return false else .error .recoveryRequired
  else return true

/-- Reconciles both links from the recorded intent. -/
def activate (pid : Nat) (record : UpdateTransaction) (schema wire : Nat) :
    Program UpdateTransaction := do
  let switch ← ask (activateChecks lib record schema wire)
  if switch then
    replaceSymlink pid .previous (.release record.retainedVersion)
    replaceSymlink pid .current (.release record.selectedVersion)
    let record := { record with stage := .restartPending }
    save lib pid record
    return record
  else return record

/-- Prepares an explicit rollback, retaining the exact original target on retries. -/
def requestRollback (pid : Nat) (record : UpdateTransaction) (schema wire : Nat) :
    Program UpdateTransaction := do
  ask (requireCurrentRecord lib record)
  if record.role = .control then fail .incompatible
  else if record.direction = .rollback then return record
  else
    ask fun s => do
      let floor ← acceptedRollbackFloor lib s.accepted
      verifyInstalledVersion lib record.previousVersion schema wire floor s
    let record := { record with direction := .rollback, stage := .prepared }
    save lib pid record
    return record

def recordFailure (pid : Nat) (record : UpdateTransaction) : Program UpdateTransaction := do
  ask (requireCurrentRecord lib record)
  if record.isTerminal then fail .malformed
  else
    let record := { record with stage := .recoveryRequired }
    save lib pid record
    return record

/-- Called only after the caller checks both readiness and the actual executable. -/
def recordReady (pid : Nat) (record : UpdateTransaction) : Program UpdateTransaction := do
  ask (requireCurrentRecord lib record)
  if record.stage ≠ .restartPending then fail .malformed
  else
    ask fun s => do
      let current ← targetVersion lib (s.link .current)
      rejectIf (current ≠ record.selectedVersion) .recoveryRequired
    let stage : UpdateStage := match record.direction with
      | .install => .succeeded
      | .rollback => .rolledBack
    let record := { record with stage }
    save lib pid record
    return record

end Peerward.Updater
