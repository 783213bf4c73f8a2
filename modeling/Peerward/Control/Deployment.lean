import Peerward.Control.DeploymentReports
import Peerward.Lib.Sorted

/-!
# Deployment tasks

An administrator approves the preview of a runner by creating a task for it. The runner fetches the
task with its next exchange, and reports on it with later ones. An exchange carries a sequence number;
the runner repeats its last request until it has read the answer.

`hash` stands for the SHA-256 digest of a request's JSON text.
-/

namespace Peerward.Control

open Peerward.Lib
open Peerward.Management (Semver)
open Peerward.Store (SECOND Timestamp)
open Peerward.Types (Text Uuid versionNum)

/-! ## Rows

The columns that the requests read or write, and the conditions of their queries under the text of the
query. Tasks are ordered by the time they were created, then by their id.
-/

structure DeploymentTaskCreate where
  id : Uuid
  runnerId : Uuid
  previewDigest : Text
  operation : DeploymentOperation := .installationBackup
  deriving DecidableEq

structure DeploymentExchange where
  sequence : Nat
  profileDigest : Text
  preview : Option DeploymentPreview
  reports : List DeploymentTaskReport
  deriving DecidableEq

inductive TaskStatus where
  | queued
  | running
  | recoveryRequired
  | failed
  | succeeded
  | cancelled
  deriving DecidableEq

namespace TaskStatus

/-- `status IN ('queued','running','recovery_required')`. -/
def active (status : TaskStatus) : Bool :=
  status = .queued || status = .running || status = .recoveryRequired

/-- `status IN ('running','recovery_required')`. -/
def assigned (status : TaskStatus) : Bool := status = .running || status = .recoveryRequired

end TaskStatus

def DeploymentTaskStatus.status : DeploymentTaskStatus → TaskStatus
  | .running => .running
  | .succeeded => .succeeded
  | .failed => .failed
  | .recoveryRequired => .recoveryRequired

inductive TaskStage where
  | queued
  | assigned
  | previewChanged
  | queueExpired
  | cancelled
  | runnerRevoked
  | recoveryRequested
  | reported (name : Text)
  deriving DecidableEq

structure DeploymentTask where
  id : Uuid
  runnerId : Uuid
  operation : DeploymentOperation
  request : DeploymentTaskCreate
  actor : Text
  preview : DeploymentPreview
  profileDigest : Text
  version : Nat := 1
  status : TaskStatus := .queued
  stage : TaskStage := .queued
  localVersion : Nat := 0
  report : Option DeploymentTaskReport := none
  reportedAt : Option Timestamp := none
  createdAt : Timestamp
  updatedAt : Timestamp
  recoveryGeneration : Nat := 0
  deriving DecidableEq

structure ExchangeResponse where
  sequence : Nat
  task : Option DeploymentTask
  deriving DecidableEq

structure DeploymentRunner where
  id : Uuid
  profileDigest : Text
  expiresAt : Timestamp
  revokedAt : Option Timestamp := none
  version : Nat := 1
  lastSeen : Option Timestamp := none
  preview : Option DeploymentPreview := none
  previewAt : Option Timestamp := none
  exchangeSequence : Nat := 0
  exchangeDigest : Option Bytes := none
  exchangeResponse : Option ExchangeResponse := none
  deriving DecidableEq

structure DeploymentRecovery where
  requestId : Uuid
  taskId : Uuid
  expectedVersion : Nat
  actor : Text
  recoveryGeneration : Nat
  deriving DecidableEq

structure DeploymentTables where
  now : Timestamp
  runners : List DeploymentRunner
  tasks : List DeploymentTask := []
  recoveries : List DeploymentRecovery := []
  deriving DecidableEq

/-- The name of a row. -/
inductive DeploymentRow where
  | runner (id : Uuid)
  | task (id : Uuid)
  | recovery (requestId : Uuid)
  deriving DecidableEq

namespace DeploymentRunner

/-- `revoked_at IS NULL AND expires_at>clock_timestamp()`. -/
def live (runner : DeploymentRunner) (now : Timestamp) : Bool :=
  runner.revokedAt.isNone && now < runner.expiresAt

/-- Also `last_seen>clock_timestamp()-interval '30 seconds'`. -/
def connected (runner : DeploymentRunner) (now : Timestamp) : Bool :=
  runner.live now && runner.lastSeen.any (now < · + 30 * SECOND)

def ready (runner : DeploymentRunner) (now : Timestamp) : Bool :=
  runner.connected now && runner.previewAt.any (now < · + 30 * SECOND)

def revoke (runner : DeploymentRunner) (now : Timestamp) : DeploymentRunner :=
  { runner with
    revokedAt := some now, version := runner.version + 1, preview := none, previewAt := none }

def recordExchange (runner : DeploymentRunner) (now : Timestamp) (body : DeploymentExchange)
    (digest : Bytes) (response : ExchangeResponse) : DeploymentRunner :=
  { runner with
    exchangeSequence := body.sequence, exchangeDigest := some digest
    exchangeResponse := some response, lastSeen := some now, preview := body.preview
    previewAt := body.preview.map fun _ => now }

end DeploymentRunner

namespace DeploymentTask

/-- The update every change of a task ends in. -/
def move (task : DeploymentTask) (status : TaskStatus) (stage : TaskStage) (now : Timestamp) :
    DeploymentTask :=
  { task with status := status, stage := stage, version := task.version + 1, updatedAt := now }

def observe (task : DeploymentTask) (report : DeploymentTaskReport) (now : Timestamp) :
    DeploymentTask :=
  { task.move report.status.status (.reported report.stage) now with
    report := some report, localVersion := report.localVersion, reportedAt := some now }

def recover (task : DeploymentTask) (now : Timestamp) : DeploymentTask :=
  { task.move .running .recoveryRequested now with
    recoveryGeneration := task.recoveryGeneration + 1 }

/-- `created_at>clock_timestamp()-interval '15 minutes'`. -/
def fresh (task : DeploymentTask) (now : Timestamp) : Bool := now < task.createdAt + 15 * MINUTE

/-- What the runner would do now is what the administrator approved. -/
def approves (task : DeploymentTask) (preview : Option DeploymentPreview) : Bool :=
  preview.any fun p => task.request.previewDigest = p.digest && p = task.preview

/-- `ORDER BY created_at,id`. -/
def order (a b : DeploymentTask) : Ordering :=
  (compare a.createdAt b.createdAt).then (compare a.id.toNat b.id.toNat)

end DeploymentTask

namespace DeploymentTables

def runner? (db : DeploymentTables) (id : Uuid) : Option DeploymentRunner :=
  db.runners.find? (·.id = id)

def task? (db : DeploymentTables) (id : Uuid) : Option DeploymentTask := db.tasks.find? (·.id = id)

def recovery? (db : DeploymentTables) (requestId : Uuid) : Option DeploymentRecovery :=
  db.recoveries.find? (·.requestId = requestId)

/-- `WHERE runner_id=$1 AND .. ORDER BY created_at,id LIMIT 1`. -/
def firstTask (db : DeploymentTables) (runner : Uuid) (status : TaskStatus → Bool) :
    Option DeploymentTask :=
  (sortBy DeploymentTask.order
    (db.tasks.filter fun task => task.runnerId = runner && status task.status)).head?

/-- `WHERE runner_id=$1 AND status='queued'`. -/
def queuedTasks (db : DeploymentTables) (runner : Uuid) : List Uuid :=
  (db.tasks.filter fun task => task.runnerId = runner && task.status = .queued).map (·.id)

/-- `WHERE id=$1 AND version=$2 AND revoked_at IS NULL`. -/
def revocable (db : DeploymentTables) (id : Uuid) (version : Nat) : Option DeploymentRunner :=
  (db.runner? id).filter fun runner => runner.version = version && runner.revokedAt.isNone

/-- `WHERE id=$1 AND version=$2 AND status='queued'`. -/
def cancellable (db : DeploymentTables) (id : Uuid) (version : Nat) : Option DeploymentTask :=
  (db.task? id).filter fun task => task.version = version && task.status = .queued

/-- `WHERE id=$1 AND version=$2 AND operation='native_upgrade' AND status='recovery_required'`. -/
def recoverable (db : DeploymentTables) (id : Uuid) (version : Nat) : Option DeploymentTask :=
  (db.task? id).filter fun task =>
    task.version = version && task.operation = .nativeUpgrade && task.status = .recoveryRequired

def updateRunner (db : DeploymentTables) (id : Uuid) (f : DeploymentRunner → DeploymentRunner) :
    DeploymentTables :=
  { db with runners := updateWhere (·.id = id) f db.runners }

def updateTask (db : DeploymentTables) (id : Uuid) (f : DeploymentTask → DeploymentTask) :
    DeploymentTables :=
  { db with tasks := updateWhere (·.id = id) f db.tasks }

end DeploymentTables

/-! ## Requests -/

inductive DeploymentRequest where
  | createTask (actor : Text) (body : DeploymentTaskCreate)
  | cancelTask (id : Uuid) (version : Nat)
  | recoverTask (actor : Text) (id : Uuid) (version : Nat) (requestId : Uuid)
  | revokeRunner (id : Uuid) (version : Nat)
  /-- `caller` is the runner whose credential the request carries. -/
  | exchange (caller id : Uuid) (body : DeploymentExchange)
  deriving DecidableEq

inductive DeploymentReply where
  | task (task : DeploymentTask)
  | runner (runner : DeploymentRunner)
  /-- `lookedAt` is not sent: the clock of the statement that looked for a queued task. -/
  | exchanged (response : ExchangeResponse) (lookedAt : Option Timestamp)
  deriving DecidableEq

abbrev DeploymentScript :=
  Script DeploymentTables DeploymentRow (Except RequestError DeploymentReply)

/-! ## Administration -/

/-- `revoke_deployment_runner`. -/
def revokeDeploymentRunner (id : Uuid) (version : Nat) : DeploymentScript :=
  .statement (fun db => (db.revocable id version).toList.map (.runner ·.id))
    (fun view db =>
      match view.revocable id version with
      | none => db
      | some _ => db.updateRunner id (·.revoke view.now))
    fun view =>
  match view.revocable id version with
  | none => refuse (.conflict "runner_changed" "reload the current runner version")
  | some runner =>
    .update (fun db => (db.queuedTasks id).map .task)
      (fun view db =>
        { db with
          tasks := updateWhere (·.id ∈ view.queuedTasks id)
            (·.move .cancelled .runnerRevoked view.now) db.tasks })
    (.commit (.ok (.runner (runner.revoke view.now))))

/-- `create_deployment_task`. -/
def createDeploymentTask (actor : Text) (body : DeploymentTaskCreate) : DeploymentScript :=
  attempt (rejectIf (versionNum body.id ≠ 4 || versionNum body.runnerId ≠ 4
    || !deploymentDigest body.previewDigest) deploymentInvalid) fun _ =>
  .lock (fun _ => [.runner body.runnerId]) fun view =>
  match view.runner? body.runnerId with
  | none => refuse .notFound
  | some runner =>
    let ready := runner.ready view.now
    .select fun view =>
    match view.task? body.id with
    | some row =>
      if row.actor ≠ actor || row.request ≠ body then
        refuse (.conflict "task_id_reused" "task ID is bound to a different request")
      else .rollback (.ok (.task row))
    | none =>
      match runner.preview.filter fun preview => ready && preview.digest = body.previewDigest with
      | none =>
        refuse (.conflict "deployment_preview_stale"
          "wait for the local runner, review its current preview and submit again")
      | some preview =>
        if preview.upgrade.isSome ≠ (body.operation = .nativeUpgrade) then
          refuse (.conflict "deployment_operation_changed"
            "select the operation advertised in the current preview")
        else
          .select fun view =>
          if view.tasks.any fun task => task.runnerId = body.runnerId && task.status.active then
            refuse (.conflict "deployment_task_in_progress"
              "complete or recover the existing task first")
          else
            let row (now : Timestamp) : DeploymentTask :=
              { id := body.id, runnerId := body.runnerId, operation := body.operation
                request := body, actor, preview, profileDigest := runner.profileDigest
                createdAt := now, updatedAt := now }
            .statement (fun _ => [.task body.id])
              (fun view db => { db with tasks := db.tasks ++ [row view.now] }) fun view =>
            -- The primary key, and the index `deployment_one_active_task`.
            if (view.task? body.id).isSome
              || collides (·.status.active) DeploymentTask.runnerId view.tasks (row view.now) then
              refuse .internal
            else .commit (.ok (.task (row view.now)))

/-- `cancel_deployment_task`. -/
def cancelDeploymentTask (id : Uuid) (version : Nat) : DeploymentScript :=
  .statement (fun db => (db.cancellable id version).toList.map (.task ·.id))
    (fun view db =>
      match view.cancellable id version with
      | none => db
      | some _ => db.updateTask id (·.move .cancelled .cancelled view.now))
    fun view =>
  match view.cancellable id version with
  | none =>
    refuse (.conflict "task_started"
      "only a queued task can be cancelled; running operations require local recovery")
  | some task => .commit (.ok (.task (task.move .cancelled .cancelled view.now)))

/-- `recover_deployment_task`. -/
def recoverDeploymentTask (actor : Text) (id : Uuid) (version : Nat) (requestId : Uuid) :
    DeploymentScript :=
  attempt (rejectIf (versionNum requestId ≠ 4) deploymentInvalid) fun _ =>
  .select fun view =>
  match view.task? id with
  | none => refuse .notFound
  | some task =>
    .lock (fun _ => [.runner task.runnerId]) fun view =>
    match view.runner? task.runnerId with
    | none => refuse .internal
    | some runner =>
      let connected := runner.connected view.now
      .select fun view =>
      match view.recovery? requestId with
      | some old =>
        if old.taskId ≠ id || old.expectedVersion ≠ version || old.actor ≠ actor then
          refuse (.conflict "recovery_request_reused"
            "recovery request belongs to a different task or version")
        else
          .select fun view =>
          match view.task? id with
          | none => refuse .internal
          | some task => .rollback (.ok (.task task))
      | none =>
        if !connected then
          refuse (.conflict "runner_unobserved"
            "wait for a fresh observation from the same registered runner")
        else
          .statement (fun db => (db.recoverable id version).toList.map (.task ·.id))
            (fun view db =>
              match view.recoverable id version with
              | none => db
              | some _ => db.updateTask id (·.recover view.now))
            fun view =>
          match view.recoverable id version with
          | none =>
            refuse (.conflict "task_changed"
              "reload the recovery-required native task before retrying")
          | some task =>
            let task := task.recover view.now
            .statement (fun _ => [.recovery requestId])
              (fun _ db => { db with recoveries := db.recoveries ++
                [⟨requestId, id, version, actor, task.recoveryGeneration⟩] }) fun view =>
            -- The primary key.
            if (view.recovery? requestId).isSome then refuse .internal
            else .commit (.ok (.task task))

/-! ## Exchanges

An exchange takes the row of its runner first. If the row already records this request, its answer is
repeated from there; otherwise the reports are taken, the next task is handed out, and both are recorded.
-/

section Exchange

variable (semver : Semver) (hash : DeploymentExchange → Bytes)

/-- The checks before the transaction. -/
def validateExchange (caller id : Uuid) (body : DeploymentExchange) : Except RequestError Unit := do
  rejectIf (caller ≠ id) (.forbidden "runner_exchange_only"
    "use this installation's restricted runner credential")
  rejectIf (body.sequence = 0 || body.sequence > I64_MAX || !deploymentDigest body.profileDigest
    || body.reports.length > 16) deploymentInvalid
  body.preview.elim (.ok ()) (validateDeploymentPreview semver)
  body.reports.forM validateDeploymentReport
  rejectIf (¬ (body.reports.map (·.taskId)).Nodup) deploymentInvalid

/-- The reports of an exchange, one after the other. -/
def takeReports (id : Uuid) (next : DeploymentScript) : List DeploymentTaskReport → DeploymentScript
  | [] => next
  | report :: rest =>
    .lock (fun _ => [.task report.taskId]) fun view =>
    match (view.task? report.taskId).filter (·.runnerId = id) with
    | none => refuse .notFound
    | some row =>
      attempt (validateNativeUpgradeReport semver row.operation row.preview report) fun _ =>
      if report.localVersion ≤ row.localVersion then
        if report.localVersion = row.localVersion && row.report = some report then
          takeReports id next rest
        else
          refuse (.conflict "task_report_replayed"
            "task observations cannot roll back or change an existing local version")
      else if !row.status.assigned then
        refuse (.conflict "task_terminal"
          "only an assigned unfinished task accepts new observations")
      else
        .update (fun _ => [.task report.taskId])
          (fun view db => db.updateTask report.taskId (·.observe report view.now))
          (takeReports id next rest)

/-- Records the exchange and answers it. -/
def answerExchange (id : Uuid) (body : DeploymentExchange) (task : Option DeploymentTask)
    (lookedAt : Option Timestamp) : DeploymentScript :=
  let response : ExchangeResponse := ⟨body.sequence, task⟩
  .update (fun _ => [.runner id])
    (fun view db => db.updateRunner id (·.recordExchange view.now body (hash body) response))
    (.commit (.ok (.exchanged response lookedAt)))

/-- The task the answer carries. Running operations are never automatically reassigned: the same
runner receives the same task. -/
def handOut (id : Uuid) (body : DeploymentExchange) : DeploymentScript :=
  .select fun view =>
  match view.firstTask id TaskStatus.assigned with
  | some task => answerExchange hash id body (some task) none
  | none =>
    .lock (fun db => (db.firstTask id (· = .queued)).toList.map (.task ·.id)) fun view =>
    match view.firstTask id (· = .queued) with
    | none => answerExchange hash id body none (some view.now)
    | some task =>
      let lookedAt := view.now
      if task.fresh lookedAt && task.approves body.preview then
        .statement (fun _ => [.task task.id])
          (fun view db => db.updateTask task.id (·.move .running .assigned view.now)) fun view =>
        match view.task? task.id with
        | none => refuse .internal
        | some task =>
          answerExchange hash id body (some (task.move .running .assigned view.now)) (some lookedAt)
      else
        let stage := if task.fresh lookedAt then TaskStage.previewChanged else .queueExpired
        .update (fun _ => [.task task.id])
          (fun view db => db.updateTask task.id (·.move .failed stage view.now))
          (answerExchange hash id body none (some lookedAt))

/-- `deployment_exchange`, once it has the row of its runner. -/
def openExchange (id : Uuid) (body : DeploymentExchange) (view : DeploymentTables) :
    DeploymentScript :=
  match (view.runner? id).filter (·.live view.now) with
  | none => refuse .notFound
  | some runner =>
    if runner.profileDigest ≠ body.profileDigest then
      refuse (.conflict "runner_profile_changed"
        "register the changed local installation profile explicitly")
    else if body.sequence ≤ runner.exchangeSequence then
      if body.sequence = runner.exchangeSequence && runner.exchangeDigest = some (hash body) then
        match runner.exchangeResponse with
        | none => refuse .internal
        | some response => .rollback (.ok (.exchanged response none))
      else
        refuse (.conflict "runner_sequence_replayed"
          "keep the durable exchange sequence and retry the exact original request")
    else takeReports semver id (handOut hash id body) body.reports

/-- `deployment_exchange`. -/
def deploymentExchange (caller id : Uuid) (body : DeploymentExchange) : DeploymentScript :=
  attempt (validateExchange semver caller id body) fun _ =>
    .lock (fun _ => [.runner id]) (openExchange semver hash id body)

def DeploymentRequest.script : DeploymentRequest → DeploymentScript
  | .createTask actor body => createDeploymentTask actor body
  | .cancelTask id version => cancelDeploymentTask id version
  | .recoverTask actor id version requestId => recoverDeploymentTask actor id version requestId
  | .revokeRunner id version => revokeDeploymentRunner id version
  | .exchange caller id body => deploymentExchange semver hash caller id body

end Exchange

/-- Time passes. -/
def passTime (duration : Nat) (db : DeploymentTables) : DeploymentTables :=
  { db with now := db.now + duration }

end Peerward.Control
