import Peerward.Control.Deployment

/-!
# What deployment requests commit

Each request locks the rows it decides by, so that what it has read still holds when it commits.
`Committed` says once what a commit may do; `deploymentContract` collects what the requests promise
each other, and every script keeps it whatever the others do in between.
-/

namespace Peerward.Control

open Peerward.Lib
open Peerward.Management (Semver)
open Peerward.Store (Timestamp)
open Peerward.Types (Text Uuid)

/-! ## Valid tables

What the unique indexes say, for the lookups: a row that was found is the only one under its name, and a
runner has at most one task to finish.
-/

/-- The unique indexes, and a recovery generation that counts the recovery requests. -/
structure DeploymentTables.Valid (db : DeploymentTables) : Prop where
  runners : Unique (fun _ => true) DeploymentRunner.id db.runners
  tasks : Unique (fun _ => true) DeploymentTask.id db.tasks
  active : Unique (·.status.active) DeploymentTask.runnerId db.tasks
  recoveries : Unique (fun _ => true) DeploymentRecovery.requestId db.recoveries
  known : ∀ recovery ∈ db.recoveries, ∃ task ∈ db.tasks, task.id = recovery.taskId
  generations : ∀ task ∈ db.tasks,
    task.recoveryGeneration = db.recoveries.countP (·.taskId = task.id)

namespace DeploymentTables

variable {db : DeploymentTables}

theorem mem_of_task? {id : Uuid} {task : DeploymentTask} (h : db.task? id = some task) :
    task ∈ db.tasks ∧ task.id = id :=
  ⟨List.mem_of_find?_eq_some h, by simpa using List.find?_some h⟩

theorem mem_of_runner? {id : Uuid} {runner : DeploymentRunner} (h : db.runner? id = some runner) :
    runner ∈ db.runners ∧ runner.id = id :=
  ⟨List.mem_of_find?_eq_some h, by simpa using List.find?_some h⟩

/-- An update of one runner leaves the others alone. -/
theorem runner?_updateRunner (db : DeploymentTables) {id other : Uuid}
    {f : DeploymentRunner → DeploymentRunner}
    (hid : ∀ runner, (f runner).id = runner.id) (hne : id ≠ other) :
    (db.updateRunner other f).runner? id = db.runner? id := by
  simp only [runner?, updateRunner, updateWhere, List.find?_map]
  have hfind : ∀ runner : DeploymentRunner, ((fun runner : DeploymentRunner => decide (runner.id = id)) ∘
      fun runner => if decide (runner.id = other) = true then f runner else runner) runner =
        decide (runner.id = id) := by
    intro runner
    by_cases h : runner.id = other <;> simp [h, hid]
  rw [funext hfind]
  cases h : db.runners.find? fun runner => decide (runner.id = id) with
  | none => rfl
  | some runner =>
      have hrunner : runner.id = id := by simpa using List.find?_some h
      simp [hrunner, hne]

theorem Valid.task?_eq (valid : db.Valid) {task : DeploymentTask} (h : task ∈ db.tasks) :
    db.task? task.id = some task := by
  refine valid.tasks.find_eq h (by simp) fun other _ hother => ⟨rfl, rfl, ?_⟩
  simpa using hother

/-- A row that the primary key has found is the only one. -/
theorem Valid.eq_of_task? (valid : db.Valid) {id : Uuid} {task other : DeploymentTask}
    (h : db.task? id = some task) (hmem : other ∈ db.tasks) (hid : other.id = id) : other = task :=
  Option.some.inj ((valid.task?_eq hmem).symm.trans (hid ▸ h))

theorem task?_eq_none {id : Uuid} : db.task? id = none ↔ ∀ task ∈ db.tasks, task.id ≠ id := by
  simp [task?, List.find?_eq_none]

theorem firstTask_eq_some {runner : Uuid} {status : TaskStatus → Bool} {task : DeploymentTask}
    (h : db.firstTask runner status = some task) :
    task ∈ db.tasks ∧ task.runnerId = runner ∧ status task.status = true := by
  have hmem := (sortBy_perm DeploymentTask.order _).mem_iff.mp (List.mem_of_head? h)
  simpa using hmem

theorem firstTask_eq_none {runner : Uuid} {status : TaskStatus → Bool} :
    db.firstTask runner status = none ↔
      ∀ task ∈ db.tasks, task.runnerId = runner → status task.status = false := by
  rw [firstTask, List.head?_eq_none_iff, ← List.length_eq_zero_iff,
    (sortBy_perm DeploymentTask.order _).length_eq, List.length_eq_zero_iff]
  simp

/-- An unfinished task of a runner is its first, since it is its only one. -/
theorem Valid.firstTask_iff (valid : db.Valid) {runner : Uuid} {status : TaskStatus → Bool}
    (hactive : ∀ s, status s = true → s.active = true) {task : DeploymentTask} :
    db.firstTask runner status = some task ↔
      task ∈ db.tasks ∧ task.runnerId = runner ∧ status task.status = true := by
  refine ⟨firstTask_eq_some, fun ⟨hmem, hown, hstatus⟩ => ?_⟩
  cases h : db.firstTask runner status with
  | none =>
      rw [firstTask_eq_none.mp h task hmem hown] at hstatus
      cases hstatus
  | some other =>
      obtain ⟨hother, hown', hstatus'⟩ := firstTask_eq_some h
      rw [valid.active.eq hother hmem (hactive _ hstatus') (hactive _ hstatus) (hown'.trans hown.symm)]

theorem cancellable_eq_some {id : Uuid} {version : Nat} {task : DeploymentTask}
    (h : db.cancellable id version = some task) :
    db.task? id = some task ∧ task.status = .queued := by
  simp only [cancellable, Option.filter_eq_some_iff, Bool.and_eq_true, decide_eq_true_eq] at h
  exact ⟨h.1, h.2.2⟩

theorem recoverable_eq_some {id : Uuid} {version : Nat} {task : DeploymentTask}
    (h : db.recoverable id version = some task) :
    db.task? id = some task ∧ task.status = .recoveryRequired := by
  simp only [recoverable, Option.filter_eq_some_iff, Bool.and_eq_true, decide_eq_true_eq] at h
  exact ⟨h.1, h.2.2⟩

theorem revocable_eq_some {id : Uuid} {version : Nat} {runner : DeploymentRunner}
    (h : db.revocable id version = some runner) :
    db.runner? id = some runner ∧ runner.revokedAt = none := by
  simp only [revocable, Option.filter_eq_some_iff, Bool.and_eq_true, decide_eq_true_eq,
    Option.isNone_iff_eq_none] at h
  exact ⟨h.1, h.2.2⟩

theorem mem_queuedTasks {runner id : Uuid} :
    id ∈ db.queuedTasks runner ↔
      ∃ task ∈ db.tasks, task.runnerId = runner ∧ task.status = .queued ∧ task.id = id := by
  simp [queuedTasks, and_assoc]

/-- Every task changes by `f`. -/
def mapTasks (db : DeploymentTables) (f : DeploymentTask → DeploymentTask) : DeploymentTables :=
  { db with tasks := db.tasks.map f }

end DeploymentTables

/-! ## Rows that are the same

A request decides by what it has read under locks, and commits later. What it has read still holds if the
others, in between, leave alone what its locks cover; this says how much that is.
-/

/-- The lock of a runner's row covers more than the row: who holds it is alone in assigning, observing and
recovering tasks of the runner, and in giving it a new one. -/
def DeploymentRow.Same : DeploymentRow → DeploymentTables → DeploymentTables → Prop
  | .runner id, a, b =>
      a.runner? id = b.runner? id ∧
      (∀ task : DeploymentTask, task.runnerId = id → task.status.assigned = true →
        (task ∈ a.tasks ↔ task ∈ b.tasks)) ∧
      ((∃ task ∈ b.tasks, task.runnerId = id ∧ task.status.active = true) →
        ∃ task ∈ a.tasks, task.runnerId = id ∧ task.status.active = true)
  | .task id, a, b => a.task? id = b.task? id
  | .recovery requestId, a, b => a.recovery? requestId = b.recovery? requestId

/-! ## Commits

A commit changes tasks one step each, or queues a new one. `Committed` has a case for each request, with
what the request has checked.
-/

/-- What a commit makes of one task. -/
inductive TaskStep (request : DeploymentRequest) (reply : DeploymentReply) (task : DeploymentTask) :
    DeploymentTask → Prop where
  | kept : TaskStep request reply task task
  | cancelled (stage : TaskStage) (now : Timestamp) (queued : task.status = .queued) :
      TaskStep request reply task (task.move .cancelled stage now)
  | recovered (now : Timestamp) (actor : Text) (version : Nat) (requestId : Uuid)
      (recovery : request = .recoverTask actor task.id version requestId)
      (required : task.status = .recoveryRequired) :
      TaskStep request reply task (task.recover now)
  | observed (now : Timestamp) (caller : Uuid) (body : DeploymentExchange)
      (exchange : request = .exchange caller task.runnerId body)
      (report : DeploymentTaskReport) (mem : report ∈ body.reports)
      (assigned : task.status.assigned = true) (newer : task.localVersion < report.localVersion) :
      TaskStep request reply task (task.observe report now)
  | handedOut (now lookedAt : Timestamp) (caller : Uuid) (body : DeploymentExchange)
      (exchange : request = .exchange caller task.runnerId body) (response : ExchangeResponse)
      (replied : reply = .exchanged response (some lookedAt))
      (queued : task.status = .queued) (fresh : task.fresh lookedAt = true)
      (approves : task.approves body.preview = true) :
      TaskStep request reply task (task.move .running .assigned now)
  | dropped (stage : TaskStage) (now : Timestamp) (queued : task.status = .queued) :
      TaskStep request reply task (task.move .failed stage now)

namespace TaskStep

variable {request : DeploymentRequest} {reply : DeploymentReply} {task task' : DeploymentTask}

@[simp] theorem id_eq (h : TaskStep request reply task task') : task'.id = task.id := by
  cases h <;> rfl

@[simp] theorem runnerId_eq (h : TaskStep request reply task task') :
    task'.runnerId = task.runnerId := by
  cases h <;> rfl

theorem active_of (h : TaskStep request reply task task') (ha : task'.status.active = true) :
    task.status.active = true := by
  cases h with
  | kept => exact ha
  | cancelled _ _ queued | handedOut _ _ _ _ _ _ _ queued | dropped _ _ queued =>
      rw [queued]
      rfl
  | recovered _ _ _ _ _ required =>
      rw [required]
      rfl
  | observed _ _ _ _ _ _ assigned =>
      revert assigned
      cases task.status <;> simp [TaskStatus.active, TaskStatus.assigned]

theorem recoveryGeneration_eq (h : TaskStep request reply task task')
    (kept : ∀ actor id version requestId, request ≠ .recoverTask actor id version requestId) :
    task'.recoveryGeneration = task.recoveryGeneration := by
  cases h with
  | recovered now actor version requestId recovery => exact absurd recovery (kept _ _ _ _)
  | _ => rfl

end TaskStep

/-- What the commit of a request makes of the tables. -/
inductive Committed (semver : Semver) (hash : DeploymentExchange → Bytes) (a : DeploymentTables) :
    DeploymentRequest → DeploymentReply → DeploymentTables → Prop where
  | created (actor : Text) (body : DeploymentTaskCreate) (row : DeploymentTask)
      (new : ∀ task ∈ a.tasks, task.id ≠ row.id)
      (idle : ∀ task ∈ a.tasks, task.runnerId = row.runnerId → task.status.active = false)
      (request : row.request = body) (queued : row.status = .queued)
      (digest : row.preview.digest = body.previewDigest)
      (generation : row.recoveryGeneration = 0) :
      Committed semver hash a (.createTask actor body) (.task row) { a with tasks := a.tasks ++ [row] }
  | cancelled (id : Uuid) (version : Nat) (reply : DeploymentReply)
      (f : DeploymentTask → DeploymentTask)
      (steps : ∀ task ∈ a.tasks, TaskStep (.cancelTask id version) reply task (f task)) :
      Committed semver hash a (.cancelTask id version) reply (a.mapTasks f)
  | recovered (actor : Text) (id : Uuid) (version : Nat) (requestId : Uuid) (now : Timestamp)
      (task : DeploymentTask) (mem : task ∈ a.tasks) (required : task.status = .recoveryRequired)
      (hid : task.id = id) (new : a.recovery? requestId = none) :
      Committed semver hash a (.recoverTask actor id version requestId) (.task (task.recover now))
        { a.updateTask id (·.recover now) with
          recoveries := a.recoveries ++
            [⟨requestId, id, version, actor, task.recoveryGeneration + 1⟩] }
  | revoked (id : Uuid) (version : Nat) (reply : DeploymentReply) (now : Timestamp)
      (f : DeploymentTask → DeploymentTask)
      (steps : ∀ task ∈ a.tasks, TaskStep (.revokeRunner id version) reply task (f task)) :
      Committed semver hash a (.revokeRunner id version) reply
        ((a.mapTasks f).updateRunner id (·.revoke now))
  | exchanged (caller id : Uuid) (body : DeploymentExchange) (response : ExchangeResponse)
      (lookedAt : Option Timestamp) (now : Timestamp) (f : DeploymentTask → DeploymentTask)
      (runner : DeploymentRunner) (row : a.runner? id = some runner)
      (checked : validateExchange semver caller id body = .ok ())
      (current : runner.revokedAt = none) (own : caller = id)
      (profile : runner.profileDigest = body.profileDigest)
      (newer : runner.exchangeSequence < body.sequence)
      (steps : ∀ task ∈ a.tasks,
        TaskStep (.exchange caller id body) (.exchanged response lookedAt) task (f task))
      (answered : response.sequence = body.sequence)
      (carried : response.task = (a.mapTasks f).firstTask id TaskStatus.assigned) :
      Committed semver hash a (.exchange caller id body) (.exchanged response lookedAt)
        ((a.mapTasks f).updateRunner id (·.recordExchange now body (hash body) response))

/-! ## Valid tables stay valid

The steps keep the names of a row, so of the indexes only the one on unfinished tasks is at stake, and a
step never makes a finished task unfinished.
-/

namespace DeploymentTables

variable {db : DeploymentTables}

theorem map_eq_updateWhere {ρ : Type} (f : ρ → ρ) (rows : List ρ) :
    rows.map f = updateWhere (fun _ => true) f rows := by
  simp [updateWhere]

theorem updateTask_mapTasks (f g : DeploymentTask → DeploymentTask) (id : Uuid) :
    (fun db : DeploymentTables => (db.mapTasks f).updateTask id g) =
      (·.mapTasks fun task => if decide ((f task).id = id) = true then g (f task) else f task) := by
  funext db
  simp [updateTask, mapTasks, updateWhere]

/-- What the indexes say of tasks that have moved. -/
theorem Valid.moved (valid : db.Valid) {request : DeploymentRequest} {reply : DeploymentReply}
    {f : DeploymentTask → DeploymentTask}
    (steps : ∀ task ∈ db.tasks, TaskStep request reply task (f task)) :
    Unique (fun _ => true) DeploymentTask.id (db.tasks.map f) ∧
      Unique (·.status.active) DeploymentTask.runnerId (db.tasks.map f) := by
  rw [map_eq_updateWhere]
  exact ⟨valid.tasks.update (fun _ _ _ _ => rfl) fun task hmem _ => (steps task hmem).id_eq,
    valid.active.update (fun task hmem _ => (steps task hmem).active_of)
      fun task hmem _ => (steps task hmem).runnerId_eq⟩

theorem Valid.mapTasks (valid : db.Valid) {request : DeploymentRequest} {reply : DeploymentReply}
    {f : DeploymentTask → DeploymentTask}
    (steps : ∀ task ∈ db.tasks, TaskStep request reply task (f task))
    (kept : ∀ actor id version requestId, request ≠ .recoverTask actor id version requestId) :
    (db.mapTasks f).Valid := by
  obtain ⟨htasks, hactive⟩ := valid.moved steps
  refine ⟨valid.runners, htasks, hactive, valid.recoveries, fun recovery hmem => ?_, ?_⟩
  · obtain ⟨task, htask, hid⟩ := valid.known recovery hmem
    exact ⟨f task, List.mem_map_of_mem htask, ((steps task htask).id_eq).trans hid⟩
  · intro task hmem
    obtain ⟨old, hold, rfl⟩ := List.mem_map.mp hmem
    rw [(steps old hold).recoveryGeneration_eq kept, (steps old hold).id_eq]
    exact valid.generations old hold

theorem Valid.updateRunner (valid : db.Valid) (id : Uuid) {f : DeploymentRunner → DeploymentRunner}
    (hid : ∀ runner, (f runner).id = runner.id) : (db.updateRunner id f).Valid :=
  ⟨valid.runners.update (fun _ _ _ _ => rfl) (fun runner _ _ => hid runner), valid.tasks, valid.active,
    valid.recoveries, valid.known, valid.generations⟩

theorem Valid.created (valid : db.Valid) {row : DeploymentTask}
    (new : ∀ task ∈ db.tasks, task.id ≠ row.id)
    (idle : ∀ task ∈ db.tasks, task.runnerId = row.runnerId → task.status.active = false)
    (generation : row.recoveryGeneration = 0) : Valid { db with tasks := db.tasks ++ [row] } where
  runners := valid.runners
  tasks := valid.tasks.insert (collides_eq_false.mpr fun _ task hmem _ => new task hmem)
  active := valid.active.insert (collides_eq_false.mpr fun _ task hmem hactive hrunner => by
    rw [idle task hmem hrunner] at hactive
    cases hactive)
  recoveries := valid.recoveries
  known := fun recovery hmem => by
    obtain ⟨task, htask, hid⟩ := valid.known recovery hmem
    exact ⟨task, List.mem_append_left _ htask, hid⟩
  generations := by
    intro task hmem
    rcases List.mem_append.mp hmem with hmem | hmem
    · exact valid.generations task hmem
    · cases List.mem_singleton.mp hmem
      refine generation.trans (Eq.symm (List.countP_eq_zero.mpr fun recovery hrecovery hid => ?_))
      obtain ⟨task, htask, htid⟩ := valid.known recovery hrecovery
      exact new task htask (htid.trans (of_decide_eq_true hid))

theorem Valid.recovered (valid : db.Valid) {task : DeploymentTask} (mem : task ∈ db.tasks)
    (required : task.status = .recoveryRequired) {recovery : DeploymentRecovery}
    (hid : recovery.taskId = task.id) (new : db.recovery? recovery.requestId = none)
    (now : Timestamp) :
    Valid { db.updateTask task.id (·.recover now) with
      recoveries := db.recoveries ++ [recovery] } := by
  have hstep : ∀ other ∈ db.tasks, other.id = task.id → other = task := fun other hother hsame =>
    valid.tasks.eq hother mem rfl rfl hsame
  refine ⟨valid.runners, ?_, ?_, ?_, ?_, ?_⟩
  · exact valid.tasks.update (fun _ _ _ _ => rfl) fun _ _ _ => rfl
  · refine valid.active.update (fun other hother hp _ => ?_) fun _ _ _ => rfl
    rw [hstep other hother (of_decide_eq_true hp), required]
    rfl
  · refine valid.recoveries.insert (collides_eq_false.mpr fun _ other hother _ hsame => ?_)
    have := List.find?_eq_none.mp new other hother
    simp [hsame] at this
  · intro other hother
    rcases List.mem_append.mp hother with hother | hother
    · obtain ⟨known, hknown, hkid⟩ := valid.known other hother
      by_cases hk : known.id = task.id
      · exact ⟨known.recover now, mem_updateWhere_of hknown (by simp [hk]), hkid⟩
      · exact ⟨known, mem_updateWhere_of_not hknown (by simp [hk]), hkid⟩
    · cases List.mem_singleton.mp hother
      exact ⟨task.recover now, mem_updateWhere_of mem (by simp), hid.symm⟩
  · intro other hother
    rcases updateWhere_cases hother with ⟨hmem, hp⟩ | ⟨old, hmem, hp, rfl⟩
    · have hne : other.id ≠ task.id := of_decide_eq_false hp
      rw [valid.generations other hmem, List.countP_append]
      simp [hid, Ne.symm hne]
    · cases hstep old hmem (of_decide_eq_true hp)
      show task.recoveryGeneration + 1 =
        List.countP (fun other : DeploymentRecovery => other.taskId = task.id) _
      rw [valid.generations task hmem, List.countP_append]
      simp [hid]

end DeploymentTables

theorem Committed.valid {semver : Semver} {hash : DeploymentExchange → Bytes} {a b : DeploymentTables}
    {request : DeploymentRequest} {reply : DeploymentReply} (h : Committed semver hash a request reply b)
    (valid : a.Valid) : b.Valid := by
  cases h with
  | created actor body row new idle _ _ _ generation => exact valid.created new idle generation
  | cancelled id version reply f steps => exact valid.mapTasks steps nofun
  | recovered actor id version requestId now task mem required hid new =>
      subst hid
      exact valid.recovered mem required rfl new now
  | revoked id version reply now f steps =>
      exact (valid.mapTasks steps nofun).updateRunner id fun _ => rfl
  | exchanged caller id body response lookedAt now f _ _ _ _ _ _ _ steps =>
      exact (valid.mapTasks steps nofun).updateRunner id fun _ => rfl

/-- What a commit makes of the tasks: each one takes a step, or a new one is queued. -/
theorem Committed.tasks {semver : Semver} {hash : DeploymentExchange → Bytes} {a b : DeploymentTables}
    {request : DeploymentRequest} {reply : DeploymentReply} (h : Committed semver hash a request reply b)
    (valid : a.Valid) :
    (∃ f, b.tasks = a.tasks.map f ∧ ∀ task ∈ a.tasks, TaskStep request reply task (f task)) ∨
      ∃ row, b.tasks = a.tasks ++ [row] ∧ row.status = .queued ∧ ∀ task ∈ a.tasks, task.id ≠ row.id := by
  cases h with
  | created actor body row new _ _ queued => exact .inr ⟨row, rfl, queued, new⟩
  | cancelled id version reply f steps => exact .inl ⟨f, rfl, steps⟩
  | revoked id version reply now f steps => exact .inl ⟨f, rfl, steps⟩
  | exchanged caller id body response lookedAt now f _ _ _ _ _ _ _ steps => exact .inl ⟨f, rfl, steps⟩
  | recovered actor id version requestId now task mem required hid =>
      refine .inl ⟨fun other => if decide (other.id = id) = true then other.recover now else other, rfl,
        fun other hmem => ?_⟩
      dsimp only
      split
      · next hother =>
          have hother := of_decide_eq_true hother
          have hsame : other = task := valid.tasks.eq hmem mem rfl rfl (hother.trans hid.symm)
          exact .recovered now actor version requestId (by rw [hother]) (hsame ▸ required)
      · exact .kept

/-- No task goes away. -/
theorem Committed.mem {semver : Semver} {hash : DeploymentExchange → Bytes} {a b : DeploymentTables}
    {request : DeploymentRequest} {reply : DeploymentReply} (h : Committed semver hash a request reply b)
    (valid : a.Valid) {task : DeploymentTask} (hmem : task ∈ a.tasks) :
    ∃ task' ∈ b.tasks, TaskStep request reply task task' := by
  rcases h.tasks valid with ⟨f, htasks, hsteps⟩ | ⟨row, htasks, -⟩
  · exact ⟨f task, htasks ▸ List.mem_map_of_mem hmem, hsteps task hmem⟩
  · exact ⟨task, htasks ▸ List.mem_append_left _ hmem, .kept⟩

/-! ## The contract

The promise of a request is checked against the tables at its commit, which others may have changed. It
stays true because the rows it speaks of are locked, and what the locks cover is the same.
-/

namespace DeploymentRow.Same

variable {a b : DeploymentTables} {f : DeploymentTask → DeploymentTask} {id : Uuid}

theorem refl : ∀ (row : DeploymentRow) (db : DeploymentTables), row.Same db db
  | .runner _, _ => ⟨rfl, fun _ _ _ => Iff.rfl, fun h => h⟩
  | .task _, _ => rfl
  | .recovery _, _ => rfl

theorem trans : ∀ (row : DeploymentRow) (a b c : DeploymentTables),
    row.Same a b → row.Same b c → row.Same a c
  | .runner _, _, _, _, hab, hbc =>
      ⟨hab.1.trans hbc.1, fun task hrunner ha => (hab.2.1 task hrunner ha).trans (hbc.2.1 task hrunner ha),
        fun h => hab.2.2 (hbc.2.2 h)⟩
  | .task _, _, _, _, hab, hbc => Eq.trans hab hbc
  | .recovery _, _, _, _, hab, hbc => Eq.trans hab hbc

theorem task (htasks : b.tasks = a.tasks.map f) (hid : ∀ task ∈ a.tasks, (f task).id = task.id)
    (hkept : ∀ task ∈ a.tasks, task.id = id → f task = task) : (DeploymentRow.task id).Same a b := by
  show a.tasks.find? (·.id = id) = b.tasks.find? (·.id = id)
  have hfind : a.tasks.find? ((fun task : DeploymentTask => decide (task.id = id)) ∘ f) =
      a.tasks.find? (·.id = id) := by
    refine List.find?_congr fun task hmem => ?_
    simp [hid task hmem]
  rw [htasks, List.find?_map, hfind]
  cases h : a.tasks.find? (·.id = id) with
  | none => rfl
  | some task =>
      have hmem := DeploymentTables.mem_of_task? h
      rw [Option.map_some, hkept task hmem.1 hmem.2]

/-- Nobody but the holder of a runner's row touches the tasks it has been given. -/
theorem runner (hrow : a.runner? id = b.runner? id) (htasks : b.tasks = a.tasks.map f)
    (hrunner : ∀ task ∈ a.tasks, (f task).runnerId = task.runnerId)
    (hkept : ∀ task ∈ a.tasks, task.runnerId = id → f task = task ∨
      task.status.assigned = false ∧ (f task).status.assigned = false ∧ task.status.active = true) :
    (DeploymentRow.runner id).Same a b := by
  refine ⟨hrow, fun task hid hassigned => ?_, ?_⟩
  · rw [htasks, List.mem_map]
    constructor
    · intro hmem
      rcases hkept task hmem hid with h | ⟨h, -, -⟩
      · exact ⟨task, hmem, h⟩
      · rw [h] at hassigned
        cases hassigned
    · rintro ⟨old, hmem, rfl⟩
      rcases hkept old hmem ((hrunner old hmem).symm.trans hid) with h | ⟨-, h, -⟩
      · rw [h]
        exact hmem
      · rw [h] at hassigned
        cases hassigned
  · rintro ⟨task, hmem, hid, hactive⟩
    rw [htasks] at hmem
    obtain ⟨old, hold, rfl⟩ := List.mem_map.mp hmem
    have hown := (hrunner old hold).symm.trans hid
    rcases hkept old hold hown with h | ⟨-, -, h⟩
    · rw [h] at hactive
      exact ⟨old, hold, hown, hactive⟩
    · exact ⟨old, hold, hown, h⟩

end DeploymentRow.Same

/-- What deployment requests promise each other. Only time passes outside. -/
def deploymentContract (semver : Semver) (hash : DeploymentExchange → Bytes) :
    Contract DeploymentTables DeploymentRow DeploymentRequest
      (Except RequestError DeploymentReply) Nat where
  script := DeploymentRequest.script semver hash
  world := passTime
  Same := DeploymentRow.Same
  Inv := DeploymentTables.Valid
  Promise := fun request answer a b => 
    ∃ reply, answer = .ok reply ∧ Committed semver hash a request reply b
  same_refl := DeploymentRow.Same.refl
  same_trans := DeploymentRow.Same.trans
  inv_world := fun _ _ valid =>
    ⟨valid.runners, valid.tasks, valid.active, valid.recoveries, valid.known, valid.generations⟩
  same_world := fun _ db row => by
    cases row with
    | runner id => exact ⟨rfl, fun _ _ _ => Iff.rfl, fun h => h⟩
    | task id => rfl
    | recovery id => rfl
  inv_promise := by
    rintro request answer a b valid ⟨reply, -, h⟩
    exact h.valid valid

section Scripts

open DeploymentTables

variable {semver : Semver} {hash : DeploymentExchange → Bytes} {db : DeploymentTables}

/-- Ends the tasks that meet `p`. -/
def endTasks (p : DeploymentTask → Bool) (status : TaskStatus) (stage : TaskStage) (now : Timestamp)
    (task : DeploymentTask) : DeploymentTask :=
  if p task then task.move status stage now else task

section End

variable {p : DeploymentTask → Bool} {status : TaskStatus} {stage : TaskStage} {now : Timestamp}

theorem step_endTasks (hqueued : ∀ task ∈ db.tasks, p task = true → task.status = .queued)
    (request : DeploymentRequest) (reply : DeploymentReply) :
    ∀ task ∈ db.tasks, TaskStep request reply task (endTasks p .cancelled stage now task) := by
  intro task hmem
  unfold endTasks
  split
  · exact .cancelled stage now (hqueued task hmem ‹_›)
  · exact .kept

/-- Who holds queued tasks changes no other row by ending them. -/
theorem same_endTasks {after : DeploymentTables} {row : DeploymentRow}
    (hqueued : ∀ task ∈ db.tasks, p task = true → task.status = .queued)
    (hheld : ∀ task ∈ db.tasks, p task = true → row ≠ .task task.id)
    (hended : status.assigned = false)
    (htasks : after.tasks = db.tasks.map (endTasks p status stage now))
    (hrunners : ∀ id, row = .runner id → db.runner? id = after.runner? id)
    (hrecoveries : after.recoveries = db.recoveries) : row.Same db after := by
  have hid : ∀ task, (endTasks p status stage now task).id = task.id ∧
      (endTasks p status stage now task).runnerId = task.runnerId := by
    intro task
    unfold endTasks
    split <;> exact ⟨rfl, rfl⟩
  cases row with
  | runner id =>
      refine .runner (hrunners id rfl) htasks (fun task _ => (hid task).2) fun task hmem _ => ?_
      by_cases hp : p task = true
      · rw [endTasks, if_pos hp, hqueued task hmem hp]
        exact .inr ⟨rfl, hended, rfl⟩
      · exact .inl (if_neg hp)
  | task id =>
      refine .task htasks (fun task _ => (hid task).1) fun task hmem htask => if_neg fun hp => ?_
      exact hheld task hmem hp (congrArg _ htask.symm)
  | recovery id =>
      show db.recoveries.find? _ = after.recoveries.find? _
      rw [hrecoveries]

end End

/-- A cancelled task was queued, and no runner had it. -/
theorem sound_cancelDeploymentTask (taskId : Uuid) (version : Nat) :
    (deploymentContract semver hash).Sound (.cancelTask taskId version)
      (cancelDeploymentTask taskId version) (fun _ => False) id db := by
  intro view _ _
  dsimp only [id_eq]
  cases hmatch : view.cancellable taskId version with
  | none => exact sound_refuse _
  | some task =>
      obtain ⟨hview, hqueued⟩ := cancellable_eq_some hmatch
      have htid := (mem_of_task? hview).2
      intro after hlater valid
      have hafter : after.task? taskId = some task :=
        (hlater.same (.task taskId) (by simp [htid])).symm.trans hview
      have honly : ∀ other ∈ after.tasks, decide (other.id = taskId) = true →
          other.status = .queued ∧ other.id = task.id := by
        intro other hmem hother
        rw [Valid.eq_of_task? valid hafter hmem (of_decide_eq_true hother)]
        exact ⟨hqueued, rfl⟩
      refine ⟨⟨_, rfl, .cancelled taskId version _ (endTasks (·.id = taskId) .cancelled .cancelled view.now)
        (step_endTasks (fun other hmem hp => (honly other hmem hp).1) _ _)⟩, fun row hrow => ?_⟩
      refine same_endTasks (fun other hmem hp => (honly other hmem hp).1) (fun other hmem hp h => ?_) rfl
        rfl (fun _ _ => rfl) rfl
      exact hrow (by simp [h, (honly other hmem hp).2])

/-- The tasks a revoked runner loses were queued. -/
theorem sound_revokeDeploymentRunner (runnerId : Uuid) (version : Nat) :
    (deploymentContract semver hash).Sound (.revokeRunner runnerId version)
      (revokeDeploymentRunner runnerId version) (fun _ => False) id db := by
  intro first _ _
  dsimp only [id_eq]
  cases hmatch : first.revocable runnerId version with
  | none => exact sound_refuse _
  | some runner =>
      intro view _ hview
      dsimp only
      set ids := view.queuedTasks runnerId with hids
      intro after hlater valid
      have honly : ∀ task ∈ after.tasks, decide (task.id ∈ ids) = true → task.status = .queued := by
        intro task hmem htask
        obtain ⟨old, hold, -, hqueued, hid⟩ :=
          mem_queuedTasks.mp (of_decide_eq_true htask)
        have hafter : after.task? task.id = view.task? task.id :=
          (hlater.same (.task task.id) (.inl (List.mem_map_of_mem (of_decide_eq_true htask)))).symm
        rw [← hid, Valid.task?_eq hview hold, hid] at hafter
        rw [Valid.eq_of_task? valid hafter hmem rfl]
        exact hqueued
      refine ⟨⟨_, rfl, .revoked runnerId version _ first.now
        (endTasks (·.id ∈ ids) .cancelled .runnerRevoked view.now) (step_endTasks honly _ _)⟩,
        fun row hrow => ?_⟩
      refine same_endTasks honly (fun task hmem hp h => ?_) rfl rfl (fun id h => ?_) rfl
      · exact hrow (.inl (h ▸ List.mem_map_of_mem (of_decide_eq_true hp)))
      · have hrid := (mem_of_runner? (revocable_eq_some hmatch).1).2
        show after.runner? id = (after.updateRunner runnerId (·.revoke first.now)).runner? id
        refine (runner?_updateRunner _ (f := (·.revoke first.now)) (fun _ => rfl)
          fun hid => hrow (.inr ?_)).symm
        simp [h, hid, hrid]

/-- A row that the locks of its runner and of its own name keep insertable. -/
theorem sound_created {actor : Text} {body : DeploymentTaskCreate} {row : DeploymentTask}
    {view : DeploymentTables} (hnew : view.task? body.id = none)
    (hidle : collides (·.status.active) DeploymentTask.runnerId view.tasks row = false)
    (hid : row.id = body.id) (hrunner : row.runnerId = body.runnerId) (hrequest : row.request = body)
    (hqueued : row.status = .queued) (hdigest : row.preview.digest = body.previewDigest)
    (hgeneration : row.recoveryGeneration = 0) :
    (deploymentContract semver hash).Sound (.createTask actor body) (.commit (.ok (.task row)))
      (fun name => name ∈ [DeploymentRow.task body.id] ∨
        name ∈ [DeploymentRow.runner body.runnerId] ∨ False)
      (fun db => { db with tasks := db.tasks ++ [row] }) view := by
  intro after hlater valid
  have hnone : after.task? body.id = none :=
    (hlater.same (.task body.id) (by simp)).symm.trans hnew
  have hnew : ∀ task ∈ after.tasks, task.id ≠ row.id := fun task hmem =>
    hid ▸ task?_eq_none.mp hnone task hmem
  have hidle : ∀ task ∈ after.tasks, task.runnerId = row.runnerId → task.status.active = false := by
    intro task hmem hown
    by_contra hactive
    obtain ⟨other, hother, hsame, ha⟩ := (hlater.same (.runner body.runnerId) (by simp)).2.2
      ⟨task, hmem, hown.trans hrunner, by simpa using hactive⟩
    exact collides_eq_false.mp hidle (by rw [hqueued]; rfl) other hother ha (hsame.trans hrunner.symm)
  refine ⟨⟨_, rfl, .created actor body row hnew hidle hrequest hqueued hdigest hgeneration⟩,
    fun name hname => ?_⟩
  cases name with
  | recovery id => rfl
  | task id =>
      have hne : row.id ≠ id := fun h => hname (by simp [← h, hid])
      show after.tasks.find? (·.id = id) = (after.tasks ++ [row]).find? (·.id = id)
      simp [List.find?_append, hne]
  | runner id =>
      have hne : row.runnerId ≠ id := fun h => hname (by simp [← h, hrunner])
      refine ⟨rfl, fun task hown hassigned => ?_, ?_⟩
      · simp only [List.mem_append, List.mem_singleton, iff_self_or]
        rintro rfl
        exact absurd hown hne
      · rintro ⟨task, hmem, hown, hactive⟩
        rcases List.mem_append.mp hmem with hmem | hmem
        · exact ⟨task, hmem, hown, hactive⟩
        · cases List.mem_singleton.mp hmem
          exact absurd hown hne

/-- The runner of a new task has no other to do. -/
theorem sound_createDeploymentTask (actor : Text) (body : DeploymentTaskCreate) :
    (deploymentContract semver hash).Sound (.createTask actor body)
      (createDeploymentTask actor body) (fun _ => False) id db := by
  refine sound_attempt fun _ _ => ?_
  refine .lock fun first _ _ => ?_
  dsimp only [id_eq]
  cases hrunner : first.runner? body.runnerId with
  | none => exact sound_refuse _
  | some runner =>
      refine .select fun second _ _ => ?_
      dsimp only [id_eq]
      cases second.task? body.id with
      | some row =>
          dsimp only
          split
          · exact sound_refuse _
          · trivial
      | none =>
          dsimp only
          cases hpreview : runner.preview.filter fun preview =>
              runner.ready first.now && preview.digest = body.previewDigest with
          | none => exact sound_refuse _
          | some preview =>
              dsimp only
              split
              · exact sound_refuse _
              · refine .select fun third _ _ => ?_
                dsimp only [id_eq]
                split
                · exact sound_refuse _
                · intro view _ _
                  dsimp only [id_eq]
                  split
                  · exact sound_refuse _
                  · next hfree =>
                      simp only [Bool.or_eq_true, not_or, Bool.not_eq_true, Option.isSome_eq_false_iff,
                        Option.isNone_iff_eq_none] at hfree
                      have hdigest := (Option.filter_eq_some_iff.mp hpreview).2
                      simp only [Bool.and_eq_true, decide_eq_true_eq] at hdigest
                      exact sound_created hfree.1 hfree.2 rfl rfl rfl rfl hdigest.2 rfl

/-- A task stays with its runner. -/
theorem runnerId_later {held : DeploymentRow → Prop} {a b : DeploymentTables}
    (h : (deploymentContract semver hash).Later held a b) (valid : a.Valid) {taskId runnerId : Uuid}
    (ha : ∃ task, a.task? taskId = some task ∧ task.runnerId = runnerId) :
    ∃ task, b.task? taskId = some task ∧ task.runnerId = runnerId := by
  refine h.keep (P := fun db => ∃ task, db.task? taskId = some task ∧ task.runnerId = runnerId)
    (fun a b valid change => ?_) valid ha
  rintro ⟨task, htask, hrunner⟩
  cases change with
  | world duration => exact ⟨task, htask, hrunner⟩
  | commit request answer promise =>
      obtain ⟨reply, -, hcommit⟩ := promise
      obtain ⟨task', hmem, hstep⟩ := hcommit.mem valid (mem_of_task? htask).1
      refine ⟨task', ?_, hstep.runnerId_eq.trans hrunner⟩
      rw [← (mem_of_task? htask).2, ← hstep.id_eq]
      exact (hcommit.valid valid).task?_eq hmem

theorem sound_recovered {actor : Text} {taskId requestId runnerId : Uuid} {version : Nat}
    {view : DeploymentTables} {task : DeploymentTask} {now : Timestamp}
    (htask : view.task? taskId = some task) (hrequired : task.status = .recoveryRequired)
    (hrunner : task.runnerId = runnerId) (hnew : view.recovery? requestId = none) :
    (deploymentContract semver hash).Sound (.recoverTask actor taskId version requestId)
      (.commit (.ok (.task (task.recover now))))
      (fun row => row ∈ [DeploymentRow.recovery requestId] ∨
        row ∈ [DeploymentRow.task task.id] ∨ row ∈ [DeploymentRow.runner runnerId] ∨ False)
      (fun db => { db.updateTask taskId (·.recover now) with
        recoveries := db.recoveries ++
          [⟨requestId, taskId, version, actor, (task.recover now).recoveryGeneration⟩] }) view := by
  have htid := (mem_of_task? htask).2
  intro after hlater valid
  have hafter : after.task? taskId = some task :=
    (hlater.same (.task taskId) (by simp [htid])).symm.trans htask
  have hnone : after.recovery? requestId = none :=
    (hlater.same (.recovery requestId) (by simp)).symm.trans hnew
  refine ⟨⟨_, rfl, .recovered actor taskId version requestId now task (mem_of_task? hafter).1 hrequired
    htid hnone⟩, fun row hrow => ?_⟩
  let f (other : DeploymentTask) : DeploymentTask :=
    if decide (other.id = taskId) = true then other.recover now else other
  have hf : ∀ other : DeploymentTask, (f other).id = other.id ∧ (f other).runnerId = other.runnerId := by
    intro other
    simp only [f]
    split <;> exact ⟨rfl, rfl⟩
  cases row with
  | recovery id =>
      have hne : requestId ≠ id := fun h => hrow (by simp [h])
      show after.recoveries.find? (·.requestId = id) = (after.recoveries ++ [_]).find? (·.requestId = id)
      simp [List.find?_append, hne]
  | task id =>
      refine .task (f := f) rfl (fun other _ => (hf other).1) fun other _ hother => if_neg fun h => ?_
      exact hrow (by simp [← hother, of_decide_eq_true h, htid])
  | runner id =>
      refine .runner (f := f) rfl rfl (fun other _ => (hf other).2) fun other hmem hown => .inl (if_neg fun h => ?_)
      rw [Valid.eq_of_task? valid hafter hmem (of_decide_eq_true h)] at hown
      exact hrow (by simp [← hown, hrunner])

/-- A recovery happens under the lock of the runner that has the task. -/
theorem sound_recoverDeploymentTask (actor : Text) (taskId : Uuid) (version : Nat) (requestId : Uuid) :
    (deploymentContract semver hash).Sound (.recoverTask actor taskId version requestId)
      (recoverDeploymentTask actor taskId version requestId) (fun _ => False) id db := by
  refine sound_attempt fun _ _ => ?_
  refine .select fun first _ hfirst => ?_
  dsimp only [id_eq]
  cases htask : first.task? taskId with
  | none => exact sound_refuse _
  | some old =>
      refine .lock fun second hsecond _ => ?_
      dsimp only [id_eq]
      cases second.runner? old.runnerId with
      | none => exact sound_refuse _
      | some runner =>
          refine .select fun third hthird _ => ?_
          dsimp only [id_eq]
          cases third.recovery? requestId with
          | some recovery =>
              dsimp only
              split
              · exact sound_refuse _
              · refine .select fun fourth _ _ => ?_
                dsimp only [id_eq]
                cases fourth.task? taskId <;> trivial
          | none =>
              dsimp only
              split
              · exact sound_refuse _
              · intro fourth hfourth hvalid
                dsimp only [id_eq]
                cases hmatch : fourth.recoverable taskId version with
                | none => exact sound_refuse _
                | some task =>
                    intro fifth hfifth _
                    dsimp only
                    split
                    · exact sound_refuse _
                    · next hnew =>
                        obtain ⟨hview, hrequired⟩ := recoverable_eq_some hmatch
                        have hrunner : task.runnerId = old.runnerId := by
                          obtain ⟨task', htask', hrunner⟩ := runnerId_later
                            (hsecond.trans ((hthird.mono (by simp)).trans (hfourth.mono (by simp))))
                            hfirst ⟨old, htask, rfl⟩
                          rw [Option.some.inj (hview.symm.trans htask')]
                          exact hrunner
                        have hnew : fifth.recovery? requestId = none := by
                          simpa [recovery?, updateTask] using hnew
                        have htid := (mem_of_task? hview).2
                        have hfifth : fifth.task? taskId = some task :=
                          (hfifth.same (.task taskId) (by simp [htid])).symm.trans hview
                        exact sound_recovered hfifth hrequired hrunner hnew

end Scripts

/-! ## Exchanges

The longest request: it writes several rows before it commits. `Moving` follows the writes it has made so
far, and all its later reads go through the rows it holds.
-/

section Exchange

open DeploymentTables

variable {semver : Semver} {hash : DeploymentExchange → Bytes} {db : DeploymentTables}

/-- The writes of an exchange so far: it has moved some of the tasks `ids` by `f`, all of which it
holds, and all of which are its runner's. -/
structure Moving (id : Uuid) (R : DeploymentTask → DeploymentTask → Prop) (ids : List Uuid)
    (held : DeploymentRow → Prop) (f : DeploymentTask → DeploymentTask) (db : DeploymentTables) :
    Prop where
  id_eq : ∀ task, (f task).id = task.id
  others : ∀ task, task.id ∉ ids → f task = task
  locked : ∀ taskId ∈ ids, held (.task taskId)
  step : ∀ task ∈ db.tasks, f task = task ∨ task.runnerId = id ∧ R task (f task)

/-- The step that a report asks for. -/
def Observed (body : DeploymentExchange) (task task' : DeploymentTask) : Prop :=
  ∃ report ∈ body.reports, ∃ now, task.status.assigned = true ∧
    task.localVersion < report.localVersion ∧ task' = task.observe report now

/-- A row that is held is in the tables later exactly when it is there now. -/
theorem mem_later {held : DeploymentRow → Prop} {after : DeploymentTables}
    (h : (deploymentContract semver hash).Later held db after) (valid : db.Valid) (valid' : after.Valid)
    {task : DeploymentTask} (hheld : held (.task task.id)) : task ∈ after.tasks ↔ task ∈ db.tasks := by
  have hsame : db.task? task.id = after.task? task.id := h.same _ hheld
  constructor
  · exact fun hmem => (mem_of_task? (hsame.trans (valid'.task?_eq hmem))).1
  · exact fun hmem => (mem_of_task? (hsame.symm.trans (valid.task?_eq hmem))).1

namespace Moving

variable {id : Uuid} {R : DeploymentTask → DeploymentTask → Prop} {ids : List Uuid}
  {held : DeploymentRow → Prop} {f : DeploymentTask → DeploymentTask}
  {request : DeploymentRequest} {reply : DeploymentReply}

theorem later (moving : Moving id R ids held f db) {after : DeploymentTables}
    (h : (deploymentContract semver hash).Later held db after) (valid : db.Valid)
    (valid' : after.Valid) : Moving id R ids held f after where
  id_eq := moving.id_eq
  others := moving.others
  locked := moving.locked
  step := by
    intro task hmem
    by_cases hid : task.id ∈ ids
    · exact moving.step task ((mem_later h valid valid' (moving.locked _ hid)).mp hmem)
    · exact .inl (moving.others task hid)

theorem mono (moving : Moving id R ids held f db) {R' : DeploymentTask → DeploymentTask → Prop}
    {held' : DeploymentRow → Prop} (hR : ∀ task task', task.runnerId = id → R task task' → R' task task')
    (hheld : ∀ row, held row → held' row) : Moving id R' ids held' f db where
  id_eq := moving.id_eq
  others := moving.others
  locked := fun taskId hid => hheld _ (moving.locked taskId hid)
  step := fun task hmem => (moving.step task hmem).imp_right fun h => ⟨h.1, hR _ _ h.1 h.2⟩

/-- One more task moves. -/
theorem cons (moving : Moving id R ids held f db) {task : DeploymentTask} (hkept : f task = task)
    (hown : task.runnerId = id) (honly : ∀ other ∈ db.tasks, other.id = task.id → other = task)
    {g : DeploymentTask → DeploymentTask} (hg : ∀ other, (g other).id = other.id) (hR : R task (g task))
    {held' : DeploymentRow → Prop} (hheld : ∀ row, held row → held' row) (hlocked : held' (.task task.id)) :
    Moving id R (task.id :: ids) held'
      (fun other => if decide ((f other).id = task.id) = true then g (f other) else f other) db where
  id_eq := by
    intro other
    split
    · rw [hg, moving.id_eq]
    · exact moving.id_eq other
  others := by
    intro other hother
    rw [List.mem_cons, not_or] at hother
    rw [if_neg (by simp [moving.id_eq, hother.1]), moving.others other hother.2]
  locked := by
    intro taskId hmem
    rcases List.mem_cons.mp hmem with rfl | hmem
    · exact hlocked
    · exact hheld _ (moving.locked taskId hmem)
  step := by
    intro other hmem
    by_cases hother : other.id = task.id
    · cases honly other hmem hother
      rw [if_pos (by simp [moving.id_eq]), hkept]
      exact .inr ⟨hown, hR⟩
    · rw [if_neg (by simp [moving.id_eq, hother])]
      exact moving.step other hmem

theorem steps (moving : Moving id (TaskStep request reply) ids held f db) :
    ∀ task ∈ db.tasks, TaskStep request reply task (f task) := by
  intro task hmem
  rcases moving.step task hmem with h | ⟨-, h⟩
  · rw [h]
    exact .kept
  · exact h

/-- The tables after the moves so far. -/
theorem valid (moving : Moving id (TaskStep request reply) ids held f db) (valid : db.Valid)
    (kept : ∀ actor id version requestId, request ≠ .recoverTask actor id version requestId) :
    (db.mapTasks f).Valid :=
  valid.mapTasks moving.steps kept

/-- What the runner has been given stays what it is while its row is held. -/
theorem firstTask_later (moving : Moving id (TaskStep request reply) ids held f db) {after : DeploymentTables}
    (h : (deploymentContract semver hash).Later held db after) (valid : db.Valid) (valid' : after.Valid)
    (kept : ∀ actor id version requestId, request ≠ .recoverTask actor id version requestId)
    (hrunner : held (.runner id)) :
    (after.mapTasks f).firstTask id TaskStatus.assigned = (db.mapTasks f).firstTask id TaskStatus.assigned := by
  have hactive : ∀ s : TaskStatus, s.assigned = true → s.active = true := by
    intro s
    cases s <;> simp [TaskStatus.assigned, TaskStatus.active]
  have hmoving' := moving.later h valid valid'
  have hmem : ∀ task : DeploymentTask, (f task).runnerId = id → (f task).status.assigned = true →
      (task ∈ after.tasks ↔ task ∈ db.tasks) := by
    intro task hown hassigned
    by_cases hid : task.id ∈ ids
    · exact mem_later h valid valid' (moving.locked _ hid)
    · rw [moving.others task hid] at hown hassigned
      exact ((h.same _ hrunner).2.1 task hown hassigned).symm
  refine Option.ext fun task => ?_
  rw [(hmoving'.valid valid' kept).firstTask_iff hactive,
    (moving.valid valid kept).firstTask_iff hactive]
  simp only [mapTasks, List.mem_map]
  constructor
  · rintro ⟨⟨old, hold, rfl⟩, hown, hassigned⟩
    exact ⟨⟨old, (hmem old hown hassigned).mp hold, rfl⟩, hown, hassigned⟩
  · rintro ⟨⟨old, hold, rfl⟩, hown, hassigned⟩
    exact ⟨⟨old, (hmem old hown hassigned).mpr hold, rfl⟩, hown, hassigned⟩

end Moving

variable {id : Uuid} {body : DeploymentExchange} {ids : List Uuid} {held : DeploymentRow → Prop}
  {f : DeploymentTask → DeploymentTask}

/-- What an exchange has checked of its runner. -/
structure Accepts (semver : Semver) (id : Uuid) (body : DeploymentExchange) (runner : DeploymentRunner) :
    Prop where
  checked : validateExchange semver id id body = .ok ()
  current : runner.revokedAt = none
  profile : runner.profileDigest = body.profileDigest
  newer : runner.exchangeSequence < body.sequence

theorem sound_answerExchange {runner : DeploymentRunner} {task : Option DeploymentTask}
    {lookedAt : Option Timestamp}
    (moving : Moving id (TaskStep (.exchange id id body) (.exchanged ⟨body.sequence, task⟩ lookedAt)) ids held
      f db)
    (valid : db.Valid) (hheld : held (.runner id)) (hrow : db.runner? id = some runner)
    (accepts : Accepts semver id body runner) (carried : task = (db.mapTasks f).firstTask id TaskStatus.assigned) :
    (deploymentContract semver hash).Sound (.exchange id id body)
      (answerExchange hash id body task lookedAt) held (·.mapTasks f) db := by
  intro view hview _ after hafter valid'
  have hlater : (deploymentContract semver hash).Later held db after :=
    hview.trans (hafter.mono fun row hrow => .inr hrow)
  have hmoving := moving.later hlater valid valid'
  have hafterRow : after.runner? id = some runner := (hlater.same _ hheld).1.symm.trans hrow
  have hcarried : task = (after.mapTasks f).firstTask id TaskStatus.assigned :=
    carried.trans (moving.firstTask_later hlater valid valid' nofun hheld).symm
  refine ⟨⟨_, rfl, .exchanged id id body ⟨body.sequence, task⟩ lookedAt view.now f runner hafterRow
    accepts.checked accepts.current rfl accepts.profile accepts.newer hmoving.steps rfl hcarried⟩, fun row hother => ?_⟩
  cases row with
  | recovery requestId => rfl
  | task taskId =>
      refine .task (f := f) rfl (fun other _ => moving.id_eq other) fun other _ hother' => ?_
      refine moving.others other fun hmem => hother (.inr ?_)
      exact hother' ▸ moving.locked _ hmem
  | runner other =>
      have hne : other ≠ id := fun h => hother (.inr (h ▸ hheld))
      refine .runner (f := f) ?_ rfl (fun task hmem => (hmoving.steps task hmem).runnerId_eq)
        fun task hmem hown => ?_
      · exact (runner?_updateRunner (after.mapTasks f)
          (f := (·.recordExchange view.now body (hash body) ⟨body.sequence, _⟩)) (fun _ => rfl) hne).symm
      · refine .inl ((hmoving.step task hmem).resolve_right fun h => hne ?_)
        exact hown.symm.trans h.1

theorem Observed.step {task task' : DeploymentTask} (h : Observed body task task')
    (hown : task.runnerId = id) (reply : DeploymentReply) :
    TaskStep (.exchange id id body) reply task task' := by
  obtain ⟨report, hmem, now, hassigned, hnewer, rfl⟩ := h
  exact .observed now id body (by rw [hown]) report hmem hassigned hnewer

/-- A queued task has not been reported on. -/
theorem Moving.queued (moving : Moving id (Observed body) ids held f db) {task : DeploymentTask}
    (hmem : task ∈ (db.mapTasks f).tasks) (hqueued : task.status = .queued) :
    task ∈ db.tasks ∧ f task = task := by
  obtain ⟨old, hold, rfl⟩ := List.mem_map.mp hmem
  rcases moving.step old hold with h | ⟨-, report, -, now, -, -, h⟩
  · rw [h]
    exact ⟨hold, h⟩
  · rw [h] at hqueued
    revert hqueued
    simp only [DeploymentTask.observe, DeploymentTask.move]
    cases report.status <;> nofun

/-- The answer of an exchange that has moved the queued task. -/
theorem sound_answerMoved {runner : DeploymentRunner} (moving : Moving id (Observed body) ids held f db)
    (valid : db.Valid) (hheld : held (.runner id)) (hrow : db.runner? id = some runner)
    (accepts : Accepts semver id body runner)
    (hnone : (db.mapTasks f).firstTask id TaskStatus.assigned = none)
    {task : DeploymentTask} (hmem : task ∈ db.tasks) (hkept : f task = task) (hown : task.runnerId = id)
    (hlocked : held (.task task.id)) {g : DeploymentTask → DeploymentTask}
    (hg : ∀ other, (g other).id = other.id) {carried : Option DeploymentTask}
    {lookedAt : Option Timestamp}
    (hstep : TaskStep (.exchange id id body) (.exchanged ⟨body.sequence, carried⟩ lookedAt) task (g task))
    (hcarried : carried = if (g task).status.assigned then some (g task) else none) :
    (deploymentContract semver hash).Sound (.exchange id id body)
      (answerExchange hash id body carried lookedAt) held
      (fun db => (db.mapTasks f).updateTask task.id g) db := by
  rw [updateTask_mapTasks]
  have honly : ∀ other ∈ db.tasks, other.id = task.id → other = task := fun other hother hid =>
    valid.tasks.eq hother hmem rfl rfl hid
  have hmoved := (moving.mono (fun _ _ hown h => h.step hown _) fun _ h => h).cons hkept hown honly hg hstep
    (fun _ h => h) hlocked
  refine sound_answerExchange hmoved valid hheld hrow accepts ?_
  rw [hcarried]
  split
  · next hassigned =>
      refine Eq.symm (((hmoved.valid valid nofun).firstTask_iff fun s => ?_).mpr ⟨?_, ?_, hassigned⟩)
      · cases s <;> simp [TaskStatus.assigned, TaskStatus.active]
      · exact List.mem_map.mpr ⟨task, hmem, by simp [hkept]⟩
      · exact hstep.runnerId_eq.trans hown
  · next hassigned =>
      refine Eq.symm (firstTask_eq_none.mpr fun other hother hown => ?_)
      obtain ⟨old, hold, rfl⟩ := List.mem_map.mp hother
      by_cases hid : (f old).id = task.id
      · cases honly old hold ((moving.id_eq old).symm.trans hid)
        simpa [hkept] using hassigned
      · rw [if_neg (by simpa using hid)] at hown ⊢
        exact firstTask_eq_none.mp hnone _ (List.mem_map_of_mem hold) hown

theorem sound_handOut {runner : DeploymentRunner} (moving : Moving id (Observed body) ids held f db)
    (valid : db.Valid) (hheld : held (.runner id)) (hrow : db.runner? id = some runner)
    (accepts : Accepts semver id body runner) :
    (deploymentContract semver hash).Sound (.exchange id id body) (handOut hash id body) held
      (·.mapTasks f) db := by
  refine .select fun first hfirst fvalid => ?_
  have hmoving := moving.later hfirst valid fvalid
  have hrow : first.runner? id = some runner := (hfirst.same _ hheld).1.symm.trans hrow
  dsimp only
  cases hassigned : (first.mapTasks f).firstTask id TaskStatus.assigned with
  | some task =>
      exact sound_answerExchange (hmoving.mono (fun _ _ hown h => h.step hown _) fun _ h => h) fvalid hheld
        hrow accepts hassigned.symm
  | none =>
      refine .lock fun second hsecond svalid => ?_
      have hrow : second.runner? id = some runner := (hsecond.same _ hheld).1.symm.trans hrow
      have hassigned : (second.mapTasks f).firstTask id TaskStatus.assigned = none := by
        rw [← hassigned]
        exact (hmoving.mono (fun _ _ hown h => h.step hown (.exchanged ⟨0, none⟩ none))
          fun _ h => h).firstTask_later hsecond fvalid svalid nofun hheld
      have hmoving := hmoving.later hsecond fvalid svalid
      cases hqueued : (second.mapTasks f).firstTask id (· = .queued) with
      | none =>
          exact sound_answerExchange (hmoving.mono (fun _ _ hown h => h.step hown _) fun _ => .inr) svalid
            (.inr hheld) hrow accepts hassigned.symm
      | some task =>
          obtain ⟨hmem, hown, hstatus⟩ := firstTask_eq_some hqueued
          have hstatus : task.status = .queued := of_decide_eq_true hstatus
          obtain ⟨htask, hkept⟩ := hmoving.queued hmem hstatus
          -- Whatever the task becomes, nobody else has touched it since it was chosen.
          have hlocked : DeploymentRow.task task.id ∈ [task].map (DeploymentRow.task ·.id) := by simp
          have hthird : ∀ {held' : DeploymentRow → Prop} {third : DeploymentTables},
              (deploymentContract semver hash).Later held' second third → third.Valid →
              (∀ row, held row → held' row) → held' (.task task.id) →
              Moving id (Observed body) ids held f third ∧ third.runner? id = some runner ∧
                (third.mapTasks f).firstTask id TaskStatus.assigned = none ∧ task ∈ third.tasks := by
            intro held' third hthird tvalid hmono htaskHeld
            have hlater := hthird.mono hmono
            refine ⟨hmoving.later hlater svalid tvalid, (hlater.same _ hheld).1.symm.trans hrow, ?_,
              (mem_later hthird svalid tvalid htaskHeld).mpr htask⟩
            rw [← hassigned]
            exact (hmoving.mono (fun _ _ hown h => h.step hown (.exchanged ⟨0, none⟩ none))
              fun _ h => h).firstTask_later hlater svalid tvalid nofun hheld
          have hmono : ∀ row, held row → row = .task task.id ∨ held row := fun _ => .inr
          have hwiden : ∀ row, row = .task task.id ∨ held row → row ∈ [DeploymentRow.task task.id] ∨
              row ∈ [task].map (DeploymentRow.task ·.id) ∨ held row := by
            rintro row (rfl | hrow)
            · exact .inl (by simp)
            · exact .inr (.inr hrow)
          dsimp only
          split
          · next hcond =>
              rw [Bool.and_eq_true] at hcond
              intro third hlater tvalid
              obtain ⟨hmoving, hrow, hnone, hthirdTask⟩ :=
                hthird hlater tvalid (fun _ => .inr) (.inl hlocked)
              have hview : (third.mapTasks f).task? task.id = some task :=
                ((hmoving.mono (fun _ _ hown h => h.step hown (.exchanged ⟨0, none⟩ none))
                  fun _ h => h).valid tvalid nofun).task?_eq (List.mem_map.mpr ⟨task, hthirdTask, hkept⟩)
              dsimp only
              rw [hview]
              exact (sound_answerMoved (g := (·.move .running .assigned third.now))
                (hmoving.mono (fun _ _ _ h => h) hmono) tvalid (hmono _ hheld) hrow accepts
                hnone hthirdTask hkept hown (.inl rfl) (fun _ => rfl)
                (.handedOut _ _ id body (by rw [hown]) _ rfl hstatus hcond.1 hcond.2) rfl).mono hwiden
          · intro third hlater tvalid
            obtain ⟨hmoving, hrow, hnone, hthirdTask⟩ :=
              hthird hlater tvalid (fun _ => .inr) (.inl hlocked)
            exact (sound_answerMoved
              (g := (·.move .failed (if task.fresh second.now then .previewChanged else .queueExpired) third.now))
              (hmoving.mono (fun _ _ _ h => h) hmono) tvalid (hmono _ hheld) hrow accepts hnone hthirdTask hkept hown (.inl rfl) (fun _ => rfl) (.dropped _ _ hstatus) rfl).mono hwiden

/-- A row that no report has touched yet is read as it is. -/
theorem Moving.task?_eq (moving : Moving id (Observed body) ids held f db) {taskId : Uuid}
    (hnew : taskId ∉ ids) : (db.mapTasks f).task? taskId = db.task? taskId :=
  Eq.symm (DeploymentRow.Same.task (f := f) rfl (fun task _ => moving.id_eq task)
    fun task _ hid => moving.others task (hid ▸ hnew))

/-- The reports, by induction on those still to come. -/
theorem sound_takeReports {runner : DeploymentRunner} {reports : List DeploymentTaskReport}
    (hreports : ∀ report ∈ reports, report ∈ body.reports)
    (hnodup : (reports.map (·.taskId)).Nodup) (hnew : ∀ report ∈ reports, report.taskId ∉ ids)
    (moving : Moving id (Observed body) ids held f db) (valid : db.Valid) (hheld : held (.runner id))
    (hrow : db.runner? id = some runner) (accepts : Accepts semver id body runner) :
    (deploymentContract semver hash).Sound (.exchange id id body)
      (takeReports semver id (handOut hash id body) reports) held (·.mapTasks f) db := by
  induction reports generalizing ids held f db with
  | nil => exact sound_handOut moving valid hheld hrow accepts
  | cons report rest ih =>
      have hrest := fun other hother => hreports other (List.mem_cons_of_mem report hother)
      rw [List.map_cons, List.nodup_cons] at hnodup
      have hfresh := hnew report List.mem_cons_self
      have hnewRest : ∀ other ∈ rest, other.taskId ∉ report.taskId :: ids := by
        intro other hother hmem
        rcases List.mem_cons.mp hmem with h | h
        · exact hnodup.1 (h ▸ List.mem_map_of_mem hother)
        · exact hnew other (List.mem_cons_of_mem report hother) h
      refine .lock fun view hview vvalid => ?_
      have hmoving := moving.later hview valid vvalid
      have hrow : view.runner? id = some runner := (hview.same _ hheld).1.symm.trans hrow
      rw [hmoving.task?_eq hfresh]
      cases hfound : (view.task? report.taskId).filter fun task => task.runnerId = id with
      | none => exact sound_refuse _
      | some task =>
          obtain ⟨htask, hown⟩ := Option.filter_eq_some_iff.mp hfound
          obtain ⟨hmem, htid⟩ := mem_of_task? htask
          refine sound_attempt fun _ _ => ?_
          split
          · split
            · exact ih hrest hnodup.2 (fun other hother h => hnewRest other hother (.tail _ h))
                (hmoving.mono (fun _ _ _ h => h) fun _ => .inr) vvalid (.inr hheld) hrow
            · exact sound_refuse _
          · next hversion =>
              split
              · exact sound_refuse _
              · next hassigned =>
                  intro after hafter avalid
                  have hlater := hafter.mono fun row hrow => .inr hrow
                  have hafterRow : after.runner? id = some runner := (hlater.same _ hheld).1.symm.trans hrow
                  have hafterMem : task ∈ after.tasks :=
                    (mem_later hafter vvalid avalid (.inl (by simp [htid]))).mpr hmem
                  have hmoved : Moving id (Observed body) (task.id :: ids)
                      (fun row => row = .task task.id ∨ held row) _ after :=
                    (hmoving.later hlater vvalid avalid).cons
                      (hmoving.others task (htid ▸ hfresh)) (of_decide_eq_true hown)
                      (fun other hother hid => Valid.eq_of_task? avalid
                        (Valid.task?_eq avalid hafterMem) hother hid)
                      (g := (·.observe report after.now)) (fun _ => rfl)
                      ⟨report, hreports report List.mem_cons_self, after.now, by simpa using hassigned,
                        by omega, rfl⟩ (fun _ => .inr) (.inl rfl)
                  have hsound := ih hrest hnodup.2 (htid ▸ hnewRest) hmoved avalid (.inr hheld) hafterRow
                  rw [← updateTask_mapTasks f (·.observe report after.now), htid] at hsound
                  exact hsound.mono fun row hrow => hrow.imp (by rintro rfl; simp) (.inr ·)

/-- An exchange that is recorded. -/
theorem sound_deploymentExchange (caller id : Uuid) (body : DeploymentExchange) :
    (deploymentContract semver hash).Sound (.exchange caller id body)
      (deploymentExchange semver hash caller id body) (fun _ => False) (fun db => db) db := by
  refine sound_attempt fun _ hvalid => ?_
  have hchecked := hvalid
  obtain ⟨⟨⟩, hcaller, hvalid⟩ := bind_eq_ok.mp hvalid
  obtain ⟨⟨⟩, -, hvalid⟩ := bind_eq_ok.mp hvalid
  obtain ⟨⟨⟩, -, hvalid⟩ := bind_eq_ok.mp hvalid
  obtain ⟨⟨⟩, -, hvalid⟩ := bind_eq_ok.mp hvalid
  have hnodup := rejectIf_eq_ok.mp hvalid
  have hcaller : caller = id := by simpa using hcaller
  have hnodup : (body.reports.map (·.taskId)).Nodup := by simpa using hnodup
  subst hcaller
  refine .lock fun view _ vvalid => ?_
  simp only [openExchange]
  cases hfound : (view.runner? caller).filter (·.live view.now) with
  | none => exact sound_refuse _
  | some runner =>
      obtain ⟨hrow, hlive⟩ := Option.filter_eq_some_iff.mp hfound
      dsimp only
      split
      · exact sound_refuse _
      · next hprofile =>
          split
          · split
            · cases runner.exchangeResponse <;> trivial
            · exact sound_refuse _
          · next hnewer =>
              have hmoving : Moving caller (Observed body) [] (fun row => row ∈ [DeploymentRow.runner caller] ∨ False)
                  (fun task => task) view :=
                ⟨fun _ => rfl, fun _ _ => rfl, nofun, fun _ _ => .inl rfl⟩
              have hpending : (fun db : DeploymentTables => db) = (·.mapTasks fun task => task) := by
                funext db
                simp [mapTasks]
              rw [hpending]
              refine sound_takeReports (fun _ h => h) hnodup (fun _ _ => List.not_mem_nil) hmoving vvalid (.inl (by simp)) hrow
                ⟨hchecked, ?_, not_not.mp hprofile, by omega⟩
              simp only [DeploymentRunner.live, Bool.and_eq_true, Option.isNone_iff_eq_none] at hlive
              exact hlive.1

end Exchange

/-- **Every request keeps its promise**, whatever the others do in between. -/
theorem sound_deploymentRequest {semver : Semver} {hash : DeploymentExchange → Bytes}
    (request : DeploymentRequest) (db : DeploymentTables) :
    (deploymentContract semver hash).Sound request (request.script semver hash) (fun _ => False) id db := by
  cases request with
  | createTask actor body => exact sound_createDeploymentTask actor body
  | cancelTask taskId version => exact sound_cancelDeploymentTask taskId version
  | recoverTask actor taskId version requestId =>
      exact sound_recoverDeploymentTask actor taskId version requestId
  | revokeRunner runnerId version => exact sound_revokeDeploymentRunner runnerId version
  | exchange caller runnerId body => exact sound_deploymentExchange caller runnerId body

end Peerward.Control
