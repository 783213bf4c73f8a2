import Peerward.Control.DeploymentRuns

/-!
# Histories of deployment tasks

What a deployment task goes through in any run of the requests, however their statements interleave.
A step lemma says what one commit makes of a task and of a runner; both relations are transitive, so a
run keeps them.
-/

namespace Peerward.Control

open Peerward.Lib
open Peerward.Management (Semver)
open Peerward.Store (Timestamp)
open Peerward.Types (Text Uuid)

/-! ## What a row may become

One commit does little to a row. The relations here are what is left of that over any number of commits:
what never changes, what only grows, and which states have no way back.
-/

/-- What a task may become. -/
structure DeploymentTask.Becomes (task task' : DeploymentTask) : Prop where
  id : task'.id = task.id
  runnerId : task'.runnerId = task.runnerId
  request : task'.request = task.request
  preview : task'.preview = task.preview
  createdAt : task'.createdAt = task.createdAt
  finished : task.status.active = false → task' = task
  started : task.status ≠ .queued → task'.status ≠ .queued
  localVersion : task.localVersion ≤ task'.localVersion
  report : task'.localVersion = task.localVersion → task'.report = task.report

namespace DeploymentTask.Becomes

variable {task task' task'' : DeploymentTask}

theorem refl (task : DeploymentTask) : task.Becomes task :=
  ⟨rfl, rfl, rfl, rfl, rfl, fun _ => rfl, fun h => h, Nat.le_refl _, fun _ => rfl⟩

theorem trans (h : task.Becomes task') (h' : task'.Becomes task'') : task.Becomes task'' where
  id := h'.id.trans h.id
  runnerId := h'.runnerId.trans h.runnerId
  request := h'.request.trans h.request
  preview := h'.preview.trans h.preview
  createdAt := h'.createdAt.trans h.createdAt
  finished := fun hfinished => by
    have hsame := h.finished hfinished
    rw [← hsame] at hfinished
    rw [h'.finished hfinished, hsame]
  started := fun hstarted => h'.started (h.started hstarted)
  localVersion := h.localVersion.trans h'.localVersion
  report := fun hsame => by
    have hle := h.localVersion
    have hle' := h'.localVersion
    rw [h'.report (by omega), h.report (by omega)]

end DeploymentTask.Becomes

theorem TaskStep.becomes {request : DeploymentRequest} {reply : DeploymentReply}
    {task task' : DeploymentTask} (h : TaskStep request reply task task') : task.Becomes task' := by
  cases h with
  | kept => exact .refl task
  | cancelled _ _ queued | dropped _ _ queued | handedOut _ _ _ _ _ _ _ queued =>
      exact ⟨rfl, rfl, rfl, rfl, rfl, by simp [queued, TaskStatus.active], by simp [queued], Nat.le_refl _,
        fun _ => rfl⟩
  | recovered _ _ _ _ _ required =>
      exact ⟨rfl, rfl, rfl, rfl, rfl, by simp [required, TaskStatus.active], fun _ => by rintro ⟨⟩,
        Nat.le_refl _, fun _ => rfl⟩
  | observed now _ _ _ report _ assigned newer =>
      refine ⟨rfl, rfl, rfl, rfl, rfl, fun h => ?_, fun _ => ?_, newer.le, fun h => absurd h newer.ne'⟩
      · revert assigned h
        cases task.status <;> simp [TaskStatus.active, TaskStatus.assigned]
      · simp only [DeploymentTask.observe, DeploymentTask.move]
        cases report.status <;> rintro ⟨⟩

/-- What a runner may become. -/
structure DeploymentRunner.Becomes (runner runner' : DeploymentRunner) : Prop where
  id : runner'.id = runner.id
  profileDigest : runner'.profileDigest = runner.profileDigest
  sequence : runner.exchangeSequence ≤ runner'.exchangeSequence
  recorded : runner'.exchangeSequence = runner.exchangeSequence →
    runner'.exchangeDigest = runner.exchangeDigest ∧ runner'.exchangeResponse = runner.exchangeResponse

namespace DeploymentRunner.Becomes

variable {runner runner' runner'' : DeploymentRunner}

theorem refl (runner : DeploymentRunner) : runner.Becomes runner :=
  ⟨rfl, rfl, Nat.le_refl _, fun _ => ⟨rfl, rfl⟩⟩

theorem trans (h : runner.Becomes runner') (h' : runner'.Becomes runner'') :
    runner.Becomes runner'' where
  id := h'.id.trans h.id
  profileDigest := h'.profileDigest.trans h.profileDigest
  sequence := h.sequence.trans h'.sequence
  recorded := fun hsame => by
    have hle := h.sequence
    have hle' := h'.sequence
    obtain ⟨hdigest, hresponse⟩ := h.recorded (by omega)
    obtain ⟨hdigest', hresponse'⟩ := h'.recorded (by omega)
    exact ⟨hdigest'.trans hdigest, hresponse'.trans hresponse⟩

end DeploymentRunner.Becomes

/-- What the tables may become. -/
structure DeploymentTables.Becomes (a b : DeploymentTables) : Prop where
  runners : ∀ id runner, a.runner? id = some runner →
    ∃ runner', b.runner? id = some runner' ∧ runner.Becomes runner'
  tasks : ∀ id task, a.task? id = some task → ∃ task', b.task? id = some task' ∧ task.Becomes task'
  recoveries : a.recoveries <+: b.recoveries

namespace DeploymentTables.Becomes

variable {a b c : DeploymentTables}

theorem refl (db : DeploymentTables) : db.Becomes db :=
  ⟨fun _ runner h => ⟨runner, h, .refl runner⟩, fun _ task h => ⟨task, h, .refl task⟩,
    List.prefix_refl _⟩

theorem trans (h : a.Becomes b) (h' : b.Becomes c) : a.Becomes c where
  runners := fun id runner hrunner => by
    obtain ⟨runner', hrunner', hbecomes⟩ := h.runners id runner hrunner
    obtain ⟨runner'', hrunner'', hbecomes'⟩ := h'.runners id runner' hrunner'
    exact ⟨runner'', hrunner'', hbecomes.trans hbecomes'⟩
  tasks := fun id task htask => by
    obtain ⟨task', htask', hbecomes⟩ := h.tasks id task htask
    obtain ⟨task'', htask'', hbecomes'⟩ := h'.tasks id task' htask'
    exact ⟨task'', htask'', hbecomes.trans hbecomes'⟩
  recoveries := h.recoveries.trans h'.recoveries

end DeploymentTables.Becomes

/-- An update of a runner is seen where it is looked up. -/
theorem runner?_updateRunner_self {db : DeploymentTables} {id : Uuid}
    {f : DeploymentRunner → DeploymentRunner} (hid : ∀ runner, (f runner).id = runner.id) :
    (db.updateRunner id f).runner? id = (db.runner? id).map f := by
  simp only [DeploymentTables.runner?, DeploymentTables.updateRunner, updateWhere, List.find?_map]
  have hfind : ∀ runner : DeploymentRunner, ((fun runner : DeploymentRunner => decide (runner.id = id)) ∘
      fun runner => if decide (runner.id = id) = true then f runner else runner) runner =
        decide (runner.id = id) := by
    intro runner
    by_cases h : runner.id = id <;> simp [h, hid]
  rw [funext hfind]
  cases h : db.runners.find? fun runner => decide (runner.id = id) with
  | none => rfl
  | some runner =>
      have hrunner : runner.id = id := by simpa using List.find?_some h
      simp [hrunner]

section Commit

variable {semver : Semver} {hash : DeploymentExchange → Bytes} {a b : DeploymentTables}
  {request : DeploymentRequest} {reply : DeploymentReply}

/-- The runner of a commit, and what has become of it. -/
theorem runners_updateRunner (db : DeploymentTables) {id : Uuid}
    {f : DeploymentRunner → DeploymentRunner}
    (hid : ∀ runner, (f runner).id = runner.id)
    (hbecomes : ∀ runner, db.runner? id = some runner → runner.Becomes (f runner)) :
    ∀ other runner, db.runner? other = some runner →
      ∃ runner', (db.updateRunner id f).runner? other = some runner' ∧ runner.Becomes runner' := by
  intro other runner hrunner
  by_cases h : other = id
  · subst h
    exact ⟨f runner, by rw [runner?_updateRunner_self hid, hrunner, Option.map_some], hbecomes runner hrunner⟩
  · exact ⟨runner, by rw [DeploymentTables.runner?_updateRunner _ hid h, hrunner], .refl runner⟩

/-- **One commit.** -/
theorem Committed.becomes (h : Committed semver hash a request reply b) (valid : a.Valid) :
    a.Becomes b where
  tasks := by
    intro id task htask
    obtain ⟨hmem, rfl⟩ := DeploymentTables.mem_of_task? htask
    obtain ⟨task', hmem', hstep⟩ := h.mem valid hmem
    exact ⟨task', hstep.id_eq ▸ (h.valid valid).task?_eq hmem', hstep.becomes⟩
  runners := by
    cases h with
    | created | cancelled | recovered => exact fun _ runner hrunner => ⟨runner, hrunner, .refl runner⟩
    | revoked id version reply now f steps =>
        exact runners_updateRunner (a.mapTasks f) (fun _ => rfl)
          fun runner _ => ⟨rfl, rfl, Nat.le_refl _, fun _ => ⟨rfl, rfl⟩⟩
    | exchanged caller id body response lookedAt now f runner row _ _ _ _ newer =>
        refine runners_updateRunner (a.mapTasks f) (fun _ => rfl) fun other hother => ?_
        cases Option.some.inj ((show a.runner? id = some other from hother).symm.trans row)
        exact ⟨rfl, rfl, newer.le, fun h => absurd h newer.ne'⟩
  recoveries := by
    cases h with
    | recovered => exact List.prefix_append _ _
    | _ => exact List.prefix_refl _

theorem TaskStatus.active_of_assigned (status : TaskStatus) (h : status.assigned = true) :
    status.active = true := by
  revert h
  cases status <;> simp [assigned, active]

/-- The only way from the queue to a runner. -/
theorem TaskStep.handedOut_of {task task' : DeploymentTask} (h : TaskStep request reply task task')
    (queued : task.status = .queued) (assigned : task'.status.assigned = true) :
    ∃ caller body response lookedAt, request = .exchange caller task.runnerId body ∧
      reply = .exchanged response (some lookedAt) ∧ task.fresh lookedAt = true ∧
      task.approves body.preview = true := by
  cases h with
  | kept => simp [queued, TaskStatus.assigned] at assigned
  | cancelled | dropped => simp [DeploymentTask.move, TaskStatus.assigned] at assigned
  | recovered _ _ _ _ _ required => simp [queued] at required
  | observed _ _ _ _ _ _ hassigned => simp [queued, TaskStatus.assigned] at hassigned
  | handedOut now lookedAt caller body exchange response replied _ fresh approves =>
      exact ⟨caller, body, response, lookedAt, exchange, replied, fresh, approves⟩

theorem DeploymentTask.approves_eq_true {task : DeploymentTask} {preview : Option DeploymentPreview}
    (h : task.approves preview = true) :
    preview = some task.preview ∧ task.preview.digest = task.request.previewDigest := by
  cases preview with
  | none => cases h
  | some p =>
      simp only [approves, Option.any_some, Bool.and_eq_true, decide_eq_true_eq] at h
      obtain ⟨hdigest, rfl⟩ := h
      exact ⟨rfl, hdigest.symm⟩

/-- What an exchange that hands out a task has checked, and what it answers. -/
theorem Committed.handedOut (h : Committed semver hash a request reply b) (valid : a.Valid)
    {task task' : DeploymentTask} (hmem : task ∈ a.tasks) (queued : task.status = .queued)
    (hmem' : task' ∈ b.tasks) (hid : task'.id = task.id) (assigned : task'.status.assigned = true) :
    ∃ body response lookedAt runner, request = .exchange task.runnerId task.runnerId body ∧
      reply = .exchanged response (some lookedAt) ∧ a.runner? task.runnerId = some runner ∧
      runner.revokedAt = none ∧ task.fresh lookedAt = true ∧ task.approves body.preview = true ∧
      response.task = some task' := by
  rcases h.tasks valid with ⟨f, htasks, hsteps⟩ | ⟨row, htasks, hqueued, hnew⟩
  · obtain ⟨old, hold, rfl⟩ := List.mem_map.mp (htasks ▸ hmem')
    cases valid.tasks.eq hold hmem rfl rfl ((hsteps old hold).id_eq.symm.trans hid)
    have hrunnerId := (hsteps task hmem).runnerId_eq
    obtain ⟨caller, body, response, lookedAt, rfl, rfl, hfresh, happroves⟩ :=
      (hsteps task hmem).handedOut_of queued assigned
    have hvalid := h.valid valid
    cases h with
    | exchanged _ _ _ _ _ now g runner row _ current own _ _ _ _ carried =>
        refine ⟨body, response, lookedAt, runner, by rw [own], rfl, row, current, hfresh, happroves, ?_⟩
        refine carried.trans ((hvalid.firstTask_iff TaskStatus.active_of_assigned).mpr ?_)
        exact ⟨hmem', hrunnerId, assigned⟩
  · rw [htasks] at hmem'
    rcases List.mem_append.mp hmem' with hmem' | hmem'
    · cases valid.tasks.eq hmem' hmem rfl rfl hid
      simp [queued, TaskStatus.assigned] at assigned
    · cases List.mem_singleton.mp hmem'
      exact absurd hid.symm (hnew task hmem)

end Commit

/-! ## Runs

Sessions take turns, one statement at a time, and time passes in between. A run lemma is the induction over
the turns of what one turn does.
-/

/-- Requests under way, one per session. -/
abbrev DeploymentSessions :=
  Sessions Nat DeploymentTables DeploymentRow DeploymentRequest (Except RequestError DeploymentReply)

abbrev DeploymentTurn := Turn Nat DeploymentRequest Nat

section Runs

variable (semver : Semver) (hash : DeploymentExchange → Bytes)

def deploymentStep : DeploymentSessions → DeploymentTurn → DeploymentSessions :=
  Sessions.step (DeploymentRequest.script semver hash) passTime

/-- Registered runners, and no task yet. -/
structure DeploymentTables.Initial (db : DeploymentTables) : Prop where
  runners : Unique (fun _ => true) DeploymentRunner.id db.runners
  tasks : db.tasks = []
  recoveries : db.recoveries = []

def deploymentRun (db : DeploymentTables) (turns : List DeploymentTurn) : DeploymentSessions :=
  exec (deploymentStep semver hash) (Sessions.idle db) turns

variable {semver hash} {db : DeploymentTables}

theorem DeploymentTables.Initial.valid (initial : db.Initial) : db.Valid where
  runners := initial.runners
  tasks := initial.tasks ▸ .nil
  active := initial.tasks ▸ .nil
  recoveries := initial.recoveries ▸ .nil
  known := by simp [initial.recoveries]
  generations := by simp [initial.tasks]

theorem deploymentRun_concat (turns : List DeploymentTurn) (turn : DeploymentTurn) :
    deploymentRun semver hash db (turns ++ [turn]) =
      deploymentStep semver hash (deploymentRun semver hash db turns) turn :=
  exec_concat _ _ _ _

theorem kept_deploymentRun (initial : db.Initial) (turns : List DeploymentTurn) :
    Contract.Kept (deploymentContract semver hash) (deploymentRun semver hash db turns) :=
  Contract.kept_run (fun request db _ => sound_deploymentRequest request db) initial.valid turns

/-- What one turn makes of the tables. -/
theorem becomes_deploymentStep {s : DeploymentSessions}
    (kept : Contract.Kept (deploymentContract semver hash) s) (turn : DeploymentTurn) :
    s.tables.Becomes (deploymentStep semver hash s turn).tables := by
  rcases kept.tables_step turn with h | ⟨duration, -, h⟩ | ⟨i, request, pending, answer, -, -, reply, -, h⟩
  · exact (show (deploymentStep semver hash s turn).tables = s.tables from h) ▸ .refl _
  · rw [show (deploymentStep semver hash s turn).tables = passTime duration s.tables from h]
    exact ⟨fun _ runner hrunner => ⟨runner, hrunner, .refl runner⟩,
      fun _ task htask => ⟨task, htask, .refl task⟩, List.prefix_refl _⟩
  · exact h.becomes kept.inv

/-- **Any two moments of a run**, by induction on the turns between them. -/
theorem becomes_deploymentRun (initial : db.Initial) (turns more : List DeploymentTurn) :
    (deploymentRun semver hash db turns).tables.Becomes
      (deploymentRun semver hash db (turns ++ more)).tables := by
  induction more using List.reverseRecOn with
  | nil =>
      rw [List.append_nil]
      exact .refl _
  | append_singleton more turn ih =>
      rw [← List.append_assoc, deploymentRun_concat]
      exact ih.trans (becomes_deploymentStep (kept_deploymentRun initial _) turn)

end Runs

/-! ## Well run

Each clause speaks of two moments of a run, or of a moment and the commit that led to it. They follow from
what a task becomes between the two and from what a session knows when it commits.
-/

section WellRun

variable (semver : Semver) (hash : DeploymentExchange → Bytes)

/-- An exchange of the task's own runner, which is not revoked and would do what was approved, has given
the runner this task; `lookedAt` is when it looked for it. -/
structure HandedOut (s : DeploymentSessions) (turn : DeploymentTurn) (task task' : DeploymentTask)
    (i : Nat) (body : DeploymentExchange) (response : ExchangeResponse) (lookedAt : Timestamp)
    (runner : DeploymentRunner) : Prop where
  turn : turn = .advance i
  session : ∃ pending, s.session i = some
    ⟨.exchange task.runnerId task.runnerId body, pending, .commit (.ok (.exchanged response (some lookedAt)))⟩
  row : s.tables.runner? task.runnerId = some runner
  current : runner.revokedAt = none
  preview : body.preview = some task.preview
  digest : task.preview.digest = task.request.previewDigest
  fresh : lookedAt < task.createdAt + 15 * MINUTE
  response : response.task = some task'

/-- An exchange has been recorded with its answer, which carries the unfinished task of its runner. -/
structure Recorded (db : DeploymentTables) (id : Uuid) (body : DeploymentExchange)
    (response : ExchangeResponse) (runner : DeploymentRunner) : Prop where
  row : db.runner? id = some runner
  sequence : runner.exchangeSequence = body.sequence
  digest : runner.exchangeDigest = some (hash body)
  answer : runner.exchangeResponse = some response
  answered : response.sequence = body.sequence
  task : response.task = db.firstTask id TaskStatus.assigned

/-- A session that makes the request reads this answer, and nothing changes. -/
def Repeats (s : DeploymentSessions) (i : Nat) (id : Uuid) (body : DeploymentExchange)
    (answer : Except RequestError DeploymentReply) : Prop :=
  let asked := deploymentStep semver hash s (.call i (.exchange id id body))
  let answered := deploymentStep semver hash asked (.advance i)
  answered.tables = s.tables ∧
    (answered.session i).bind (·.script.answer?) = some answer ∧
    (deploymentStep semver hash answered (.advance i)).tables = s.tables

instance (s : DeploymentSessions) (i : Nat) (id : Uuid) (body : DeploymentExchange)
    (answer : Except RequestError DeploymentReply) : Decidable (Repeats semver hash s i id body answer) :=
  inferInstanceAs (Decidable (_ ∧ _ ∧ _))

/-- Deployment operations run at most once at a time and only as approved. -/
structure WellRun (db : DeploymentTables) (turns : List DeploymentTurn) : Prop where
  /-- A runner has one unfinished task. -/
  single : ∀ task ∈ (deploymentRun semver hash db turns).tables.tasks,
    ∀ other ∈ (deploymentRun semver hash db turns).tables.tasks,
      task.status.active = true → other.status.active = true → task.runnerId = other.runnerId → task = other
  /-- A queued task that is given to a runner is given as approved. -/
  handedOut : ∀ turn, ∀ task ∈ (deploymentRun semver hash db turns).tables.tasks, task.status = .queued →
    ∀ task' ∈ (deploymentRun semver hash db (turns ++ [turn])).tables.tasks, task'.id = task.id →
      task'.status.assigned = true → ∃ i body response lookedAt runner,
        HandedOut (deploymentRun semver hash db turns) turn task task' i body response lookedAt runner
  /-- Finished tasks stay, tasks that have started are not queued again, a local version has one report,
  and sequence numbers do not go back. -/
  becomes : ∀ more, (deploymentRun semver hash db turns).tables.Becomes
    (deploymentRun semver hash db (turns ++ more)).tables
  /-- An exchange that commits is recorded. Repeating it while it is the last one gets its answer as long
  as the runner is neither revoked nor expired, and is refused from then on. -/
  repeated : ∀ i caller id body pending answer,
    (deploymentRun semver hash db turns).session i =
      some ⟨.exchange caller id body, pending, .commit answer⟩ →
    ∃ response lookedAt, answer = .ok (.exchanged response lookedAt) ∧
      (∃ runner, Recorded hash (deploymentRun semver hash db (turns ++ [.advance i])).tables id body
        response runner) ∧
      ∀ more j runner,
        let later := deploymentRun semver hash db (turns ++ .advance i :: more)
        later.tables.runner? id = some runner → runner.exchangeSequence = body.sequence →
        later.session j = none → later.holder (.runner id) = none →
        (runner.live later.tables.now = true →
          Repeats semver hash later j id body (.ok (.exchanged response none))) ∧
        (runner.live later.tables.now = false →
          Repeats semver hash later j id body (.error .notFound))
  /-- A recovery generation counts the recovery requests, each of which is recorded once. -/
  generations : ∀ task ∈ (deploymentRun semver hash db turns).tables.tasks,
    task.recoveryGeneration =
      (deploymentRun semver hash db turns).tables.recoveries.countP (·.taskId = task.id)
  recoveries : Unique (fun _ => true) DeploymentRecovery.requestId
    (deploymentRun semver hash db turns).tables.recoveries
  /-- A request that fails changes nothing. -/
  refused : ∀ i session error, (deploymentRun semver hash db turns).session i = some session →
    session.script.answer? = some (.error error) →
    (deploymentRun semver hash db (turns ++ [.advance i])).tables =
      (deploymentRun semver hash db turns).tables

variable {semver hash} {db : DeploymentTables}

/-- An exchange that commits is recorded. -/
theorem Committed.recorded {a b : DeploymentTables} {caller id : Uuid} {body : DeploymentExchange}
    {reply : DeploymentReply} (h : Committed semver hash a (.exchange caller id body) reply b) :
    caller = id ∧ validateExchange semver id id body = .ok () ∧
      ∃ response lookedAt runner, reply = .exchanged response lookedAt ∧
        runner.profileDigest = body.profileDigest ∧ Recorded hash b id body response runner := by
  cases h with
  | exchanged _ _ _ response lookedAt now f runner row checked current own profile newer steps answered carried =>
      subst own
      refine ⟨rfl, checked, response, lookedAt, runner.recordExchange now body (hash body) response, rfl, profile,
        ?_, rfl, rfl, rfl, answered, carried⟩
      rw [runner?_updateRunner_self (f := (·.recordExchange now body (hash body) response)) fun _ => rfl]
      exact congrArg (Option.map _) row

/-- The request that the runner's row records is answered from there. -/
theorem openExchange_recorded {view : DeploymentTables} {id : Uuid} {body : DeploymentExchange}
    {response : ExchangeResponse} {runner : DeploymentRunner}
    (row : view.runner? id = some runner) (live : runner.live view.now = true)
    (profile : runner.profileDigest = body.profileDigest)
    (sequence : runner.exchangeSequence = body.sequence)
    (digest : runner.exchangeDigest = some (hash body))
    (answer : runner.exchangeResponse = some response) :
    openExchange semver hash id body view = .rollback (.ok (.exchanged response none)) := by
  simp [openExchange, row, Option.filter, live, profile, sequence, digest, answer]

/-- A runner that is revoked or expired is not found. -/
theorem openExchange_of_not_live {view : DeploymentTables} {id : Uuid} {body : DeploymentExchange}
    {runner : DeploymentRunner} (row : view.runner? id = some runner)
    (live : runner.live view.now = false) :
    openExchange semver hash id body view = .rollback (.error .notFound) := by
  simp [openExchange, row, Option.filter, live, refuse]

/-- An exchange that is decided by the row of its runner is answered at once. -/
theorem repeats_of_rollback {s : DeploymentSessions} {j : Nat} {id : Uuid} {body : DeploymentExchange}
    {answer : Except RequestError DeploymentReply} (hsession : s.session j = none)
    (hfree : s.holder (.runner id) = none) (checked : validateExchange semver id id body = .ok ())
    (hopen : openExchange semver hash id body s.tables = .rollback answer) :
    Repeats semver hash s j id body answer := by
  have hscript : DeploymentRequest.script semver hash (.exchange id id body) =
      .statement (fun _ => [.runner id]) (fun _ db => db) (openExchange semver hash id body) := by
    simp [DeploymentRequest.script, deploymentExchange, checked, attempt, Script.lock]
  simp [Repeats, deploymentStep, Sessions.step, hsession, hscript, Sessions.free, hfree, hopen,
    Script.answer?, Sessions.finish]

/-- A session about to commit keeps its promise now. -/
theorem committed_of_session {s : DeploymentSessions}
    (kept : Contract.Kept (deploymentContract semver hash) s) {i : Nat} {request : DeploymentRequest}
    {pending : DeploymentTables → DeploymentTables} {answer : Except RequestError DeploymentReply}
    (h : s.session i = some ⟨request, pending, .commit answer⟩) :
    ∃ reply, answer = .ok reply ∧
      Committed semver hash s.tables request reply (deploymentStep semver hash s (.advance i)).tables := by
  have hstep : (deploymentStep semver hash s (.advance i)).tables = pending s.tables := by
    simp [deploymentStep, Sessions.step, h, Sessions.finish]
  rw [hstep]
  exact (kept.sound i _ h s.tables .refl kept.inv).1

/-- **Deployment operations run at most once at a time and only as approved**, in every run. -/
theorem deployment_wellRun (initial : db.Initial) (turns : List DeploymentTurn) :
    WellRun semver hash db turns := by
  have kept : Contract.Kept (deploymentContract semver hash) (deploymentRun semver hash db turns) :=
    kept_deploymentRun initial turns
  have valid : (deploymentRun semver hash db turns).tables.Valid := kept.inv
  refine ⟨fun task hmem other hother ha ha' h => valid.active.eq hmem hother ha ha' h, ?_,
    becomes_deploymentRun initial turns, ?_, valid.generations, valid.recoveries, ?_⟩
  · intro turn task hmem queued task' hmem' hid assigned
    rw [deploymentRun_concat] at hmem'
    have hcontra : ∀ {after : DeploymentTables},
        after.tasks = (deploymentRun semver hash db turns).tables.tasks → task' ∈ after.tasks → False := by
      intro after hsame hafter
      cases valid.tasks.eq (hsame ▸ hafter) hmem rfl rfl hid
      simp [queued, TaskStatus.assigned] at assigned
    rcases kept.tables_step turn with h | ⟨duration, -, h⟩ | ⟨i, request, pending, answer, rfl, hi, -⟩
    · exact (hcontra (congrArg DeploymentTables.tasks h) hmem').elim
    · exact (hcontra ((congrArg DeploymentTables.tasks h).trans rfl) hmem').elim
    · obtain ⟨reply, rfl, hcommit⟩ := committed_of_session kept hi
      obtain ⟨body, response, lookedAt, runner, rfl, rfl, hrow, hcurrent, hfresh, happroves, hresponse⟩ :=
        hcommit.handedOut valid hmem queued hmem' hid assigned
      obtain ⟨hpreview, hdigest⟩ := DeploymentTask.approves_eq_true happroves
      exact ⟨i, body, response, lookedAt, runner, rfl, ⟨pending, hi⟩, hrow, hcurrent, hpreview, hdigest,
        by simpa [DeploymentTask.fresh] using hfresh, hresponse⟩
  · intro i caller id body pending answer hi
    obtain ⟨reply, rfl, hcommit⟩ := committed_of_session kept hi
    obtain ⟨rfl, checked, response, lookedAt, runner, rfl, hprofile, hrecorded⟩ := hcommit.recorded
    refine ⟨response, lookedAt, rfl, ⟨runner, by rwa [deploymentRun_concat]⟩, ?_⟩
    intro more j runner' later hrow hsequence hsession hfree
    have hlater : later = deploymentRun semver hash db ((turns ++ [.advance i]) ++ more) := by
      simp [later]
    have hmore : ((deploymentRun semver hash db (turns ++ [.advance i])).tables).Becomes
        (deploymentRun semver hash db ((turns ++ [.advance i]) ++ more)).tables :=
      becomes_deploymentRun initial _ more
    obtain ⟨found, hfound, hbecomes⟩ :=
      hmore.runners caller runner (by rw [deploymentRun_concat]; exact hrecorded.row)
    rw [← hlater] at hfound
    cases Option.some.inj (hfound.symm.trans hrow)
    obtain ⟨hdigest, hanswer⟩ := hbecomes.recorded (hsequence.trans hrecorded.sequence.symm)
    refine ⟨fun hlive => ?_, fun hdead => ?_⟩
    · exact repeats_of_rollback hsession hfree checked
        (openExchange_recorded hrow hlive (hbecomes.profileDigest.trans hprofile) hsequence
          (hdigest.trans hrecorded.digest) (hanswer.trans hrecorded.answer))
    · exact repeats_of_rollback hsession hfree checked (openExchange_of_not_live hrow hdead)
  · intro i session error hi herror
    rw [deploymentRun_concat]
    obtain ⟨request, pending, script⟩ := session
    cases script with
    | statement rows write next => cases herror
    | rollback answer => simp [deploymentStep, Sessions.step, hi, Sessions.finish]
    | commit answer =>
        obtain ⟨reply, rfl, -⟩ := committed_of_session kept hi
        cases herror

/-! ## One task, from its preview to its report

The runner shows a preview, an administrator approves it, and the runner fetches the task and reports
that it succeeded. Then the runner is revoked, and repeats its last request.
-/

def backupRunner : Uuid := 0x00000000000040008000000000000007#128

def backupTask : Uuid := 0x00000000000040008000000000000008#128

/-- A digest, and a code. -/
def someDigest : Text := ⟨List.replicate 64 97, by decide +kernel⟩

/-- A runner whose credential is good for an hour. -/
def registered : DeploymentTables where
  now := 10 * MINUTE
  runners := [{ id := backupRunner, profileDigest := someDigest, expiresAt := 70 * MINUTE }]

def backupPreview : DeploymentPreview where
  digest := someDigest
  servicesToPause := [someDigest]
  onlineFiles := 1
  meshes := 0
  relayHosts := 1

def backupExchange (sequence : Nat) (reports : List DeploymentTaskReport) : DeploymentExchange where
  sequence := sequence
  profileDigest := someDigest
  preview := some backupPreview
  reports := reports

def backupReport : DeploymentTaskReport where
  taskId := backupTask
  localVersion := 1
  status := .succeeded
  stage := someDigest
  artifact := some ⟨someDigest, 1, 1⟩

/-- A request that nothing gets in the way of. -/
def served (i : Nat) (request : DeploymentRequest) : List DeploymentTurn :=
  .call i request :: List.replicate 7 (.advance i)

/-- The exchange of session 2 is about to commit, and with it the task is handed out. -/
def approvedAndAsked : List DeploymentTurn :=
  served 0 (.exchange backupRunner backupRunner (backupExchange 1 [])) ++
    served 1 (.createTask someDigest ⟨backupTask, backupRunner, someDigest, .installationBackup⟩) ++
      .call 2 (.exchange backupRunner backupRunner (backupExchange 2 [])) :: List.replicate 5 (.advance 2)

def reportedAndRevoked : List DeploymentTurn :=
  approvedAndAsked ++ [.advance 2] ++
    served 3 (.exchange backupRunner backupRunner (backupExchange 3 [backupReport])) ++
      served 4 (.revokeRunner backupRunner 1)

/-- Stands for SHA-256. -/
def sequenceHash (body : DeploymentExchange) : Bytes := [UInt8.ofNat body.sequence]

theorem registered_initial : registered.Initial := ⟨List.pairwise_singleton _ _, rfl, rfl⟩

theorem deployment_wellRun_revoked :
    let run := deploymentRun Management.DeviceConditions.releases sequenceHash registered
    ((run approvedAndAsked).tables.tasks.map (·.status) = [.queued] ∧
      (run (approvedAndAsked ++ [.advance 2])).tables.tasks.map (·.status) = [.running] ∧
      (run reportedAndRevoked).tables.tasks.map (·.status) = [.succeeded]) ∧
    WellRun Management.DeviceConditions.releases sequenceHash registered approvedAndAsked ∧
      WellRun Management.DeviceConditions.releases sequenceHash registered reportedAndRevoked := by
  refine ⟨⟨?_, ?_, ?_⟩, deployment_wellRun registered_initial approvedAndAsked,
    deployment_wellRun registered_initial reportedAndRevoked⟩ <;> decide +kernel

/-- The row of a revoked runner still records the last request, but repeating it fails. -/
theorem repeated_after_revocation :
    let later := deploymentRun Management.DeviceConditions.releases sequenceHash registered
      reportedAndRevoked
    (∃ runner, Recorded sequenceHash later.tables backupRunner (backupExchange 3 [backupReport]) ⟨3, none⟩ runner) ∧
      ¬ Repeats Management.DeviceConditions.releases sequenceHash later 5 backupRunner
        (backupExchange 3 [backupReport]) (.ok (.exchanged ⟨3, none⟩ none)) := by
  refine ⟨?_, by decide +kernel⟩
  have hrow : ((deploymentRun Management.DeviceConditions.releases sequenceHash registered
      reportedAndRevoked).tables.runner? backupRunner).any (fun runner =>
        runner.exchangeSequence = 3 ∧ runner.exchangeDigest = some [3] ∧
          runner.exchangeResponse = some ⟨3, none⟩) = true := by
    decide +kernel
  obtain ⟨runner, hrunner, hrecorded⟩ := (Option.any_eq_true _ _).mp hrow
  rw [decide_eq_true_eq] at hrecorded
  obtain ⟨hsequence, hdigest, hanswer⟩ := hrecorded
  exact ⟨runner, hrunner, hsequence, hdigest, hanswer, rfl, by decide +kernel⟩

end WellRun

end Peerward.Control
