import Peerward.Lib.Crash
import Peerward.Platform.Operations

/-!
# The state coordinator

Applies a plan and remembers, in memory and in a journal file, the commands that take it back. A write
here is a change of the host, of the file or of the coordinator's memory; a process that dies loses the
memory. `refused` and `failure` are not in the source: they note what the host has answered, that a
rollback command has failed and what has failed first.
-/

namespace Peerward.Platform

open Peerward.Lib Durable

/-- What may fail in a call. -/
inductive Failure where
  | command (command : CommandSpec)
  /-- A probe, snapshot or read, or what was read. -/
  | read
  | journal (journal : NetworkJournal)
  deriving DecidableEq

structure Machine where
  host : Host
  /-- What the journal file holds. -/
  file : Option NetworkJournal := none
  /-- The coordinator was made `with_journal`. -/
  journaled : Bool := true
  applied : List CommandSpec := []
  phase : Option TransactionPhase := none
  refused : Bool := false
  failure : Option Failure := none

inductive Write where
  | host (host : Host)
  | save (journal : NetworkJournal)
  | removeFile
  | applied (applied : List CommandSpec)
  | phase (phase : Option TransactionPhase)
  | refuse
  | failed (failure : Failure)

/-- The first failure is kept. -/
def Machine.failing (s : Machine) (failure : Failure) : Machine :=
  { s with failure := s.failure.or (some failure) }

def Machine.write (s : Machine) : Write → Machine
  | .host host => { s with host }
  | .save journal => { s with file := some journal }
  | .removeFile => { s with file := none }
  | .applied applied => { s with applied }
  | .phase phase => { s with phase }
  | .refuse => { s with refused := true }
  | .failed failure => s.failing failure

instance : Disk Machine Write := ⟨Machine.write⟩

abbrev Program (α : Type) : Type := Durable Machine PlatformError α

variable (env : Environment)

/-! ## Parts -/

/-- `CommandBackend::run` of a command, which is this event. -/
def runCommand (event : Event) (command : CommandSpec) : Program Unit := do
  let host ← ask fun s =>
    if env.fails event then .error (.command "failed") else execute env.connected command s.host
  put (.host host)

/-- What is read of the host. -/
def readHost {α : Type} (read : Host → Except PlatformError α) : Program α := do
  let answer ← ask fun s => .ok (read s.host)
  match answer with
  | .ok value => pure value
  | .error error =>
    put (.failed .read)
    fail error

/-- What `persist_journal` would write. -/
def Machine.journal (s : Machine) : Option NetworkJournal :=
  if s.journaled && !s.applied.isEmpty then
    some { schemaVersion := 1, phase := s.phase.getD .prepared, rollback := s.applied }
  else none

def persistJournal : Program Unit := do
  let journal ← ask fun s => .ok s.journal
  match journal with
  | none => pure ()
  | some journal =>
    if env.fails (.save journal) then
      put (.failed (.journal journal))
      fail .io
    else put (.save journal)

def setApplied (f : List CommandSpec → List CommandSpec) : Program Unit := do
  let applied ← ask fun s => .ok s.applied
  put (.applied (f applied))

/-! ## Rolling back

The loop goes through the list from its end. A command that was refused stays in the list and the loop goes
on; what is left is saved.
-/

/-- What the loop of `rollback_all` has met. -/
structure RollbackReport where
  failed : Bool := false
  ownershipConflict : Bool := false

def RollbackReport.merge (a b : RollbackReport) : RollbackReport :=
  { failed := a.failed || b.failed, ownershipConflict := a.ownershipConflict || b.ownershipConflict }

/-- One turn of the loop, with the command at an index. -/
def rollbackAt (index : Nat) (command : CommandSpec) : Program RollbackReport := do
  let result ← attempt (runCommand env (.rollback command) command)
  match result with
  | .ok _ | .error (.interfaceMissing _) =>
    setApplied (·.eraseIdx index)
    let saved ← attempt (persistJournal env)
    match saved with
    | .ok _ => return {}
    | .error _ => return { failed := true }
  | .error .ownershipConflict =>
    put .refuse
    return { ownershipConflict := true }
  | .error _ =>
    put .refuse
    return { failed := true }

/-- The loop, from an index down. -/
def rollbackFrom : Nat → Program RollbackReport
  | 0 => pure {}
  | index + 1 => do
    let command ← ask fun s => .ok s.applied[index]?
    match command with
    -- Entries are only removed at the index, so there is one.
    | none => rollbackFrom index
    | some command => do
      let here ← rollbackAt env index command
      let rest ← rollbackFrom index
      return here.merge rest

def rollbackAll : Program Unit := do
  put (.phase (some .rollingBack))
  let count ← ask fun s => .ok s.applied.length
  let report ← rollbackFrom env count
  let remaining ← ask fun s => .ok s.applied
  if remaining.isEmpty then
    put (.phase none)
    let journaled ← ask fun s => .ok s.journaled
    if journaled then put .removeFile
  else persistJournal env
  if report.ownershipConflict then fail .ownershipConflict
  else if report.failed then fail .rollback
  else pure ()

/-- Reverses every successful change in strict reverse order. -/
def shutdown : Program Unit := rollbackAll env

/-! ## Recovery -/

/-- The arguments of a command that are not fixed words or printed addresses. -/
def CommandSpec.names : CommandSpec → List Bytes
  | .tuntapAdd interface | .tuntapDel interface | .addressAdd _ interface | .addressDel _ interface
  | .linkUp interface _ | .linkDown interface | .routeAdd _ interface | .routeDel _ interface
  | .resolvedReplace interface _ | .acceptRaReplace interface _ => [interface]
  | .profileReplace connection _ => [connection]
  | .recordAdd label _ | .recordDel label => [label]
  | .resolvConfReplace path _ => [path]
  | .nftReplace _ _ | .nftDestroy _ | .forwardingReplace _ _ => []

/-- `inputLength` is the length of a command's standard input, most of them JSON. -/
def safeJournalCommand (inputLength : CommandSpec → Nat) (command : CommandSpec) : Bool :=
  command.names.all (fun name => name.length ≤ 4096 && !name.contains 0)
    && inputLength command ≤ 131072

def validJournal (inputLength : CommandSpec → Nat) (journal : NetworkJournal) : Bool :=
  journal.schemaVersion = 1 && journal.rollback.length ≤ 256
    && journal.rollback.all (safeJournalCommand inputLength)

/-- Restores a transaction left by an interrupted prior process. -/
def recover (inputLength : CommandSpec → Nat) : Program Unit := do
  let file ← ask fun s => .ok (if s.journaled then s.file else none)
  match file with
  | none => pure ()
  | some saved =>
    if !validJournal inputLength saved then fail .io
    else
      put (.applied saved.rollback)
      put (.phase (some .rollingBack))
      rollbackAll env

/-! ## Applying

Operations are applied one by one, and each is listed and journaled before or after it runs. A command that
fails takes everything back, and so does most of what else can fail.
-/

/-- An operation whose rollback is journaled before it runs. -/
def prejournaled (beforeMutation : Bool) (operation : Operation) : Bool :=
  beforeMutation || match operation.apply with
    | .resolvConfReplace _ _ | .resolvedReplace _ _ | .profileReplace _ _ => true
    | _ => false

/-- `applied.push` and `persist_journal`, with what is done when that fails. -/
def journalRollback (command : CommandSpec) (onFailure : Program Unit) : Program Unit := do
  setApplied (· ++ [command])
  let saved ← attempt (persistJournal env)
  match saved with
  | .ok _ => pure ()
  | .error error =>
    onFailure
    fail error

/-- The mutation itself; where it fails, everything is rolled back. -/
def mutate (command : CommandSpec) : Program Unit := do
  let result ← attempt (runCommand env (.apply command) command)
  match result with
  | .ok _ => pure ()
  | .error original =>
    put (.failed (.command command))
    let rolledBack ← attempt (rollbackAll env)
    match rolledBack with
    | .ok _ => fail original
    | .error _ => fail .rollback

def applyOperation (beforeMutation : Bool) (operation : Operation) : Program Unit :=
  if prejournaled beforeMutation operation then do
    journalRollback env operation.rollback (setApplied (·.dropLast))
    mutate env operation.apply
  else do
    mutate env operation.apply
    journalRollback env operation.rollback do
      let _ ← attempt (rollbackAll env)

/-- `apply_operations_journaled`. -/
def applyOperationsJournaled (beforeMutation : Bool) : List Operation → Program Unit
  | [] => pure ()
  | operation :: rest => do
    applyOperation env beforeMutation operation
    applyOperationsJournaled beforeMutation rest

/-- Applies only TUN, addresses, and routes. -/
def prepare (config : LinuxNetworkConfig) : Program Unit := do
  ask fun _ => validateConfig config
  let applied ← ask fun s => .ok s.applied
  if !applied.isEmpty then shutdown env
  put (.phase (some .prepared))
  applyOperationsJournaled env false (buildPrepareOperations config)

def requirePrepared : Program Unit :=
  ask fun s => rejectIf (s.phase ≠ some .prepared) (.command "platform transaction was not prepared")

/-- Activates nftables and host DNS. -/
def activateDns (config : LinuxNetworkConfig) : Program Unit := do
  requirePrepared
  let dns ← readHost fun h => dnsOperations env h config
  applyOperationsJournaled env false (nftOperations config (nftTable config.interface) ++ dns)

/-- Marks a prepared network transaction as active in the durable journal. -/
def commit : Program Unit := do
  requirePrepared
  put (.phase (some .active))
  persistJournal env

/-- Applies TUN, addresses, routes, nftables, and split DNS as one rollback domain. -/
def apply (config : LinuxNetworkConfig) : Program Unit := do
  prepare env config
  activateDns env config
  commit env

def applyResourceNetwork (intent : ResourceNetworkIntent) (routes : List HostRoute) : Program Unit := do
  ask fun _ => validateIntent intent routes
  shutdown env
  put (.phase (some .prepared))
  let operations ← readHost fun h => resourceOperations env h intent routes
  applyOperationsJournaled env true operations
  commit env

end Peerward.Platform
