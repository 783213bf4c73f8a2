import Peerward.Lib.Run
import Peerward.PeerCore.Checkpoint

/-!
# Floors across crashes and reopening

The checkpoint of one private directory over whole histories: processes open it, commit signed
state, fail to write, crash and open it again, while the state file may get lost or damaged. A
replacement whose directory could not be synced is reported as an error although the file is new, so
the file may run ahead of the process. It never runs behind what a process has accepted.
-/

namespace Peerward.PeerCore

open Std Peerward.Lib
open Peerward.Management (AuthorizationFloor)
open Peerward.Types (CredentialSerial Key MeshId PeerId)

/-! ## The order of floors

A state advances another when it has given up nothing of it. Every call that is stored advances what was
there.
-/

/-- `later` gives up nothing that `earlier` accepted. -/
structure State.Advances (earlier later : State) : Prop where
  identity : later.root = earlier.root ∧ later.mesh = earlier.mesh ∧ later.peer = earlier.peer
  stamps : ∀ (kind : SnapshotKind) (stamp : Stamp), earlier.stamps[kind]? = some stamp →
    ∃ stamp' : Stamp, later.stamps[kind]? = some stamp' ∧
      (stamp.revision < stamp'.revision ∨ stamp' = stamp)
  subjects : ∀ serial ∈ earlier.subjects, serial ∈ later.subjects
  authorities : ∀ serial ∈ earlier.authorities, serial ∈ later.authorities
  timeFloor : earlier.timeFloor ≤ later.timeFloor
  generationCeiling : earlier.generationCeiling ≤ later.generationCeiling
  configurationVersion :
    earlier.authorization.configurationVersion ≤ later.authorization.configurationVersion
  leaseSequence : earlier.authorization.leaseSequence ≤ later.authorization.leaseSequence

namespace State.Advances

variable {a b c : State}

theorem refl (a : State) : a.Advances a where
  identity := ⟨rfl, rfl, rfl⟩
  stamps := fun _ stamp h => ⟨stamp, h, .inr rfl⟩
  subjects := fun _ h => h
  authorities := fun _ h => h
  timeFloor := Nat.le_refl _
  generationCeiling := Nat.le_refl _
  configurationVersion := Nat.le_refl _
  leaseSequence := Nat.le_refl _

theorem trans (h : a.Advances b) (h' : b.Advances c) : a.Advances c where
  identity := by
    obtain ⟨hroot, hmesh, hpeer⟩ := h.identity
    obtain ⟨hroot', hmesh', hpeer'⟩ := h'.identity
    exact ⟨hroot'.trans hroot, hmesh'.trans hmesh, hpeer'.trans hpeer⟩
  stamps := by
    intro kind stamp hstamp
    obtain ⟨stamp', hstamp', hnewer⟩ := h.stamps kind stamp hstamp
    obtain ⟨stamp'', hstamp'', hnewer'⟩ := h'.stamps kind stamp' hstamp'
    refine ⟨stamp'', hstamp'', ?_⟩
    rcases hnewer with hlt | rfl
    · rcases hnewer' with hlt' | rfl
      · exact .inl (hlt.trans hlt')
      · exact .inl hlt
    · exact hnewer'
  subjects := fun serial hserial => h'.subjects serial (h.subjects serial hserial)
  authorities := fun serial hserial => h'.authorities serial (h.authorities serial hserial)
  timeFloor := h.timeFloor.trans h'.timeFloor
  generationCeiling := h.generationCeiling.trans h'.generationCeiling
  configurationVersion := h.configurationVersion.trans h'.configurationVersion
  leaseSequence := h.leaseSequence.trans h'.leaseSequence

end State.Advances

/-! ## What one call accepts

A snapshot is newer than the accepted one of its kind or has the same revision and digest. A directory
that was completed once is not taken for a new one when its state file is gone.
-/

namespace Checkpoint

variable {enc : Encoding} {checkpoint next : Checkpoint} {stored : Bool}

/-- A snapshot passes the check when it is newer than the accepted one of its kind, or equal to it. -/
theorem check_ok {kind : SnapshotKind} {revision : Nat} {bytes : Bytes} {fresh : Bool}
    (h : checkpoint.check enc kind revision bytes = .ok fresh) {previous : Stamp}
    (hprevious : checkpoint.state.stamps[kind]? = some previous) :
    previous.revision < revision ∨ stamp enc revision bytes = previous := by
  unfold check at h
  rw [hprevious] at h
  dsimp only at h
  split at h
  · cases h
  · next hold =>
      simp only [Bool.or_eq_true, decide_eq_true_eq, Bool.and_eq_true, not_or, not_and,
        Nat.not_lt, not_not] at hold
      rcases Nat.lt_or_eq_of_le hold.1 with hlt | heq
      · exact .inl hlt
      · exact .inr (hold.2 heq.symm)

theorem revoke_ok {state revoked' : State} {kind : SnapshotKind} {revoked : List CredentialSerial}
    (h : revoke state kind revoked = .ok revoked') :
    ∃ subjects authorities, revoked' = { state with subjects, authorities } ∧
      (∀ serial ∈ state.subjects, serial ∈ subjects) ∧
      (∀ serial ∈ state.authorities, serial ∈ authorities) ∧
      ∀ serial ∈ revoked, (kind = .revocations ∧ serial ∈ subjects) ∨
        (kind = .authorities ∧ serial ∈ authorities) := by
  unfold revoke at h
  split at h
  · cases h
    refine ⟨_, state.authorities, rfl, fun serial hserial => ?_, fun _ hserial => hserial,
      fun serial hserial => .inl ⟨rfl, ?_⟩⟩
    · exact ExtTreeSet.mem_insertMany_list.mpr (.inl hserial)
    · exact ExtTreeSet.mem_insertMany_list.mpr (.inr (List.contains_iff_mem.mpr hserial))
  · cases h
    refine ⟨state.subjects, _, rfl, fun _ hserial => hserial, fun serial hserial => ?_,
      fun serial hserial => .inr ⟨rfl, ?_⟩⟩
    · exact ExtTreeSet.mem_insertMany_list.mpr (.inl hserial)
    · exact ExtTreeSet.mem_insertMany_list.mpr (.inr (List.contains_iff_mem.mpr hserial))
  · split at h
    · next hempty =>
        cases h
        refine ⟨state.subjects, state.authorities, rfl, fun _ hserial => hserial,
          fun _ hserial => hserial, fun serial hserial => ?_⟩
        rw [List.isEmpty_iff.mp hempty] at hserial
        cases hserial
    · cases h

theorem commit_ok {kind : SnapshotKind} {revision now : Nat} {bytes : Bytes}
    {revoked : List CredentialSerial}
    (h : checkpoint.commit enc kind revision bytes now revoked stored = .ok next) :
    checkpoint.state.Advances next.state ∧ next.applied = checkpoint.applied.insert kind ∧
      ∀ previous, checkpoint.state.stamps[kind]? = some previous →
        previous.revision < revision ∨ stamp enc revision bytes = previous := by
  unfold commit at h
  obtain ⟨fresh, hcheck, h⟩ := bind_eq_ok.mp h
  obtain ⟨state, hstate, h⟩ := bind_eq_ok.mp h
  obtain ⟨-, -, h⟩ := bind_eq_ok.mp h
  cases h
  obtain ⟨subjects, authorities, rfl, hsubjects, hauthorities, -⟩ := revoke_ok hstate
  refine ⟨⟨⟨rfl, rfl, rfl⟩, ?_, hsubjects, hauthorities, Nat.le_max_left _ _, Nat.le_refl _,
    Nat.le_refl _, Nat.le_refl _⟩, rfl, fun previous => check_ok hcheck⟩
  intro kind' previous hprevious
  dsimp only
  rw [ExtTreeMap.getElem?_insert]
  by_cases hkind : kind = kind'
  · subst hkind
    rw [if_pos ReflCmp.compare_self]
    exact ⟨_, rfl, check_ok hcheck hprevious⟩
  · rw [if_neg fun heq => hkind (LawfulEqCmp.eq_of_compare heq)]
    exact ⟨previous, hprevious, .inr rfl⟩

theorem commitAuthorization_ok {floor : AuthorizationFloor}
    (h : checkpoint.commitAuthorization enc floor stored = .ok next) :
    checkpoint.state.Advances next.state ∧ next.applied = checkpoint.applied ∧
      checkpoint.state.authorization.configurationVersion ≤ floor.configurationVersion ∧
      checkpoint.state.authorization.leaseSequence ≤ floor.leaseSequence := by
  unfold commitAuthorization at h
  obtain ⟨_, hfloor, h⟩ := bind_eq_ok.mp h
  obtain ⟨-, -, h⟩ := bind_eq_ok.mp h
  cases h
  have hfloor := rejectIf_eq_ok.mp hfloor
  rw [Bool.or_eq_false_iff, decide_eq_false_iff_not, decide_eq_false_iff_not, Nat.not_lt,
    Nat.not_lt] at hfloor
  exact ⟨{ State.Advances.refl checkpoint.state with
      timeFloor := Nat.le_max_left _ _
      configurationVersion := hfloor.1
      leaseSequence := hfloor.2 }, rfl, hfloor⟩

theorem advanceExpiryFloor_ok {now : Nat}
    (h : checkpoint.advanceExpiryFloor enc now stored = .ok next) :
    checkpoint.state.Advances next.state ∧ next.applied = checkpoint.applied := by
  unfold advanceExpiryFloor at h
  split at h
  · cases h
    exact ⟨.refl _, rfl⟩
  · next hlater =>
      obtain ⟨-, -, h⟩ := bind_eq_ok.mp h
      cases h
      exact ⟨{ State.Advances.refl checkpoint.state with
        timeFloor := Nat.le_of_not_le hlater }, rfl⟩

/-- `open` continues what it finds; it starts afresh only where no state was ever completed. -/
theorem reserve_advances {files : CheckpointFiles} {root : Key} {mesh : MeshId} {peer : PeerId}
    {now generation start : Nat} {state found : State}
    (h : reserve enc files root mesh peer now generation = .ok (state, start))
    (hfile : files.file = .present found) : found.Advances state := by
  unfold reserve at h
  obtain ⟨loaded, hloaded, h⟩ := bind_eq_ok.mp h
  obtain ⟨-, hidentity, h⟩ := bind_eq_ok.mp h
  obtain ⟨-, -, h⟩ := bind_eq_ok.mp h
  obtain ⟨-, -, h⟩ := bind_eq_ok.mp h
  cases h
  have hsame : loaded = found := by
    unfold load at hloaded
    rw [hfile] at hloaded
    cases hmarker : files.marker <;> rw [hmarker] at hloaded <;> cases hloaded <;> rfl
  subst hsame
  exact { State.Advances.refl loaded with
    timeFloor := Nat.le_max_left _ _
    generationCeiling := (Nat.le_max_right _ _).trans (Nat.le_add_right _ _) }

/-- Once a complete state was marked, a state file that is gone is not replaced by a fresh one. -/
theorem reserve_committed {files : CheckpointFiles} {root : Key} {mesh : MeshId} {peer : PeerId}
    {now generation : Nat} {reserved : State × Nat}
    (h : reserve enc files root mesh peer now generation = .ok reserved)
    (hmarker : files.marker = .committed) : ∃ found, files.file = .present found := by
  unfold reserve at h
  obtain ⟨loaded, hloaded, -⟩ := bind_eq_ok.mp h
  unfold load at hloaded
  rw [hmarker] at hloaded
  cases hfile : files.file with
  | missing | corrupt =>
      rw [hfile] at hloaded
      cases hloaded
  | present found => exact ⟨found, rfl⟩

end Checkpoint

/-! ## A directory and the processes that open it

What outlives a process is the directory. A write may take effect without being reported, and the state
file may be removed or damaged by something else; the lock file, which also marks a completed directory,
may not.
-/

/-- How `write_private_atomic` ends: the old file stays, the new one is in place but the directory
was not synced, or it returns. Only the last is reported as success. -/
inductive WriteOutcome where
  | refused
  | unsynced
  | stored
  deriving DecidableEq

/-- A private directory, and the checkpoint of the process that holds its lock. -/
structure Keeper where
  files : CheckpointFiles := {}
  owner : Option Checkpoint := none

namespace Keeper

inductive Op where
  | openFiles (root : Key) (mesh : MeshId) (peer : PeerId) (now generation : Nat)
      (outcome : Checkpoint.OpenOutcome)
  /-- The process exits or crashes and its lock goes. -/
  | close
  /-- Something else removes the state file. -/
  | lose
  /-- Something else damages it beyond parsing. -/
  | damage
  | commit (kind : SnapshotKind) (revision : Nat) (bytes : Bytes) (now : Nat)
      (revoked : List CredentialSerial) (outcome : WriteOutcome)
  | commitAuthorization (floor : AuthorizationFloor) (outcome : WriteOutcome)
  | advanceExpiryFloor (now : Nat) (outcome : WriteOutcome)

variable (enc : Encoding)

/-- The call on the checkpoint, up to how its write ends; a floor that is not moved writes nothing. -/
def written (owner : Checkpoint) : Op → Option ((Bool → Except PeerError Checkpoint) × WriteOutcome)
  | .commit kind revision bytes now revoked outcome =>
    some (owner.commit enc kind revision bytes now revoked, outcome)
  | .commitAuthorization floor outcome => some (owner.commitAuthorization enc floor, outcome)
  | .advanceExpiryFloor now outcome =>
    if now ≤ owner.state.timeFloor then none else some (owner.advanceExpiryFloor enc now, outcome)
  | _ => none

def save (s : Keeper) (call : Bool → Except PeerError Checkpoint) (outcome : WriteOutcome) : Keeper :=
  match call true, outcome with
  | .ok next, .stored =>
    { files := { s.files with file := .present next.state }, owner := some next }
  | .ok next, .unsynced => { s with files := { s.files with file := .present next.state } }
  | _, _ => s

def step (s : Keeper) (op : Op) : Keeper :=
  match op, s.owner with
  | .lose, _ => { s with files := { s.files with file := .missing } }
  | .damage, _ => { s with files := { s.files with file := .corrupt } }
  | .close, _ => { s with owner := none }
  | .openFiles root mesh peer now generation outcome, none =>
    let (opened, files) := Checkpoint.openFiles enc s.files root mesh peer now generation outcome
    { files, owner := opened.toOption.map (·.1) }
  -- the lock of the owner that runs
  | .openFiles .., some _ => s
  | op, some owner => match written enc owner op with
    | some (call, outcome) => s.save call outcome
    | none => s
  | _, none => s

/-- `commit` returns `Ok`. -/
def Commits (kind : SnapshotKind) (s : Keeper) : Op → Prop
  | .commit kind' revision bytes now revoked outcome => kind' = kind ∧ outcome = .stored ∧
    ∃ owner next, s.owner = some owner ∧
      owner.commit enc kind' revision bytes now revoked true = .ok next
  | _ => False

/-- `open` returns `Ok`. -/
def Opens (s : Keeper) (op : Op) : Prop := s.owner = none ∧ (step enc s op).owner ≠ none

variable {enc} {s start : Keeper} {op : Op} {owner : Checkpoint}

/-- What one step can do. Only a stored commit counts as one. -/
inductive Stepped (enc : Encoding) (s : Keeper) (op : Op) : Keeper → Prop
  | kept (hidle : ∀ kind, ¬ Commits enc kind s op) : Stepped enc s op s
  | closed (hidle : ∀ kind, ¬ Commits enc kind s op) : Stepped enc s op { s with owner := none }
  | spoiled (file : StateFile) (hfile : ∀ state, file ≠ .present state)
      (hidle : ∀ kind, ¬ Commits enc kind s op) :
      Stepped enc s op { s with files := { s.files with file } }
  | unsynced (owner next : Checkpoint) (howner : s.owner = some owner)
      (hforward : owner.state.Advances next.state) (hidle : ∀ kind, ¬ Commits enc kind s op) :
      Stepped enc s op { s with files := { s.files with file := .present next.state } }
  | stored (owner next : Checkpoint) (howner : s.owner = some owner)
      (hforward : owner.state.Advances next.state)
      (happlied : ∀ kind, kind ∈ next.applied ↔ kind ∈ owner.applied ∨ Commits enc kind s op) :
      Stepped enc s op
        { files := { s.files with file := .present next.state }, owner := some next }
  | reserved (state : State) (howner : s.owner = none)
      (hforward : ∀ found, s.files.file = .present found → found.Advances state)
      (hmarker : s.files.marker = .committed → ∃ found, s.files.file = .present found) :
      Stepped enc s op { s with files := { s.files with file := .present state } }
  | opened (state : State) (howner : s.owner = none)
      (hforward : ∀ found, s.files.file = .present found → found.Advances state)
      (hmarker : s.files.marker = .committed → ∃ found, s.files.file = .present found) :
      Stepped enc s op
        { files := { marker := .committed, file := .present state }, owner := some { state } }

theorem openFiles_stepped (howner : s.owner = none) (root : Key) (mesh : MeshId) (peer : PeerId)
    (now generation : Nat) (outcome : Checkpoint.OpenOutcome) :
    Stepped enc s (.openFiles root mesh peer now generation outcome)
      (step enc s (.openFiles root mesh peer now generation outcome)) := by
  have hsame : ({ files := s.files, owner := none } : Keeper) = s := by
    rw [← howner]
  unfold step Checkpoint.openFiles
  rw [howner]
  dsimp only
  cases hreserve : Checkpoint.reserve enc s.files root mesh peer now generation with
  | error failure =>
      show Stepped enc s _ { files := s.files, owner := none }
      rw [hsame]
      exact .kept fun _ => id
  | ok reserved =>
      obtain ⟨state, first⟩ := reserved
      have hforward : ∀ found, s.files.file = .present found → found.Advances state :=
        fun _ hfile => Checkpoint.reserve_advances hreserve hfile
      have hmarker := Checkpoint.reserve_committed hreserve
      cases outcome with
      | notWritten =>
          show Stepped enc s _ { files := s.files, owner := none }
          rw [hsame]
          exact .kept fun _ => id
      | crashed =>
          show Stepped enc s _ { files := { s.files with file := .present state }, owner := none }
          rw [← howner]
          exact .reserved state howner hforward hmarker
      | returned => exact .opened state howner hforward hmarker

theorem save_stepped (howner : s.owner = some owner)
    {call : Bool → Except PeerError Checkpoint} {outcome : WriteOutcome}
    (hforward : ∀ next, call true = .ok next → owner.state.Advances next.state)
    (happlied : ∀ next, call true = .ok next → outcome = .stored →
      ∀ kind, kind ∈ next.applied ↔ kind ∈ owner.applied ∨ Commits enc kind s op)
    (hidle : (∀ next, call true = .ok next → outcome ≠ .stored) → ∀ kind, ¬ Commits enc kind s op) :
    Stepped enc s op (s.save call outcome) := by
  unfold save
  cases hcall : call true with
  | error failure =>
      exact .kept (hidle fun next hnext => nomatch hcall.symm.trans hnext)
  | ok next =>
      cases outcome with
      | refused => exact .kept (hidle fun _ _ => nofun)
      | unsynced => exact .unsynced owner next howner (hforward next hcall) (hidle fun _ _ => nofun)
      | stored => exact .stored owner next howner (hforward next hcall) (happlied next hcall rfl)

theorem stepped (enc : Encoding) (s : Keeper) (op : Op) : Stepped enc s op (step enc s op) := by
  cases op with
  | lose => exact .spoiled .missing (fun _ => nofun) fun _ => id
  | damage => exact .spoiled .corrupt (fun _ => nofun) fun _ => id
  | close => exact .closed fun _ => id
  | openFiles root mesh peer now generation outcome =>
      cases howner : s.owner with
      | none => exact openFiles_stepped howner root mesh peer now generation outcome
      | some owner =>
          unfold step
          rw [howner]
          exact .kept fun _ => id
  | commit kind revision bytes now revoked outcome =>
      cases howner : s.owner with
      | none =>
          unfold step
          rw [howner]
          -- nobody has the directory open, so nothing was committed
          refine .kept fun kind' hcommits => ?_
          obtain ⟨-, -, owner, -, howner', -⟩ := hcommits
          cases howner.symm.trans howner'
      | some owner =>
          unfold step
          rw [howner]
          refine save_stepped howner (fun next hnext => (Checkpoint.commit_ok hnext).1) ?_ ?_
          · rintro next hnext rfl kind'
            rw [(Checkpoint.commit_ok hnext).2.1, ExtTreeSet.mem_insert, or_comm,
              LawfulEqOrd.compare_eq_iff_eq]
            exact or_congr_right
              ⟨fun h => ⟨h, rfl, owner, next, howner, hnext⟩, fun h => h.1⟩
          · rintro hfailed kind' ⟨-, hstored, owner', next, howner', hnext⟩
            cases howner.symm.trans howner'
            exact hfailed next hnext hstored
  | commitAuthorization floor outcome =>
      cases howner : s.owner with
      | none =>
          unfold step
          rw [howner]
          exact .kept fun _ => id
      | some owner =>
          unfold step
          rw [howner]
          refine save_stepped howner (fun next hnext => (Checkpoint.commitAuthorization_ok hnext).1)
            ?_ fun _ _ => id
          intro next hnext _ kind
          rw [(Checkpoint.commitAuthorization_ok hnext).2.1]
          exact (or_iff_left id).symm
  | advanceExpiryFloor now outcome =>
      cases howner : s.owner with
      | none =>
          unfold step
          rw [howner]
          exact .kept fun _ => id
      | some owner =>
          unfold step written
          rw [howner]
          dsimp only
          split
          · next call outcome' hwritten =>
              -- a floor that does not move is not written
              split at hwritten
              · cases hwritten
              · cases hwritten
                refine save_stepped howner
                  (fun next hnext => (Checkpoint.advanceExpiryFloor_ok hnext).1) ?_ fun _ _ => id
                intro next hnext _ kind
                rw [(Checkpoint.advanceExpiryFloor_ok hnext).2]
                exact (or_iff_left id).symm
          · exact .kept fun _ => id

/-! ## Floors over histories

A process holds nothing that its directory does not. So what one process held is in the directory for the
next, or in the way of it.
-/

/-- Neither the file nor the process is behind `floors`, and the directory is marked. -/
structure Holds (floors : State) (s : Keeper) : Prop where
  marker : s.files.marker = .committed
  file : ∀ found, s.files.file = .present found → floors.Advances found
  owner : ∀ owner, s.owner = some owner → floors.Advances owner.state

theorem Holds.step {floors : State} (h : Holds floors s) (op : Op) :
    Holds floors (Keeper.step enc s op) := by
  have hstep := stepped enc s op
  generalize Keeper.step enc s op = s' at hstep ⊢
  cases hstep with
  | kept => exact h
  | closed => exact ⟨h.marker, h.file, nofun⟩
  | spoiled file hfile =>
      exact ⟨h.marker, fun found hfound => absurd hfound (hfile found), h.owner⟩
  | unsynced owner next howner hforward =>
      refine ⟨h.marker, fun found hfound => ?_, h.owner⟩
      cases hfound
      exact (h.owner owner howner).trans hforward
  | stored owner next howner hforward =>
      have hnext := (h.owner owner howner).trans hforward
      refine ⟨h.marker, fun found hfound => ?_, fun owner' howner' => ?_⟩
      · cases hfound
        exact hnext
      · cases howner'
        exact hnext
  | reserved state howner hforward hmarker =>
      obtain ⟨found, hfound⟩ := hmarker h.marker
      refine ⟨h.marker, fun state' hstate' => ?_, h.owner⟩
      cases hstate'
      exact (h.file found hfound).trans (hforward found hfound)
  | opened state howner hforward hmarker =>
      obtain ⟨found, hfound⟩ := hmarker h.marker
      have hstate := (h.file found hfound).trans (hforward found hfound)
      refine ⟨rfl, fun state' hstate' => ?_, fun owner' howner' => ?_⟩
      · cases hstate'
        exact hstate
      · cases howner'
        exact hstate

/-- What a process has in memory, its directory holds. -/
def Sound (s : Keeper) : Prop := ∀ owner, s.owner = some owner → Holds owner.state s

theorem Sound.step (h : Sound s) (op : Op) : Sound (Keeper.step enc s op) := by
  intro owner' howner'
  have hstep := stepped enc s op
  have hholds : ∀ owner, s.owner = some owner → Holds owner.state (Keeper.step enc s op) :=
    fun owner howner => (h owner howner).step op
  generalize Keeper.step enc s op = s' at hstep hholds howner'
  cases hstep with
  | kept | spoiled | unsynced => exact hholds owner' howner'
  | closed => cases howner'
  | stored owner next howner hforward =>
      cases howner'
      refine ⟨(h owner howner).marker, fun found hfound => ?_, fun owner' howner' => ?_⟩
      · cases hfound
        exact .refl _
      · cases howner'
        exact .refl _
  | reserved state howner => cases howner.symm.trans howner'
  | opened state howner =>
      cases howner'
      refine ⟨rfl, fun found hfound => ?_, fun owner' howner' => ?_⟩
      · cases hfound
        exact .refl _
      · cases howner'
        exact .refl _

/-- Since the directory was opened last, a snapshot of the kind was committed. -/
def CommittedSince (enc : Encoding) (start : Keeper) (kind : SnapshotKind) (ops : List Op) : Prop :=
  Since (step enc) start (Commits enc kind) (Opens enc) ops

theorem not_opens_of_owner (howner : s.owner = some owner) : ¬ Opens enc s op :=
  fun h => nomatch howner.symm.trans h.1

theorem applied_iff (hstart : start.owner = none) (ops : List Op) :
    ∀ owner, (exec (step enc) start ops).owner = some owner →
      ∀ kind, kind ∈ owner.applied ↔ CommittedSince enc start kind ops := by
  refine exec_history (I := fun ops (s : Keeper) => ∀ owner, s.owner = some owner →
    ∀ kind, kind ∈ owner.applied ↔ CommittedSince enc start kind ops) ?_ ?_ ops
  · intro owner howner
    cases hstart.symm.trans howner
  intro ops op ih owner' howner' kind
  have hstep := stepped enc (exec (step enc) start ops) op
  unfold CommittedSince
  rw [since_concat]
  generalize exec (step enc) start ops = s at ih hstep howner' ⊢
  have hkept (hidle : ∀ kind, ¬ Commits enc kind s op) (howner : s.owner = some owner') :
      kind ∈ owner'.applied ↔ Commits enc kind s op ∨
        Since (step enc) start (Commits enc kind) (Opens enc) ops ∧ ¬ Opens enc s op := by
    rw [or_iff_right (hidle kind), and_iff_left (not_opens_of_owner howner)]
    exact ih owner' howner kind
  have hopened (howner : s.owner = none) : ¬ Commits enc kind s op := by
    intro hcommits
    cases op with
    | commit =>
        obtain ⟨-, -, owner, -, howner', -⟩ := hcommits
        cases howner.symm.trans howner'
    | _ => exact hcommits
  have hnext : (step enc s op).owner = some owner' := howner'
  generalize hs' : step enc s op = s' at hstep hnext
  cases hstep with
  | kept hidle => exact hkept hidle hnext
  | spoiled _ _ hidle => exact hkept hidle hnext
  | unsynced _ _ _ _ hidle => exact hkept hidle hnext
  | closed => cases hnext
  | stored owner next howner hforward happlied =>
      cases hnext
      rw [happlied kind, ih owner howner kind, and_iff_left (not_opens_of_owner howner), or_comm]
      rfl
  | reserved state howner => cases howner.symm.trans hnext
  | opened state howner =>
      cases hnext
      have hreopened : Opens enc s op := ⟨howner, by rw [hs']; nofun⟩
      refine iff_of_false (fun h => ?_) ?_
      · exact ExtTreeSet.not_mem_empty h
      · rintro (h | h)
        · exact hopened howner h
        · exact h.2 hreopened

theorem onRecord_iff {kind : SnapshotKind} :
    (!owner.state.stamps.contains kind || owner.applied.contains kind) = true ↔
      (kind ∈ owner.state.stamps → kind ∈ owner.applied) := by
  rw [Bool.or_eq_true, Bool.not_eq_true', ← Bool.not_eq_true, ExtTreeSet.contains_iff_mem,
    ExtTreeMap.contains_iff_mem, imp_iff_not_or]

/-- **A reopened Peer is not ready until its signed state was delivered again.** Readiness counts the
commits since the directory was opened last: Peers and Revocations, Policy where it is asked for, and
Authorities (and without them Policy) wherever an accepted revision is on record. -/
theorem ready_iff (hstart : start.owner = none) {ops : List Op} {owner : Checkpoint}
    (howner : (exec (step enc) start ops).owner = some owner) (includePolicy : Bool) :
    owner.ready includePolicy = true ↔
      CommittedSince enc start .peers ops ∧ CommittedSince enc start .revocations ops ∧
      (includePolicy = true → CommittedSince enc start .policy ops) ∧
      (SnapshotKind.authorities ∈ owner.state.stamps →
        CommittedSince enc start .authorities ops) := by
  have happlied := fun kind => applied_iff hstart ops owner howner kind
  simp only [← happlied]
  unfold Checkpoint.ready
  simp only [List.all_cons, List.all_nil, Bool.and_true, Bool.and_eq_true, ExtTreeSet.contains_iff_mem]
  cases includePolicy with
  | false =>
      show ((_ ∧ _) ∧ (true = true)) ∧ ((!owner.state.stamps.contains .authorities ||
        owner.applied.contains .authorities) && true) = true ↔ _
      rw [Bool.and_true, onRecord_iff]
      tauto
  | true =>
      show ((_ ∧ _) ∧ owner.applied.contains .policy = true) ∧
        ((!owner.state.stamps.contains .authorities || owner.applied.contains .authorities) &&
          ((!owner.state.stamps.contains .policy || owner.applied.contains .policy) && true)) = true ↔ _
      rw [Bool.and_true, Bool.and_eq_true, onRecord_iff, onRecord_iff, ExtTreeSet.contains_iff_mem]
      tauto

/-! ### A restart after a write that was not synced -/

section Restarted

/-- A digest that reads the contents as a number. -/
def readable : Encoding := ⟨fun bytes => BitVec.ofNat 256 (ofBE bytes), fun _ => 0⟩

def someMesh : MeshId := ⟨0x00000000000040008000000000000001#128, Types.random_one⟩
def somePeer : PeerId := ⟨0x00000000000040008000000000000002#128, Types.random_two⟩
def someSerial : CredentialSerial := ⟨0x00000000000040008000000000000003#128, Types.random_three⟩

def starting : Op := .openFiles 1 someMesh somePeer 10 0 .returned

/-- Peers and Revocations at 7, the clock at 20. -/
def delivered : List Op :=
  [starting, .commit .peers 7 [1] 20 [] .stored, .commit .revocations 7 [2] 20 [someSerial] .stored]

/-- A policy that is on disk although its commit failed, a crash, and a clock that went back. -/
def restarted : List Op :=
  [.commit .policy 3 [3] 30 [] .unsynced, .close, starting, .commit .peers 7 [1] 5 [] .stored]

/-- It waits for what was not delivered again. -/
theorem ready_iff_restarted : ¬ (CommittedSince readable {} .peers (delivered ++ restarted) ∧
    CommittedSince readable {} .revocations (delivered ++ restarted)) := by
  rintro ⟨hpeers, hrevocations⟩
  obtain ⟨later, hlater⟩ := Option.isSome_iff_exists.mp
    (show (exec (step readable) {} (delivered ++ restarted)).owner.isSome = true by decide +kernel)
  have hheld : (exec (step readable) {} (delivered ++ restarted)).owner.all (fun later =>
      !later.ready false && !later.state.stamps.contains .authorities) = true := by decide +kernel
  rw [hlater, Option.all_some, Bool.and_eq_true, Bool.not_eq_true', Bool.not_eq_true'] at hheld
  have hready := (ready_iff rfl hlater false).mpr ⟨hpeers, hrevocations, nofun, fun hmem => ?_⟩
  · exact Bool.false_ne_true (hheld.1.symm.trans hready)
  · cases hheld.2.symm.trans (ExtTreeMap.contains_iff_mem.mpr hmem)

end Restarted

end Keeper

end Peerward.PeerCore
