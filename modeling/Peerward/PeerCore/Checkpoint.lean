import Peerward.Management.Leases
import Peerward.PeerCore.Sessions

/-!
# The signed-state checkpoint

Crash-consistent floors in a private directory: the revisions and digests accepted per snapshot
kind, sticky revocations, a time floor, the path generations reserved so far and the authorization
floor. Every write replaces the whole state file atomically; `stored` says whether the replacement
succeeded. SHA-256 and the length of the JSON encoding are the parameters in `Encoding`.
-/

namespace Peerward.PeerCore

open Std Peerward.Lib
open Peerward.Management (AuthorizationFloor Digest)
open Peerward.Types (CredentialSerial Key MeshId PeerId)

def MAX_BYTES : Nat := 48 * 1024 * 1024
def MAX_SUBJECTS : Nat := 1000000
def MAX_AUTHORITIES : Nat := 65536
def GENERATION_LEASE : Nat := 2 ^ 32

/-- Independent signed revision domains. -/
inductive SnapshotKind where
  | authorities
  | peers
  | policy
  | revocations
  | services
  | relays
  deriving DecidableEq

namespace SnapshotKind

/-- The derived order is the order of declaration. -/
def rank : SnapshotKind → Nat
  | authorities => 0
  | peers => 1
  | policy => 2
  | revocations => 3
  | services => 4
  | relays => 5

instance : Ord SnapshotKind := ⟨compareOn rank⟩

instance : TransOrd SnapshotKind := inferInstanceAs (TransCmp (compareOn rank))

instance : LawfulEqOrd SnapshotKind where
  eq_of_compare := by
    intro a b h
    have hrank : a.rank = b.rank := LawfulEqOrd.eq_of_compare (show compare a.rank b.rank = .eq from h)
    cases a <;> cases b <;> first | rfl | cases hrank

end SnapshotKind

structure Stamp where
  revision : Nat
  digest : Digest
  deriving DecidableEq

/-- What the state file holds. -/
structure State where
  version : Nat
  root : Key
  mesh : MeshId
  peer : PeerId
  stamps : ExtTreeMap SnapshotKind Stamp
  subjects : ExtTreeSet CredentialSerial
  authorities : ExtTreeSet CredentialSerial
  timeFloor : Nat
  generationCeiling : Nat
  authorization : AuthorizationFloor

structure Encoding where
  sha256 : Bytes → Digest
  /-- `serde_json::to_vec(state).len()`. -/
  jsonLength : State → Nat

structure Checkpoint where
  state : State
  applied : ExtTreeSet SnapshotKind := ∅

/-- The contents of `state.json`. -/
inductive StateFile where
  | missing
  | corrupt
  | present (state : State)

/-- The contents of `owner.lock`: empty until a complete state has been written once. -/
inductive Marker where
  | empty
  | committed
  | corrupt
  deriving DecidableEq

/-- The private directory of one Peer. -/
structure CheckpointFiles where
  marker : Marker := .empty
  file : StateFile := .missing

namespace Checkpoint

variable (enc : Encoding)

/-- The state that `open` continues: the persisted one, or a fresh one before the first commit. -/
def load (files : CheckpointFiles) (root : Key) (mesh : MeshId) (peer : PeerId) (now : Nat) :
    Except PeerError State :=
  match files.marker, files.file with
  | .corrupt, _ => .error (.checkpoint "corrupt ownership marker")
  | _, .corrupt => .error (.checkpoint "corrupt state; refusing to reset trust history")
  | _, .present state => .ok state
  | .committed, .missing => .error .io
  | .empty, .missing => .ok
    { version := 2, root, mesh, peer, stamps := ∅, subjects := ∅, authorities := ∅, timeFloor := now
      generationCeiling := 0, authorization := {} }

/-- `open` up to the write of the state file: the state to write, and the first generation. -/
def reserve (files : CheckpointFiles) (root : Key) (mesh : MeshId) (peer : PeerId)
    (now generation : Nat) : Except PeerError (State × Nat) := do
  let state ← load files root mesh peer now
  rejectIf (state.version ≠ 2 || state.root ≠ root || state.mesh ≠ mesh || state.peer ≠ peer)
    (.checkpoint "state identity/version mismatch")
  let start := max generation state.generationCeiling
  rejectIf (2 ^ 64 ≤ start + GENERATION_LEASE) (.checkpoint "path generation exhausted")
  let state := { state with
    generationCeiling := start + GENERATION_LEASE
    timeFloor := max state.timeFloor now }
  rejectIf (state.subjects.size > MAX_SUBJECTS || state.authorities.size > MAX_AUTHORITIES
    || enc.jsonLength state > MAX_BYTES) (.checkpoint "state capacity exhausted")
  return (state, start)

/-- Where `open` stops: it fails to write, the process dies with the state written but not marked,
or it returns. -/
inductive OpenOutcome where
  | notWritten
  | crashed
  | returned
  deriving DecidableEq

/-- The checkpoint with the range of generations reserved for this owner, and the directory left
behind. -/
def openFiles (files : CheckpointFiles) (root : Key) (mesh : MeshId) (peer : PeerId)
    (now generation : Nat) (outcome : OpenOutcome) :
    Except PeerError (Checkpoint × Nat × Nat) × CheckpointFiles :=
  match reserve enc files root mesh peer now generation with
  | .error failure => (.error failure, files)
  | .ok (state, start) =>
    match outcome with
    | .notWritten => (.error .io, files)
    | .crashed => (.error .io, { files with file := .present state })
    | .returned =>
      (.ok ({ state }, start, state.generationCeiling),
        { marker := .committed, file := .present state })

def stamp (revision : Nat) (bytes : Bytes) : Stamp := ⟨revision, enc.sha256 bytes⟩

/-- Identical persisted state may be installed once again after restart; conflicts never may. -/
def check (checkpoint : Checkpoint) (kind : SnapshotKind) (revision : Nat) (bytes : Bytes) :
    Except PeerError Bool :=
  match checkpoint.state.stamps[kind]? with
  | none => .ok true
  | some previous =>
    if revision < previous.revision
        || (revision = previous.revision && stamp enc revision bytes ≠ previous) then
      .error (.checkpoint "older revision or conflicting signed contents")
    else .ok !(stamp enc revision bytes = previous && checkpoint.applied.contains kind)

def write (state : State) (stored : Bool) : Except PeerError Unit := do
  rejectIf (state.subjects.size > MAX_SUBJECTS || state.authorities.size > MAX_AUTHORITIES)
    (.checkpoint "revocation history capacity exhausted")
  rejectIf (enc.jsonLength state > MAX_BYTES) (.checkpoint "state too large")
  rejectIf (!stored) .io

/-- The revocations a snapshot of its kind makes sticky. -/
def revoke (state : State) (kind : SnapshotKind) (revoked : List CredentialSerial) :
    Except PeerError State :=
  match kind with
  | .revocations => .ok { state with subjects := state.subjects.insertMany revoked }
  | .authorities => .ok { state with authorities := state.authorities.insertMany revoked }
  | _ => if revoked.isEmpty then .ok state else .error .invalidConfig

def commit (checkpoint : Checkpoint) (kind : SnapshotKind) (revision : Nat) (bytes : Bytes)
    (now : Nat) (revoked : List CredentialSerial) (stored : Bool) : Except PeerError Checkpoint := do
  let _ ← checkpoint.check enc kind revision bytes
  let stamped := { checkpoint.state with
    stamps := checkpoint.state.stamps.insert kind (stamp enc revision bytes)
    timeFloor := max checkpoint.state.timeFloor now }
  let next ← revoke stamped kind revoked
  write enc next stored
  return { state := next, applied := checkpoint.applied.insert kind }

def advanceExpiryFloor (checkpoint : Checkpoint) (now : Nat) (stored : Bool) :
    Except PeerError Checkpoint := do
  if now ≤ checkpoint.state.timeFloor then return checkpoint
  else
    let next := { checkpoint.state with timeFloor := now }
    write enc next stored
    return { checkpoint with state := next }

def ready (checkpoint : Checkpoint) (includePolicy : Bool) : Bool :=
  [SnapshotKind.peers, .revocations].all checkpoint.applied.contains
    && (!includePolicy || checkpoint.applied.contains .policy)
    && ([SnapshotKind.authorities, .policy].filter fun kind => includePolicy || kind ≠ .policy).all
      fun kind => !checkpoint.state.stamps.contains kind || checkpoint.applied.contains kind

def commitAuthorization (checkpoint : Checkpoint) (floor : AuthorizationFloor) (stored : Bool) :
    Except PeerError Checkpoint := do
  let current := checkpoint.state.authorization
  rejectIf (floor.configurationVersion < current.configurationVersion
    || floor.leaseSequence < current.leaseSequence) (.checkpoint "authorization rollback")
  let next := { checkpoint.state with
    authorization := floor
    timeFloor := max checkpoint.state.timeFloor floor.timeFloor }
  write enc next stored
  return { checkpoint with state := next }

end Checkpoint

end Peerward.PeerCore
