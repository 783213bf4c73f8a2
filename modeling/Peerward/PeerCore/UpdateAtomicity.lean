import Peerward.PeerCore.DirectoryRuns
import Peerward.PeerCore.Updates

/-!
# Whether a failed update leaves the runtime alone

An update that fails before it is stored changes nothing, and one that fails while it is published
closes the runtime. The try of the pending configuration comes last, when everything is committed:
the delivery has been taken out of its slot by then, and a refusal is reported as the update's own.

The try depends on the runtime through its `Waiting` part only, and what an update does to that part
is a function of the state before it.
-/

namespace Peerward.PeerCore

open Std Peerward.Lib Peerward.Directory
open Peerward.Credentials
open Peerward.Management
open Peerward.Types (CredentialSerial Key)

namespace WireguardRuntime

variable {out : Outside} {s s' : WireguardRuntime} {env : UpdateSurroundings} {op : Update}

/-! ## What a pending configuration waits for

A delivery waits until the parts it names are there. Whether it is taken, kept waiting or refused depends
on a few fields of the runtime, and only those are followed through an update.
-/

/-- The part of the runtime that the pending configuration is checked against. -/
structure Waiting where
  parts : Parts
  pending : Option ConfigurationDelivery
  key : Key
  mesh : Types.MeshId
  clock : LeaseClock
  active : Bool
  suspendUpper : Int

def waiting (s : WireguardRuntime) : Waiting where
  parts := s.configurationParts
  pending := s.pendingConfiguration
  key := s.configurationKey
  mesh := s.mesh
  clock := s.configurationClock
  active := s.configurationActive
  suspendUpper := s.suspendUpper

namespace Waiting

/-- A snapshot with a new stamp withdraws the configuration in force. -/
def stamped (out : Outside) (w : Waiting) (kind : SnapshotKind) (version : Nat) (bytes : Bytes) :
    Waiting :=
  if restamps out w.parts kind version bytes then
    { w with
      parts := stampedParts out w.parts kind version bytes
      active := false
      clock := w.clock.invalidate }
  else w

def slept (w : Waiting) (at_ : Surroundings) : Waiting :=
  let (resumed, upper) := observeSleep w.suspendUpper at_.slept
  if resumed then { w with suspendUpper := upper, active := false, clock := w.clock.suspend }
  else { w with suspendUpper := upper }

def expired (w : Waiting) (wall : Nat) (at_ : Surroundings) : Waiting :=
  if w.active then
    { w with active := (w.clock.valid wall at_.instant).1, clock := (w.clock.valid wall at_.instant).2 }
  else w

end Waiting

/-! ## What the operations do to it -/

/-- What the stamp of an update is made of. -/
def Update.snapshot (out : Outside) : Update → Snapshot
  | .installDirectory signed _ => directorySnapshot out signed
  | .installPolicy signed => policySnapshot out signed
  | .revoke signed _ => revocationSnapshot out signed
  | .authorities signed _ => authoritySnapshot out signed

/-- The signed object verifies against the tables in force. -/
def Update.verifies (out : Outside) (s : WireguardRuntime) : Update → Bool
  | .installDirectory signed now => (s.directory.install out.crypto signed now).1.isOk
  | .installPolicy signed => (s.policy.verifyPolicy signed).isOk
  | .revoke signed now => (s.directory.revoke signed now).1.isOk
  | .authorities signed now => (s.directory.authorities out.crypto signed now).1.isOk

/-- A snapshot that is encoded, new and verified. -/
def Acceptable (out : Outside) (s : WireguardRuntime) (snapshot : Snapshot) (verified : Bool) : Prop :=
  ∃ bytes, snapshot.encoded = .ok bytes ∧
    s.needsUpdate out snapshot.kind snapshot.revision bytes = .ok true ∧ verified = true

/-- The update passes every check that is made before it is stored. -/
def Accepted (out : Outside) (s : WireguardRuntime) (op : Update) : Prop :=
  Acceptable out s (op.snapshot out) (op.verifies out s)

/-- What an update does to what waits: its stamp, and a prune unless it is a policy. -/
def Waiting.after (out : Outside) (w : Waiting) (env : UpdateSurroundings) (op : Update)
    (bytes : Bytes) : Waiting :=
  let stamped := w.stamped out (op.snapshot out).kind (op.snapshot out).revision bytes
  match op with
  | .installPolicy _ => stamped
  | .installDirectory _ now | .revoke _ now | .authorities _ now =>
    (stamped.slept env.reconciling).expired now env.reconciling

/-- How an update stands when it comes to the try: refused, with the runtime left alone; accepted, and
failed with the runtime closed; or committed, with what waits as `after` says. -/
def Outcome (s : WireguardRuntime) (called : Except PeerError Bool × WireguardRuntime)
    (accepted : Prop) (encoded : Except PeerError Bytes) (wall : WireguardRuntime → Nat)
    (after : Bytes → Waiting) : Prop :=
  (¬ accepted ∧ ((∃ failure, called = (.error failure, s)) ∨ called = (.ok false, s))) ∨
    accepted ∧ ((∃ failure s', called = (.error failure, s') ∧ s'.closed = true) ∨
      ∃ bytes s', encoded = .ok bytes ∧ called = (.ok true, s') ∧ wall s' = wall s ∧
        s'.waiting = after bytes)

/-- The tables an update may replace, the stamps of the checkpoint and the configuration's parts. -/
def SameTables (s s' : WireguardRuntime) : Prop :=
  s'.directory = s.directory ∧ s'.policy.state.peers = s.policy.state.peers ∧
    s'.policy.directoryRevision = s.policy.directoryRevision ∧
    s'.policy.state.policy = s.policy.state.policy ∧
    s'.policy.state.policyRevision = s.policy.state.policyRevision ∧
    s'.checkpoint.map (·.state.stamps) = s.checkpoint.map (·.state.stamps) ∧
    s'.configurationParts = s.configurationParts ∧
    s'.pendingConfiguration = s.pendingConfiguration

theorem SameTables.refl (s : WireguardRuntime) : SameTables s s :=
  ⟨rfl, rfl, rfl, rfl, rfl, rfl, rfl, rfl⟩

end WireguardRuntime

end Peerward.PeerCore
