import Peerward.Directory.Signing
import Peerward.Lib.Run
import Peerward.Policy.Document
import Peerward.Wireguard.Engine

/-!
# Relay sessions and credential rotation

`SessionManager` holds a Peer's primary and standby Relay session, the credential serial it speaks
for and a staged replacement. Revocations arrive one serial at a time (`revoke`) or as a signed set
(`apply_revocations`).

A revocation is permanent: what a run has revoked is a fact of its history, whatever the `revoked`
set says later. The sessions keep to it exactly when `attach` and `activate_rotation` are called
only for serials the history has not revoked; neither checks.
-/

namespace Peerward.PeerCore

open Std Peerward.Lib Peerward.Directory
open Peerward.Credentials (Crypto CredentialError)
open Peerward.Types (AttachmentId CredentialSerial)

/-- The failures of the Peer runtime that the modelled operations report. -/
inductive PeerError where
  | invalidConfig
  | directory (failure : DirectoryError)
  | checkpoint (reason : String)
  | noRelay
  | invalidPacket
  | policyDenied
  | queueFull
  | noRoute
  | closed
  | revoked
  | credential (failure : CredentialError)
  | policy (failure : IdentityPolicy.PolicyError)
  | packetRuntime (failure : Wireguard.EngineError)
  | io
  deriving DecidableEq

/-- Primary or warm-standby Relay role. -/
inductive AttachmentRole where
  | primary
  | standby
  deriving DecidableEq

/-- Health and fencing state for one Relay connection. -/
structure RelaySession where
  relayId : Types.RelayId
  attachmentId : AttachmentId
  role : AttachmentRole
  fencingGeneration : Int
  rttMillis : Option Nat
  missedKeepalives : Nat
  connected : Bool
  deriving DecidableEq

/-- Staged credential replacement state. -/
inductive RotationState where
  | active (serial : CredentialSerial)
  | staged (current replacement : CredentialSerial)
  deriving DecidableEq

structure SessionManager where
  meshId : Types.MeshId
  verifier : DirectoryPublicKey
  peerRevision : Option Nat := none
  revocationRevision : Option Nat := none
  primary : Option RelaySession := none
  standby : Option RelaySession := none
  packets : List Bytes := []
  packetCapacity : Nat
  unhealthyAfter : Nat
  rotation : RotationState
  revoked : ExtTreeSet CredentialSerial := ∅
  closed : Bool := false

/-- The `?` on a `DirectoryError`. -/
def ofDirectory {α : Type} : Except DirectoryError α → Except PeerError α
  | .ok a => .ok a
  | .error failure => .error (.directory failure)

namespace SessionManager

/-- Starts disconnected with one active credential. -/
def new (meshId : Types.MeshId) (verifier : DirectoryPublicKey) (credential : CredentialSerial)
    (packetCapacity unhealthyAfter : Nat) : Except PeerError SessionManager :=
  if packetCapacity = 0 ∨ unhealthyAfter = 0 then .error .invalidConfig
  else .ok { meshId, verifier, packetCapacity, unhealthyAfter, rotation := .active credential }

def activeSerial (s : SessionManager) : CredentialSerial :=
  match s.rotation with
  | .active serial => serial
  | .staged current _ => current

/-- `self.primary = None; self.standby = None`. -/
def dropSessions (s : SessionManager) : SessionManager := { s with primary := none, standby := none }

/-- Installs an authenticated primary or warm standby. -/
def attach (s : SessionManager) (session : RelaySession) :
    Except PeerError Unit × SessionManager :=
  if s.closed then (.error .closed, s)
  else match session.role with
    | .primary => (.ok (), { s with primary := some session })
    | .standby => (.ok (), { s with standby := some session })

/-- Applies a strictly newer signed Peer directory. -/
def applyPeers (crypto : Crypto) (s : SessionManager) (update : SignedPeerDirectory) :
    Except PeerError Unit × SessionManager :=
  match s.verifier.verifyPeers crypto update s.meshId s.peerRevision with
  | .error failure => (.error (.directory failure), s)
  | .ok () => (.ok (), { s with peerRevision := some update.directory.revision })

/-- Applies a complete, strictly newer signed exact-revocation set. -/
def applyRevocations (s : SessionManager) (update : SignedRevocationBundle) :
    Except PeerError Bool × SessionManager :=
  match s.verifier.verifyRevocations update s.meshId s.revocationRevision with
  | .error failure => (.error (.directory failure), s)
  | .ok () =>
    let s := { s with
      revocationRevision := some update.bundle.revision
      revoked := ExtTreeSet.ofList update.bundle.serials }
    if s.revoked.contains s.activeSerial then (.ok true, s.dropSessions) else (.ok false, s)

/-- Marks one missing reply and promotes a healthy standby when needed. -/
def missKeepalive (s : SessionManager) (relay : Types.RelayId) : Except PeerError Bool × SessionManager :=
  match s.primary with
  | none => (.error .noRelay, s)
  | some primary =>
    if primary.relayId ≠ relay then (.ok false, s)
    else
      let primary := { primary with missedKeepalives := min (primary.missedKeepalives + 1) 255 }
      if primary.missedKeepalives < s.unhealthyAfter then
        (.ok false, { s with primary := some primary })
      else
        let primary := { primary with connected := false }
        -- `take` empties the standby slot even when the session in it is not connected
        match s.standby.filter (·.connected) with
        | none => (.error .noRelay, { s with primary := some primary, standby := none })
        | some promoted =>
          (.ok true, { s with
            primary := some { promoted with role := .primary }
            standby := some { primary with role := .standby } })

/-- Adds one complete IPv4 or IPv6 packet. -/
def enqueuePacket (s : SessionManager) (packet : Bytes) : Except PeerError Unit × SessionManager :=
  if s.closed then (.error .closed, s)
  else if !packet.head?.any (fun first : UInt8 => first >>> 4 = 4 || first >>> 4 = 6)
      || s.packets.length = s.packetCapacity then (.error .queueFull, s)
  else (.ok (), { s with packets := s.packets ++ [packet] })

/-- Takes the next packet for the primary transport. -/
def dequeuePacket (s : SessionManager) : Except PeerError (Option Bytes) × SessionManager :=
  if !s.primary.any (·.connected) then (.error .noRelay, s)
  else (.ok s.packets.head?, { s with packets := s.packets.tail })

/-- Stages a distinct exact serial while retaining the current credential. -/
def stageRotation (s : SessionManager) (replacement : CredentialSerial) :
    Except PeerError Unit × SessionManager :=
  if s.revoked.contains replacement || s.activeSerial = replacement then (.error .revoked, s)
  else (.ok (), { s with rotation := .staged s.activeSerial replacement })

/-- Activates the staged replacement. -/
def activateRotation (s : SessionManager) : Except PeerError CredentialSerial × SessionManager :=
  match s.rotation with
  | .active _ => (.error .revoked, s)
  | .staged _ replacement => (.ok replacement, { s with rotation := .active replacement })

/-- Revokes exactly one serial and disconnects only when it is active. -/
def revoke (s : SessionManager) (serial : CredentialSerial) :
    Except PeerError Unit × SessionManager :=
  let s := { s with revoked := s.revoked.insert serial }
  if s.activeSerial = serial then (.error .revoked, s.dropSessions) else (.ok (), s)

/-- Stops accepting packets and clears queued plaintext. -/
def gracefulShutdown (s : SessionManager) : SessionManager :=
  { s with closed := true, packets := [], primary := none, standby := none }

/-! ## Runs

The history of a manager: which serials were revoked, and when sessions were held. The property compares
the two at every state of a run.
-/

inductive Op where
  | attach (session : RelaySession)
  | applyPeers (update : SignedPeerDirectory)
  | applyRevocations (update : SignedRevocationBundle)
  | missKeepalive (relay : Types.RelayId)
  | enqueuePacket (packet : Bytes)
  | dequeuePacket
  | stageRotation (replacement : CredentialSerial)
  | activateRotation
  | revoke (serial : CredentialSerial)
  | gracefulShutdown

section Runs

variable (crypto : Crypto)

def step (s : SessionManager) : Op → SessionManager
  | .attach session => (s.attach session).2
  | .applyPeers update => (s.applyPeers crypto update).2
  | .applyRevocations update => (s.applyRevocations update).2
  | .missKeepalive relay => (s.missKeepalive relay).2
  | .enqueuePacket packet => (s.enqueuePacket packet).2
  | .dequeuePacket => s.dequeuePacket.2
  | .stageRotation replacement => (s.stageRotation replacement).2
  | .activateRotation => s.activateRotation.2
  | .revoke serial => (s.revoke serial).2
  | .gracefulShutdown => s.gracefulShutdown

/-- A primary or standby session is held. -/
def Held (s : SessionManager) : Prop := s.primary.isSome = true ∨ s.standby.isSome = true

/-- The operation revokes the serial: it names it, or it is a bundle that is accepted and lists it. -/
def Revokes (serial : CredentialSerial) (s : SessionManager) : Op → Prop
  | .revoke revoked => revoked = serial
  | .applyRevocations update =>
      (s.applyRevocations update).1.isOk = true ∧ serial ∈ update.bundle.serials
  | _ => False

/-- Some operation of the run revoked the serial. -/
def Revoked (start : SessionManager) (ops : List Op) (serial : CredentialSerial) : Prop :=
  Happened (step crypto) start (Revokes serial) ops

/-- After this history no session is held under a revoked serial. -/
def SessionsCurrent (start : SessionManager) (ops : List Op) : Prop :=
  Held (exec (step crypto) start ops) →
    ¬ Revoked crypto start ops (exec (step crypto) start ops).activeSerial

/-- An operation that activates a serial activates one the history has not revoked. -/
def ActivatesCurrent (start : SessionManager) (ops : List Op) (op : Op) : Prop :=
  op = .activateRotation → ∀ serial,
    (exec (step crypto) start ops).activateRotation.1 = .ok serial → ¬ Revoked crypto start ops serial

/-- `attach` and `activate_rotation` are called only for a serial the history has not revoked; a
closed manager refuses `attach` and an unstaged one `activate_rotation` by itself. -/
def CallerChecks (start : SessionManager) (ops : List Op) : Op → Prop
  | .attach _ => (exec (step crypto) start ops).closed = true ∨
      ¬ Revoked crypto start ops (exec (step crypto) start ops).activeSerial
  | .activateRotation => ∀ current replacement,
      (exec (step crypto) start ops).rotation = .staged current replacement →
        ¬ Revoked crypto start ops replacement
  | _ => True

end Runs

/-! ## One step

Only `attach` brings a session to a manager without one, and only an activation changes the serial. Every
other operation keeps the property, and a revocation of the active serial drops the sessions.
-/

variable {crypto : Crypto} {s start : SessionManager} {ops : List Op} {op : Op}

/-- Only a successful activation changes which serial is active. -/
theorem activeSerial_step (h : op ≠ .activateRotation) :
    (step crypto s op).activeSerial = s.activeSerial := by
  cases op with
  | activateRotation => exact absurd rfl h
  | attach session =>
      show (s.attach session).2.activeSerial = _
      unfold attach
      split
      · rfl
      · split <;> rfl
  | applyPeers update =>
      show (s.applyPeers crypto update).2.activeSerial = _
      unfold applyPeers
      split <;> rfl
  | applyRevocations update =>
      show (s.applyRevocations update).2.activeSerial = _
      unfold applyRevocations
      split
      · rfl
      · dsimp only
        split <;> rfl
  | missKeepalive relay =>
      show (s.missKeepalive relay).2.activeSerial = _
      unfold missKeepalive
      split
      · rfl
      · split
        · rfl
        · dsimp only
          split
          · rfl
          · split <;> rfl
  | enqueuePacket packet =>
      show (s.enqueuePacket packet).2.activeSerial = _
      unfold enqueuePacket
      split
      · rfl
      · split <;> rfl
  | dequeuePacket =>
      show s.dequeuePacket.2.activeSerial = _
      unfold dequeuePacket
      split <;> rfl
  | stageRotation replacement =>
      show (s.stageRotation replacement).2.activeSerial = _
      unfold stageRotation
      split <;> rfl
  | revoke serial =>
      show (s.revoke serial).2.activeSerial = _
      unfold revoke
      dsimp only
      split <;> rfl
  | gracefulShutdown => rfl

/-- Only `attach` gives a session to a manager that holds none. -/
theorem held_of_held_step (h : ∀ session, op ≠ .attach session) (hheld : Held (step crypto s op)) :
    Held s := by
  cases op with
  | attach session => exact absurd rfl (h session)
  | applyPeers update =>
      change Held (s.applyPeers crypto update).2 at hheld
      unfold applyPeers at hheld
      split at hheld <;> exact hheld
  | applyRevocations update =>
      change Held (s.applyRevocations update).2 at hheld
      unfold applyRevocations at hheld
      split at hheld
      · exact hheld
      · dsimp only at hheld
        split at hheld
        · simp [Held, dropSessions] at hheld
        · exact hheld
  | missKeepalive relay =>
      change Held (s.missKeepalive relay).2 at hheld
      unfold missKeepalive at hheld
      split at hheld
      · exact hheld
      · rename_i hprimary
        exact .inl (by rw [hprimary]; rfl)
  | enqueuePacket packet =>
      change Held (s.enqueuePacket packet).2 at hheld
      unfold enqueuePacket at hheld
      split at hheld
      · exact hheld
      · split at hheld <;> exact hheld
  | dequeuePacket =>
      change Held s.dequeuePacket.2 at hheld
      unfold dequeuePacket at hheld
      split at hheld <;> exact hheld
  | stageRotation replacement =>
      change Held (s.stageRotation replacement).2 at hheld
      unfold stageRotation at hheld
      split at hheld <;> exact hheld
  | activateRotation =>
      change Held s.activateRotation.2 at hheld
      unfold activateRotation at hheld
      split at hheld <;> exact hheld
  | revoke serial =>
      change Held (s.revoke serial).2 at hheld
      unfold revoke at hheld
      dsimp only at hheld
      split at hheld
      · simp [Held, dropSessions] at hheld
      · exact hheld
  | gracefulShutdown => simp [step, Held, gracefulShutdown] at hheld

/-- An operation that revokes the active serial drops every session. -/
theorem not_held_of_revokes (h : Revokes s.activeSerial s op) : ¬ Held (step crypto s op) := by
  cases op with
  | revoke serial =>
      have hserial : serial = s.activeSerial := h
      show ¬ Held (s.revoke serial).2
      have hif : ({ s with revoked := s.revoked.insert serial } : SessionManager).activeSerial
          = serial := hserial.symm
      simp [revoke, hif, Held, dropSessions]
  | applyRevocations update =>
      obtain ⟨hok, hmem⟩ := h
      show ¬ Held (s.applyRevocations update).2
      unfold applyRevocations at hok ⊢
      split at hok
      · cases hok
      · rename_i hverified
        have hcontains : (ExtTreeSet.ofList update.bundle.serials).contains s.activeSerial = true := by
          simpa using hmem
        show ¬ Held (if (ExtTreeSet.ofList update.bundle.serials).contains s.activeSerial
          then _ else _ : Except PeerError Bool × SessionManager).2
        rw [if_pos hcontains]
        simp [Held, dropSessions]
  | _ => exact h.elim

/-- Apart from `attach` and `activate_rotation`, no operation brings a revoked serial together with
a session. -/
theorem SessionsCurrent.concat (hattach : ∀ session, op ≠ .attach session)
    (hactivate : op ≠ .activateRotation) (h : SessionsCurrent crypto start ops) :
    SessionsCurrent crypto start (ops ++ [op]) := by
  intro hheld hrevoked
  rw [exec_concat] at hheld hrevoked
  rw [activeSerial_step hactivate] at hrevoked
  rcases happened_concat.mp hrevoked with hbefore | hnow
  · exact h (held_of_held_step hattach hheld) hbefore
  · exact not_held_of_revokes hnow hheld

/-- An operation the caller has checked keeps the sessions current. -/
theorem SessionsCurrent.concat_of_checked (hchecks : CallerChecks crypto start ops op)
    (h : SessionsCurrent crypto start ops) : SessionsCurrent crypto start (ops ++ [op]) := by
  have hquiet : ∀ serial, (∀ s, ¬ Revokes serial s op) →
      (Revoked crypto start (ops ++ [op]) serial ↔ Revoked crypto start ops serial) := by
    intro serial hop
    refine ⟨fun hrev => ?_, fun hrev => happened_concat.mpr (.inl hrev)⟩
    exact (happened_concat.mp hrev).resolve_right (hop _)
  cases hop : op with
  | attach session =>
      subst hop
      intro hheld
      rw [hquiet _ fun _ => id, exec_concat]
      rw [exec_concat] at hheld
      rw [activeSerial_step (by intro hne; cases hne)]
      rcases hchecks with hclosed | hcurrent
      · -- a closed manager is left as it is
        have hsame : step crypto (exec (step crypto) start ops) (.attach session)
            = exec (step crypto) start ops := by
          show (attach _ session).2 = _
          rw [attach, if_pos hclosed]
        rw [hsame] at hheld
        exact h hheld
      · exact hcurrent
  | activateRotation =>
      subst hop
      intro hheld
      rw [hquiet _ fun _ => id, exec_concat]
      rw [exec_concat] at hheld
      cases hrotation : (exec (step crypto) start ops).rotation with
      | active serial =>
          have hsame : step crypto (exec (step crypto) start ops) .activateRotation
              = exec (step crypto) start ops := by
            show (activateRotation _).2 = _
            rw [activateRotation, hrotation]
          rw [hsame] at hheld ⊢
          exact h hheld
      | staged current replacement =>
          have hactive : (step crypto (exec (step crypto) start ops)
              .activateRotation).activeSerial = replacement := by
            show (activateRotation _).2.activeSerial = _
            rw [activateRotation, hrotation]
            rfl
          rw [hactive]
          exact hchecks current replacement hrotation
  | applyPeers _ | applyRevocations _ | missKeepalive _ | enqueuePacket _ | dequeuePacket
  | stageRotation _ | revoke _ | gracefulShutdown =>
      subst hop
      exact h.concat (fun _ hne => by cases hne) (by intro hne; cases hne)

/-- A step that keeps to the property was checked by its caller. -/
theorem callerChecks_of_current (hcurrent : SessionsCurrent crypto start (ops ++ [op]))
    (hactivates : ActivatesCurrent crypto start ops op) : CallerChecks crypto start ops op := by
  cases op with
  | attach session =>
      by_cases hclosed : (exec (step crypto) start ops).closed = true
      · exact .inl hclosed
      · refine .inr fun hrevoked => ?_
        refine hcurrent ?_ (happened_concat.mpr (.inl ?_))
        · rw [exec_concat]
          show Held (attach _ session).2
          rw [attach, if_neg hclosed]
          cases session.role
          · exact .inl rfl
          · exact .inr rfl
        · rw [exec_concat, activeSerial_step (by intro hne; cases hne)]
          exact hrevoked
  | activateRotation =>
      intro current replacement hstaged
      refine hactivates rfl replacement ?_
      rw [activateRotation, hstaged]
  | _ => exact trivial

/-! ## Every run

The condition is on those two operations alone: that their serial was not revoked when they were called.
-/

/-- **Revoked credentials and sessions.** Over a run, no session is ever held
under a revoked serial and no revoked serial is ever activated, exactly if every `attach` and
`activate_rotation` of the run is called for a serial that the run has not revoked. -/
theorem sessions_never_outlive_revocation_iff (crypto : Crypto) (start : SessionManager)
    (ops : List Op) :
    (∀ before, before <+: ops → SessionsCurrent crypto start before) ∧
        Along (ActivatesCurrent crypto start) ops ↔
      Along (CallerChecks crypto start) ops := by
  induction ops using List.reverseRecOn with
  | nil =>
      refine ⟨fun _ => along_nil, fun _ => ⟨fun before hbefore => ?_, along_nil⟩⟩
      rw [List.prefix_nil.mp hbefore]
      exact fun _ => happened_nil
  | append_singleton ops op ih =>
      rw [along_concat, along_concat]
      constructor
      · rintro ⟨hprefixes, halong, hactivates⟩
        refine ⟨ih.mp ⟨fun before hbefore => ?_, halong⟩, ?_⟩
        · exact hprefixes before (hbefore.trans (List.prefix_append _ _))
        · exact callerChecks_of_current (hprefixes _ List.prefix_rfl) hactivates
      · rintro ⟨hops, hchecks⟩
        obtain ⟨hprefixes, halong⟩ := ih.mpr hops
        have hcurrent := hprefixes ops List.prefix_rfl
        refine ⟨fun before hbefore => ?_, halong, ?_⟩
        · rcases List.prefix_concat_iff.mp hbefore with heq | hshorter
          · rw [heq]
            exact hcurrent.concat_of_checked hchecks
          · exact hprefixes before hshorter
        · rintro rfl serial hok
          cases hrotation : (exec (step crypto) start ops).rotation with
          | active active => rw [activateRotation, hrotation] at hok; cases hok
          | staged current replacement =>
              rw [activateRotation, hrotation] at hok
              exact Except.ok.inj hok ▸ hchecks current replacement hrotation

/-- Two serials, and a session to attach. -/
def serialA : CredentialSerial := ⟨0x00000000000040008000000000000001#128, Types.random_one⟩
def serialB : CredentialSerial := ⟨0x00000000000040008000000000000002#128, Types.random_two⟩

def someSession : RelaySession where
  relayId := serialA
  attachmentId := serialA
  role := .primary
  fencingGeneration := 1
  rttMillis := none
  missedKeepalives := 0
  connected := true

/-- Verification that refuses every signature. -/
def refuseAll : Crypto :=
  ⟨fun _ _ _ => false, fun _ _ _ => false, fun _ _ _ => false, fun _ _ _ => false, fun _ => false⟩

/-- A revoked active serial gets a new session, and a staged serial that is revoked before its
activation becomes active under the session held. -/
theorem revocation_is_outlived : ∃ start,
    new serialA ⟨fun _ _ => false, fun _ _ => false, fun _ _ => false⟩ serialA 1 1 = .ok start ∧
      ¬ SessionsCurrent refuseAll start [.revoke serialA, .attach someSession] ∧
      ¬ SessionsCurrent refuseAll start
          [.attach someSession, .stageRotation serialB, .revoke serialB, .activateRotation] ∧
      ¬ ActivatesCurrent refuseAll start
          [.attach someSession, .stageRotation serialB, .revoke serialB] .activateRotation := by
  refine ⟨_, rfl, ?_, ?_, ?_⟩
  · intro h
    refine h (.inl (by decide)) ?_
    exact ⟨[], .revoke serialA, [.attach someSession], rfl, by show serialA = _; decide⟩
  · intro h
    refine h (.inl (by decide +kernel)) ?_
    refine ⟨[.attach someSession, .stageRotation serialB], .revoke serialB, [.activateRotation],
      rfl, ?_⟩
    show serialB = _
    decide +kernel
  · intro h
    refine h rfl serialB (by decide +kernel) ?_
    exact ⟨[.attach someSession, .stageRotation serialB], .revoke serialB, [], rfl, rfl⟩

end SessionManager

end Peerward.PeerCore
