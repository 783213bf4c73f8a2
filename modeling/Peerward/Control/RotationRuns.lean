import Peerward.Control.Rotations

/-!
# A Peer is never locked out of rotating

A request row and the credential issued for it are linked by a serial only. `Drivable` says that they
agree: an issued request names a staged credential, and a pending one can still be inserted. It holds
along every run that does not move the staged credential of an issued request, and that stores no
request the worker cannot issue.
-/

namespace Peerward.Control

open Peerward.Lib
open Peerward.Credentials (RotationActivationProof RotationCrypto RotationId RotationRequestProof
  SubjectCredential verifyRotationActivation verifyRotationRequest)
open Peerward.Net (saturatingAdd)
open Peerward.Store
open Peerward.Types (CredentialSerial MeshId PeerId)

variable {crypto : RotationCrypto} {s s' : CredentialStore} {now : Timestamp} {request : RotationRow}

/-- Requests and credentials agree. -/
structure Drivable (s : CredentialStore) : Prop where
  issued : ∀ request ∈ s.rotations, request.status = .issued → ∃ row ∈ s.credentials,
    request.issuedSerial = some row.serial ∧ row.peerId = request.peerId ∧ row.lifecycle = .staged
  pending : ∀ request ∈ s.rotations, request.status = .pending → claimed s request = false

/-- An operation that leaves requests and credentials in agreement. -/
def KeepsDrivable (s : CredentialStore) : CredentialOp → Prop
  | .transition serial lifecycle => lifecycle = .active ∨ lifecycle = .revoked →
      ∀ request ∈ s.rotations, request.status = .issued → request.issuedSerial ≠ some serial
  | .request proof _ _ => (∃ request ∈ s.rotations, request.id = proof.rotationId) ∨
      ∀ row ∈ s.credentials, row.peerId = proof.peerId → row.publicKey ≠ proof.sessionPublicKey
  | .join _ enrollment _ => ∀ request ∈ s.rotations, request.status = .pending →
      request.requestedWireguardPublicKey ≠ enrollment.wireguardPublicKey
  | .bulkDisable ids => ∀ request ∈ s.rotations, request.status = .issued → request.peerId ∉ ids
  | _ => True

/-! ## One operation

An operation that touches no staged credential of an issued request, and closes requests rather than
opening them, keeps the agreement. That leaves few operations to look at, and the conditions of
`KeepsDrivable` are about those.
-/

/-- The keys of a table do not change under updates of the lifecycle columns. -/
theorem claimed_map {f : PeerCredentialRow → PeerCredentialRow} (hf : KeepsCredential f)
    (h : s'.credentials = s.credentials.map f) : claimed s' request = claimed s request := by
  rw [claimed, claimed, h, List.any_map]
  congr 1
  funext row
  obtain ⟨hpeer, -, -, hpublic, hwireguard, -, -⟩ := hf row
  simp only [Function.comp_apply, hpeer, hpublic, hwireguard]

theorem KeepsCredential.ite {f : PeerCredentialRow → PeerCredentialRow} (hf : KeepsCredential f)
    (p : PeerCredentialRow → Bool) : KeepsCredential fun row => if p row then f row else row := by
  intro row
  dsimp only
  split
  · exact hf row
  · exact ⟨rfl, rfl, rfl, rfl, rfl, rfl, rfl⟩

theorem keepsCredential_replaceRow (now : Timestamp) (rotationOverlapSeconds : Nat) (peer : PeerId)
    (serial : CredentialSerial) :
    KeepsCredential (CredentialStore.replaceRow now rotationOverlapSeconds peer serial) := by
  intro row
  unfold CredentialStore.replaceRow
  repeat' split
  all_goals exact ⟨rfl, rfl, rfl, rfl, rfl, rfl, rfl⟩

/-- Fewer rows claim less. -/
theorem claimed_of_subset (h : ∀ row ∈ s'.credentials, row ∈ s.credentials)
    (hclaim : claimed s request = false) : claimed s' request = false := by
  obtain ⟨hsession, hwireguard⟩ := claimed_eq_false.mp hclaim
  exact claimed_eq_false.mpr ⟨fun row hrow => hsession row (h row hrow),
    fun row hrow => hwireguard row (h row hrow)⟩

namespace Drivable

/-- Only the credentials and the requests count. -/
theorem congr (h : Drivable s) (hc : s'.credentials = s.credentials) (hr : s'.rotations = s.rotations) :
    Drivable s' := by
  refine ⟨fun request hmem hstatus => ?_, fun request hmem hstatus => ?_⟩
  · rw [hr] at hmem
    rw [hc]
    exact h.issued request hmem hstatus
  · rw [hr] at hmem
    have := h.pending request hmem hstatus
    rwa [claimed, ← hc] at this

/-- An update that spares the staged credentials of issued requests. -/
theorem updateCredentials (h : Drivable s) {p : PeerCredentialRow → Bool}
    {f : PeerCredentialRow → PeerCredentialRow} (hf : KeepsCredential f)
    (hspare : ∀ request ∈ s.rotations, request.status = .issued → ∀ row ∈ s.credentials,
      request.issuedSerial = some row.serial → row.peerId = request.peerId → row.lifecycle = .staged →
      p row = false) :
    Drivable { s with credentials := updateWhere p f s.credentials } := by
  refine ⟨fun request hmem hstatus => ?_, fun request hmem hstatus => ?_⟩
  · obtain ⟨row, hrow, hserial, hpeer, hlife⟩ := h.issued request hmem hstatus
    exact ⟨row, mem_updateWhere_of_not hrow (hspare request hmem hstatus row hrow hserial hpeer hlife),
      hserial, hpeer, hlife⟩
  · rw [claimed_map (s := s) (KeepsCredential.ite hf p) rfl]
    exact h.pending request hmem hstatus

/-- An update that closes requests. -/
theorem updateRotations (h : Drivable s) {p : RotationRow → Bool} {f : RotationRow → RotationRow}
    (hclosed : ∀ row, (f row).isOpen = false) :
    Drivable { s with rotations := updateWhere p f s.rotations } := by
  have hold : ∀ row ∈ updateWhere p f s.rotations, row.isOpen = true → row ∈ s.rotations := by
    intro row hmem hopen
    rcases updateWhere_cases hmem with ⟨hold, -⟩ | ⟨old, -, -, rfl⟩
    · exact hold
    · rw [hclosed] at hopen
      cases hopen
  exact ⟨fun request hmem hstatus =>
      h.issued request (hold request hmem (by simp [RotationRow.isOpen, hstatus])) hstatus,
    fun request hmem hstatus =>
      h.pending request (hold request hmem (by simp [RotationRow.isOpen, hstatus])) hstatus⟩

theorem requestPeerRotation (h : Drivable s) {proof : RotationRequestProof} {signature challenge : Bytes}
    (hkeep : KeepsDrivable s (.request proof signature challenge))
    (hrun : s.requestPeerRotation crypto now proof signature challenge = .ok s') : Drivable s' := by
  rcases CredentialStore.requestPeerRotation_ok hrun with ⟨rfl, -⟩ | ⟨hnew, -, -, hreused, -, rfl⟩
  · exact h
  · refine ⟨fun request hmem hstatus => ?_, fun request hmem hstatus => ?_⟩
    · rcases List.mem_append.mp hmem with hmem | hmem
      · exact h.issued request hmem hstatus
      · rw [List.mem_singleton.mp hmem] at hstatus
        cases hstatus
    · rcases List.mem_append.mp hmem with hmem | hmem
      · exact h.pending request hmem hstatus
      · rw [List.mem_singleton.mp hmem]
        have hsession := hkeep.resolve_left fun ⟨row, hrow, hid⟩ => hnew row hrow hid
        refine claimed_eq_false.mpr ⟨hsession, fun row hrow hkey => ?_⟩
        -- the data key of a new request is in no credential: none was issued for it
        simp only [CredentialStore.reused, Bool.or_eq_false_iff, List.any_eq_false, Bool.and_eq_true,
          decide_eq_true_eq, Bool.not_eq_true', not_and] at hreused
        exact hreused.1 row hrow hkey fun other hother hid => absurd hid (hnew other hother)

theorem issueRotation (h : Drivable s) (hs : s.WellFormed crypto.toCrypto) {issuer : JoinIssuer}
    {started : Timestamp} {serial : CredentialSerial} (hmem : request ∈ s.rotations)
    (hrun : Control.issueRotation crypto.toCrypto s issuer started now request serial = .ok s') :
    Drivable s' := by
  rcases issueRotation_ok hrun with rfl | ⟨credential, peer, hpeer, hid, -, hrun⟩
  · exact h
  · rcases CredentialStore.issuePeerRotation_ok hrun with rfl | ⟨-, hpending, -, rfl⟩
    · exact h
    · have hstatus : request.status = .pending := by
        simp only [CredentialStore.isPending, List.any_eq_true, Bool.and_eq_true,
          decide_eq_true_eq] at hpending
        obtain ⟨row, hrow, ⟨hrowId, -⟩, hrowStatus⟩ := hpending
        rw [← hs.rotations.ids.eq hrow hmem rfl rfl hrowId]
        exact hrowStatus
      refine ⟨fun other hother hissued => ?_, fun other hother hpend => ?_⟩
      · rcases updateWhere_cases hother with ⟨hold, -⟩ | ⟨old, hold, hp, rfl⟩
        · obtain ⟨row, hrow, hrest⟩ := h.issued other hold hissued
          exact ⟨row, List.mem_append_left _ hrow, hrest⟩
        · simp only [Bool.and_eq_true, decide_eq_true_eq] at hp
          have heq : old = request := hs.rotations.ids.eq hold hmem rfl rfl hp.1
          refine ⟨_, List.mem_append_right _ (List.mem_singleton_self _), rfl, ?_, rfl⟩
          show request.peerId = old.peerId
          rw [heq]
      · rcases updateWhere_cases hother with ⟨hold, hp⟩ | ⟨old, -, -, rfl⟩
        · have hne : request ≠ other := by
            intro heq
            rw [← heq] at hp
            simp [hstatus] at hp
          have hopen : ∀ row : RotationRow, row.status = .pending → row.isOpen = true := fun row hrow => by
            simp [RotationRow.isOpen, hrow]
          have hapart : Apart request other := by
            refine ⟨fun heq => hne ?_, fun heq => hne ?_, fun heq => hne ?_⟩
            · exact hs.rotations.ids.eq hmem hold rfl rfl heq
            · exact hs.rotations.oneOpen.eq hmem hold (hopen request hstatus) (hopen other hpend) heq
            · exact hs.rotations.wireguards.eq hmem hold rfl rfl heq
          have hsame := claimed_issuedStore s issuer now credential hapart
          exact hsame.trans (h.pending other hold hpend)
        · cases hpend

theorem activatePeerRotation (h : Drivable s) (hs : s.WellFormed crypto.toCrypto) {peer : PeerId}
    {rotation : RotationId} {serial : CredentialSerial} {signature : Bytes} {result : Bool}
    (hrun : s.activatePeerRotation crypto now peer rotation serial signature = .ok (s', result)) :
    Drivable s' := by
  rcases CredentialStore.activatePeerRotation_ok hrun with rfl | ⟨-, hrequest, hstaged, rfl⟩
  · exact h
  · rw [CredentialStore.replaceRows_eq_map]
    refine ⟨fun other hother hissued => ?_, fun other hother hpend => ?_⟩
    · rcases updateWhere_cases hother with ⟨hold, hp⟩ | ⟨old, -, -, rfl⟩
      · obtain ⟨row, hrow, hserial, hpeer, hlife⟩ := h.issued other hold hissued
        have hkept : row.serial ≠ serial := by
          -- a second open request of the Peer would be the activated one
          intro heq
          obtain ⟨staged, hstagedMem, hstagedPeer, hstagedSerial, -⟩ := hstaged
          obtain ⟨activated, hmem, hid, hactivatedPeer, -, hstatus⟩ := hrequest
          have hrowEq : row = staged :=
            hs.credentials.serials.eq hrow hstagedMem rfl rfl (heq.trans hstagedSerial.symm)
          have hopen : ∀ row : RotationRow, row.status = .issued → row.isOpen = true := fun row hrow => by
            simp [RotationRow.isOpen, hrow]
          have hsame : other = activated := hs.rotations.oneOpen.eq hold hmem (hopen other hissued)
            (hopen activated hstatus) (by rw [← hpeer, hrowEq, hstagedPeer, hactivatedPeer])
          rw [hsame, hid, hstatus] at hp
          simp at hp
        have hself : CredentialStore.replaceRow now s.rotationOverlapSeconds peer serial row = row := by
          simp [CredentialStore.replaceRow, hlife, hkept]
        exact ⟨row, List.mem_map.mpr ⟨row, hrow, hself⟩, hserial, hpeer, hlife⟩
      · cases hissued
    · rcases updateWhere_cases hother with ⟨hold, -⟩ | ⟨old, -, -, rfl⟩
      · rw [claimed_map (s := s) (keepsCredential_replaceRow _ _ _ _) rfl]
        exact h.pending other hold hpend
      · cases hpend

theorem transitionPeerCredential (h : Drivable s) (hs : s.WellFormed crypto.toCrypto) {serial : CredentialSerial} {lifecycle : Lifecycle}
    (hkeep : KeepsDrivable s (.transition serial lifecycle))
    (hrun : s.transitionPeerCredential now serial lifecycle = .ok s') : Drivable s' := by
  obtain ⟨rows, hrows, rfl⟩ := CredentialStore.transitionPeerCredential_ok hrun
  obtain ⟨row, hmem, hserial, hcases⟩ := CredentialStore.transitionCredential_ok hrows
  -- the staged credential of an issued request does not carry the serial
  have hother : lifecycle = .active ∨ lifecycle = .revoked → ∀ request ∈ s.rotations,
      request.status = .issued → ∀ row : PeerCredentialRow, request.issuedSerial = some row.serial →
      row.serial ≠ serial := fun hl request hrequest hissued row hrowSerial heq =>
    hkeep hl request hrequest hissued (hrowSerial.trans (congrArg some heq))
  rcases hcases with ⟨-, rfl⟩ | ⟨rfl, -, rfl⟩ | ⟨-, hactive, rfl⟩ | ⟨rfl, -, rfl⟩
  · exact h
  · have hretired := h.updateCredentials
      (p := fun other => some other.peerId = some row.peerId && other.lifecycle = .active)
      (f := fun other => { other with
        toTerm := { other.retire now s.rotationOverlapSeconds with replacementId := some serial } })
      (keepsCredential_term fun _ => ⟨rfl, rfl⟩)
      fun _ _ _ other _ _ _ hlife => by simp [hlife]
    refine hretired.updateCredentials (p := fun other => other.serial = serial && other.lifecycle = .staged)
      (f := fun other => { other with toTerm := other.activate })
      (keepsCredential_term fun _ => ⟨rfl, rfl⟩) fun request hrequest hissued other _ hs' _ _ => ?_
    simp [hother (.inl rfl) request hrequest hissued other hs']
  · refine h.updateCredentials (p := fun other => other.serial = serial)
      (f := fun other => { other with toTerm := other.retire now s.rotationOverlapSeconds })
      (keepsCredential_term fun _ => ⟨rfl, rfl⟩) fun _ _ _ other hmem' _ _ hlife => ?_
    -- an active row is not the staged one
    refine decide_eq_false fun heq => ?_
    have hsame : other = row := hs.credentials.serials.eq hmem' hmem rfl rfl (heq.trans hserial.symm)
    rw [hsame] at hlife
    rw [show row.lifecycle = .active from hactive] at hlife
    cases hlife
  · refine h.updateCredentials (p := fun other => other.serial = serial && other.lifecycle ≠ .revoked)
      (f := fun other => { other with toTerm := other.revoke })
      (keepsCredential_term fun _ => ⟨rfl, rfl⟩) fun request hrequest hissued other _ hs' _ _ => ?_
    simp [hother (.inr rfl) request hrequest hissued other hs']

theorem revokePeerAccess (h : Drivable s) {peer : PeerId}
    (hrun : s.revokePeerAccess now peer = .ok s') : Drivable s' := by
  obtain rfl := CredentialStore.revokePeerAccess_ok hrun
  have hclosed := h.updateRotations (p := fun row => row.peerId = peer && row.isOpen)
    (f := (·.cancel now)) fun _ => rfl
  have hrevoked := hclosed.updateCredentials
    (p := fun row => row.peerId = peer && row.lifecycle ≠ .revoked) keepsCredential_revoked
    fun request hrequest hissued row _ _ hpeer _ => by
      rcases updateWhere_cases hrequest with ⟨-, hp⟩ | ⟨old, -, -, rfl⟩
      · have hopen : request.isOpen = true := by simp [RotationRow.isOpen, hissued]
        rw [hopen, Bool.and_true] at hp
        simp [hpeer, of_decide_eq_false hp]
      · cases hissued
  exact hrevoked.congr rfl rfl

theorem bulkDisablePeers (h : Drivable s) {ids : List PeerId}
    (hkeep : KeepsDrivable s (.bulkDisable ids)) (hrun : s.bulkDisablePeers ids = .ok s') :
    Drivable s' := by
  obtain rfl := CredentialStore.bulkDisablePeers_ok hrun
  have hrevoked := h.updateCredentials
    (p := fun row => row.peerId ∈ ids && row.lifecycle ≠ .revoked) keepsCredential_revoked
    fun request hrequest hissued row _ _ hpeer _ => by simp [hpeer, hkeep request hrequest hissued]
  exact hrevoked.congr rfl rfl

theorem expireCredentials (h : Drivable s) {authorities credentials : CredentialSerial → Bool}
    (hrun : s.expireCredentials now authorities credentials = .ok s') : Drivable s' := by
  obtain rfl := CredentialStore.expireCredentials_ok hrun
  have hrevoked := h.updateCredentials
    (p := fun row => row.expired now && credentials row.serial)
    (f := fun row => { row with toTerm := row.revoke }) (keepsCredential_term fun _ => ⟨rfl, rfl⟩)
    fun _ _ _ row _ _ _ hlife => by simp [Term.expired, Term.accepted, hlife]
  exact hrevoked.congr rfl rfl

/-- A credential that a request names stays. -/
theorem terminalCredential_of_named {row : PeerCredentialRow} {terminal : Nat}
    {others : CredentialSerial → Bool} (hmem : request ∈ s.rotations)
    (hserial : request.issuedSerial = some row.serial) :
    s.terminalCredential now terminal others row = false := by
  have hnamed : (s.rotations.any fun request => decide (request.authenticatedSerial = row.serial)
      || decide (request.issuedSerial = some row.serial)) = true :=
    List.any_eq_true.mpr ⟨request, hmem, by simp [hserial]⟩
  rw [CredentialStore.terminalCredential, hnamed]
  simp

/-- An issued request is never old enough to delete, and keeps its credential. -/
theorem maintain (h : Drivable s) (batch : CredentialStore.MaintenanceBatch) :
    Drivable (s.maintain now batch) := by
  refine ⟨fun request hrequest hissued => ?_, fun request hrequest hpending => ?_⟩
  · obtain ⟨row, hrow, hserial, hpeer, hlife⟩ :=
      h.issued request (List.mem_of_mem_filter hrequest) hissued
    refine ⟨row, List.mem_filter.mpr ⟨hrow, ?_⟩, hserial, hpeer, hlife⟩
    -- the requests of the middle state are those of the last one
    have hstays : { s with rotations := (s.maintain now batch).rotations }.terminalCredential now
        batch.terminal batch.claimed row = false := terminalCredential_of_named hrequest hserial
    exact congrArg (fun doomed => !(doomed && batch.credentials row.serial)) hstays
  · exact claimed_of_subset (s := s) (fun row hrow => List.mem_of_mem_filter hrow)
      (h.pending request (List.mem_of_mem_filter hrequest) hpending)

theorem claimPublicJoin (h : Drivable s) (hs : s.WellFormed crypto.toCrypto)
    {enrollment : CredentialStore.Enrollment} {issued : IssuedPeerCredential}
    (hkeep : ∀ request ∈ s.rotations, request.status = .pending →
      request.requestedWireguardPublicKey ≠ enrollment.wireguardPublicKey)
    (hrun : s.claimPublicJoin now enrollment issued = .ok s') : Drivable s' := by
  obtain ⟨s₂, s₃, hfree, h₂, h₃, hrun⟩ := CredentialStore.claimPublicJoin_ok hrun
  obtain ⟨-, -, rfl⟩ := CredentialStore.insertAddress_ok h₂
  obtain ⟨-, -, rfl⟩ := CredentialStore.insertAddress_ok h₃
  obtain ⟨-, rfl⟩ := CredentialStore.insertCredential_eq_ok.mp hrun
  refine ⟨fun request hrequest hissued => ?_, fun request hrequest hpending => ?_⟩
  · obtain ⟨row, hrow, hrest⟩ := h.issued request hrequest hissued
    exact ⟨row, List.mem_append_left _ hrow, hrest⟩
  · obtain ⟨hsession, hwireguard⟩ := claimed_eq_false.mp (h.pending request hrequest hpending)
    -- the Peer is new, so no request is its own
    have hstranger : enrollment.peerId ≠ request.peerId := by
      obtain ⟨peer, hpeer, hid⟩ := hs.rotationPeers request hrequest
      exact fun heq => collides_eq_false.mp hfree rfl peer hpeer rfl (hid.trans heq.symm)
    refine claimed_eq_false.mpr ⟨fun row hrow hpeer => ?_, fun row hrow => ?_⟩
    · rcases List.mem_append.mp hrow with hrow | hrow
      · exact hsession row hrow hpeer
      · rw [List.mem_singleton.mp hrow] at hpeer
        exact absurd hpeer hstranger
    · rcases List.mem_append.mp hrow with hrow | hrow
      · exact hwireguard row hrow
      · rw [List.mem_singleton.mp hrow]
        exact (hkeep request hrequest hpending).symm

theorem run (h : Drivable s) (hs : s.WellFormed crypto.toCrypto) {op : CredentialOp}
    (hkeep : KeepsDrivable s op) (hrun : CredentialOp.run crypto s now op = .ok s') : Drivable s' := by
  cases op with
  | stageAuthority row =>
      have hrun := mapError_eq_ok.mp hrun
      unfold CredentialStore.stageAuthority at hrun
      obtain ⟨_, _, hrun⟩ := bind_eq_ok.mp hrun
      obtain ⟨_, _, hrun⟩ := bind_eq_ok.mp hrun
      cases hrun
      exact h.congr rfl rfl
  | transitionAuthority serial lifecycle =>
      have hrun := mapError_eq_ok.mp hrun
      unfold CredentialStore.transitionAuthority at hrun
      obtain ⟨_, _, hrun⟩ := bind_eq_ok.mp hrun
      cases hrun
      exact h.congr rfl rfl
  | join issuer enrollment serial =>
      have hrun := mapError_eq_ok.mp hrun
      unfold Control.join at hrun
      obtain ⟨issued, -, hrun⟩ := bind_eq_ok.mp hrun
      exact h.claimPublicJoin hs hkeep hrun
  | request proof signature challenge => exact h.requestPeerRotation hkeep (mapError_eq_ok.mp hrun)
  | issue issuer started rotation serial =>
      simp only [CredentialOp.run] at hrun
      split at hrun
      · cases hrun
        exact h
      · exact h.issueRotation hs (List.mem_of_find?_eq_some ‹_›) hrun
  | activate peer rotation serial signature =>
      obtain ⟨⟨s₁, result⟩, hactivate, rfl⟩ := map_eq_ok.mp (mapError_eq_ok.mp hrun)
      exact h.activatePeerRotation hs hactivate
  | transition serial lifecycle => exact h.transitionPeerCredential hs hkeep (mapError_eq_ok.mp hrun)
  | revokeAccess peer => exact h.revokePeerAccess (mapError_eq_ok.mp hrun)
  | endPeer peer state =>
      obtain ⟨-, hrevoke⟩ := CredentialStore.endPeer_ok (mapError_eq_ok.mp hrun)
      refine Drivable.revokePeerAccess ?_ hrevoke
      exact h.congr rfl rfl
  | bulkDisable ids => exact h.bulkDisablePeers hkeep (mapError_eq_ok.mp hrun)
  | expire authorities credentials => exact h.expireCredentials (mapError_eq_ok.mp hrun)
  | maintain batch =>
      cases hrun
      exact h.maintain batch
  | setRotationOverlap seconds =>
      cases hrun
      exact h.congr rfl rfl
  | setLifecycle lifecycle =>
      cases hrun
      exact h.congr rfl rfl

end Drivable

/-- **The agreement lasts.** -/
theorem drivable_of_run {meshId : MeshId} {rotationOverlapSeconds : Nat}
    {events : List (Timestamp × CredentialOp)}
    (h : Along (fun before event => KeepsDrivable
      (exec (step crypto) (emptyStore meshId rotationOverlapSeconds) before) event.2) events) :
    Drivable (exec (step crypto) (emptyStore meshId rotationOverlapSeconds) events) := by
  refine along_history (I := fun events =>
    Drivable (exec (step crypto) (emptyStore meshId rotationOverlapSeconds) events))
    ⟨nofun, nofun⟩ (fun before event hkeep ih => ?_) h
  rw [exec_concat, step]
  split
  · exact ih.run (Reachable.wellFormed ⟨meshId, rotationOverlapSeconds, before, rfl⟩) hkeep ‹_›
  · exact ih

/-! ## What an open request can still do

From rows that agree, the next step of the rotation succeeds: an issued request is activated, a pending one
issued, and where none is open a new one is accepted.
-/

/-- The proof that activates a request. -/
def activationProof (s : CredentialStore) (request : RotationRow) (serial : CredentialSerial) :
    RotationActivationProof where
  meshId := s.meshId
  peerId := request.peerId
  rotationId := request.id
  issuedSerial := serial
  challenge := request.activationChallenge

/-- Every correctly signed activation of the request succeeds. -/
def CanActivate (crypto : RotationCrypto) (s : CredentialStore) (now : Timestamp)
    (request : RotationRow) : Prop :=
  ∃ serial, request.issuedSerial = some serial ∧ ∀ signature,
    verifyRotationActivation crypto request.requestedIdentityPublicKey
      (activationProof s request serial) signature = .ok () →
    ∃ s', s.activatePeerRotation crypto now request.peerId request.id serial signature = .ok (s', true) ∧
      ∃ row ∈ s'.rotations, row.id = request.id ∧ row.status = .activated

/-- Every valid issuer with room issues the request, and then its activation succeeds. Nothing is asked
where the request is not due: the loop passes over a Peer with at most a minute of admission left. -/
def CanIssue (crypto : RotationCrypto) (s : CredentialStore) (now : Timestamp)
    (request : RotationRow) : Prop :=
  ∀ (issuer : JoinIssuer) (serial : CredentialSerial), issuer.Valid s now →
    due s issuer now request = true → (∀ row ∈ s.credentials, row.serial ≠ serial) →
    ∃ s', issueRotation crypto.toCrypto s issuer now now request serial = .ok s' ∧
      ∃ row ∈ s'.rotations, row.id = request.id ∧ row.status = .issued ∧ CanActivate crypto s' now row

/-- A request under a new identifier, with new keys. -/
structure FreshRequest (s : CredentialStore) (proof : RotationRequestProof) : Prop where
  id : ∀ row ∈ s.rotations, row.id ≠ proof.rotationId
  pair : ∀ row ∈ s.rotations, row.peerId = proof.peerId →
    row.requestedIdentityPublicKey = proof.identityPublicKey →
    row.requestedSessionPublicKey ≠ proof.sessionPublicKey
  wireguard : (∀ row ∈ s.credentials, row.wireguardPublicKey ≠ proof.wireguardPublicKey) ∧
    ∀ row ∈ s.rotations, row.requestedWireguardPublicKey ≠ proof.wireguardPublicKey

/-- Every correctly signed new request of the Peer is accepted. -/
def CanRequest (crypto : RotationCrypto) (s : CredentialStore) (now : Timestamp) (peer : PeerId)
    (current : PeerCredentialRow) : Prop :=
  ∀ (proof : RotationRequestProof) (signature challenge : Bytes), FreshRequest s proof →
    proof.meshId = s.meshId → proof.peerId = peer → proof.currentSerial = current.serial →
    verifyRotationRequest crypto current.identityPublicKey proof signature = .ok () →
    ∃ s', s.requestPeerRotation crypto now proof signature challenge = .ok s' ∧
      ∃ row ∈ s'.rotations, row.id = proof.rotationId ∧ row.status = .pending

section Open

variable (hs : s.WellFormed crypto.toCrypto)
include hs

omit hs in
theorem live_of_lock {mesh : MeshId} {peer : PeerId} (h : s.lockEnabledPeer now mesh peer = true) :
    s.lifecycle = .active := by
  simp only [CredentialStore.lockEnabledPeer, Bool.and_eq_true, decide_eq_true_eq] at h
  exact h.1.2

/-- A staged credential replaces the active one of its Peer. -/
theorem replaceActive_of (now : Timestamp) {peer : PeerId} {serial : CredentialSerial} (hlive : s.lifecycle = .active)
    (hstaged : ∃ row ∈ s.credentials, row.peerId = peer ∧ row.serial = serial ∧ row.lifecycle = .staged)
    (hactive : ∃ row ∈ s.credentials, row.peerId = peer ∧ row.lifecycle = .active) :
    s.replaceActive now peer serial = .ok { s with
      credentials := CredentialStore.replaceRows now s.rotationOverlapSeconds peer serial s.credentials } := by
  obtain ⟨staged, hstagedMem, hstagedPeer, hstagedSerial, hstagedLife⟩ := hstaged
  obtain ⟨active, hactiveMem, hactivePeer, hactiveLife⟩ := hactive
  have hfound : (s.credentials.any fun row => decide (row.peerId = peer) && decide (row.serial = serial)
      && decide (row.lifecycle = .staged)) = true :=
    List.any_eq_true.mpr ⟨staged, hstagedMem, by simp [hstagedPeer, hstagedSerial, hstagedLife]⟩
  -- the revocation of an earlier generation leaves both rows alone
  have hrevoked := hs.retireCredentials (p := fun row => row.peerId = peer && row.lifecycle = .overlap)
    keepsCredential_revoked (fun _ hlife => by cases hlife)
  have hone : (updateWhere (fun row => row.peerId = peer && row.lifecycle = .overlap)
      (fun row => { row with lifecycle := .revoked }) s.credentials).countP
      (fun row => row.peerId = peer && row.lifecycle = .active) = 1 := by
    refine hrevoked.credentials.oneActive.countP_eq_one (k := peer)
      (mem_updateWhere_of_not hactiveMem (by simp [hactiveLife]))
      (by simp [hactivePeer, hactiveLife]) fun other _ hother => ?_
    simp only [Bool.and_eq_true, decide_eq_true_eq] at hother
    exact ⟨decide_eq_true hother.2, hother.1⟩
  have hretired := hrevoked.retireCredentials
    (p := fun row => row.peerId = peer && row.lifecycle = .active)
    (f := fun row => { row with
      toTerm := { row.retire now s.rotationOverlapSeconds with replacementId := some serial } })
    (keepsCredential_term fun _ => ⟨rfl, rfl⟩) (fun _ hlife => by simp [Term.retire] at hlife)
  have hlast : (updateWhere (fun row => row.peerId = peer && row.lifecycle = .active)
      (fun row => { row with
        toTerm := { row.retire now s.rotationOverlapSeconds with replacementId := some serial } })
      (updateWhere (fun row => row.peerId = peer && row.lifecycle = .overlap)
        (fun row => { row with lifecycle := .revoked }) s.credentials)).countP
      (fun row => row.serial = serial && row.lifecycle = .staged) = 1 := by
    refine hretired.credentials.serials.countP_eq_one (k := serial)
      (mem_updateWhere_of_not (mem_updateWhere_of_not hstagedMem (by simp [hstagedLife]))
        (by simp [hstagedLife]))
      (by simp [hstagedSerial, hstagedLife]) fun other _ hother => ?_
    simp only [Bool.and_eq_true, decide_eq_true_eq] at hother
    exact ⟨rfl, hother.1⟩
  unfold CredentialStore.replaceActive
  refine bind_eq_ok.mpr ⟨(), rejectIf_eq_ok.mpr (by rw [hfound]; rfl), ?_⟩
  refine bind_eq_ok.mpr ⟨_, CredentialStore.updateCredentials_of_active hlive, ?_⟩
  refine bind_eq_ok.mpr ⟨(), rejectIf_eq_ok.mpr (decide_eq_false (not_not.mpr hone)), ?_⟩
  refine bind_eq_ok.mpr ⟨_, CredentialStore.updateCredentials_of_active hlive, ?_⟩
  refine bind_eq_ok.mpr ⟨(), rejectIf_eq_ok.mpr (decide_eq_false (not_not.mpr hlast)), ?_⟩
  exact CredentialStore.updateCredentials_of_active hlive

/-- An issued request that agrees with the credentials can be activated. -/
theorem canActivate (hd : Drivable s) (hmem : request ∈ s.rotations) (hissued : request.status = .issued)
    (hlock : s.lockEnabledPeer now s.meshId request.peerId = true)
    (hactive : ∃ row ∈ s.credentials, row.peerId = request.peerId ∧ row.lifecycle = .active) :
    CanActivate crypto s now request := by
  obtain ⟨staged, hstaged, hserial, hpeer, hlife⟩ := hd.issued request hmem hissued
  refine ⟨staged.serial, hserial, fun signature hverify => ?_⟩
  have hlive := live_of_lock hlock
  have hfind : s.rotations.find? (CredentialStore.activates request.peerId request.id staged.serial)
      = some request := by
    refine hs.rotations.ids.find_eq hmem ?_ fun other _ hother => ⟨rfl, rfl, ?_⟩
    · simp [CredentialStore.activates, hserial, hissued]
    · simp only [CredentialStore.activates, Bool.and_eq_true, decide_eq_true_eq] at hother
      exact hother.1.1.1
  have hreplace := replaceActive_of hs now hlive ⟨staged, hstaged, hpeer, rfl, hlife⟩ hactive
  unfold activationProof at hverify
  have hrun : s.activatePeerRotation crypto now request.peerId request.id staged.serial signature = .ok
      ({ s with
        credentials :=
          CredentialStore.replaceRows now s.rotationOverlapSeconds request.peerId staged.serial s.credentials
        rotations := updateWhere (fun row => row.id = request.id && row.status = .issued)
          (CredentialStore.activateRow now signature) s.rotations }, true) := by
    unfold CredentialStore.activatePeerRotation
    simp only [hlock, hfind, hissued, hverify, hreplace]
    refine bind_eq_ok.mpr ⟨_, rfl, ?_⟩
    exact bind_eq_ok.mpr ⟨_, CredentialStore.updateRotations_of_active hlive, rfl⟩
  exact ⟨_, hrun, _, mem_updateWhere_of hmem (by simp [hissued]), rfl, rfl⟩

/-- A pending request that agrees with the credentials can be issued, then activated. -/
theorem canIssue (hd : Drivable s) (hmem : request ∈ s.rotations) (hpending : request.status = .pending)
    (hactive : ∃ row ∈ s.credentials, row.peerId = request.peerId ∧ row.lifecycle = .active) :
    CanIssue crypto s now request := by
  intro issuer serial hissuer hdue hserial
  obtain ⟨credential, -, hok⟩ := (issueRotation_of_due hs hmem hissuer hpending hserial hdue).1
    (hd.pending request hmem hpending)
  have hs' := WellFormed.issueRotation hs hok
  have hd' := hd.issueRotation hs hmem hok
  refine ⟨_, hok, ?_⟩
  have hrow := mem_updateWhere_of (p := fun row => row.id = request.id && row.status = .pending)
    (f := CredentialStore.issueRow now credential.serial credential) hmem (by simp [hpending])
  obtain ⟨peer, hpeer, hid⟩ := hs.rotationPeers request hmem
  refine ⟨_, hrow, rfl, rfl, canActivate hs' hd' hrow rfl ((due_iff hs hpeer hid).mp hdue).1 ?_⟩
  obtain ⟨row, hrowMem, hrowPeer, hlife⟩ := hactive
  exact ⟨row, List.mem_append_left _ hrowMem, hrowPeer, hlife⟩

/-- A Peer without an open request can make a new one. -/
theorem canRequest {peer : PeerId} {current : PeerCredentialRow}
    (hlock : s.lockEnabledPeer now s.meshId peer = true) (hmem : current ∈ s.credentials)
    (hpeer : current.peerId = peer) (hlife : current.lifecycle = .active)
    (hcurrent : current.current now = true)
    (hclosed : ∀ row ∈ s.rotations, row.peerId = peer → row.isOpen = false) :
    CanRequest crypto s now peer current := by
  intro proof signature challenge hfresh hmesh hproof hserial hverify
  have hlive := live_of_lock hlock
  have henabled : (s.peers.any fun row => decide (row.id = peer)
      && decide (row.administrativeState = .enabled)) = true := by
    simp only [CredentialStore.lockEnabledPeer, Bool.and_eq_true, List.any_eq_true,
      decide_eq_true_eq] at hlock
    obtain ⟨-, row, hrow, ⟨hid, hstate⟩, -⟩ := hlock
    exact List.any_eq_true.mpr ⟨row, hrow, by simp [hid, hstate]⟩
  have hfind : s.credentials.find? (s.authenticates now proof.peerId proof.currentSerial)
      = some current := by
    refine hs.credentials.serials.find_eq hmem ?_ fun other _ hother => ⟨rfl, rfl, ?_⟩
    · rw [CredentialStore.authenticates, hproof, hserial, henabled, hcurrent]
      simp [hpeer, hlife, Term.accepted, Term.unexpired]
    · simp only [CredentialStore.authenticates, Bool.and_eq_true, decide_eq_true_eq] at hother
      exact hother.1.1.1.1.2.trans hserial
  have hreused : s.reused proof.rotationId proof.wireguardPublicKey = false := by
    refine Bool.or_eq_false_iff.mpr ⟨List.any_eq_false.mpr fun row hrow => ?_,
      List.any_eq_false.mpr fun row hrow => ?_⟩
    · simp [hfresh.wireguard.1 row hrow]
    · simp [hfresh.wireguard.2 row hrow]
  have hunknown : (s.rotations.any fun row => decide (row.id = proof.rotationId)) = false :=
    List.any_eq_false.mpr fun row hrow => by simp [hfresh.id row hrow]
  have hrow : s.InsertableRotation (CredentialStore.requestRow now proof signature challenge) := by
    refine ⟨hlive, Credentials.wireguardPublicKey_ne (Credentials.verifyRotationRequest_eq_ok hverify),
      hfresh.pair, fun _ other hother hopen hsame => ?_, hfresh.wireguard.2⟩
    rw [hclosed other hother (hsame.trans hproof)] at hopen
    cases hopen
  have hrun : s.requestPeerRotation crypto now proof signature challenge = .ok
      { s with rotations := s.rotations ++ [CredentialStore.requestRow now proof signature challenge] } := by
    unfold CredentialStore.requestPeerRotation
    rw [hmesh, hproof, hlock]
    rw [hproof] at hfind
    simp only [hfind, hverify, hreused, hunknown]
    exact CredentialStore.insertRotation_eq_ok.mpr ⟨hrow, rfl⟩
  exact ⟨_, hrun, _, List.mem_append_right _ (List.mem_singleton_self _), rfl, rfl⟩

end Open

/-- A Peer has at most one open request, an issued request names a staged credential and can be
activated, and an admitted Peer with a valid active credential has an open request that can be driven
to its end or can make a new one. -/
structure Finishes (crypto : RotationCrypto) (s : CredentialStore) : Prop where
  oneOpen : ∀ a ∈ s.rotations, ∀ b ∈ s.rotations, a.isOpen = true → b.isOpen = true →
    a.peerId = b.peerId → a = b
  issued : ∀ request ∈ s.rotations, request.status = .issued →
    (∃ row ∈ s.credentials, request.issuedSerial = some row.serial ∧ row.peerId = request.peerId ∧
      row.lifecycle = .staged) ∧
    ∀ now, s.lockEnabledPeer now s.meshId request.peerId = true →
      (∃ row ∈ s.credentials, row.peerId = request.peerId ∧ row.lifecycle = .active) →
      CanActivate crypto s now request
  rotates : ∀ now peer, s.lockEnabledPeer now s.meshId peer = true → ∀ current ∈ s.credentials,
    current.peerId = peer → current.lifecycle = .active → current.current now = true →
    (∃ request ∈ s.rotations, request.peerId = peer ∧
      (request.status = .issued ∧ CanActivate crypto s now request ∨
        request.status = .pending ∧ CanIssue crypto s now request)) ∨
    CanRequest crypto s now peer current

/-- **An open rotation can always be finished**, in a run whose operations keep requests and credentials
in agreement. -/
theorem finishes_of_run {meshId : MeshId} {rotationOverlapSeconds : Nat}
    {events : List (Timestamp × CredentialOp)}
    (h : Along (fun before event => KeepsDrivable
      (exec (step crypto) (emptyStore meshId rotationOverlapSeconds) before) event.2) events) :
    Finishes crypto (exec (step crypto) (emptyStore meshId rotationOverlapSeconds) events) := by
  have hwell : (exec (step crypto) (emptyStore meshId rotationOverlapSeconds) events).WellFormed
      crypto.toCrypto := Reachable.wellFormed ⟨meshId, rotationOverlapSeconds, events, rfl⟩
  have hd := drivable_of_run h
  refine ⟨fun a ha b hb => hwell.rotations.oneOpen.eq ha hb,
    fun request hmem hissued => ⟨hd.issued request hmem hissued, fun now hlock hactive =>
      canActivate hwell hd hmem hissued hlock hactive⟩, ?_⟩
  intro now peer hlock current hcurrent hpeer hlife hvalid
  by_cases hopen : ∃ request ∈ (exec (step crypto) (emptyStore meshId rotationOverlapSeconds)
      events).rotations, request.peerId = peer ∧ request.isOpen = true
  · obtain ⟨request, hmem, rfl, hisOpen⟩ := hopen
    have hactive : ∃ row ∈ (exec (step crypto) (emptyStore meshId rotationOverlapSeconds)
        events).credentials, row.peerId = request.peerId ∧ row.lifecycle = .active :=
      ⟨current, hcurrent, hpeer, hlife⟩
    refine .inl ⟨request, hmem, rfl, ?_⟩
    simp only [RotationRow.isOpen, Bool.or_eq_true, decide_eq_true_eq] at hisOpen
    rcases hisOpen with hpending | hissued
    · exact .inr ⟨hpending, canIssue hwell hd hmem hpending hactive⟩
    · exact .inl ⟨hissued, canActivate hwell hd hmem hissued hlock hactive⟩
  · refine .inr (canRequest hwell hlock hcurrent hpeer hlife hvalid fun row hrow hsame => ?_)
    exact Bool.eq_false_iff.mpr fun hrowOpen => hopen ⟨row, hrow, hsame, hrowOpen⟩

/-- A run through a request and its issue. -/
def issuedEvents : List (Timestamp × CredentialOp) :=
  joinedEvents ++ [(fromUnixTimestamp 1001, .request (requestWith 22) [] [])] ++
    [(fromUnixTimestamp 1002, .issue onlineIssuer (fromUnixTimestamp 1002) rotationOne rotatedSerial)]

theorem issuedEvents_finish :
    Finishes acceptingCrypto (exec (step acceptingCrypto) (emptyStore theMesh 3600) issuedEvents) := by
  have hkeep : ∀ before event after, issuedEvents = before ++ event :: after →
      KeepsDrivable (exec (step acceptingCrypto) (emptyStore theMesh 3600) before) event.2 := by
    refine along_concat.mpr ⟨along_concat.mpr ⟨?_, .inr (by decide +kernel)⟩, trivial⟩
    show Along _ (([] ++ [_]) ++ [_] ++ [_])
    refine along_concat.mpr ⟨along_concat.mpr ⟨along_concat.mpr ⟨along_nil, trivial⟩, trivial⟩, ?_⟩
    show ∀ request ∈ _, _
    decide +kernel
  exact finishes_of_run hkeep

/-- An administrator activates the staged credential: the request stays open, and blocks the Peer. -/
theorem not_always_finishes : ¬ ∀ s, Reachable acceptingCrypto s → Finishes acceptingCrypto s := by
  intro h
  have hs := h _ ⟨theMesh, 3600,
    issuedEvents ++ [(fromUnixTimestamp 1003, .transition rotatedSerial .active)], rfl⟩
  have hnone : ¬ ∀ request ∈ (exec (step acceptingCrypto) (emptyStore theMesh 3600)
      (issuedEvents ++ [(fromUnixTimestamp 1003, .transition rotatedSerial .active)])).rotations,
      request.status = .issued → ∃ row ∈ (exec (step acceptingCrypto) (emptyStore theMesh 3600)
      (issuedEvents ++ [(fromUnixTimestamp 1003, .transition rotatedSerial .active)])).credentials,
        request.issuedSerial = some row.serial ∧ row.peerId = request.peerId ∧
          row.lifecycle = .staged := by
    decide +kernel
  exact hnone fun request hmem hissued => (hs.issued request hmem hissued).1

end Peerward.Control
