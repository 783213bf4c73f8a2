import Peerward.Control.Issuing
import Peerward.Lib.Run
import Peerward.Store.CredentialRows

/-!
# Runs of credential operations

Every operation keeps the credential rows well formed, so every run from an empty mesh does.
-/

namespace Peerward.Control

open Peerward.Lib
open Peerward.Credentials (Crypto RotationCrypto RotationId RotationRequestProof SubjectCredential
  validateSubjectKeys)
open Peerward.Net (saturatingAdd)
open Peerward.Store
open Peerward.Types (CredentialSerial MeshId PeerId)

variable {s s' : CredentialStore} {now : Timestamp}

/-! ## Updates of the lifecycle columns -/

theorem keepsCredential_term {f : PeerCredentialRow → Term}
    (h : ∀ row, (f row).notBefore = row.notBefore ∧ (f row).notAfter = row.notAfter) :
    KeepsCredential fun row => { row with toTerm := f row } :=
  fun row => ⟨rfl, rfl, rfl, rfl, rfl, (h row).1, (h row).2⟩

theorem keepsCredential_revoked : KeepsCredential fun row => { row with lifecycle := .revoked } :=
  keepsCredential_term (f := fun row => { row.toTerm with lifecycle := .revoked }) fun _ => ⟨rfl, rfl⟩

theorem keepsRotation_cancel (now : Timestamp) : KeepsRotation (·.cancel now) :=
  fun _ => ⟨rfl, rfl, rfl, rfl, rfl⟩

theorem keepsRotation_issueRow (now : Timestamp) (serial : CredentialSerial)
    (credential : SubjectCredential) : KeepsRotation (CredentialStore.issueRow now serial credential) :=
  fun _ => ⟨rfl, rfl, rfl, rfl, rfl⟩

theorem keepsRotation_activateRow (now : Timestamp) (signature : Bytes) :
    KeepsRotation (CredentialStore.activateRow now signature) :=
  fun _ => ⟨rfl, rfl, rfl, rfl, rfl⟩

/-! ## Every operation keeps the rows well formed

An operation is a few statements over the rows, each of which is an insertion that passes the unique
indexes, a deletion, or an update of the lifecycle columns. Only the last kind needs an argument of its
own: a row may turn active where the active one of its Peer has just left that state.
-/

namespace WellFormed

open CredentialStore (WellFormed Enrollment)

variable {crypto : Crypto} {rows : List PeerCredentialRow}

/-- The Peers whose active credential has just left that state have none. -/
theorem not_active_after_retire {p : PeerCredentialRow → Bool}
    {f : PeerCredentialRow → PeerCredentialRow} {peer : PeerId}
    (hp : ∀ row ∈ rows, row.peerId = peer → row.lifecycle = .active → p row = true)
    (hlife : ∀ row, (f row).lifecycle ≠ .active) {row : PeerCredentialRow}
    (hmem : row ∈ updateWhere p f rows) (hactive : row.lifecycle = .active) : row.peerId ≠ peer := by
  intro hpeer
  rcases updateWhere_cases hmem with ⟨hold, hout⟩ | ⟨old, hold, -, rfl⟩
  · rw [hp row hold hpeer hactive] at hout
    cases hout
  · exact hlife old hactive

theorem serial_of_mem_update {p : PeerCredentialRow → Bool} {f : PeerCredentialRow → PeerCredentialRow}
    (hf : KeepsCredential f) {row : PeerCredentialRow} (hmem : row ∈ updateWhere p f rows) :
    ∃ old ∈ rows, old.serial = row.serial ∧ old.peerId = row.peerId := by
  rcases updateWhere_cases hmem with ⟨hold, -⟩ | ⟨old, hold, -, rfl⟩
  · exact ⟨row, hold, rfl, rfl⟩
  · exact ⟨old, hold, (hf old).2.1.symm, (hf old).1.symm⟩

/-- Retiring the active credential of a Peer and activating a serial of that Peer. -/
theorem replace (h : WellFormedCredentials crypto rows) {p q : PeerCredentialRow → Bool}
    {f g : PeerCredentialRow → PeerCredentialRow} (peer : PeerId) (serial : CredentialSerial)
    (hf : KeepsCredential f) (hg : KeepsCredential g) (hlife : ∀ row, (f row).lifecycle ≠ .active)
    (hp : ∀ row ∈ rows, row.peerId = peer → row.lifecycle = .active → p row = true)
    (hq : ∀ row, q row = true → row.serial = serial)
    (hserial : ∃ row ∈ rows, row.serial = serial ∧ row.peerId = peer) :
    WellFormedCredentials crypto (updateWhere q g (updateWhere p f rows)) := by
  have hretired : WellFormedCredentials crypto (updateWhere p f rows) :=
    h.retire hf fun row hactive => absurd hactive (hlife row)
  refine hretired.activate hg serial (fun row _ => hq row)
    fun row hmem hrow other hother hactive => ?_
  obtain ⟨old, hold, hsame, hpeer⟩ := serial_of_mem_update hf hmem
  obtain ⟨named, hnamed, hser, hnp⟩ := hserial
  have heq : old = named :=
    h.serials.eq hold hnamed rfl rfl ((hsame.trans (hq row hrow)).trans hser.symm)
  rw [← hpeer, heq, hnp]
  exact not_active_after_retire hp hlife hother hactive

theorem replaceRows (h : WellFormedCredentials crypto rows) (now : Timestamp)
    (rotationOverlapSeconds : Nat) {peer : PeerId} {serial : CredentialSerial}
    (hstaged : ∃ row ∈ rows, row.peerId = peer ∧ row.serial = serial ∧ row.lifecycle = .staged) :
    WellFormedCredentials crypto
      (CredentialStore.replaceRows now rotationOverlapSeconds peer serial rows) := by
  have hrevoked := h.retire (p := fun row => row.peerId = peer && row.lifecycle = .overlap)
    keepsCredential_revoked (fun _ hactive => by cases hactive)
  refine replace hrevoked peer serial
    (keepsCredential_term fun _ => ⟨rfl, rfl⟩) (keepsCredential_term fun _ => ⟨rfl, rfl⟩)
    (fun _ => by simp [Term.retire]) (fun row _ hpeer hactive => by simp [hpeer, hactive])
    (fun row hrow => by simp only [Bool.and_eq_true, decide_eq_true_eq] at hrow; exact hrow.1) ?_
  obtain ⟨row, hmem, hpeer, hserial, hlife⟩ := hstaged
  exact ⟨row, mem_updateWhere_of_not hmem (by simp [hlife]), hserial, hpeer⟩

theorem transitionCredential (h : WellFormedCredentials crypto rows)
    {rotationOverlapSeconds : Nat} {serial : CredentialSerial} {lifecycle : Lifecycle}
    {rows' : List PeerCredentialRow}
    (hrun : CredentialStore.transitionCredential rows now rotationOverlapSeconds serial lifecycle
      = .ok rows') :
    WellFormedCredentials crypto rows' ∧
      ∀ row ∈ rows', ∃ old ∈ rows, old.peerId = row.peerId := by
  obtain ⟨row, hmem, hserial, hcases⟩ := CredentialStore.transitionCredential_ok hrun
  have hpeers : ∀ {p : PeerCredentialRow → Bool} {f : PeerCredentialRow → PeerCredentialRow},
      KeepsCredential f → ∀ row ∈ updateWhere p f rows, ∃ old ∈ rows, old.peerId = row.peerId := by
    intro p f hf row hrow
    obtain ⟨old, hold, -, hpeer⟩ := serial_of_mem_update hf hrow
    exact ⟨old, hold, hpeer⟩
  rcases hcases with ⟨-, rfl⟩ | ⟨-, hstaged, rfl⟩ | ⟨-, -, rfl⟩ | ⟨-, -, rfl⟩
  · exact ⟨h, fun row hrow => ⟨row, hrow, rfl⟩⟩
  · have hretire : KeepsCredential fun row : PeerCredentialRow =>
        { row with toTerm := { row.retire now rotationOverlapSeconds with replacementId := some serial } } :=
      keepsCredential_term fun _ => ⟨rfl, rfl⟩
    have hactivate : KeepsCredential fun row : PeerCredentialRow =>
        { row with toTerm := row.activate } := keepsCredential_term fun _ => ⟨rfl, rfl⟩
    refine ⟨replace h row.peerId serial hretire hactivate
      (fun _ => by simp [Term.retire]) ?_ ?_ ⟨row, hmem, hserial, rfl⟩, ?_⟩
    · intro other _ hpeer hactive
      show (decide (some other.peerId = some row.peerId) && decide (other.lifecycle = .active)) = true
      rw [hpeer, hactive]
      simp
    · intro other hother
      simp only [Bool.and_eq_true, decide_eq_true_eq] at hother
      exact hother.1
    · intro other hother
      obtain ⟨mid, hmid, -, hpeer⟩ := serial_of_mem_update hactivate hother
      obtain ⟨old, hold, -, hpeer'⟩ := serial_of_mem_update hretire hmid
      exact ⟨old, hold, hpeer'.trans hpeer⟩
  · have hretire : KeepsCredential fun row : PeerCredentialRow =>
        { row with toTerm := row.retire now rotationOverlapSeconds } :=
      keepsCredential_term fun _ => ⟨rfl, rfl⟩
    exact ⟨h.retire hretire (fun _ hactive => by cases hactive), hpeers hretire⟩
  · have hrevoke : KeepsCredential fun row : PeerCredentialRow => { row with toTerm := row.revoke } :=
      keepsCredential_term fun _ => ⟨rfl, rfl⟩
    exact ⟨h.retire hrevoke (fun _ hactive => by cases hactive), hpeers hrevoke⟩

theorem revokePeerAccess (h : s.WellFormed crypto) {peer : PeerId}
    (hrun : s.revokePeerAccess now peer = .ok s') : s'.WellFormed crypto := by
  obtain rfl := CredentialStore.revokePeerAccess_ok hrun
  have hcredentials := h.retireCredentials
    (p := fun row => row.peerId = peer && row.lifecycle ≠ .revoked) keepsCredential_revoked
    fun _ hactive => by cases hactive
  have hrotations := hcredentials.updateRotations (p := fun row => row.peerId = peer && row.isOpen)
    (keepsRotation_cancel now) fun _ _ _ hopen => by simp [RotationRow.isOpen, RotationRow.cancel] at hopen
  exact hrotations.quarantine _

theorem claimPublicJoin (h : s.WellFormed crypto) {request : Enrollment} {issued : IssuedPeerCredential}
    (hsound : (request.row issued).Sound crypto)
    (hrun : s.claimPublicJoin now request issued = .ok s') : s'.WellFormed crypto := by
  obtain ⟨s₂, s₃, hfree, h₂, h₃, hrun⟩ := CredentialStore.claimPublicJoin_ok hrun
  have hs₃ := ((h.insertPeer hfree).insertAddress h₂).insertAddress h₃
  obtain ⟨-, -, rfl⟩ := CredentialStore.insertAddress_ok h₂
  obtain ⟨-, -, rfl⟩ := CredentialStore.insertAddress_ok h₃
  obtain ⟨hrow, rfl⟩ := CredentialStore.insertCredential_eq_ok.mp hrun
  exact hs₃.insertCredential hrow hsound ⟨request.peer, by simp, rfl⟩

theorem requestPeerRotation {crypto : RotationCrypto} (h : s.WellFormed crypto.toCrypto)
    {proof : RotationRequestProof} {signature challenge : Bytes}
    (hrun : s.requestPeerRotation crypto now proof signature challenge = .ok s') :
    s'.WellFormed crypto.toCrypto := by
  rcases CredentialStore.requestPeerRotation_ok hrun with ⟨rfl, -⟩ | ⟨hnew, hlock, hkeys, -, hrow, rfl⟩
  · exact h
  · refine h.insertRotation hrow hnew hkeys ?_
    simp only [CredentialStore.lockEnabledPeer, Bool.and_eq_true, List.any_eq_true,
      decide_eq_true_eq] at hlock
    obtain ⟨-, peer, hpeer, ⟨hid, -⟩, -⟩ := hlock
    exact ⟨peer, hpeer, hid⟩

theorem issuePeerRotation (h : s.WellFormed crypto) {request : RotationRow}
    {issued : IssuedPeerCredential} {credential : SubjectCredential}
    (hsound : (CredentialStore.stagedRow request issued).Sound crypto)
    (hpeer : ∃ peer ∈ s.peers, peer.id = request.peerId)
    (hrun : s.issuePeerRotation now request issued credential = .ok s') : s'.WellFormed crypto := by
  rcases CredentialStore.issuePeerRotation_ok hrun with rfl | ⟨-, -, hrow, rfl⟩
  · exact h
  · refine (h.insertCredential hrow hsound hpeer).updateRotations
      (keepsRotation_issueRow now issued.serial credential) fun row _ hpending _ => ?_
    simp only [Bool.and_eq_true, decide_eq_true_eq] at hpending
    simp [RotationRow.isOpen, hpending.2]

theorem activatePeerRotation {crypto : RotationCrypto} (h : s.WellFormed crypto.toCrypto) {peer : PeerId}
    {rotation : RotationId} {serial : CredentialSerial} {signature : Bytes} {result : Bool}
    (hrun : s.activatePeerRotation crypto now peer rotation serial signature = .ok (s', result)) :
    s'.WellFormed crypto.toCrypto := by
  rcases CredentialStore.activatePeerRotation_ok hrun with rfl | ⟨-, -, hstaged, rfl⟩
  · exact h
  · have hcredentials := h.setCredentials (replaceRows h.credentials now
      s.rotationOverlapSeconds hstaged) fun row hmem => by
        rw [CredentialStore.replaceRows_eq_map] at hmem
        obtain ⟨old, hold, rfl⟩ := List.mem_map.mp hmem
        refine ⟨old, hold, ?_⟩
        unfold CredentialStore.replaceRow
        repeat' split
        all_goals rfl
    exact hcredentials.updateRotations (keepsRotation_activateRow now signature) fun _ _ _ hopen => by
      simp [RotationRow.isOpen, CredentialStore.activateRow] at hopen

/-- What is old enough to delete is not named by a row that stays, and the indexes do not mind. -/
theorem maintain (h : s.WellFormed crypto) (batch : CredentialStore.MaintenanceBatch) :
    (s.maintain now batch).WellFormed crypto where
  peerIds := h.peerIds
  addresses := h.addresses
  credentials := h.credentials.filter _
  rotations := h.rotations.filter _
  credentialPeers := fun row hmem => h.credentialPeers row (List.mem_of_mem_filter hmem)
  rotationPeers := fun row hmem => h.rotationPeers row (List.mem_of_mem_filter hmem)

end WellFormed

/-! ## The issuer

What Control signs decodes, has the keys of its subject and an interval within the Authority's, so it is a
row that the store accepts.
-/

section Issuer

variable {crypto : Crypto} {issuer : JoinIssuer}

/-- A signed credential is a sound row. -/
theorem sound_issued {unsigned : Credentials.UnsignedSubject} {credential : SubjectCredential}
    (h : issuer.authority.issue crypto unsigned = .ok credential) {row : PeerCredentialRow}
    (hsubject : unsigned.subject = .peer row.peerId)
    (hidentity : unsigned.identityPublicKey = row.identityPublicKey)
    (hsession : unsigned.publicNoiseKey = row.publicKey)
    (hwireguard : unsigned.wireguardPublicKey = row.wireguardPublicKey)
    (hbefore : row.notBefore = (issuer.issued credential).notBefore)
    (hafter : row.notAfter = (issuer.issued credential).notAfter) : row.Sound crypto := by
  obtain ⟨hinterval, hkeys, rfl⟩ := Credentials.Authority.issue_eq_ok.mp h
  refine ⟨?_, ⟨unsigned.notBefore, unsigned.notAfter, hbefore, hafter⟩, ?_⟩
  · rw [← hsubject, ← hidentity, ← hsession, ← hwireguard]
    exact hkeys
  · rw [hbefore, hafter]
    exact Nat.mul_lt_mul_of_pos_right hinterval (by decide)

theorem joinEnrollmentIssuer_ok {mesh : MeshId} {request : CredentialStore.Enrollment}
    {serial : CredentialSerial} {issued : IssuedPeerCredential}
    (h : joinEnrollmentIssuer crypto issuer now mesh request serial = .ok issued) :
    ∃ credential, issued = issuer.issued credential ∧
      issuer.authority.issue crypto {
        subject := .peer request.peerId
        meshId := mesh
        identityPublicKey := request.identityPublicKey
        publicNoiseKey := request.publicNoiseKey
        wireguardPublicKey := request.wireguardPublicKey
        serial
        notBefore := unixTimestamp now - 60
        notAfter := min (issuer.notAfter (unixTimestamp now)) (admissionEnd request.admissionUntil) }
        = .ok credential := by
  unfold joinEnrollmentIssuer at h
  dsimp only at h
  obtain ⟨_, _, h⟩ := bind_eq_ok.mp h
  obtain ⟨_, _, h⟩ := bind_eq_ok.mp h
  split at h
  · cases h
  · rename_i credential hissue
    exact ⟨credential, (Except.ok.inj h).symm, hissue⟩

theorem WellFormed.join (h : s.WellFormed crypto) {request : CredentialStore.Enrollment}
    {serial : CredentialSerial} (hrun : Control.join crypto s issuer now request serial = .ok s') :
    s'.WellFormed crypto := by
  unfold Control.join at hrun
  obtain ⟨issued, hissued, hrun⟩ := bind_eq_ok.mp hrun
  obtain ⟨credential, rfl, hissue⟩ := joinEnrollmentIssuer_ok hissued
  exact WellFormed.claimPublicJoin h (sound_issued hissue rfl rfl rfl rfl rfl rfl) hrun

/-- What a turn of the loop leaves when it succeeds. -/
theorem issueRotation_ok {started : Timestamp} {request : RotationRow} {serial : CredentialSerial}
    (h : issueRotation crypto s issuer started now request serial = .ok s') :
    s' = s ∨ ∃ credential peer, peer ∈ s.peers ∧ peer.id = request.peerId ∧
      issuer.authority.issue crypto {
        subject := .peer request.peerId
        meshId := s.meshId
        identityPublicKey := request.requestedIdentityPublicKey
        publicNoiseKey := request.requestedSessionPublicKey
        wireguardPublicKey := request.requestedWireguardPublicKey
        serial
        notBefore := unixTimestamp started
        notAfter := min (issuer.notAfter (unixTimestamp started)) (admissionEnd peer.admissionUntil) }
        = .ok credential ∧
      s.issuePeerRotation now request (issuer.issued credential) credential = .ok s' := by
  unfold issueRotation at h
  dsimp only at h
  split at h
  · cases h
  · rename_i peer hfind
    split at h
    · exact .inl (Except.ok.inj h).symm
    · split at h
      · cases h
      · rename_i credential hissue
        refine .inr ⟨credential, peer, List.mem_of_find?_eq_some hfind, ?_, hissue, ?_⟩
        · simpa using List.find?_some hfind
        · cases hrun : s.issuePeerRotation now request (issuer.issued credential) credential with
          | error error => rw [hrun] at h; cases h
          | ok s₁ => rw [hrun] at h; exact congrArg Except.ok (Except.ok.inj h)

theorem WellFormed.issueRotation (h : s.WellFormed crypto) {started : Timestamp} {request : RotationRow}
    {serial : CredentialSerial}
    (hrun : Control.issueRotation crypto s issuer started now request serial = .ok s') :
    s'.WellFormed crypto := by
  rcases issueRotation_ok hrun with rfl | ⟨credential, peer, hmem, hid, hissue, hrun⟩
  · exact h
  · exact WellFormed.issuePeerRotation h (sound_issued hissue rfl rfl rfl rfl rfl rfl) ⟨peer, hmem, hid⟩ hrun

end Issuer

/-! ## Runs -/

variable {crypto : RotationCrypto}

theorem mapError_eq_ok {ε ε' α : Type} {f : ε → ε'} {x : Except ε α} {a : α} :
    x.mapError f = .ok a ↔ x = .ok a := by
  cases x with
  | error error => exact ⟨nofun, nofun⟩
  | ok b => exact ⟨fun h => by cases h; rfl, fun h => by cases h; rfl⟩

theorem WellFormed.run (h : s.WellFormed crypto.toCrypto) {op : CredentialOp}
    (hrun : CredentialOp.run crypto s now op = .ok s') : s'.WellFormed crypto.toCrypto := by
  cases op with
  | stageAuthority row =>
      have hrun := mapError_eq_ok.mp hrun
      unfold CredentialStore.stageAuthority at hrun
      obtain ⟨_, _, hrun⟩ := bind_eq_ok.mp hrun
      obtain ⟨_, _, hrun⟩ := bind_eq_ok.mp hrun
      cases hrun
      exact h.congr rfl rfl rfl rfl
  | transitionAuthority serial lifecycle =>
      have hrun := mapError_eq_ok.mp hrun
      unfold CredentialStore.transitionAuthority at hrun
      obtain ⟨_, _, hrun⟩ := bind_eq_ok.mp hrun
      cases hrun
      exact h.congr rfl rfl rfl rfl
  | join issuer enrollment serial => exact WellFormed.join h (mapError_eq_ok.mp hrun)
  | request proof signature challenge => exact WellFormed.requestPeerRotation h (mapError_eq_ok.mp hrun)
  | issue issuer started rotation serial =>
      simp only [CredentialOp.run] at hrun
      split at hrun
      · cases hrun
        exact h
      · exact WellFormed.issueRotation h hrun
  | activate peer rotation serial signature =>
      obtain ⟨⟨s₁, result⟩, hactivate, rfl⟩ := map_eq_ok.mp (mapError_eq_ok.mp hrun)
      exact WellFormed.activatePeerRotation h hactivate
  | transition serial lifecycle =>
      obtain ⟨rows, hrows, rfl⟩ := CredentialStore.transitionPeerCredential_ok (mapError_eq_ok.mp hrun)
      obtain ⟨hwell, hpeers⟩ := WellFormed.transitionCredential h.credentials hrows
      exact h.setCredentials hwell hpeers
  | revokeAccess peer => exact WellFormed.revokePeerAccess h (mapError_eq_ok.mp hrun)
  | endPeer peer state =>
      obtain ⟨-, hrevoke⟩ := CredentialStore.endPeer_ok (mapError_eq_ok.mp hrun)
      exact WellFormed.revokePeerAccess (h.updatePeers (p := (·.id = peer))
        (f := fun row => { row with administrativeState := state }) fun _ => rfl) hrevoke
  | bulkDisable ids =>
      obtain rfl := CredentialStore.bulkDisablePeers_ok (mapError_eq_ok.mp hrun)
      have hpeers := h.updatePeers (p := fun row => row.id ∈ ids && row.administrativeState = .enabled)
        (f := fun row => { row with administrativeState := .disabled }) fun _ => rfl
      exact (hpeers.retireCredentials (p := fun row => row.peerId ∈ ids && row.lifecycle ≠ .revoked)
        keepsCredential_revoked fun _ hactive => by cases hactive).quarantine _
  | expire authorities credentials =>
      obtain rfl := CredentialStore.expireCredentials_ok (mapError_eq_ok.mp hrun)
      have hrevoke : KeepsCredential fun row : PeerCredentialRow => { row with toTerm := row.revoke } :=
        keepsCredential_term fun _ => ⟨rfl, rfl⟩
      exact (h.retireCredentials (p := fun row => row.expired now && credentials row.serial) hrevoke
        fun _ hactive => by cases hactive).congr rfl rfl rfl rfl
  | maintain batch =>
      cases hrun
      exact WellFormed.maintain h batch
  | setRotationOverlap seconds =>
      cases hrun
      exact h.congr rfl rfl rfl rfl
  | setLifecycle lifecycle =>
      cases hrun
      exact h.congr rfl rfl rfl rfl

/-- A mesh without rows. -/
def emptyStore (meshId : MeshId) (rotationOverlapSeconds : Nat) : CredentialStore :=
  { meshId, rotationOverlapSeconds }

/-- A state that a run of operations reaches. -/
def Reachable (crypto : RotationCrypto) (s : CredentialStore) : Prop :=
  ∃ meshId rotationOverlapSeconds events,
    s = exec (step crypto) (emptyStore meshId rotationOverlapSeconds) events

theorem WellFormed.empty (meshId : MeshId) (rotationOverlapSeconds : Nat) :
    (emptyStore meshId rotationOverlapSeconds).WellFormed crypto.toCrypto :=
  ⟨.nil, ⟨.nil, .nil⟩, .nil, .nil, nofun, nofun⟩

theorem WellFormed.step (h : s.WellFormed crypto.toCrypto) (event : Timestamp × CredentialOp) :
    (Control.step crypto s event).WellFormed crypto.toCrypto := by
  unfold Control.step
  split
  · exact WellFormed.run h ‹_›
  · exact h

theorem Reachable.wellFormed (h : Reachable crypto s) : s.WellFormed crypto.toCrypto := by
  obtain ⟨meshId, seconds, events, rfl⟩ := h
  exact exec_invariant (WellFormed.empty meshId seconds) (fun _ event hs => WellFormed.step hs event) events

end Peerward.Control
