import Peerward.Control.CredentialRuns

/-!
# The rotation worker

`issue_pending_peer_rotations` runs before every publication, so a request it cannot issue stops the
publication of its mesh. A stored request has valid keys, and its data key was unused when it was
stored; its session key was not checked against the credentials of the Peer, and a Join may take the
data key later.
-/

namespace Peerward.Control

open Peerward.Lib
open Peerward.Credentials (Crypto RotationCrypto RotationId RotationRequestProof SubjectCredential)
open Peerward.Net (U64_MAX saturatingAdd)
open Peerward.Store
open Peerward.Types (CredentialSerial MeshId PeerId)

/-- The Authority of an issuer may sign in this mesh now. -/
def JoinIssuer.Valid (issuer : JoinIssuer) (s : CredentialStore) (now : Timestamp) : Prop :=
  ∃ authority ∈ s.authorities, authority.id = issuer.authorityId
    ∧ authority.publicKey = issuer.authority.publicKey ∧ authority.accepted = true
    ∧ authority.current now = true

/-- The random serials of a pass are new and differ. -/
structure FreshSerials (s : CredentialStore) (requests : List RotationRow)
    (serials : RotationId → CredentialSerial) : Prop where
  new : ∀ request ∈ requests, ∀ row ∈ s.credentials, row.serial ≠ serials request.id
  distinct : requests.Pairwise fun a b => serials a.id ≠ serials b.id

/-- The Peer of a request is admitted for longer than a minute, and the issuer with it. -/
def due (s : CredentialStore) (issuer : JoinIssuer) (now : Timestamp) (request : RotationRow) : Bool :=
  s.lockEnabledPeer now s.meshId request.peerId && s.peers.all fun peer =>
    peer.id ≠ request.peerId || saturatingAdd (unixTimestamp now) 60 <
      min (issuer.notAfter (unixTimestamp now)) (admissionEnd peer.admissionUntil)

/-- A credential of the Peer has the session key of its request, or one of the mesh its data key. -/
def claimed (s : CredentialStore) (request : RotationRow) : Bool :=
  s.credentials.any fun row =>
    (row.peerId = request.peerId && row.publicKey = request.requestedSessionPublicKey)
      || row.wireguardPublicKey = request.requestedWireguardPublicKey

variable {crypto : RotationCrypto} {s s' : CredentialStore} {issuer : JoinIssuer} {now : Timestamp}
  {request : RotationRow} {serial : CredentialSerial}

/-! ## One turn

A turn is a check of the clock, a signature and an insertion. Only the insertion can fail, and it fails
exactly where one of the keys is already claimed.
-/

theorem claimed_eq_false : claimed s request = false ↔
    (∀ row ∈ s.credentials, row.peerId = request.peerId →
      row.publicKey ≠ request.requestedSessionPublicKey) ∧
    ∀ row ∈ s.credentials, row.wireguardPublicKey ≠ request.requestedWireguardPublicKey := by
  simp only [claimed, List.any_eq_false, Bool.or_eq_true, Bool.and_eq_true, decide_eq_true_eq, not_or,
    not_and]
  exact ⟨fun h => ⟨fun row hmem => (h row hmem).1, fun row hmem => (h row hmem).2⟩,
    fun h row hmem => ⟨h.1 row hmem, h.2 row hmem⟩⟩

/-- The rows after a turn that issues. -/
def issuedStore (s : CredentialStore) (issuer : JoinIssuer) (now : Timestamp) (request : RotationRow)
    (credential : SubjectCredential) : CredentialStore :=
  { s with
    credentials := s.credentials ++ [CredentialStore.stagedRow request (issuer.issued credential)]
    rotations := updateWhere (fun row => row.id = request.id && row.status = .pending)
      (CredentialStore.issueRow now credential.serial credential) s.rotations }

/-- A signed credential passes the first check of the store. -/
theorem issued_shape (issuer : JoinIssuer) {credential : SubjectCredential}
    (hinterval : credential.notBefore < credential.notAfter) (hsignature : credential.signature.length = 64) :
    (decide ((issuer.issued credential).signature.length ≠ 64)
      || decide ((issuer.issued credential).notAfter ≤ (issuer.issued credential).notBefore)) = false := by
  have hlt : credential.notBefore * SECOND < credential.notAfter * SECOND :=
    Nat.mul_lt_mul_of_pos_right hinterval (by decide)
  rw [Bool.or_eq_false_iff]
  exact ⟨decide_eq_false (not_not.mpr hsignature), decide_eq_false (not_le.mpr hlt)⟩

section Turn

variable (hs : s.WellFormed crypto.toCrypto) (hmem : request ∈ s.rotations)
include hs hmem

/-- The credential of a due request is inserted exactly when its keys are unclaimed. -/
theorem insertable_stagedRow (issuer : JoinIssuer) {credential : SubjectCredential} {peer : PeerRow}
    (hserial : ∀ row ∈ s.credentials, row.serial ≠ credential.serial)
    (hlive : s.lifecycle = .active) (hpeer : peer ∈ s.peers) (hid : peer.id = request.peerId)
    (hinterval : credential.notBefore < credential.notAfter)
    (hend : credential.notAfter ≤ admissionEnd peer.admissionUntil)
    (hsignature : credential.signature.length = 64) :
    s.Insertable (CredentialStore.stagedRow request (issuer.issued credential)) ↔
      claimed s request = false := by
  have hkeys := hs.rotations.keys request hmem
  constructor
  · intro h
    exact claimed_eq_false.mpr ⟨h.session, h.wireguard⟩
  · intro h
    obtain ⟨hsession, hwireguard⟩ := claimed_eq_false.mp h
    refine ⟨hlive, ?_, Nat.mul_lt_mul_of_pos_right hinterval (by decide), hsignature, ?_, hserial,
      hsession, hwireguard, nofun⟩
    · -- the admission ends in the second that bounds the credential, or later
      simp only [CredentialStore.beyondAdmission, List.any_eq_false, Bool.and_eq_true, decide_eq_true_eq,
        Option.any_eq_true, not_and, not_exists]
      intro other hother hsame deadline hdeadline
      have heq : other = peer := hs.peerIds.eq hother hpeer rfl rfl (hsame.trans hid.symm)
      rw [heq] at hdeadline
      simp only [admissionEnd, hdeadline, Option.map_some, Option.getD_some] at hend
      have hfloor := Nat.div_mul_le_self deadline SECOND
      show ¬ deadline < credential.notAfter * SECOND
      exact not_lt.mpr ((Nat.mul_le_mul_right SECOND hend).trans hfloor)
    · have hvalid := hkeys.2
      simp only [Credentials.validateSubjectKeys, rejectIf_eq_ok] at hvalid
      simp only [Bool.not_eq_false', Bool.and_eq_true, decide_eq_true_eq] at hvalid
      exact ⟨hkeys.1, hvalid.1.1.2, hvalid.1.2⟩

/-- The row lookup of a turn. -/
theorem find_peer : ∃ peer ∈ s.peers, peer.id = request.peerId ∧
    s.peers.find? (·.id = request.peerId) = some peer := by
  obtain ⟨peer, hpeer, hid⟩ := hs.rotationPeers request hmem
  refine ⟨peer, hpeer, hid, hs.peerIds.find_eq hpeer (decide_eq_true hid) fun other _ hother => ?_⟩
  exact ⟨rfl, rfl, (of_decide_eq_true hother).trans hid.symm⟩

/-- A turn that gets past the minute signs a credential and hands it to the store. -/
theorem issueRotation_eq (serial : CredentialSerial) {peer : PeerRow} (hfind : s.peers.find? (·.id = request.peerId) = some peer)
    (hroom : saturatingAdd (unixTimestamp now) 60 <
      min (issuer.notAfter (unixTimestamp now)) (admissionEnd peer.admissionUntil)) :
    ∃ credential : SubjectCredential, credential.serial = serial ∧
      credential.notBefore < credential.notAfter ∧
      credential.notAfter ≤ admissionEnd peer.admissionUntil ∧ credential.signature.length = 64 ∧
      issueRotation crypto.toCrypto s issuer now now request serial =
        (s.issuePeerRotation now request (issuer.issued credential) credential).mapError .store := by
  have hkeys := (hs.rotations.keys request hmem).2
  have hlt : unixTimestamp now <
      min (issuer.notAfter (unixTimestamp now)) (admissionEnd peer.admissionUntil) := by
    refine lt_of_le_of_lt ?_ hroom
    rcases Nat.le_total (unixTimestamp now + 60) U64_MAX with hle | hle
    · rw [Net.saturatingAdd_eq hle]
      omega
    · -- a saturated sum leaves no room
      exfalso
      have hmax : saturatingAdd (unixTimestamp now) 60 = U64_MAX := min_eq_right hle
      have hbound : issuer.notAfter (unixTimestamp now) ≤ U64_MAX :=
        (min_le_left _ _).trans (min_le_right _ _)
      have := lt_of_lt_of_le hroom (min_le_left _ _)
      omega
  let unsigned : Credentials.UnsignedSubject := {
    subject := .peer request.peerId
    meshId := s.meshId
    identityPublicKey := request.requestedIdentityPublicKey
    publicNoiseKey := request.requestedSessionPublicKey
    wireguardPublicKey := request.requestedWireguardPublicKey
    serial
    notBefore := unixTimestamp now
    notAfter := min (issuer.notAfter (unixTimestamp now)) (admissionEnd peer.admissionUntil) }
  let credential : SubjectCredential :=
    { unsigned with role := .peer, signature := issuer.authority.signSubject unsigned }
  have hissue : issuer.authority.issue crypto.toCrypto unsigned = .ok credential :=
    Credentials.Authority.issue_eq_ok.mpr ⟨hlt, hkeys, rfl⟩
  refine ⟨credential, rfl, hlt, min_le_right _ _, issuer.authority.length_signSubject unsigned, ?_⟩
  unfold issueRotation
  simp only [hfind, if_neg (not_le.mpr hroom)]
  rw [hissue]

omit hmem in
theorem due_iff {peer : PeerRow} (hpeer : peer ∈ s.peers) (hid : peer.id = request.peerId) :
    due s issuer now request = true ↔ s.lockEnabledPeer now s.meshId request.peerId = true ∧
      saturatingAdd (unixTimestamp now) 60 <
        min (issuer.notAfter (unixTimestamp now)) (admissionEnd peer.admissionUntil) := by
  unfold due
  rw [Bool.and_eq_true, List.all_eq_true]
  refine and_congr_right fun _ => ⟨fun h => ?_, fun h other hother => ?_⟩
  · simpa [hid] using h peer hpeer
  · by_cases hsame : other.id = request.peerId
    · rw [hs.peerIds.eq hother hpeer rfl rfl (hsame.trans hid.symm)]
      simpa using Or.inr h
    · simp [hsame]

/-- A turn that is not due does nothing. -/
theorem issueRotation_of_not_due (serial : CredentialSerial) (hdue : due s issuer now request = false) :
    issueRotation crypto.toCrypto s issuer now now request serial = .ok s := by
  obtain ⟨peer, hpeer, hid, hfind⟩ := find_peer hs hmem
  by_cases hroom : saturatingAdd (unixTimestamp now) 60 <
      min (issuer.notAfter (unixTimestamp now)) (admissionEnd peer.admissionUntil)
  · obtain ⟨credential, -, hinterval, -, hsignature, heq⟩ :=
      issueRotation_eq hs hmem serial hfind hroom
    have hlock : s.lockEnabledPeer now s.meshId request.peerId = false := by
      refine Bool.eq_false_iff.mpr fun hlock => ?_
      rw [(due_iff hs hpeer hid).mpr ⟨hlock, hroom⟩] at hdue
      cases hdue
    have hshape := issued_shape issuer hinterval hsignature
    rw [heq, CredentialStore.issuePeerRotation, hshape, hlock]
    rfl
  · unfold issueRotation
    simp only [hfind, if_pos (not_lt.mp hroom)]

/-- A due turn issues an unclaimed request, and fails on a claimed one. -/
theorem issueRotation_of_due (hissuer : issuer.Valid s now) (hpending : request.status = .pending)
    (hserial : ∀ row ∈ s.credentials, row.serial ≠ serial) (hdue : due s issuer now request = true) :
    (claimed s request = false → ∃ credential : SubjectCredential, credential.serial = serial ∧
      issueRotation crypto.toCrypto s issuer now now request serial
        = .ok (issuedStore s issuer now request credential)) ∧
    (claimed s request = true → ∃ error,
      issueRotation crypto.toCrypto s issuer now now request serial = .error error) := by
  obtain ⟨peer, hpeer, hid, hfind⟩ := find_peer hs hmem
  obtain ⟨hlock, hroom⟩ := (due_iff hs hpeer hid).mp hdue
  obtain ⟨credential, rfl, hinterval, hend, hsignature, heq⟩ :=
    issueRotation_eq hs hmem serial hfind hroom
  have hlive : s.lifecycle = .active := by
    simp only [CredentialStore.lockEnabledPeer, Bool.and_eq_true, decide_eq_true_eq] at hlock
    exact hlock.1.2
  have hinsert := insertable_stagedRow hs hmem issuer hserial hlive hpeer hid hinterval hend
    hsignature
  have hshape := issued_shape issuer hinterval hsignature
  have hfound : (s.rotations.any fun row => decide (row.id = request.id)
      && decide (row.peerId = request.peerId) && decide (row.status = .pending)) = true :=
    List.any_eq_true.mpr ⟨request, hmem, by simp [hpending]⟩
  have hauthority : s.authorityValid now (issuer.issued credential) = true := by
    obtain ⟨authority, hauth, hauthId, hkey, haccepted, hcurrent⟩ := hissuer
    refine List.any_eq_true.mpr ⟨authority, hauth, ?_⟩
    simp [JoinIssuer.issued, hauthId, hkey, haccepted, hcurrent]
  -- past the guards, the insert decides
  have hrun : s.issuePeerRotation now request (issuer.issued credential) credential =
      (s.insertCredential (CredentialStore.stagedRow request (issuer.issued credential))) >>= fun s =>
        s.updateRotations (fun row => row.id = request.id && row.status = .pending)
          (CredentialStore.issueRow now credential.serial credential) := by
    rw [CredentialStore.issuePeerRotation, hshape, hlock, hfound, hauthority]
    rfl
  constructor
  · intro hclaim
    refine ⟨credential, rfl, ?_⟩
    have hok := CredentialStore.insertCredential_eq_ok.mpr ⟨hinsert.mpr hclaim, rfl⟩
    rw [heq, hrun, hok, ok_bind]
    refine congrArg (Except.mapError ApiError.store) (CredentialStore.updateRotations_of_active ?_)
    exact hlive
  · intro hclaim
    rw [heq, hrun]
    cases hcase : s.insertCredential (CredentialStore.stagedRow request (issuer.issued credential)) with
    | error error => exact ⟨.store error, rfl⟩
    | ok s₁ =>
        have := hinsert.mp (CredentialStore.insertCredential_eq_ok.mp hcase).1
        rw [hclaim] at this
        cases this

end Turn

/-! ## The loop

Requests of different Peers do not claim each other's keys, so a turn does not change what the turns after
it find, and the loop succeeds when each turn would.
-/

/-- Requests of different Peers, for different data keys. -/
def Apart (a b : RotationRow) : Prop :=
  a.id ≠ b.id ∧ a.peerId ≠ b.peerId ∧ a.requestedWireguardPublicKey ≠ b.requestedWireguardPublicKey

/-- Issuing one request claims nothing of another. -/
theorem claimed_issuedStore (s : CredentialStore) (issuer : JoinIssuer) (now : Timestamp)
    (credential : SubjectCredential) {request other : RotationRow}
    (hapart : Apart request other) :
    claimed (issuedStore s issuer now request credential) other = claimed s other := by
  have hpeer : (request.peerId = other.peerId) = False := eq_false hapart.2.1
  have hkey : (request.requestedWireguardPublicKey = other.requestedWireguardPublicKey) = False :=
    eq_false hapart.2.2
  simp [claimed, issuedStore, CredentialStore.stagedRow, hpeer, hkey]

/-- The loop succeeds when no due request is claimed. -/
theorem issueRotations_iff (serials : RotationId → CredentialSerial) {requests : List RotationRow}
    (hs : s.WellFormed crypto.toCrypto) (hissuer : issuer.Valid s now)
    (hpending : ∀ request ∈ requests, request ∈ s.rotations ∧ request.status = .pending)
    (hapart : requests.Pairwise Apart) (hserials : FreshSerials s requests serials) :
    (issueRotations crypto.toCrypto s issuer now serials requests).2 = .ok () ↔
      ∀ request ∈ requests, due s issuer now request = true → claimed s request = false := by
  induction requests generalizing s with
  | nil => exact ⟨fun _ => nofun, fun _ => rfl⟩
  | cons request rest ih =>
      obtain ⟨hfirst, hrest⟩ := List.pairwise_cons.mp hapart
      obtain ⟨hmem, hstatus⟩ := hpending request List.mem_cons_self
      have hnew := hserials.new request List.mem_cons_self
      have hserialsRest : FreshSerials s rest serials :=
        ⟨fun other hother => hserials.new other (List.mem_cons_of_mem _ hother),
          (List.pairwise_cons.mp hserials.distinct).2⟩
      have hpendingRest : ∀ other ∈ rest, other ∈ s.rotations ∧ other.status = .pending :=
        fun other hother => hpending other (List.mem_cons_of_mem _ hother)
      rw [List.forall_mem_cons]
      cases hdue : due s issuer now request with
      | false =>
          -- the loop passes over a request that is not due
          have hturn := issueRotation_of_not_due hs hmem (serials request.id) hdue
          rw [issueRotations, hturn]
          have hiff := ih hs hissuer hpendingRest hrest hserialsRest
          exact hiff.trans ⟨fun h => ⟨nofun, h⟩, fun h => h.2⟩
      | true =>
          obtain ⟨hissue, hfail⟩ := issueRotation_of_due hs hmem hissuer
            hstatus hnew hdue
          cases hclaim : claimed s request with
          | true =>
              -- a claimed key ends the loop
              obtain ⟨error, herror⟩ := hfail hclaim
              rw [issueRotations, herror]
              exact ⟨nofun, fun h => by cases h.1 rfl⟩
          | false =>
              -- the turn has issued; what the rest needs still holds of the new rows
              obtain ⟨credential, hserial, hok⟩ := hissue hclaim
              have hs' := WellFormed.issueRotation hs hok
              rw [issueRotations, hok]
              have hpending' : ∀ other ∈ rest,
                  other ∈ (issuedStore s issuer now request credential).rotations ∧
                    other.status = .pending := by
                intro other hother
                obtain ⟨hold, hstill⟩ := hpendingRest other hother
                refine ⟨mem_updateWhere_of_not hold ?_, hstill⟩
                simp [(hfirst other hother).1.symm]
              have hserials' : FreshSerials (issuedStore s issuer now request credential) rest serials := by
                refine ⟨fun other hother row hrow => ?_, hserialsRest.distinct⟩
                rcases List.mem_append.mp hrow with hrow | hrow
                · exact hserialsRest.new other hother row hrow
                · rw [List.mem_singleton.mp hrow]
                  show credential.serial ≠ serials other.id
                  rw [hserial]
                  exact (List.pairwise_cons.mp hserials.distinct).1 other hother
              have hiff := ih hs' hissuer hpending' hrest hserials'
              refine hiff.trans ⟨fun h => ⟨fun _ => rfl, fun other hother hd => ?_⟩,
                fun h other hother hd => ?_⟩
              · rw [← claimed_issuedStore s issuer now credential (hfirst other hother)]
                exact h other hother hd
              · rw [claimed_issuedStore s issuer now credential (hfirst other hother)]
                exact h.2 other hother hd

theorem mem_pendingPeerRotations {limit : Nat} (h : request ∈ s.pendingPeerRotations limit) :
    request ∈ s.rotations ∧ request.status = .pending := by
  have hmem := (List.mem_insertionSort _).mp (List.mem_of_mem_take h)
  exact ⟨List.mem_of_mem_filter hmem, of_decide_eq_true (List.mem_filter.mp hmem).2⟩

/-- Two pending requests are of two Peers. -/
theorem pendingPeerRotations_apart (hs : s.WellFormed crypto.toCrypto) (limit : Nat) :
    (s.pendingPeerRotations limit).Pairwise Apart := by
  have hrows : (s.rotations.filter (·.status = .pending)).Pairwise Apart := by
    have hall := (hs.rotations.ids.and (hs.rotations.oneOpen.and hs.rotations.wireguards)).sublist
      (List.filter_sublist (p := fun row => decide (row.status = .pending)))
    refine List.Pairwise.imp_of_mem (fun {a b} ha hb h => ?_) hall
    obtain ⟨hid, hopen, hkey⟩ := h
    have hopenOf : ∀ row ∈ s.rotations.filter (·.status = .pending), row.isOpen = true := by
      intro row hrow
      simp [RotationRow.isOpen, of_decide_eq_true (List.mem_filter.mp hrow).2]
    exact ⟨hid rfl rfl, hopen (hopenOf a ha) (hopenOf b hb), hkey rfl rfl⟩
  have hsymm : ∀ {a b : RotationRow}, Apart a b → Apart b a :=
    fun h => ⟨h.1.symm, h.2.1.symm, h.2.2.symm⟩
  have hsorted := (List.Perm.pairwise_iff hsymm (List.perm_insertionSort
    (fun a b => CredentialStore.olderRotation a b = true) _)).mpr hrows
  exact hsorted.sublist (List.take_sublist _ _)

/-- **A pass succeeds when the issuer has more than a minute left and no pending request it takes up
names a session key of its Peer or a data key of the mesh.** -/
theorem issuePending_ok_iff (hreach : Reachable crypto s) (hissuer : issuer.Valid s now)
    {serials : RotationId → CredentialSerial}
    (hserials : FreshSerials s (s.pendingPeerRotations 128) serials) :
    (issuePendingPeerRotations crypto.toCrypto s issuer now serials).2 = .ok () ↔
      saturatingAdd (unixTimestamp now) 60 < issuer.notAfter (unixTimestamp now) ∧
      ∀ request ∈ s.pendingPeerRotations 128,
        due s issuer now request = true → claimed s request = false := by
  have hs := hreach.wellFormed
  unfold issuePendingPeerRotations
  by_cases hroom : saturatingAdd (unixTimestamp now) 60 < issuer.notAfter (unixTimestamp now)
  · rw [if_neg (not_le.mpr hroom), issueRotations_iff serials hs hissuer
      (fun _ => mem_pendingPeerRotations) (pendingPeerRotations_apart hs 128) hserials]
    exact ⟨fun h => ⟨hroom, h⟩, fun h => h.2⟩
  · rw [if_pos (not_lt.mp hroom)]
    exact ⟨nofun, fun h => absurd h.1 hroom⟩

/-! ## A request for the current session key

A Peer asks for a new data key but keeps its session key. The request is stored, and every later pass fails
on it.
-/

/-- Every signature is good. -/
def acceptingCrypto : RotationCrypto where
  signedAuthority _ _ _ := true
  signedSubject _ _ _ := true
  signedDistribution _ _ _ := true
  signedAuthorityBundle _ _ _ := true
  contributoryWireguardKey key := key ≠ 0
  verifyingKey _ := true
  signedRotationRequest _ _ _ := true
  signedRotationActivation _ _ _ := true
  zero_not_contributory := by decide

def theMesh : MeshId := ⟨0x00000000000040008000000000000001#128, Types.random_one⟩
def firstPeer : PeerId := ⟨0x00000000000040008000000000000002#128, Types.random_two⟩
def authoritySerial : CredentialSerial := ⟨0x00000000000040008000000000000003#128, Types.random_three⟩
def joinedSerial : CredentialSerial := ⟨0x00000000000040008000000000000004#128, Types.random_four⟩
def rotatedSerial : CredentialSerial := ⟨0x00000000000040008000000000000005#128, Types.random_five⟩
def rotationOne : RotationId := ⟨0x00000000000040008000000000000006#128, by decide⟩

def onlineAuthority : AuthorityRow where
  lifecycle := .staged
  notBefore := 0
  notAfter := fromUnixTimestamp 1000000
  id := theMesh
  serial := authoritySerial
  publicKey := 7

def onlineIssuer : JoinIssuer where
  authorityId := theMesh
  authority := {
    publicKey := 7
    signSubject := fun _ => List.replicate 64 0
    length_signSubject := fun _ => rfl }
  authorityCertificate := {
    meshId := theMesh
    serial := authoritySerial
    publicKey := 7
    notBefore := 0
    notAfter := 1000000
    signature := [] }
  validitySeconds := 86400

def firstEnrollment : CredentialStore.Enrollment where
  peerId := firstPeer
  labels := ∅
  admissionUntil := none
  address := .v4 0x0A000001
  secondaryAddress := .v6 1
  identityPublicKey := 11
  publicNoiseKey := 12
  wireguardPublicKey := 13

/-- The Peer asks for new keys, with this session key. -/
def requestWith (sessionPublicKey : Types.Key) : RotationRequestProof where
  meshId := theMesh
  peerId := firstPeer
  rotationId := rotationOne
  currentSerial := joinedSerial
  identityPublicKey := 21
  sessionPublicKey := sessionPublicKey
  wireguardPublicKey := 23

def joinedEvents : List (Timestamp × CredentialOp) :=
  [(fromUnixTimestamp 1000, .stageAuthority onlineAuthority),
    (fromUnixTimestamp 1000, .transitionAuthority authoritySerial .active),
    (fromUnixTimestamp 1000, .join onlineIssuer firstEnrollment joinedSerial)]

/-- The rows after the request was stored. -/
def requestedStore (sessionPublicKey : Types.Key) : CredentialStore :=
  exec (step acceptingCrypto) (emptyStore theMesh 3600)
    (joinedEvents ++ [(fromUnixTimestamp 1001, .request (requestWith sessionPublicKey) [] [])])

theorem requestedStore_reachable (sessionPublicKey : Types.Key) :
    Reachable acceptingCrypto (requestedStore sessionPublicKey) :=
  ⟨theMesh, 3600, _, rfl⟩

/-- A new session key is issued. -/
theorem issuePending_new_session :
    (issuePendingPeerRotations acceptingCrypto.toCrypto (requestedStore 22) onlineIssuer
      (fromUnixTimestamp 1002) fun _ => rotatedSerial).2 = .ok () :=
  (issuePending_ok_iff (requestedStore_reachable 22)
    (by unfold JoinIssuer.Valid; decide +kernel)
    ⟨by decide +kernel, by decide +kernel⟩).mpr ⟨by decide +kernel, by decide +kernel⟩

/-- The session key of the current credential is stored in a request, and never issued. -/
theorem issuePending_not_always_ok :
    ¬ ∀ (s : CredentialStore) (issuer : JoinIssuer) (now : Timestamp)
      (serials : RotationId → CredentialSerial), Reachable acceptingCrypto s → issuer.Valid s now →
      unixTimestamp now + 60 ≤ issuer.authorityCertificate.notAfter →
      FreshSerials s (s.pendingPeerRotations 128) serials →
      (issuePendingPeerRotations acceptingCrypto.toCrypto s issuer now serials).2 = .ok () := by
  intro h
  have hok := h (requestedStore 12) onlineIssuer (fromUnixTimestamp 1002) (fun _ => rotatedSerial)
    (requestedStore_reachable 12) (by unfold JoinIssuer.Valid; decide +kernel) (by decide +kernel)
    ⟨by decide +kernel, by decide +kernel⟩
  have herror : (issuePendingPeerRotations acceptingCrypto.toCrypto (requestedStore 12) onlineIssuer
      (fromUnixTimestamp 1002) fun _ => rotatedSerial).2 = .error (.store .database) := by
    decide +kernel
  rw [herror] at hok
  cases hok

end Peerward.Control
