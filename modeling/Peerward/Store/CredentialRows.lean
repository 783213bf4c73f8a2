import Peerward.Store.Credentials

/-!
# What the credential rows keep

Unique indexes make serials, keys and open requests unique; checks at the insert make the keys of a row
valid for good. `WellFormed` collects this. Each guarded write keeps it, so each operation does.
-/

namespace Peerward.Store

open Peerward.Lib
open Peerward.Credentials (Crypto RotationCrypto RotationId RotationRequestProof
  rotationRequestTranscript_eq_ok validateSubjectKeys verifyRotationActivation
  verifyRotationRequest verifyRotationRequest_eq_ok)
open Peerward.Types (CredentialSerial Key MeshId PeerId)

namespace CredentialStore

variable {s s' : CredentialStore} {now : Timestamp}

/-! ## What a guarded write does -/

theorem liveWrite_eq_ok : s.liveWrite = .ok () ↔ s.lifecycle = .active := by
  rw [liveWrite, rejectIf_eq_ok]
  simp

theorem updateCredentials_ok {p : PeerCredentialRow → Bool} {f : PeerCredentialRow → PeerCredentialRow}
    (h : s.updateCredentials p f = .ok s') :
    s' = { s with credentials := updateWhere p f s.credentials } := by
  unfold updateCredentials at h
  split at h
  · obtain ⟨_, _, h⟩ := bind_eq_ok.mp h
    exact (Except.ok.inj h).symm
  · exact (Except.ok.inj h).symm

theorem updateCredentials_of_active {p : PeerCredentialRow → Bool}
    {f : PeerCredentialRow → PeerCredentialRow} (h : s.lifecycle = .active) :
    s.updateCredentials p f = .ok { s with credentials := updateWhere p f s.credentials } := by
  unfold updateCredentials
  rw [liveWrite_eq_ok.mpr h]
  split <;> rfl

theorem updateRotations_ok {p : RotationRow → Bool} {f : RotationRow → RotationRow}
    (h : s.updateRotations p f = .ok s') :
    s' = { s with rotations := updateWhere p f s.rotations } := by
  unfold updateRotations at h
  split at h
  · obtain ⟨_, _, h⟩ := bind_eq_ok.mp h
    exact (Except.ok.inj h).symm
  · exact (Except.ok.inj h).symm

theorem updateRotations_of_active {p : RotationRow → Bool} {f : RotationRow → RotationRow}
    (h : s.lifecycle = .active) :
    s.updateRotations p f = .ok { s with rotations := updateWhere p f s.rotations } := by
  unfold updateRotations
  rw [liveWrite_eq_ok.mpr h]
  split <;> rfl

/-- What the database asks of a new credential. -/
structure Insertable (s : CredentialStore) (row : PeerCredentialRow) : Prop where
  live : s.lifecycle = .active
  admitted : s.beyondAdmission row = false
  interval : row.notBefore < row.notAfter
  signature : row.signature.length = 64
  keys : row.wireguardPublicKey ≠ 0 ∧ row.wireguardPublicKey ≠ row.publicKey
    ∧ row.wireguardPublicKey ≠ row.identityPublicKey
  serial : ∀ other ∈ s.credentials, other.serial ≠ row.serial
  session : ∀ other ∈ s.credentials, other.peerId = row.peerId → other.publicKey ≠ row.publicKey
  wireguard : ∀ other ∈ s.credentials, other.wireguardPublicKey ≠ row.wireguardPublicKey
  active : row.lifecycle = .active → ∀ other ∈ s.credentials, other.lifecycle = .active →
    other.peerId ≠ row.peerId

theorem insertCredential_eq_ok {row : PeerCredentialRow} :
    s.insertCredential row = .ok s' ↔
      s.Insertable row ∧ s' = { s with credentials := s.credentials ++ [row] } := by
  constructor
  · intro h
    unfold insertCredential at h
    obtain ⟨_, hlive, h⟩ := bind_eq_ok.mp h
    obtain ⟨_, hadmitted, h⟩ := bind_eq_ok.mp h
    obtain ⟨_, hinterval, h⟩ := bind_eq_ok.mp h
    obtain ⟨_, hkeys, h⟩ := bind_eq_ok.mp h
    obtain ⟨_, hserial, h⟩ := bind_eq_ok.mp h
    obtain ⟨_, hsession, h⟩ := bind_eq_ok.mp h
    obtain ⟨_, hwireguard, h⟩ := bind_eq_ok.mp h
    obtain ⟨_, hactive, h⟩ := bind_eq_ok.mp h
    have hinterval := rejectIf_eq_ok.mp hinterval
    have hkeys := rejectIf_eq_ok.mp hkeys
    simp only [Bool.or_eq_false_iff, decide_eq_false_iff_not, not_le, Decidable.not_not]
      at hinterval hkeys
    refine ⟨⟨liveWrite_eq_ok.mp hlive, rejectIf_eq_ok.mp hadmitted, hinterval.1, hinterval.2,
      ⟨hkeys.1.1, hkeys.1.2, hkeys.2⟩, ?_, ?_, ?_, ?_⟩, (Except.ok.inj h).symm⟩
    · exact fun other hmem => collides_eq_false.mp (rejectIf_eq_ok.mp hserial) rfl other hmem rfl
    · intro other hmem hpeer hkey
      have := collides_eq_false.mp (rejectIf_eq_ok.mp hsession) rfl other hmem rfl
      exact this (by rw [hpeer, hkey])
    · exact fun other hmem => collides_eq_false.mp (rejectIf_eq_ok.mp hwireguard) rfl other hmem rfl
    · intro hrow other hmem hother
      exact collides_eq_false.mp (rejectIf_eq_ok.mp hactive) (decide_eq_true hrow) other hmem
        (decide_eq_true hother)
  · rintro ⟨h, rfl⟩
    have hserial : collides (fun _ => true) (·.serial) s.credentials row = false :=
      collides_eq_false.mpr fun _ other hmem _ => h.serial other hmem
    have hsession : collides (fun _ => true) (fun row => (row.peerId, row.publicKey)) s.credentials row
        = false :=
      collides_eq_false.mpr fun _ other hmem _ heq =>
        h.session other hmem (Prod.mk.inj heq).1 (Prod.mk.inj heq).2
    have hwireguard : collides (fun _ => true) (·.wireguardPublicKey) s.credentials row = false :=
      collides_eq_false.mpr fun _ other hmem _ => h.wireguard other hmem
    have hactive : collides (·.lifecycle = .active) (·.peerId) s.credentials row = false :=
      collides_eq_false.mpr fun hrow other hmem hother =>
        h.active (of_decide_eq_true hrow) other hmem (of_decide_eq_true hother)
    have hinterval : (decide (row.notAfter ≤ row.notBefore) || decide (row.signature.length ≠ 64))
        = false := by
      simpa [h.signature] using h.interval
    have hkeys : (decide (row.wireguardPublicKey = 0)
        || decide (row.wireguardPublicKey = row.publicKey)
        || decide (row.wireguardPublicKey = row.identityPublicKey)) = false := by
      simpa [and_assoc] using h.keys
    unfold insertCredential
    rw [liveWrite_eq_ok.mpr h.live, h.admitted, hinterval, hkeys, hserial, hsession, hwireguard, hactive]
    rfl

/-- What the database asks of a new request, past its primary key. -/
structure InsertableRotation (s : CredentialStore) (row : RotationRow) : Prop where
  live : s.lifecycle = .active
  keys : row.requestedWireguardPublicKey ≠ 0
    ∧ row.requestedWireguardPublicKey ≠ row.requestedSessionPublicKey
    ∧ row.requestedWireguardPublicKey ≠ row.requestedIdentityPublicKey
  pair : ∀ other ∈ s.rotations, other.peerId = row.peerId →
    other.requestedIdentityPublicKey = row.requestedIdentityPublicKey →
    other.requestedSessionPublicKey ≠ row.requestedSessionPublicKey
  oneOpen : row.isOpen = true → ∀ other ∈ s.rotations, other.isOpen = true → other.peerId ≠ row.peerId
  wireguard : ∀ other ∈ s.rotations,
    other.requestedWireguardPublicKey ≠ row.requestedWireguardPublicKey

theorem insertRotation_eq_ok {row : RotationRow} :
    s.insertRotation row = .ok s' ↔
      s.InsertableRotation row ∧ s' = { s with rotations := s.rotations ++ [row] } := by
  constructor
  · intro h
    unfold insertRotation at h
    obtain ⟨_, hlive, h⟩ := bind_eq_ok.mp h
    obtain ⟨_, hkeys, h⟩ := bind_eq_ok.mp h
    obtain ⟨_, hpair, h⟩ := bind_eq_ok.mp h
    obtain ⟨_, hopen, h⟩ := bind_eq_ok.mp h
    obtain ⟨_, hwireguard, h⟩ := bind_eq_ok.mp h
    have hkeys := rejectIf_eq_ok.mp hkeys
    simp only [Bool.or_eq_false_iff, decide_eq_false_iff_not] at hkeys
    refine ⟨⟨liveWrite_eq_ok.mp hlive, ⟨hkeys.1.1, hkeys.1.2, hkeys.2⟩, ?_, ?_, ?_⟩,
      (Except.ok.inj h).symm⟩
    · intro other hmem hpeer hidentity hsession
      have := collides_eq_false.mp (rejectIf_eq_ok.mp hpair) rfl other hmem rfl
      exact this (by rw [hpeer, hidentity, hsession])
    · exact collides_eq_false.mp (rejectIf_eq_ok.mp hopen)
    · exact fun other hmem => collides_eq_false.mp (rejectIf_eq_ok.mp hwireguard) rfl other hmem rfl
  · rintro ⟨h, rfl⟩
    have hpair : collides (fun _ => true)
        (fun row => (row.peerId, row.requestedIdentityPublicKey, row.requestedSessionPublicKey))
        s.rotations row = false := by
      refine collides_eq_false.mpr fun _ other hmem _ heq => ?_
      obtain ⟨hpeer, hrest⟩ := Prod.mk.inj heq
      exact h.pair other hmem hpeer (Prod.mk.inj hrest).1 (Prod.mk.inj hrest).2
    have hopen : collides RotationRow.isOpen (·.peerId) s.rotations row = false :=
      collides_eq_false.mpr h.oneOpen
    have hwireguard : collides (fun _ => true) (·.requestedWireguardPublicKey) s.rotations row = false :=
      collides_eq_false.mpr fun _ other hmem _ => h.wireguard other hmem
    have hkeys : (decide (row.requestedWireguardPublicKey = 0)
        || decide (row.requestedWireguardPublicKey = row.requestedSessionPublicKey)
        || decide (row.requestedWireguardPublicKey = row.requestedIdentityPublicKey)) = false := by
      simpa [and_assoc] using h.keys
    unfold insertRotation
    rw [liveWrite_eq_ok.mpr h.live, hkeys, hpair, hopen, hwireguard]
    rfl

theorem insertAddress_ok {row : AddressRow} (h : s.insertAddress row = .ok s') :
    collides (·.state = .active) (·.address) s.addresses row = false ∧
    collides (·.state = .active) (fun row => (row.peerId, row.address.isIpv4)) s.addresses row = false ∧
    s' = { s with addresses := s.addresses ++ [row] } := by
  unfold insertAddress at h
  obtain ⟨_, haddress, h⟩ := bind_eq_ok.mp h
  obtain ⟨_, hfamily, h⟩ := bind_eq_ok.mp h
  exact ⟨rejectIf_eq_ok.mp haddress, rejectIf_eq_ok.mp hfamily, (Except.ok.inj h).symm⟩

end CredentialStore

/-! ## The tables by themselves -/

/-- A credential as an Authority signs it: valid keys, and a lifetime in whole seconds. -/
structure PeerCredentialRow.Sound (crypto : Crypto) (row : PeerCredentialRow) : Prop where
  keys : validateSubjectKeys crypto (.peer row.peerId) row.identityPublicKey row.publicKey
    row.wireguardPublicKey = .ok ()
  seconds : ∃ start stop, row.notBefore = fromUnixTimestamp start ∧ row.notAfter = fromUnixTimestamp stop
  interval : row.notBefore < row.notAfter

structure WellFormedCredentials (crypto : Crypto) (rows : List PeerCredentialRow) : Prop where
  serials : Unique (fun _ => true) (·.serial) rows
  sessions : Unique (fun _ => true) (fun row => (row.peerId, row.publicKey)) rows
  wireguards : Unique (fun _ => true) (·.wireguardPublicKey) rows
  oneActive : Unique (·.lifecycle = .active) (·.peerId) rows
  sound : ∀ row ∈ rows, row.Sound crypto

structure WellFormedRotations (crypto : Crypto) (rows : List RotationRow) : Prop where
  ids : Unique (fun _ => true) (·.id) rows
  oneOpen : Unique RotationRow.isOpen (·.peerId) rows
  wireguards : Unique (fun _ => true) (·.requestedWireguardPublicKey) rows
  keys : ∀ row ∈ rows, row.requestedWireguardPublicKey ≠ 0 ∧
    validateSubjectKeys crypto (.peer row.peerId) row.requestedIdentityPublicKey
      row.requestedSessionPublicKey row.requestedWireguardPublicKey = .ok ()

structure WellFormedAddresses (rows : List AddressRow) : Prop where
  addresses : Unique (·.state = .active) (·.address) rows
  families : Unique (·.state = .active) (fun row => (row.peerId, row.address.isIpv4)) rows

/-- An update that leaves everything but the lifecycle columns alone. -/
def KeepsCredential (f : PeerCredentialRow → PeerCredentialRow) : Prop :=
  ∀ row, (f row).peerId = row.peerId ∧ (f row).serial = row.serial
    ∧ (f row).identityPublicKey = row.identityPublicKey ∧ (f row).publicKey = row.publicKey
    ∧ (f row).wireguardPublicKey = row.wireguardPublicKey
    ∧ (f row).notBefore = row.notBefore ∧ (f row).notAfter = row.notAfter

/-- An update that leaves the requester and its keys alone and opens nothing. -/
def KeepsRotation (f : RotationRow → RotationRow) : Prop :=
  ∀ row, (f row).id = row.id ∧ (f row).peerId = row.peerId
    ∧ (f row).requestedIdentityPublicKey = row.requestedIdentityPublicKey
    ∧ (f row).requestedSessionPublicKey = row.requestedSessionPublicKey
    ∧ (f row).requestedWireguardPublicKey = row.requestedWireguardPublicKey

theorem PeerCredentialRow.Sound.keep {crypto : Crypto} {row : PeerCredentialRow}
    {f : PeerCredentialRow → PeerCredentialRow} (h : row.Sound crypto) (hf : KeepsCredential f) :
    (f row).Sound crypto := by
  obtain ⟨hpeer, -, hidentity, hpublic, hwireguard, hbefore, hafter⟩ := hf row
  refine ⟨?_, ?_, ?_⟩
  · rw [hpeer, hidentity, hpublic, hwireguard]
    exact h.keys
  · rw [hbefore, hafter]
    exact h.seconds
  · rw [hbefore, hafter]
    exact h.interval

namespace WellFormedCredentials

variable {crypto : Crypto} {rows : List PeerCredentialRow} {p : PeerCredentialRow → Bool}
  {f : PeerCredentialRow → PeerCredentialRow}

theorem nil : WellFormedCredentials crypto [] := ⟨.nil, .nil, .nil, .nil, nofun⟩

theorem filter (h : WellFormedCredentials crypto rows) (keep : PeerCredentialRow → Bool) :
    WellFormedCredentials crypto (rows.filter keep) :=
  ⟨h.serials.filter keep, h.sessions.filter keep, h.wireguards.filter keep, h.oneActive.filter keep,
    fun row hmem => h.sound row (List.mem_of_mem_filter hmem)⟩

/-- Everything but `oneActive` is about columns that no update touches. -/
theorem update (h : WellFormedCredentials crypto rows) (hf : KeepsCredential f)
    (hactive : Unique (·.lifecycle = .active) (·.peerId) (updateWhere p f rows)) :
    WellFormedCredentials crypto (updateWhere p f rows) where
  serials := h.serials.update (fun _ _ _ _ => rfl) fun row _ _ => (hf row).2.1
  sessions := h.sessions.update (fun _ _ _ _ => rfl) fun row _ _ => by
    rw [(hf row).1, (hf row).2.2.2.1]
  wireguards := h.wireguards.update (fun _ _ _ _ => rfl) fun row _ _ => (hf row).2.2.2.2.1
  oneActive := hactive
  sound := by
    intro row hmem
    rcases updateWhere_cases hmem with ⟨hold, -⟩ | ⟨old, hold, -, rfl⟩
    · exact h.sound row hold
    · exact (h.sound old hold).keep hf

/-- An update that activates nothing. -/
theorem retire (h : WellFormedCredentials crypto rows) (hf : KeepsCredential f)
    (hactive : ∀ row, (f row).lifecycle = .active → row.lifecycle = .active) :
    WellFormedCredentials crypto (updateWhere p f rows) :=
  h.update hf (h.oneActive.update
    (fun row _ _ hnew => decide_eq_true (hactive row (of_decide_eq_true hnew)))
    fun row _ _ => (hf row).1)

/-- The activation of one serial, of a Peer that has no active credential. -/
theorem activate (h : WellFormedCredentials crypto rows) (hf : KeepsCredential f)
    (serial : CredentialSerial) (hp : ∀ row ∈ rows, p row = true → row.serial = serial)
    (hfree : ∀ row ∈ rows, p row = true → ∀ other ∈ rows, other.lifecycle = .active →
      other.peerId ≠ row.peerId) :
    WellFormedCredentials crypto (updateWhere p f rows) := by
  refine h.update hf (List.pairwise_map.mpr (List.Pairwise.imp_of_mem (fun {a b} ha hb hab hca hcb => ?_)
    (h.serials.and h.oneActive)))
  obtain ⟨hserial, hone⟩ := hab
  have hca := of_decide_eq_true hca
  have hcb := of_decide_eq_true hcb
  show (if p a = true then f a else a).peerId ≠ (if p b = true then f b else b).peerId
  by_cases hpa : p a = true <;> by_cases hpb : p b = true
  · exact absurd ((hp a ha hpa).trans (hp b hb hpb).symm) (hserial rfl rfl)
  · rw [if_neg hpb] at hcb ⊢
    rw [if_pos hpa, (hf a).1]
    exact (hfree a ha hpa b hb hcb).symm
  · rw [if_neg hpa] at hca ⊢
    rw [if_pos hpb, (hf b).1]
    exact hfree b hb hpb a ha hca
  · rw [if_neg hpa] at hca ⊢
    rw [if_neg hpb] at hcb ⊢
    exact hone (decide_eq_true hca) (decide_eq_true hcb)

theorem insert {s : CredentialStore} {row : PeerCredentialRow}
    (h : WellFormedCredentials crypto s.credentials) (hrow : s.Insertable row)
    (hsound : row.Sound crypto) : WellFormedCredentials crypto (s.credentials ++ [row]) where
  serials := h.serials.insert (collides_eq_false.mpr fun _ other hmem _ => hrow.serial other hmem)
  sessions := h.sessions.insert (collides_eq_false.mpr fun _ other hmem _ heq =>
    hrow.session other hmem (Prod.mk.inj heq).1 (Prod.mk.inj heq).2)
  wireguards := h.wireguards.insert
    (collides_eq_false.mpr fun _ other hmem _ => hrow.wireguard other hmem)
  oneActive := h.oneActive.insert (collides_eq_false.mpr fun hactive other hmem hother =>
    hrow.active (of_decide_eq_true hactive) other hmem (of_decide_eq_true hother))
  sound := by
    intro other hmem
    rcases List.mem_append.mp hmem with hmem | hmem
    · exact h.sound other hmem
    · rw [List.mem_singleton.mp hmem]
      exact hsound

end WellFormedCredentials

namespace WellFormedRotations

variable {crypto : Crypto} {rows : List RotationRow} {p : RotationRow → Bool}
  {f : RotationRow → RotationRow}

theorem nil : WellFormedRotations crypto [] := ⟨.nil, .nil, .nil, nofun⟩

theorem filter (h : WellFormedRotations crypto rows) (keep : RotationRow → Bool) :
    WellFormedRotations crypto (rows.filter keep) :=
  ⟨h.ids.filter keep, h.oneOpen.filter keep, h.wireguards.filter keep,
    fun row hmem => h.keys row (List.mem_of_mem_filter hmem)⟩

theorem update (h : WellFormedRotations crypto rows) (hf : KeepsRotation f)
    (hopen : ∀ row ∈ rows, p row = true → (f row).isOpen = true → row.isOpen = true) :
    WellFormedRotations crypto (updateWhere p f rows) where
  ids := h.ids.update (fun _ _ _ _ => rfl) fun row _ _ => (hf row).1
  oneOpen := h.oneOpen.update hopen fun row _ _ => (hf row).2.1
  wireguards := h.wireguards.update (fun _ _ _ _ => rfl) fun row _ _ => (hf row).2.2.2.2
  keys := by
    intro row hmem
    rcases updateWhere_cases hmem with ⟨hold, -⟩ | ⟨old, hold, -, rfl⟩
    · exact h.keys row hold
    · obtain ⟨-, hpeer, hidentity, hsession, hwireguard⟩ := hf old
      rw [hpeer, hidentity, hsession, hwireguard]
      exact h.keys old hold

theorem insert {s : CredentialStore} {row : RotationRow}
    (h : WellFormedRotations crypto s.rotations) (hrow : s.InsertableRotation row)
    (hid : ∀ other ∈ s.rotations, other.id ≠ row.id)
    (hkeys : validateSubjectKeys crypto (.peer row.peerId) row.requestedIdentityPublicKey
      row.requestedSessionPublicKey row.requestedWireguardPublicKey = .ok ()) :
    WellFormedRotations crypto (s.rotations ++ [row]) where
  ids := h.ids.insert (collides_eq_false.mpr fun _ other hmem _ => hid other hmem)
  oneOpen := h.oneOpen.insert (collides_eq_false.mpr hrow.oneOpen)
  wireguards := h.wireguards.insert
    (collides_eq_false.mpr fun _ other hmem _ => hrow.wireguard other hmem)
  keys := by
    intro other hmem
    rcases List.mem_append.mp hmem with hmem | hmem
    · exact h.keys other hmem
    · rw [List.mem_singleton.mp hmem]
      exact ⟨hrow.keys.1, hkeys⟩

end WellFormedRotations

/-! ## The store -/

/-- What the indexes, the checks and the references keep in every reachable state. -/
structure CredentialStore.WellFormed (crypto : Crypto) (s : CredentialStore) : Prop where
  peerIds : Unique (fun _ => true) (·.id) s.peers
  addresses : WellFormedAddresses s.addresses
  credentials : WellFormedCredentials crypto s.credentials
  rotations : WellFormedRotations crypto s.rotations
  credentialPeers : ∀ row ∈ s.credentials, ∃ peer ∈ s.peers, peer.id = row.peerId
  rotationPeers : ∀ row ∈ s.rotations, ∃ peer ∈ s.peers, peer.id = row.peerId

namespace CredentialStore

variable {crypto : Crypto} {s s' : CredentialStore} {now : Timestamp}

namespace WellFormed

/-- The other columns of the mesh do not matter. -/
theorem congr (h : s.WellFormed crypto) (hp : s'.peers = s.peers) (ha : s'.addresses = s.addresses)
    (hc : s'.credentials = s.credentials) (hr : s'.rotations = s.rotations) : s'.WellFormed crypto := by
  obtain ⟨h1, h2, h3, h4, h5, h6⟩ := h
  exact ⟨hp ▸ h1, ha ▸ h2, hc ▸ h3, hr ▸ h4, hc ▸ hp ▸ h5, hr ▸ hp ▸ h6⟩

theorem setCredentials (h : s.WellFormed crypto) {rows : List PeerCredentialRow}
    (hrows : WellFormedCredentials crypto rows)
    (hpeers : ∀ row ∈ rows, ∃ old ∈ s.credentials, old.peerId = row.peerId) :
    { s with credentials := rows }.WellFormed crypto :=
  { h with
    credentials := hrows
    credentialPeers := fun row hmem => by
      obtain ⟨old, hold, heq⟩ := hpeers row hmem
      obtain ⟨peer, hpeer, hid⟩ := h.credentialPeers old hold
      exact ⟨peer, hpeer, hid.trans heq⟩ }

theorem updateCredentials (h : s.WellFormed crypto) {p : PeerCredentialRow → Bool}
    {f : PeerCredentialRow → PeerCredentialRow} (hf : KeepsCredential f)
    (hrows : WellFormedCredentials crypto (updateWhere p f s.credentials)) :
    { s with credentials := updateWhere p f s.credentials }.WellFormed crypto := by
  refine h.setCredentials hrows fun row hmem => ?_
  rcases updateWhere_cases hmem with ⟨hold, -⟩ | ⟨old, hold, -, rfl⟩
  · exact ⟨row, hold, rfl⟩
  · exact ⟨old, hold, (hf old).1.symm⟩

theorem retireCredentials (h : s.WellFormed crypto) {p : PeerCredentialRow → Bool}
    {f : PeerCredentialRow → PeerCredentialRow} (hf : KeepsCredential f)
    (hactive : ∀ row, (f row).lifecycle = .active → row.lifecycle = .active) :
    { s with credentials := updateWhere p f s.credentials }.WellFormed crypto :=
  h.updateCredentials hf (h.credentials.retire hf hactive)

theorem insertCredential (h : s.WellFormed crypto) {row : PeerCredentialRow}
    (hrow : s.Insertable row) (hsound : row.Sound crypto)
    (hpeer : ∃ peer ∈ s.peers, peer.id = row.peerId) :
    { s with credentials := s.credentials ++ [row] }.WellFormed crypto :=
  { h with
    credentials := h.credentials.insert hrow hsound
    credentialPeers := fun other hmem => by
      rcases List.mem_append.mp hmem with hmem | hmem
      · exact h.credentialPeers other hmem
      · rw [List.mem_singleton.mp hmem]
        exact hpeer }

theorem updateRotations (h : s.WellFormed crypto) {p : RotationRow → Bool}
    {f : RotationRow → RotationRow} (hf : KeepsRotation f)
    (hopen : ∀ row ∈ s.rotations, p row = true → (f row).isOpen = true → row.isOpen = true) :
    { s with rotations := updateWhere p f s.rotations }.WellFormed crypto :=
  { h with
    rotations := h.rotations.update hf hopen
    rotationPeers := fun row hmem => by
      rcases updateWhere_cases hmem with ⟨hold, -⟩ | ⟨old, hold, -, rfl⟩
      · exact h.rotationPeers row hold
      · rw [(hf old).2.1]
        exact h.rotationPeers old hold }

theorem insertRotation (h : s.WellFormed crypto) {row : RotationRow}
    (hrow : s.InsertableRotation row) (hid : ∀ other ∈ s.rotations, other.id ≠ row.id)
    (hkeys : validateSubjectKeys crypto (.peer row.peerId) row.requestedIdentityPublicKey
      row.requestedSessionPublicKey row.requestedWireguardPublicKey = .ok ())
    (hpeer : ∃ peer ∈ s.peers, peer.id = row.peerId) :
    { s with rotations := s.rotations ++ [row] }.WellFormed crypto :=
  { h with
    rotations := h.rotations.insert hrow hid hkeys
    rotationPeers := fun other hmem => by
      rcases List.mem_append.mp hmem with hmem | hmem
      · exact h.rotationPeers other hmem
      · rw [List.mem_singleton.mp hmem]
        exact hpeer }

theorem insertPeer (h : s.WellFormed crypto) {peer : PeerRow}
    (hfree : collides (fun _ => true) (·.id) s.peers peer = false) :
    { s with peers := s.peers ++ [peer] }.WellFormed crypto :=
  { h with
    peerIds := h.peerIds.insert hfree
    credentialPeers := fun row hmem => by
      obtain ⟨peer, hpeer, hid⟩ := h.credentialPeers row hmem
      exact ⟨peer, List.mem_append_left _ hpeer, hid⟩
    rotationPeers := fun row hmem => by
      obtain ⟨peer, hpeer, hid⟩ := h.rotationPeers row hmem
      exact ⟨peer, List.mem_append_left _ hpeer, hid⟩ }

theorem updatePeers (h : s.WellFormed crypto) {p : PeerRow → Bool} {f : PeerRow → PeerRow}
    (hf : ∀ row, (f row).id = row.id) :
    { s with peers := updateWhere p f s.peers }.WellFormed crypto := by
  have hkeep : ∀ peer ∈ s.peers, ∃ row ∈ updateWhere p f s.peers, row.id = peer.id := by
    intro peer hpeer
    refine ⟨_, mem_updateWhere.mpr ⟨peer, hpeer, rfl⟩, ?_⟩
    split
    · exact hf peer
    · rfl
  exact { h with
    peerIds := h.peerIds.update (fun _ _ _ _ => rfl) fun row _ _ => hf row
    credentialPeers := fun row hmem => by
      obtain ⟨peer, hpeer, hid⟩ := h.credentialPeers row hmem
      obtain ⟨new, hnew, heq⟩ := hkeep peer hpeer
      exact ⟨new, hnew, heq.trans hid⟩
    rotationPeers := fun row hmem => by
      obtain ⟨peer, hpeer, hid⟩ := h.rotationPeers row hmem
      obtain ⟨new, hnew, heq⟩ := hkeep peer hpeer
      exact ⟨new, hnew, heq.trans hid⟩ }

theorem insertAddress (h : s.WellFormed crypto) {row : AddressRow} (hrow : s.insertAddress row = .ok s') :
    s'.WellFormed crypto := by
  obtain ⟨haddress, hfamily, rfl⟩ := insertAddress_ok hrow
  exact { h with
    addresses := ⟨h.addresses.addresses.insert haddress, h.addresses.families.insert hfamily⟩ }

/-- An address that leaves the active state makes room. -/
theorem quarantine (h : s.WellFormed crypto) (p : AddressRow → Bool) :
    { s with
      addresses := updateWhere p (fun row => { row with state := .quarantine })
        s.addresses }.WellFormed crypto :=
  { h with
    addresses := ⟨h.addresses.addresses.update (fun _ _ _ hnew => by simp at hnew) (fun _ _ _ => rfl),
      h.addresses.families.update (fun _ _ _ hnew => by simp at hnew) (fun _ _ _ => rfl)⟩ }

end WellFormed

end CredentialStore

/-! ## What an operation does -/

namespace CredentialStore

variable {s s' : CredentialStore} {now : Timestamp}

/-- A request that is accepted is a retry, or becomes a row. -/
theorem requestPeerRotation_ok {crypto : RotationCrypto} {proof : RotationRequestProof}
    {signature challenge : Bytes}
    (h : s.requestPeerRotation crypto now proof signature challenge = .ok s') :
    (s' = s ∧ ∃ row ∈ s.rotations, row.id = proof.rotationId) ∨
    ((∀ row ∈ s.rotations, row.id ≠ proof.rotationId) ∧
      s.lockEnabledPeer now proof.meshId proof.peerId = true ∧
      validateSubjectKeys crypto.toCrypto (.peer proof.peerId) proof.identityPublicKey
        proof.sessionPublicKey proof.wireguardPublicKey = .ok () ∧
      s.reused proof.rotationId proof.wireguardPublicKey = false ∧
      s.InsertableRotation (requestRow now proof signature challenge) ∧
      s' = { s with rotations := s.rotations ++ [requestRow now proof signature challenge] }) := by
  unfold requestPeerRotation at h
  obtain ⟨_, hlock, h⟩ := bind_eq_ok.mp h
  have hlock : s.lockEnabledPeer now proof.meshId proof.peerId = true := by
    simpa using rejectIf_eq_ok.mp hlock
  split at h
  · cases h
  · split at h
    · cases h
    · rename_i hverify
      obtain ⟨_, hreused, h⟩ := bind_eq_ok.mp h
      have hkeys := rotationRequestTranscript_eq_ok (verifyRotationRequest_eq_ok hverify)
      split at h
      · rename_i hknown
        obtain ⟨_, _, h⟩ := bind_eq_ok.mp h
        refine .inl ⟨(Except.ok.inj h).symm, ?_⟩
        simpa using hknown
      · rename_i hnew
        obtain ⟨hrow, rfl⟩ := insertRotation_eq_ok.mp h
        exact .inr ⟨by simpa using hnew, hlock, hkeys, rejectIf_eq_ok.mp hreused, hrow, rfl⟩

/-- A pending request is found under its Peer. -/
def isPending (s : CredentialStore) (request : RotationRow) : Bool :=
  s.rotations.any fun row => row.id = request.id && row.peerId = request.peerId && row.status = .pending

/-- What an issue leaves: nothing changed, or a staged credential and an issued request. -/
theorem issuePeerRotation_ok {request : RotationRow} {issued : IssuedPeerCredential}
    {credential : Credentials.SubjectCredential}
    (h : s.issuePeerRotation now request issued credential = .ok s') :
    s' = s ∨
    (s.lockEnabledPeer now s.meshId request.peerId = true ∧ s.isPending request = true ∧
      s.Insertable (stagedRow request issued) ∧
      s' = { s with
        credentials := s.credentials ++ [stagedRow request issued]
        rotations := updateWhere (fun row => row.id = request.id && row.status = .pending)
          (issueRow now issued.serial credential) s.rotations }) := by
  unfold issuePeerRotation at h
  obtain ⟨_, _, h⟩ := bind_eq_ok.mp h
  split at h
  · exact .inl (Except.ok.inj h).symm
  · rename_i hlock
    split at h
    · exact .inl (Except.ok.inj h).symm
    · rename_i hpending
      obtain ⟨_, _, h⟩ := bind_eq_ok.mp h
      obtain ⟨s₁, hinsert, h⟩ := bind_eq_ok.mp h
      obtain ⟨hrow, rfl⟩ := insertCredential_eq_ok.mp hinsert
      exact .inr ⟨by simpa using hlock, by simpa [isPending, and_assoc] using hpending, hrow, updateRotations_ok h⟩

/-- The three updates of `replace_active`. -/
def replaceRows (now : Timestamp) (rotationOverlapSeconds : Nat) (peer : PeerId)
    (serial : CredentialSerial) (rows : List PeerCredentialRow) : List PeerCredentialRow :=
  updateWhere (fun row => row.serial = serial && row.lifecycle = .staged)
    (fun row => { row with toTerm := row.activate })
    (updateWhere (fun row => row.peerId = peer && row.lifecycle = .active)
      (fun row => { row with
        toTerm := { row.retire now rotationOverlapSeconds with replacementId := some serial } })
      (updateWhere (fun row => row.peerId = peer && row.lifecycle = .overlap)
        (fun row => { row with lifecycle := .revoked }) rows))

theorem replaceActive_ok {peer : PeerId} {serial : CredentialSerial}
    (h : s.replaceActive now peer serial = .ok s') :
    (∃ row ∈ s.credentials, row.peerId = peer ∧ row.serial = serial ∧ row.lifecycle = .staged) ∧
    s' = { s with
      credentials := replaceRows now s.rotationOverlapSeconds peer serial s.credentials } := by
  unfold replaceActive at h
  obtain ⟨_, hstaged, h⟩ := bind_eq_ok.mp h
  obtain ⟨s₁, h₁, h⟩ := bind_eq_ok.mp h
  obtain ⟨_, _, h⟩ := bind_eq_ok.mp h
  obtain ⟨s₂, h₂, h⟩ := bind_eq_ok.mp h
  obtain ⟨_, _, h⟩ := bind_eq_ok.mp h
  obtain rfl := updateCredentials_ok h₁
  obtain rfl := updateCredentials_ok h₂
  obtain rfl := updateCredentials_ok h
  have hstaged := rejectIf_eq_ok.mp hstaged
  exact ⟨by simpa [and_assoc] using hstaged, rfl⟩

/-- One row under `replace_active`: the serial becomes active, the active credential of the Peer
overlaps, and an earlier generation is revoked. -/
def replaceRow (now : Timestamp) (rotationOverlapSeconds : Nat) (peer : PeerId)
    (serial : CredentialSerial) (row : PeerCredentialRow) : PeerCredentialRow :=
  if row.peerId = peer ∧ row.lifecycle = .overlap then { row with lifecycle := .revoked }
  else if row.peerId = peer ∧ row.lifecycle = .active then
    { row with toTerm := { row.retire now rotationOverlapSeconds with replacementId := some serial } }
  else if row.serial = serial ∧ row.lifecycle = .staged then { row with toTerm := row.activate }
  else row

/-- The three updates look at different lifecycles, so each row meets at most one. -/
theorem replaceRows_eq_map (now : Timestamp) (rotationOverlapSeconds : Nat) (peer : PeerId)
    (serial : CredentialSerial) (rows : List PeerCredentialRow) :
    replaceRows now rotationOverlapSeconds peer serial rows
      = rows.map (replaceRow now rotationOverlapSeconds peer serial) := by
  simp only [replaceRows, updateWhere, List.map_map]
  refine List.map_congr_left fun row _ => ?_
  unfold replaceRow
  cases hlife : row.lifecycle <;> simp [hlife, Term.retire, Term.activate]
  · split <;> simp_all
  · split <;> simp_all

/-- What `activate_peer_rotation` does when it changes anything. -/
theorem activatePeerRotation_ok {crypto : RotationCrypto} {peer : PeerId} {rotation : RotationId}
    {serial : CredentialSerial} {signature : Bytes} {result : Bool}
    (h : s.activatePeerRotation crypto now peer rotation serial signature = .ok (s', result)) :
    s' = s ∨
    (s.lockEnabledPeer now s.meshId peer = true ∧
      (∃ row ∈ s.rotations, row.id = rotation ∧ row.peerId = peer ∧ row.issuedSerial = some serial ∧
        row.status = .issued) ∧
      (∃ row ∈ s.credentials, row.peerId = peer ∧ row.serial = serial ∧ row.lifecycle = .staged) ∧
      s' = { s with
        credentials := replaceRows now s.rotationOverlapSeconds peer serial s.credentials
        rotations := updateWhere (fun row => row.id = rotation && row.status = .issued)
          (activateRow now signature) s.rotations }) := by
  unfold activatePeerRotation at h
  split at h
  · exact .inl (Prod.mk.inj (Except.ok.inj h)).1.symm
  · rename_i hlock
    split at h
    · exact .inl (Prod.mk.inj (Except.ok.inj h)).1.symm
    · rename_i request hfind
      split at h
      · exact .inl (Prod.mk.inj (Except.ok.inj h)).1.symm
      · rename_i hstatus
        dsimp only at h
        split at h
        · cases h
        · obtain ⟨s₁, hreplace, h⟩ := bind_eq_ok.mp h
          obtain ⟨s₂, hrotations, h⟩ := bind_eq_ok.mp h
          obtain ⟨hstaged, rfl⟩ := replaceActive_ok hreplace
          obtain rfl := updateRotations_ok hrotations
          have hrequest := List.find?_some hfind
          simp only [activates, Bool.and_eq_true, Bool.or_eq_true, decide_eq_true_eq] at hrequest
          obtain ⟨⟨⟨hid, hpeer⟩, hserial⟩, hstate⟩ := hrequest
          refine .inr ⟨by simpa using hlock, ?_, hstaged, (Prod.mk.inj (Except.ok.inj h)).1.symm⟩
          exact ⟨request, List.mem_of_find?_eq_some hfind, hid, hpeer, hserial,
            hstate.resolve_right hstatus⟩

section Transition

variable {ρ : Type} [CredentialTable ρ] {rows rows' : List ρ} {rotationOverlapSeconds : Nat}
  {serial : CredentialSerial} {lifecycle : Lifecycle}

/-- What a transition does to a table. -/
theorem transitionCredential_ok
    (h : transitionCredential rows now rotationOverlapSeconds serial lifecycle = .ok rows') :
    ∃ row ∈ rows, CredentialTable.serial row = serial ∧
      ((lifecycle = (CredentialTable.term row).lifecycle ∧ rows' = rows) ∨
      (lifecycle = .active ∧ (CredentialTable.term row).lifecycle = .staged ∧
        rows' = updateTerms (fun other => CredentialTable.serial other = serial
            && (CredentialTable.term other).lifecycle = .staged) Term.activate
          (updateTerms (fun other => CredentialTable.subject other = CredentialTable.subject row
              && (CredentialTable.term other).lifecycle = .active)
            (fun term => { term.retire now rotationOverlapSeconds with replacementId := some serial })
            rows)) ∨
      (lifecycle = .overlap ∧ (CredentialTable.term row).lifecycle = .active ∧
        rows' = updateTerms (CredentialTable.serial · = serial) (·.retire now rotationOverlapSeconds)
          rows) ∨
      (lifecycle = .revoked ∧ (CredentialTable.term row).lifecycle ≠ .revoked ∧
        rows' = updateTerms (fun other => CredentialTable.serial other = serial
          && (CredentialTable.term other).lifecycle ≠ .revoked) Term.revoke rows)) := by
  unfold transitionCredential at h
  split at h
  · cases h
  · rename_i row hfind
    refine ⟨row, List.mem_of_find?_eq_some hfind, by simpa using List.find?_some hfind, ?_⟩
    dsimp only at h
    split at h
    · rename_i hsame
      exact .inl ⟨hsame.symm, (Except.ok.inj h).symm⟩
    · rename_i hother
      cases lifecycle with
      | staged => cases h
      | active =>
          dsimp only at h
          split at h
          · cases h
          · rename_i hstaged
            exact .inr (.inl ⟨rfl, not_not.mp hstaged, (Except.ok.inj h).symm⟩)
      | overlap =>
          dsimp only at h
          split at h
          · cases h
          · rename_i hactive
            exact .inr (.inr (.inl ⟨rfl, not_not.mp hactive, (Except.ok.inj h).symm⟩))
      | revoked => exact .inr (.inr (.inr ⟨rfl, hother, (Except.ok.inj h).symm⟩))

end Transition

theorem transitionPeerCredential_ok {serial : CredentialSerial} {lifecycle : Lifecycle}
    (h : s.transitionPeerCredential now serial lifecycle = .ok s') :
    ∃ rows, transitionCredential s.credentials now s.rotationOverlapSeconds serial lifecycle = .ok rows ∧
      s' = { s with credentials := rows } := by
  unfold transitionPeerCredential at h
  obtain ⟨rows, hrows, h⟩ := bind_eq_ok.mp h
  refine ⟨rows, hrows, ?_⟩
  split at h
  · obtain ⟨_, _, h⟩ := bind_eq_ok.mp h
    exact (Except.ok.inj h).symm
  · exact (Except.ok.inj h).symm

/-- The teardown of a Peer. -/
theorem revokePeerAccess_ok {peer : PeerId} (h : s.revokePeerAccess now peer = .ok s') :
    s' = { s with
      credentials := updateWhere (fun row => row.peerId = peer && row.lifecycle ≠ .revoked)
        (fun row => { row with lifecycle := .revoked }) s.credentials
      rotations := updateWhere (fun row => row.peerId = peer && row.isOpen) (·.cancel now) s.rotations
      addresses := updateWhere (fun row => row.peerId = peer && row.state = .active)
        (fun row => { row with state := .quarantine }) s.addresses } := by
  unfold revokePeerAccess at h
  obtain ⟨s₁, h₁, h⟩ := bind_eq_ok.mp h
  obtain ⟨s₂, h₂, h⟩ := bind_eq_ok.mp h
  obtain rfl := updateCredentials_ok h₁
  obtain rfl := updateRotations_ok h₂
  exact (Except.ok.inj h).symm

theorem endPeer_ok {peer : PeerId} {state : AdministrativeState} (h : s.endPeer now peer state = .ok s') :
    state ≠ .enabled ∧
    { s with
      peers := updateWhere (·.id = peer) (fun row => { row with administrativeState := state })
        s.peers }.revokePeerAccess now peer = .ok s' := by
  unfold endPeer at h
  obtain ⟨_, hstate, h⟩ := bind_eq_ok.mp h
  obtain ⟨_, _, h⟩ := bind_eq_ok.mp h
  exact ⟨by simpa using rejectIf_eq_ok.mp hstate, h⟩

theorem bulkDisablePeers_ok {ids : List PeerId} (h : s.bulkDisablePeers ids = .ok s') :
    s' = { s with
      peers := updateWhere (fun row => row.id ∈ ids && row.administrativeState = .enabled)
        (fun row => { row with administrativeState := .disabled }) s.peers
      credentials := updateWhere (fun row => row.peerId ∈ ids && row.lifecycle ≠ .revoked)
        (fun row => { row with lifecycle := .revoked }) s.credentials
      addresses := updateWhere (fun row => row.peerId ∈ ids && row.state = .active)
        (fun row => { row with state := .quarantine }) s.addresses } := by
  unfold bulkDisablePeers at h
  obtain ⟨_, _, h⟩ := bind_eq_ok.mp h
  dsimp only at h
  obtain ⟨s₁, h₁, h⟩ := bind_eq_ok.mp h
  obtain rfl := updateCredentials_ok h₁
  exact (Except.ok.inj h).symm

theorem expireCredentials_ok {authorities credentials : CredentialSerial → Bool}
    (h : s.expireCredentials now authorities credentials = .ok s') :
    s' = { s with
      authorities := expireRows s.authorities now authorities
      credentials := expireRows s.credentials now credentials } := by
  unfold expireCredentials at h
  dsimp only at h
  split at h
  · obtain ⟨_, _, h⟩ := bind_eq_ok.mp h
    exact (Except.ok.inj h).symm
  · exact (Except.ok.inj h).symm

/-- The steps of a Join, from its rows alone. -/
theorem claimPublicJoin_ok {request : Enrollment} {issued : IssuedPeerCredential}
    (h : s.claimPublicJoin now request issued = .ok s') :
    ∃ s₂ s₃,
      collides (fun _ => true) (·.id) s.peers request.peer = false ∧
      { s with peers := s.peers ++ [request.peer] }.insertAddress
        { peerId := request.peerId, address := request.address } = .ok s₂ ∧
      s₂.insertAddress { peerId := request.peerId, address := request.secondaryAddress } = .ok s₃ ∧
      s₃.insertCredential (request.row issued) = .ok s' := by
  unfold claimPublicJoin at h
  obtain ⟨_, _, h⟩ := bind_eq_ok.mp h
  obtain ⟨_, _, h⟩ := bind_eq_ok.mp h
  obtain ⟨_, _, h⟩ := bind_eq_ok.mp h
  obtain ⟨_, _, h⟩ := bind_eq_ok.mp h
  obtain ⟨_, _, h⟩ := bind_eq_ok.mp h
  dsimp only at h
  obtain ⟨_, hfree, h⟩ := bind_eq_ok.mp h
  obtain ⟨s₂, h₂, h⟩ := bind_eq_ok.mp h
  obtain ⟨s₃, h₃, h⟩ := bind_eq_ok.mp h
  exact ⟨s₂, s₃, rejectIf_eq_ok.mp hfree, h₂, h₃, h⟩

end CredentialStore

end Peerward.Store
