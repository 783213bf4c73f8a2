import Peerward.PeerCore.WireguardDirectory

/-!
# Revocation and expiry over a run

Every accessor goes through `get`, and `get` through `keys` and the time floor. So the table is
sound when every generation in `keys` is listed by the directory accepted last, certified by an
Authority accepted now, within both their deadlines, and under a serial the run has not revoked.
-/

namespace Peerward.PeerCore

open Std Peerward.Lib Peerward.Net Peerward.Directory
open Peerward.Credentials
open Peerward.Types (CredentialSerial Key PeerId)

namespace WireguardDirectory

variable {crypto : Crypto} {s s' start : WireguardDirectory} {ops : List Op} {op : Op}
variable {value : WireguardPeerAuthorization} {key : Key}

/-- Every generation of a table satisfies `P`. -/
def EveryKey (keys : ExtTreeMap Key WireguardPeerAuthorization)
    (P : WireguardPeerAuthorization → Prop) : Prop :=
  ∀ (key : Key) (value : WireguardPeerAuthorization), keys[key]? = some value → P value

/-- An accepted directory lists the generation, and no later than its overlap deadline. -/
def Listed (signed : SignedPeerDirectory) (value : WireguardPeerAuthorization) : Prop :=
  ∃ item ∈ signed.directory.entries, item.entry.enabled = true ∧
    ∃ binding ∈ item.entry.acceptedCredentials, value.peerId = item.entry.peerId ∧
      value.credential = binding.subject item.entry.meshId item.entry.peerId ∧
      ∀ until_ ∈ binding.overlapUntil, value.validUntil ≤ until_

/-- An Authority of the trust set signs the credential, and the generation ends no later than it or
its Authority does. -/
def Certified (crypto : Crypto) (trust : TrustSet) (value : WireguardPeerAuthorization) : Prop :=
  value.validUntil ≤ value.credential.notAfter ∧
  ∃ authority ∈ trust.authorities, value.validUntil ≤ authority.notAfter ∧
    ∃ now, (verifyAuthority crypto trust.root authority trust.meshId now).isOk = true ∧
      (value.credential.verifyWithAuthority crypto authority.publicKey now).isOk = true

/-! ## Loops -/

/-- What an installed generation satisfies when its turn of the loop is over. -/
def Fresh (crypto : Crypto) (s : WireguardDirectory) (signed : SignedPeerDirectory)
    (value : WireguardPeerAuthorization) : Prop :=
  s.revoked.contains value.credential.serial = false ∧ Listed signed value ∧
    Certified crypto s.trust value

theorem certified_of_bounded {trust : TrustSet} {now until_ : Nat}
    (h : TrustSet.BoundedBy crypto trust value.credential now until_)
    (hle : value.validUntil ≤ until_) : Certified crypto trust value := by
  refine ⟨Nat.le_trans hle h.le_notAfter, ?_⟩
  obtain ⟨authority, hmem, -, hroot, hsubject, rfl⟩ := h
  exact ⟨authority, hmem, Nat.le_trans hle (Nat.min_le_right _ _), now, hroot, hsubject⟩

theorem installBinding_fresh {signed : SignedPeerDirectory} {item : SignedPeerEntry}
    {binding : PeerCredentialBinding} {now : Nat} {tables tables' : AuthorizationTables}
    (hitem : item ∈ signed.directory.entries) (henabled : item.entry.enabled = true)
    (hbinding : binding ∈ item.entry.acceptedCredentials)
    (h : s.installBinding crypto now item.entry tables binding = .ok tables')
    (hold : EveryKey tables.keys (Fresh crypto s signed)) :
    EveryKey tables'.keys (Fresh crypto s signed) := by
  intro key value hvalue
  unfold installBinding at h
  split at h
  · cases h
    exact hold key value hvalue
  · rename_i hrevoked
    split at h
    · cases h
    · split at h
      · cases h
        exact hold key value hvalue
      · obtain ⟨authorityUntil, huntil, h⟩ := bind_eq_ok.mp h
        obtain ⟨_, -, h⟩ := bind_eq_ok.mp h
        obtain ⟨_, -, h⟩ := bind_eq_ok.mp h
        cases h
        simp only [ExtTreeMap.getElem?_insert, LawfulEqOrd.compare_eq_iff_eq] at hvalue
        split at hvalue
        · cases hvalue
          refine ⟨Bool.eq_false_iff.mpr hrevoked, ⟨item, hitem, henabled, binding, hbinding, rfl, rfl,
            fun until_ hmem => ?_⟩, ?_⟩
          · rw [Option.mem_def.mp hmem]
            exact Nat.min_le_left _ _
          · exact certified_of_bounded
              (TrustSet.subjectValidUntil_ok (ofCredential_eq_ok.mp huntil)).2 (Nat.min_le_right _ _)
        · exact hold key value hvalue

/-- What a prepared table holds, and the time it was prepared for. -/
theorem prepareInstall_ok {signed : SignedPeerDirectory} {now now' : Nat}
    {tables : AuthorizationTables} (h : s.prepareInstall crypto signed now = .ok (now', tables)) :
    now' = max now s.timeFloor ∧ EveryKey tables.keys (Fresh crypto s signed) := by
  unfold prepareInstall at h
  obtain ⟨_, -, h⟩ := bind_eq_ok.mp h
  obtain ⟨_, -, h⟩ := bind_eq_ok.mp h
  obtain ⟨tables', hfold, h⟩ := bind_eq_ok.mp h
  cases h
  refine ⟨rfl, ?_⟩
  refine foldlM_invariant (P := fun tables : AuthorizationTables =>
    EveryKey tables.keys (Fresh crypto s signed)) (by simp [EveryKey]) ?_ hfold
  intro entry hentry before after hstep hbefore
  obtain ⟨hmem, henabled⟩ := List.mem_filter.mp hentry
  obtain ⟨item, hitem, rfl⟩ := List.mem_map.mp hmem
  refine foldlM_invariant (P := fun tables : AuthorizationTables =>
    EveryKey tables.keys (Fresh crypto s signed)) hbefore ?_ hstep
  intro binding hbinding tables tables' hturn hold
  exact installBinding_fresh hitem henabled hbinding hturn hold

theorem expire_keys {now : Nat} (h : (s.expire now).2.keys[key]? = some value) :
    s.keys[key]? = some value ∧ value.validAt (max now s.timeFloor) = true ∧
      s.revoked.contains value.credential.serial = false := by
  change (s.keys.filter _)[key]? = some value at h
  rw [ExtTreeMap.getElem?_filter', Option.filter_eq_some_iff] at h
  simpa using h

theorem foldl_revokeSubject (serials : List CredentialSerial) (trust : TrustSet) :
    (serials.foldl TrustSet.revokeSubject trust).authorities = trust.authorities ∧
      (serials.foldl TrustSet.revokeSubject trust).root = trust.root ∧
      (serials.foldl TrustSet.revokeSubject trust).meshId = trust.meshId := by
  induction serials generalizing trust with
  | nil => exact ⟨rfl, rfl, rfl⟩
  | cons serial serials ih => exact ih (trust.revokeSubject serial)

theorem foldl_revokeAuthority (serials : List CredentialSerial) (trust : TrustSet) :
    (serials.foldl TrustSet.revokeAuthority trust).authorities = trust.authorities ∧
      (serials.foldl TrustSet.revokeAuthority trust).root = trust.root ∧
      (serials.foldl TrustSet.revokeAuthority trust).meshId = trust.meshId := by
  induction serials generalizing trust with
  | nil => exact ⟨rfl, rfl, rfl⟩
  | cons serial serials ih => exact ih (trust.revokeAuthority serial)

/-- Revoking serials does not change who certifies a credential. -/
theorem Certified.of_same {trust trust' : TrustSet} (h : Certified crypto trust value)
    (hauthorities : trust'.authorities = trust.authorities) (hroot : trust'.root = trust.root)
    (hmesh : trust'.meshId = trust.meshId) : Certified crypto trust' value := by
  obtain ⟨hle, authority, hmem, hle', now, hverified, hsubject⟩ := h
  exact ⟨hle, authority, hauthorities ▸ hmem, hle', now, by rw [hroot, hmesh]; exact hverified, hsubject⟩

/-! ## One step

What one operation does to the table, one lemma for each thing that the run below follows: the floor, the
revoked serials, the generations and the certificates they have.
-/

/-- **Errors are atomic.** An operation that returns `Err` leaves the whole table as it was. -/
theorem step_of_failed (h : ¬ Succeeds crypto s op) : step crypto s op = s := by
  unfold Succeeds step at *
  cases op with
  | install signed now =>
      simp only [perform, install] at h ⊢
      split
      · rfl
      · rename_i hok
        simp [hok, Except.isOk, Except.toBool] at h
  | revoke signed now =>
      simp only [perform, revoke] at h ⊢
      split
      · rfl
      · rename_i hok
        simp [hok, Except.isOk, Except.toBool] at h
  | authorities bundle now =>
      simp only [perform, authorities] at h ⊢
      split
      · rfl
      · rename_i hok
        simp [hok, Except.isOk, Except.toBool] at h
  | expire now => exact absurd rfl h
  | restoreCheckpoint state => exact absurd rfl h

/-- A successful operation, one case per kind. -/
theorem step_of_succeeds (h : Succeeds crypto s op) :
    match op with
    | .install signed now => ∃ tables,
        s.prepareInstall crypto signed now = .ok (max now s.timeFloor, tables) ∧
        step crypto s op = s.withTables tables (max now s.timeFloor) signed.directory.revision
    | .revoke signed now => step crypto s op = ((s.withRevoked signed.bundle).expire now).2
    | .authorities _ now => ∃ trust, step crypto s op =
        ((s.withTrust crypto trust (max now s.timeFloor)).expire (max now s.timeFloor)).2
    | .expire now => step crypto s op = (s.expire now).2
    | .restoreCheckpoint state => step crypto s op = s.restoreCheckpoint state := by
  unfold Succeeds step at *
  cases op with
  | install signed now =>
      simp only [perform, install] at h ⊢
      cases hprepared : s.prepareInstall crypto signed now with
      | error failure =>
          rw [hprepared] at h
          cases h
      | ok prepared =>
          obtain ⟨now', tables⟩ := prepared
          obtain ⟨rfl, -⟩ := prepareInstall_ok hprepared
          exact ⟨tables, rfl, rfl⟩
  | revoke signed now =>
      simp only [perform, revoke] at h ⊢
      split
      · rename_i hfailed
        rw [hfailed] at h
        cases h
      · rfl
  | authorities bundle now =>
      simp only [perform, authorities] at h ⊢
      split
      · rename_i hfailed
        rw [hfailed] at h
        cases h
      · exact ⟨_, rfl⟩
  | expire now => rfl
  | restoreCheckpoint state => rfl

/-- The floor is the largest time any successful operation has brought. -/
theorem step_timeFloor (h : Succeeds crypto s op) :
    (step crypto s op).timeFloor = max op.time s.timeFloor := by
  have hstep := step_of_succeeds h
  cases op with
  | install signed now =>
      obtain ⟨_, -, hstep⟩ := hstep
      rw [hstep]
      rfl
  | revoke signed now =>
      rw [hstep]
      rfl
  | authorities bundle now =>
      obtain ⟨_, hstep⟩ := hstep
      rw [hstep]
      show max (max now s.timeFloor) s.timeFloor = max now s.timeFloor
      omega
  | expire now => rfl
  | restoreCheckpoint state =>
      show max s.timeFloor state.state.timeFloor = max state.state.timeFloor s.timeFloor
      omega

/-- Serials stay revoked. -/
theorem step_revoked {serial : CredentialSerial} (h : s.revoked.contains serial = true) :
    (step crypto s op).revoked.contains serial = true := by
  by_cases hok : Succeeds crypto s op
  · have hstep := step_of_succeeds hok
    cases op with
    | install signed now =>
        obtain ⟨_, -, hstep⟩ := hstep
        rw [hstep]
        exact h
    | revoke signed now =>
        rw [hstep]
        show (s.revoked.insertMany signed.bundle.serials).contains serial = true
        rw [ExtTreeSet.contains_insertMany_list, h, Bool.true_or]
    | authorities bundle now =>
        obtain ⟨_, hstep⟩ := hstep
        rw [hstep]
        exact h
    | expire now => exact h
    | restoreCheckpoint state =>
        show (s.revoked.insertMany state.state.subjects.toList).contains serial = true
        rw [ExtTreeSet.contains_insertMany_list, h, Bool.true_or]
  · rw [step_of_failed hok]
    exact h

/-- The operation revokes the serial: an accepted bundle, or a checkpoint, that lists it. -/
def Names (crypto : Crypto) (serial : CredentialSerial) (s : WireguardDirectory) (op : Op) : Prop :=
  match op with
  | .revoke signed _ => Succeeds crypto s op ∧ serial ∈ signed.bundle.serials
  | .restoreCheckpoint state => serial ∈ state.state.subjects
  | _ => False

theorem revoked_of_names {serial : CredentialSerial} (h : Names crypto serial s op) :
    (step crypto s op).revoked.contains serial = true := by
  cases op with
  | revoke signed now =>
      obtain ⟨hok, hmem⟩ := h
      rw [step_of_succeeds hok]
      show (s.revoked.insertMany signed.bundle.serials).contains serial = true
      rw [ExtTreeSet.contains_insertMany_list, List.contains_iff_mem.mpr hmem, Bool.or_true]
  | restoreCheckpoint state =>
      show (s.revoked.insertMany state.state.subjects.toList).contains serial = true
      have hmem : serial ∈ state.state.subjects.toList := by
        rw [ExtTreeSet.mem_toList]
        exact h
      rw [ExtTreeSet.contains_insertMany_list, List.contains_iff_mem.mpr hmem, Bool.or_true]
  | install signed now | authorities bundle now | expire now => exact h.elim

/-- Every successful operation but a restore clears the table of revoked serials. -/
theorem step_sweeps (h : Succeeds crypto s op) (hop : ∀ state, op ≠ .restoreCheckpoint state) :
    EveryKey (step crypto s op).keys fun value =>
      (step crypto s op).revoked.contains value.credential.serial = false := by
  have hstep := step_of_succeeds h
  intro key value hvalue
  cases op with
  | install signed now =>
      obtain ⟨tables, hprepared, hstep⟩ := hstep
      rw [hstep] at hvalue ⊢
      exact ((prepareInstall_ok hprepared).2 key value hvalue).1
  | revoke signed now =>
      rw [hstep] at hvalue ⊢
      exact (expire_keys hvalue).2.2
  | authorities bundle now =>
      obtain ⟨_, hstep⟩ := hstep
      rw [hstep] at hvalue ⊢
      exact (expire_keys hvalue).2.2
  | expire now => exact (expire_keys hvalue).2.2
  | restoreCheckpoint state => exact absurd rfl (hop state)

/-- The same generation with no later deadline. -/
def Shortened (value value' : WireguardPeerAuthorization) : Prop :=
  value'.peerId = value.peerId ∧ value'.credential = value.credential ∧
    value'.validUntil ≤ value.validUntil

/-- What an Authority revision lets stand is certified by it. -/
theorem recheck_kept {trust : TrustSet} {now : Nat}
    (h : (recheck crypto trust now value).validAt now = true) :
    Shortened value (recheck crypto trust now value) ∧
      Certified crypto trust (recheck crypto trust now value) := by
  unfold recheck at h ⊢
  cases hsubject : trust.subjectValidUntil crypto value.credential now with
  | error failure =>
      -- an uncertified generation ends now
      simp [hsubject, WireguardPeerAuthorization.validAt] at h
  | ok until_ =>
      refine ⟨⟨rfl, rfl, Nat.min_le_left _ _⟩, ?_⟩
      exact certified_of_bounded (TrustSet.subjectValidUntil_ok hsubject).2 (Nat.min_le_right _ _)

/-- Where the generations after a step come from: the directory it installs, or the table before. -/
theorem step_origin (h : (step crypto s op).keys[key]? = some value) :
    (∃ signed now, op = .install signed now ∧ Succeeds crypto s op ∧ Listed signed value) ∨
      ((∀ signed now, op = .install signed now → ¬ Succeeds crypto s op) ∧
        ∃ value₀, s.keys[key]? = some value₀ ∧ Shortened value₀ value) := by
  have hsame : ∀ value, Shortened value value := fun value => ⟨rfl, rfl, Nat.le_refl _⟩
  by_cases hok : Succeeds crypto s op
  · have hstep := step_of_succeeds hok
    cases op with
    | install signed now =>
        obtain ⟨tables, hprepared, hstep⟩ := hstep
        rw [hstep] at h
        exact .inl ⟨signed, now, rfl, hok, ((prepareInstall_ok hprepared).2 key value h).2.1⟩
    | revoke signed now =>
        rw [hstep] at h
        exact .inr ⟨nofun, value, (expire_keys h).1, hsame value⟩
    | authorities bundle now =>
        obtain ⟨trust, hstep⟩ := hstep
        rw [hstep] at h
        obtain ⟨hkept, hvalid, -⟩ := expire_keys h
        change (s.keys.map _)[key]? = some value at hkept
        rw [ExtTreeMap.getElem?_map, Option.map_eq_some_iff] at hkept
        obtain ⟨value₀, hvalue₀, rfl⟩ := hkept
        have hfloor : max (max now s.timeFloor) (s.withTrust crypto trust
            (max now s.timeFloor)).timeFloor = max now s.timeFloor := by
          show max (max now s.timeFloor) s.timeFloor = max now s.timeFloor
          omega
        rw [hfloor] at hvalid
        exact .inr ⟨nofun, value₀, hvalue₀, (recheck_kept hvalid).1⟩
    | expire now =>
        rw [hstep] at h
        exact .inr ⟨nofun, value, (expire_keys h).1, hsame value⟩
    | restoreCheckpoint state =>
        exact .inr ⟨nofun, value, h, hsame value⟩
  · rw [step_of_failed hok] at h
    exact .inr ⟨fun _ _ _ => hok, value, h, hsame value⟩

/-- Every generation stays certified by an Authority of the trust set. -/
theorem step_certified (h : EveryKey s.keys (Certified crypto s.trust)) :
    EveryKey (step crypto s op).keys (Certified crypto (step crypto s op).trust) := by
  intro key value hvalue
  by_cases hok : Succeeds crypto s op
  · have hstep := step_of_succeeds hok
    cases op with
    | install signed now =>
        obtain ⟨tables, hprepared, hstep⟩ := hstep
        rw [hstep] at hvalue ⊢
        exact ((prepareInstall_ok hprepared).2 key value hvalue).2.2
    | revoke signed now =>
        rw [hstep] at hvalue ⊢
        obtain ⟨hauthorities, hroot, hmesh⟩ := foldl_revokeSubject signed.bundle.serials s.trust
        exact (h key value (expire_keys hvalue).1).of_same hauthorities hroot hmesh
    | authorities bundle now =>
        obtain ⟨trust, hstep⟩ := hstep
        rw [hstep] at hvalue ⊢
        obtain ⟨hkept, hvalid, -⟩ := expire_keys hvalue
        change (s.keys.map _)[key]? = some value at hkept
        rw [ExtTreeMap.getElem?_map, Option.map_eq_some_iff] at hkept
        obtain ⟨value₀, -, rfl⟩ := hkept
        have hfloor : max (max now s.timeFloor) (s.withTrust crypto trust
            (max now s.timeFloor)).timeFloor = max now s.timeFloor := by
          show max (max now s.timeFloor) s.timeFloor = max now s.timeFloor
          omega
        rw [hfloor] at hvalid
        exact (recheck_kept hvalid).2
    | expire now =>
        rw [hstep] at hvalue ⊢
        exact h key value (expire_keys hvalue).1
    | restoreCheckpoint state =>
        rw [hstep] at hvalue ⊢
        have hsubjects := foldl_revokeSubject state.state.subjects.toList s.trust
        have hauthorities := foldl_revokeAuthority state.state.authorities.toList
          (state.state.subjects.toList.foldl TrustSet.revokeSubject s.trust)
        exact (h key value hvalue).of_same (hauthorities.1.trans hsubjects.1)
          (hauthorities.2.1.trans hsubjects.2.1) (hauthorities.2.2.trans hsubjects.2.2)
  · rw [step_of_failed hok] at hvalue ⊢
    exact h key value hvalue

/-! ## Every run

An honoured generation is in the table. What its presence says about the serial, the directory and the
Authority is kept by the steps, and so holds whenever an accessor is called.
-/

section Runs

variable (crypto start ops)

/-- The state a run reaches. -/
def after (ops : List Op) : WireguardDirectory := exec (step crypto) start ops

/-- A time the run has brought: the one it started at, or that of an operation that succeeded. -/
def Passed (time : Nat) : Prop :=
  time = start.timeFloor ∨
    Happened (step crypto) start (fun s op => Succeeds crypto s op ∧ op.time = time) ops

/-- The directory accepted last. -/
def Current (signed : SignedPeerDirectory) : Prop :=
  ∃ before now since, ops = before ++ .install signed now :: since ∧
    Succeeds crypto (after crypto start before) (.install signed now) ∧
    Along (fun between op => ∀ signed' now', op = .install signed' now' →
      ¬ Succeeds crypto (after crypto start (before ++ .install signed now :: between)) op) since

/-- The run has revoked the serial: in an accepted bundle, or in a restored checkpoint. A restore
does not sweep the table, so for a generation that is in it at that moment the revocation counts
from the next successful operation. -/
def Revoked (serial : CredentialSerial) : Prop :=
  Happened (step crypto) start (fun s op => (∀ state, op ≠ .restoreCheckpoint state) ∧
    Names crypto serial s op) ops ∨
  ∃ before state since, ops = before ++ .restoreCheckpoint state :: since ∧
    serial ∈ state.state.subjects ∧
    ((EveryKey (after crypto start before).keys fun value => value.credential.serial ≠ serial) ∨
      Happened (step crypto) (after crypto start (before ++ [.restoreCheckpoint state]))
        (fun s op => (∀ state, op ≠ .restoreCheckpoint state) ∧ Succeeds crypto s op) since)

end Runs

/-- A generation that some accessor returns or honours at `now`. -/
inductive Honoured (s : WireguardDirectory) (now : Nat) (value : WireguardPeerAuthorization) : Prop
  | get (key : Key) (h : s.get key now = some value)
  | active (peer : PeerId) (h : s.activeGeneration peer now = some value)
  | destination (address : IpAddr) (h : s.destination address now = some value)
  | keysForPeer (peer : PeerId) (key : Key) (h : key ∈ s.keysForPeer peer now)
      (held : s.keys[key]? = some value)
  | ownsSource (key : Key) (source : IpAddr) (h : s.ownsSource key source now = true)
      (held : s.keys[key]? = some value)

theorem get_eq_some {now : Nat} : s.get key now = some value ↔
    s.keys[key]? = some value ∧ value.validAt (max now s.timeFloor) = true := by
  rw [get, Option.filter_eq_some_iff]

/-- Every accessor goes through the table and the time floor. -/
theorem Honoured.held {now : Nat} (h : Honoured s now value) :
    ∃ key : Key, s.keys[key]? = some value ∧ max now s.timeFloor < value.validUntil := by
  have hget : ∀ key, s.get key now = some value →
      ∃ key : Key, s.keys[key]? = some value ∧ max now s.timeFloor < value.validUntil := by
    intro key hget
    obtain ⟨hkey, hvalid⟩ := get_eq_some.mp hget
    rw [WireguardPeerAuthorization.validAt, Bool.and_eq_true, decide_eq_true_eq,
      decide_eq_true_eq] at hvalid
    exact ⟨key, hkey, hvalid.2⟩
  have hactive : ∀ peer, s.activeGeneration peer now = some value →
      ∃ key : Key, s.keys[key]? = some value ∧ max now s.timeFloor < value.validUntil := by
    intro peer hactive
    obtain ⟨key, -, hkey⟩ := Option.bind_eq_some_iff.mp hactive
    exact hget key hkey
  -- a key that passes `get` passes it with the generation it holds
  have hsome : ∀ key : Key, (s.get key now).isSome = true → s.keys[key]? = some value →
      s.get key now = some value := by
    intro key hsome hheld
    obtain ⟨value', hvalue'⟩ := Option.isSome_iff_exists.mp hsome
    have heq : value' = value := by
      have hkey := (get_eq_some.mp hvalue').1
      rw [hheld] at hkey
      exact (Option.some.inj hkey).symm
    rw [hvalue', heq]
  cases h with
  | get key h => exact hget key h
  | active peer h => exact hactive peer h
  | destination address h =>
      obtain ⟨peer, -, hpeer⟩ := Option.bind_eq_some_iff.mp h
      exact hactive peer hpeer
  | keysForPeer peer key h held =>
      exact hget key (hsome key (List.mem_filter.mp h).2 held)
  | ownsSource key source h held =>
      refine hget key (hsome key ?_ held)
      rw [WireguardDirectory.ownsSource] at h
      cases hfound : s.get key now with
      | none => rw [hfound] at h; cases h
      | some found => rfl

theorem after_concat : after crypto start (ops ++ [op]) = step crypto (after crypto start ops) op :=
  exec_concat _ _ _ _

theorem Passed.le_timeFloor {time : Nat} (h : Passed crypto start ops time) :
    time ≤ (after crypto start ops).timeFloor := by
  have hrises : ∀ s op, s.timeFloor ≤ (step crypto s op).timeFloor := by
    intro s op
    by_cases hok : Succeeds crypto s op
    · rw [step_timeFloor hok]
      exact Nat.le_max_right _ _
    · rw [step_of_failed hok]
  induction ops using List.reverseRecOn with
  | nil =>
      rcases h with rfl | hnone
      · exact Nat.le_refl _
      · exact absurd hnone happened_nil
  | append_singleton ops op ih =>
      rw [after_concat]
      rcases h with hstart | hpassed
      · exact Nat.le_trans (ih (.inl hstart)) (hrises _ op)
      · rcases happened_concat.mp hpassed with hbefore | ⟨hok, rfl⟩
        · exact Nat.le_trans (ih (.inr hbefore)) (hrises _ op)
        · have hfloor : (step crypto (after crypto start ops) op).timeFloor
              = max op.time (after crypto start ops).timeFloor := step_timeFloor hok
          rw [hfloor]
          exact Nat.le_max_left _ _

/-- A serial the run has named is in the set. -/
theorem revoked_of_happened {serial : CredentialSerial}
    (h : Happened (step crypto) start (Names crypto serial) ops) :
    (after crypto start ops).revoked.contains serial = true := by
  induction ops using List.reverseRecOn with
  | nil => exact absurd h happened_nil
  | append_singleton ops op ih =>
      rw [after_concat]
      rcases happened_concat.mp h with hbefore | hnow
      · exact step_revoked (ih hbefore)
      · exact revoked_of_names hnow

/-- Revoking is naming. -/
theorem Revoked.named {serial : CredentialSerial} (h : Revoked crypto start ops serial) :
    Happened (step crypto) start (Names crypto serial) ops := by
  rcases h with ⟨before, op, since, heq, -, hnames⟩ | ⟨before, state, since, heq, hmem, -⟩
  · exact ⟨before, op, since, heq, hnames⟩
  · exact ⟨before, _, since, heq, hmem⟩

theorem succeeds_of_names {serial : CredentialSerial} (h : Names crypto serial s op) :
    Succeeds crypto s op := by
  cases op with
  | revoke signed now => exact h.1
  | restoreCheckpoint state => rfl
  | install signed now | authorities bundle now | expire now => exact h.elim

/-- An operation that does not sweep revokes nothing that is in the table. -/
theorem Revoked.before {serial : CredentialSerial} (h : Revoked crypto start (ops ++ [op]) serial)
    (hop : ¬ ((∀ state, op ≠ .restoreCheckpoint state) ∧
      Succeeds crypto (after crypto start ops) op))
    (hheld : ¬ EveryKey (after crypto start ops).keys fun value => value.credential.serial ≠ serial) :
    Revoked crypto start ops serial := by
  rcases h with hbundle | ⟨before, state, since, heq, hmem, hcounts⟩
  · refine .inl ((happened_concat.mp hbundle).resolve_right fun hnow => ?_)
    exact hop ⟨hnow.1, succeeds_of_names hnow.2⟩
  · rcases concat_eq_append_cons heq with ⟨rfl, -, rfl⟩ | ⟨rest, rfl⟩
    · rcases hcounts with habsent | hnone
      · exact absurd habsent hheld
      · exact absurd hnone happened_nil
    · refine .inr ⟨before, state, rest, rfl, hmem, hcounts.imp_right fun hswept => ?_⟩
      have hsince : since = rest ++ [op] := by
        have hrest := heq.symm
        rw [List.append_assoc, List.append_right_inj, List.cons_append] at hrest
        exact (List.cons.inj hrest).2
      rw [hsince] at hswept
      refine (happened_concat.mp hswept).resolve_right ?_
      rw [after, ← exec_append, List.append_assoc, List.singleton_append]
      exact hop

/-- Serials of the generations in the table are not revoked. -/
theorem not_revoked_of_held (hstart : start.keys = ∅) (ops : List Op) :
    EveryKey (after crypto start ops).keys fun value =>
      ¬ Revoked crypto start ops value.credential.serial := by
  induction ops using List.reverseRecOn with
  | nil =>
      intro key value hvalue
      change start.keys[key]? = some value at hvalue
      rw [hstart] at hvalue
      simp at hvalue
  | append_singleton ops op ih =>
      intro key value hvalue hrevoked
      by_cases hop : (∀ state, op ≠ .restoreCheckpoint state) ∧
          Succeeds crypto (after crypto start ops) op
      · -- a sweep leaves only serials outside the set
        rw [after_concat] at hvalue
        have hswept := step_sweeps hop.2 hop.1 key value hvalue
        have hnamed := revoked_of_happened hrevoked.named
        rw [after_concat, hswept] at hnamed
        cases hnamed
      · -- anything else leaves the table, so the generation was there before
        have hheld : (after crypto start ops).keys[key]? = some value := by
          rw [after_concat] at hvalue
          by_cases hok : Succeeds crypto (after crypto start ops) op
          · cases op with
            | restoreCheckpoint state => exact hvalue
            | install signed now | revoke signed now | authorities bundle now | expire now =>
                exact absurd ⟨nofun, hok⟩ hop
          · rw [step_of_failed hok] at hvalue
            exact hvalue
        refine ih key value hheld (hrevoked.before hop fun habsent => ?_)
        exact habsent key value hheld rfl

theorem certified_of_held (hstart : start.keys = ∅) (ops : List Op) :
    EveryKey (after crypto start ops).keys (Certified crypto (after crypto start ops).trust) := by
  refine exec_invariant (I := fun s : WireguardDirectory =>
    EveryKey s.keys (Certified crypto s.trust)) ?_ (fun s op h => step_certified h) ops
  intro key value hvalue
  rw [hstart] at hvalue
  simp at hvalue

theorem Listed.shortened {signed : SignedPeerDirectory} {value' : WireguardPeerAuthorization}
    (h : Listed signed value) (hshort : Shortened value value') : Listed signed value' := by
  obtain ⟨item, hitem, henabled, binding, hbinding, hpeer, hcredential, hoverlap⟩ := h
  obtain ⟨hpeer', hcredential', huntil⟩ := hshort
  exact ⟨item, hitem, henabled, binding, hbinding, hpeer'.trans hpeer,
    hcredential'.trans hcredential, fun until_ hmem => Nat.le_trans huntil (hoverlap until_ hmem)⟩

/-- Every generation in the table is listed by the directory accepted last. -/
theorem listed_of_held (hstart : start.keys = ∅) (ops : List Op) :
    EveryKey (after crypto start ops).keys fun value =>
      ∃ signed, Current crypto start ops signed ∧ Listed signed value := by
  induction ops using List.reverseRecOn with
  | nil =>
      intro key value hvalue
      change start.keys[key]? = some value at hvalue
      rw [hstart] at hvalue
      simp at hvalue
  | append_singleton ops op ih =>
      intro key value hvalue
      rw [after_concat] at hvalue
      rcases step_origin hvalue with ⟨signed, now, rfl, hok, hlisted⟩ | ⟨hnone, value₀, hheld, hshort⟩
      · exact ⟨signed, ⟨ops, now, [], rfl, hok, along_nil⟩, hlisted⟩
      · obtain ⟨signed, ⟨before, now, since, rfl, hok, halong⟩, hlisted⟩ := ih key value₀ hheld
        refine ⟨signed, ⟨before, now, since ++ [op], by simp, hok, ?_⟩, hlisted.shortened hshort⟩
        exact along_concat.mpr ⟨halong, hnone⟩

/-- A generation is in force at `now`: under a serial the run has not revoked, listed by the directory
accepted last and certified by an Authority accepted now, with no time of the run, nor `now`, at or
past the end of its credential, its Authority or its overlap. -/
def InForce (crypto : Crypto) (start : WireguardDirectory) (ops : List Op) (now : Nat)
    (value : WireguardPeerAuthorization) : Prop :=
  ¬ Revoked crypto start ops value.credential.serial ∧
  ∃ signed, Current crypto start ops signed ∧
  ∃ item ∈ signed.directory.entries, item.entry.enabled = true ∧
  ∃ binding ∈ item.entry.acceptedCredentials,
    value.credential = binding.subject item.entry.meshId item.entry.peerId ∧
  ∃ authority ∈ (after crypto start ops).trust.authorities,
    (∃ checked, (verifyAuthority crypto (after crypto start ops).trust.root authority
        (after crypto start ops).trust.meshId checked).isOk = true ∧
      (value.credential.verifyWithAuthority crypto authority.publicKey checked).isOk = true) ∧
    ∀ time, time = now ∨ Passed crypto start ops time →
      time < value.credential.notAfter ∧ time < authority.notAfter ∧
        ∀ until_ ∈ binding.overlapUntil, time < until_

theorem inForce_of_honoured (hstart : start.keys = ∅) {now : Nat}
    (h : Honoured (after crypto start ops) now value) : InForce crypto start ops now value := by
  obtain ⟨key, hheld, hvalid⟩ := h.held
  obtain ⟨signed, hcurrent, item, hitem, henabled, binding, hbinding, -, hcredential, hoverlap⟩ :=
    listed_of_held hstart ops key value hheld
  obtain ⟨hle, authority, hmem, hle', hverified⟩ := certified_of_held hstart ops key value hheld
  refine ⟨not_revoked_of_held hstart ops key value hheld, signed, hcurrent, item, hitem, henabled,
    binding, hbinding, hcredential, authority, hmem, hverified, fun time htime => ?_⟩
  have hlt : time < value.validUntil := by
    rcases htime with rfl | hpassed
    · exact Nat.lt_of_le_of_lt (Nat.le_max_left _ _) hvalid
    · exact Nat.lt_of_le_of_lt (Nat.le_trans hpassed.le_timeFloor (Nat.le_max_right _ _)) hvalid
  exact ⟨Nat.lt_of_lt_of_le hlt hle, Nat.lt_of_lt_of_le hlt hle',
    fun until_ hmem => Nat.lt_of_lt_of_le hlt (hoverlap until_ hmem)⟩

theorem keys_of_new {fromBytes : Key → Except DirectoryError DirectoryPublicKey}
    {meshId : Types.MeshId} {trust : TrustSet} {distribution : DistributionCertificate} {now : Nat}
    (h : new crypto fromBytes meshId trust distribution now = .ok start) : start.keys = ∅ := by
  unfold new at h
  obtain ⟨_, -, h⟩ := bind_eq_ok.mp h
  obtain ⟨_, -, h⟩ := bind_eq_ok.mp h
  obtain ⟨_, -, h⟩ := bind_eq_ok.mp h
  cases h
  rfl

/-- **Revocation and expiry are irreversible.** Over every run from a new table, with any signed
inputs in any order and at any times, whatever an accessor returns or honours is in force; and an
operation that returns `Err` changes nothing. -/
theorem revocation_and_expiry_are_irreversible (crypto : Crypto)
    (fromBytes : Key → Except DirectoryError DirectoryPublicKey) (meshId : Types.MeshId)
    (trust : TrustSet) (distribution : DistributionCertificate) (began : Nat)
    (start : WireguardDirectory)
    (hnew : new crypto fromBytes meshId trust distribution began = .ok start) (ops : List Op) :
    (∀ now value, Honoured (after crypto start ops) now value → InForce crypto start ops now value) ∧
      ∀ op, ¬ Succeeds crypto (after crypto start ops) op →
        step crypto (after crypto start ops) op = after crypto start ops :=
  ⟨fun _ _ h => inForce_of_honoured (keys_of_new hnew) h, fun _ h => step_of_failed h⟩

/-! ## A directory of one Peer

Both exceptions in one table: a restored revocation that has not reached the table yet, and a failed
operation whose time is forgotten.
-/

def oneMesh : Types.MeshId := ⟨0x00000000000040008000000000000001#128, Types.random_one⟩
def onePeer : PeerId := ⟨0x00000000000040008000000000000002#128, Types.random_two⟩
def oneSerial : CredentialSerial := ⟨0x00000000000040008000000000000003#128, Types.random_three⟩

/-- Verification that accepts every signature. -/
def acceptAll : Crypto :=
  ⟨fun _ _ _ => true, fun _ _ _ => true, fun _ _ _ => true, fun _ _ _ => true, fun _ => true⟩

def acceptingKey : DirectoryPublicKey := ⟨fun _ _ => true, fun _ _ => true, fun _ _ => true⟩

def oneTrust : TrustSet where
  root := 9
  meshId := oneMesh
  authorities := [⟨⟨oneMesh, oneMesh, 1, 0, 1000⟩, []⟩]

def oneDistribution : DistributionCertificate := ⟨⟨oneMesh, 1, 2, 6, 7⟩, []⟩

/-- One active credential, valid from 0 to 50. -/
def oneDirectory : SignedPeerDirectory where
  directory :=
    { meshId := oneMesh
      revision := 1
      entries :=
        [{ entry :=
            { meshId := oneMesh, peerId := onePeer, address := .v4 0x0a000001#32
              secondaryAddress := none, identityPublicKey := 3, noisePublicKey := 4
              credentialSerial := oneSerial
              acceptedCredentials := [⟨oneSerial, 3, 4, 5, 0, 50, none, []⟩]
              enabled := true, notAfter := 50 }
           signature := [] }] }
  signature := []

/-- The new table these directories go to. -/
def oneStart : WireguardDirectory :=
  { meshId := oneMesh, trust := oneTrust, verifier := acceptingKey, timeFloor := 0 }

/-- A checkpoint in which the serial is revoked. -/
def oneCheckpoint : Checkpoint where
  state :=
    { version := 2, root := 9, mesh := oneMesh, peer := onePeer, stamps := ∅
      subjects := ExtTreeSet.ofList [oneSerial], authorities := ∅, timeFloor := 0
      generationCeiling := 0, authorization := {} }

/-- A restored revocation reaches the table at the next successful operation only, and the time of a
failed operation is forgotten. -/
theorem restore_and_failure_leave_the_table :
    new acceptAll (fun _ => .ok acceptingKey) oneMesh oneTrust oneDistribution 0 = .ok oneStart ∧
    ((after acceptAll oneStart [.install oneDirectory 10, .restoreCheckpoint oneCheckpoint]).get
      5 10).any (fun value => oneCheckpoint.state.subjects.contains value.credential.serial) = true ∧
    ((after acceptAll oneStart [.install oneDirectory 10, .install oneDirectory 100]).get
      5 20).any (fun value => value.credential.notAfter ≤ 100) = true := by
  refine ⟨rfl, ?_, ?_⟩ <;> decide +kernel

/-- The one generation is honoured after its directory is installed, and in force. -/
theorem one_generation_in_force : ∃ value,
    (after acceptAll oneStart [.install oneDirectory 10]).get 5 10 = some value ∧
      InForce acceptAll oneStart [.install oneDirectory 10] 10 value := by
  have hsome : ((after acceptAll oneStart [.install oneDirectory 10]).get 5 10).isSome = true := by
    decide +kernel
  obtain ⟨value, hvalue⟩ := Option.isSome_iff_exists.mp hsome
  refine ⟨value, hvalue, ?_⟩
  exact (revocation_and_expiry_are_irreversible acceptAll (fun _ => .ok acceptingKey) oneMesh oneTrust
    oneDistribution 0 oneStart rfl _).1 10 value (.get 5 hvalue)

end WireguardDirectory

end Peerward.PeerCore
