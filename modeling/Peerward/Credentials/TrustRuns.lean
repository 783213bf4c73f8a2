import Peerward.Credentials.Trust
import Peerward.Lib.Run

/-!
# Trust over a lifetime

What any order of enrolments, restores, bundle installations and revocations does to a `TrustSet`, and
what its two decisions depend on. Revocations outlive the bundles that list them and those that do not,
and the decisions look at the Authorities held, not at their order.
-/

namespace Peerward.Credentials

open Std Peerward.Lib
open Peerward.Types (CredentialSerial Key MeshId)

namespace TrustSet

section Operations

variable (crypto : Crypto)

/-- Adds an authority only after root and mesh validation. -/
def addAuthority (trust : TrustSet) (certificate : AuthorityCertificate) (now : Nat) :
    Except CredentialError TrustSet := do
  verifyAuthority crypto trust.root certificate trust.meshId now
  .ok { trust with authorities := trust.authorities ++ [certificate] }

/-- Restores a persisted Authority revision after all corresponding certificates were verified. -/
def resumeAuthorityRevision (trust : TrustSet) (revision : Nat) : Except CredentialError TrustSet :=
  if revision = 0 || trust.authorityRevision.isSome || trust.authorities.isEmpty then
    .error .nonCanonical
  else .ok { trust with authorityRevision := some revision, authorityRevisionResumed := true }

inductive Op where
  | addAuthority (certificate : AuthorityCertificate) (now : Nat)
  | resumeAuthorityRevision (revision : Nat)
  | installAuthorityBundle (signed : SignedAuthorityBundle) (now : Nat)
  | installAuthorityBundleAfterResume (signed : SignedAuthorityBundle) (now : Nat)
  | revokeSubject (serial : CredentialSerial)
  | revokeAuthority (serial : CredentialSerial)

def apply (trust : TrustSet) : Op → Except CredentialError TrustSet
  | .addAuthority certificate now => trust.addAuthority crypto certificate now
  | .resumeAuthorityRevision revision => trust.resumeAuthorityRevision revision
  | .installAuthorityBundle signed now => trust.installAuthorityBundle crypto signed now
  | .installAuthorityBundleAfterResume signed now =>
    trust.installAuthorityBundleAfterResume crypto signed now
  | .revokeSubject serial => .ok (trust.revokeSubject serial)
  | .revokeAuthority serial => .ok (trust.revokeAuthority serial)

/-- A call that fails leaves the set as it is. -/
def step (trust : TrustSet) (op : Op) : TrustSet := (trust.apply crypto op).toOption.getD trust

/-- The bundle that an operation carries. -/
def Op.bundle? : Op → Option AuthorityBundle
  | .installAuthorityBundle signed _ => some signed.bundle
  | .installAuthorityBundleAfterResume signed _ => some signed.bundle
  | _ => none

/-- The operation installs a bundle of the revision. -/
def Installs (revision : Nat) (trust : TrustSet) (op : Op) : Prop :=
  (trust.apply crypto op).isOk = true ∧ ∃ bundle, op.bundle? = some bundle ∧ bundle.revision = revision

end Operations

/-! ## What an operation keeps

A trust set moves forward: it stays with its Mesh, its revision does not decrease, and what it has revoked
stays revoked.
-/

/-- `later` is the same Mesh, at the same revision or a newer one, with every revocation. -/
structure Advances (earlier later : TrustSet) : Prop where
  root : later.root = earlier.root
  meshId : later.meshId = earlier.meshId
  revision : ∀ revision, earlier.authorityRevision = some revision →
    ∃ revision', later.authorityRevision = some revision' ∧ revision ≤ revision'
  authorities : ∀ serial ∈ earlier.revokedAuthoritySerials, serial ∈ later.revokedAuthoritySerials
  subjects : ∀ serial ∈ earlier.revokedSubjectSerials, serial ∈ later.revokedSubjectSerials

variable {crypto : Crypto} {trust next a b c : TrustSet} {op : Op}

theorem Advances.refl (trust : TrustSet) : trust.Advances trust where
  root := rfl
  meshId := rfl
  revision := fun revision h => ⟨revision, h, Nat.le_refl _⟩
  authorities := fun _ h => h
  subjects := fun _ h => h

theorem Advances.trans (h : a.Advances b) (h' : b.Advances c) : a.Advances c where
  root := h'.root.trans h.root
  meshId := h'.meshId.trans h.meshId
  revision := by
    intro revision hrevision
    obtain ⟨revision', hrevision', hle⟩ := h.revision revision hrevision
    obtain ⟨revision'', hrevision'', hle'⟩ := h'.revision revision' hrevision'
    exact ⟨revision'', hrevision'', hle.trans hle'⟩
  authorities := fun serial hserial => h'.authorities serial (h.authorities serial hserial)
  subjects := fun serial hserial => h'.subjects serial (h.subjects serial hserial)

theorem verifyAuthorityBundle_ok {root : Key} {signed : SignedAuthorityBundle} {meshId : MeshId}
    {accepted : Option Nat} {now : Nat}
    (h : verifyAuthorityBundle crypto root signed meshId accepted now = .ok next) :
    next.root = root ∧ next.meshId = meshId ∧
      next.authorityRevision = some signed.bundle.revision ∧ next.authorityRevisionResumed = false ∧
      (∀ serial ∈ signed.bundle.revoked, serial ∈ next.revokedAuthoritySerials) ∧
      ∀ revision, accepted = some revision → revision < signed.bundle.revision := by
  unfold verifyAuthorityBundle at h
  obtain ⟨_, _, h⟩ := bind_eq_ok.mp h
  obtain ⟨_, _, h⟩ := bind_eq_ok.mp h
  obtain ⟨_, hrollback, h⟩ := bind_eq_ok.mp h
  obtain ⟨_, _, h⟩ := bind_eq_ok.mp h
  obtain ⟨_, _, h⟩ := bind_eq_ok.mp h
  obtain ⟨_, _, h⟩ := bind_eq_ok.mp h
  cases h
  refine ⟨rfl, rfl, rfl, rfl, fun serial hserial => ?_, fun revision haccepted => ?_⟩
  · exact ExtTreeSet.mem_ofList.mpr (List.contains_iff_mem.mpr hserial)
  · have hnew := rejectIf_eq_ok.mp hrollback
    rw [haccepted, Option.any_some, decide_eq_false_iff_not, Nat.not_le] at hnew
    exact hnew

theorem inherit_ok {replacement : TrustSet} (h : trust.inherit replacement = .ok next) :
    next.root = replacement.root ∧ next.meshId = replacement.meshId ∧
      next.authorityRevision = replacement.authorityRevision ∧
      next.authorityRevisionResumed = replacement.authorityRevisionResumed ∧
      (∀ serial, serial ∈ next.revokedAuthoritySerials ↔
        serial ∈ replacement.revokedAuthoritySerials ∨ serial ∈ trust.revokedAuthoritySerials) ∧
      next.revokedSubjectSerials = trust.revokedSubjectSerials := by
  unfold inherit at h
  obtain ⟨_, _, h⟩ := bind_eq_ok.mp h
  cases h
  refine ⟨rfl, rfl, rfl, rfl, fun serial => ?_, rfl⟩
  rw [ExtTreeSet.mem_insertMany_list, List.contains_iff_mem, ExtTreeSet.mem_toList]

/-- What an installed bundle leaves: a newer revision than the one it replaced, or the completion of a
restore at the same one, and all revocations, its own included. -/
structure Installed (trust : TrustSet) (bundle : AuthorityBundle) (next : TrustSet) : Prop where
  root : next.root = trust.root
  meshId : next.meshId = trust.meshId
  revision : next.authorityRevision = some bundle.revision
  fresh : next.authorityRevisionResumed = false
  newer : ∀ revision, trust.authorityRevision = some revision → revision < bundle.revision ∨
    (revision = bundle.revision ∧ trust.authorityRevisionResumed = true)
  authorities : ∀ serial ∈ trust.revokedAuthoritySerials, serial ∈ next.revokedAuthoritySerials
  listed : ∀ serial ∈ bundle.revoked, serial ∈ next.revokedAuthoritySerials
  subjects : next.revokedSubjectSerials = trust.revokedSubjectSerials

theorem installAuthorityBundle_ok {signed : SignedAuthorityBundle} {now : Nat}
    (h : trust.installAuthorityBundle crypto signed now = .ok next) :
    Installed trust signed.bundle next := by
  unfold installAuthorityBundle at h
  obtain ⟨replacement, hverified, h⟩ := bind_eq_ok.mp h
  obtain ⟨hroot, hmesh, hrevision, hfresh, hlisted, hnewer⟩ := verifyAuthorityBundle_ok hverified
  obtain ⟨hroot', hmesh', hrevision', hfresh', hauthorities, hsubjects⟩ := inherit_ok h
  exact ⟨hroot'.trans hroot, hmesh'.trans hmesh, hrevision'.trans hrevision, hfresh'.trans hfresh,
    fun revision hcurrent => .inl (hnewer revision hcurrent),
    fun serial hserial => (hauthorities serial).mpr (.inr hserial),
    fun serial hserial => (hauthorities serial).mpr (.inl (hlisted serial hserial)), hsubjects⟩

theorem installAuthorityBundleAfterResume_ok {signed : SignedAuthorityBundle} {now : Nat}
    (h : trust.installAuthorityBundleAfterResume crypto signed now = .ok next) :
    Installed trust signed.bundle next := by
  unfold installAuthorityBundleAfterResume at h
  split at h
  · exact installAuthorityBundle_ok h
  · next hresumed =>
      rw [Bool.or_eq_true, Bool.not_eq_true', decide_eq_true_eq, not_or, Bool.not_eq_false,
        ne_eq, not_not] at hresumed
      obtain ⟨replacement, hverified, h⟩ := bind_eq_ok.mp h
      obtain ⟨_, _, h⟩ := bind_eq_ok.mp h
      obtain ⟨hroot, hmesh, hrevision, hfresh, hlisted, -⟩ := verifyAuthorityBundle_ok hverified
      obtain ⟨hroot', hmesh', hrevision', hfresh', hauthorities, hsubjects⟩ := inherit_ok h
      refine ⟨hroot'.trans hroot, hmesh'.trans hmesh, hrevision'.trans hrevision,
        hfresh'.trans hfresh, fun revision hcurrent => .inr ⟨?_, hresumed.1⟩,
        fun serial hserial => (hauthorities serial).mpr (.inr hserial),
        fun serial hserial => (hauthorities serial).mpr (.inl (hlisted serial hserial)), hsubjects⟩
      exact Option.some.inj (hcurrent.symm.trans hresumed.2)

theorem Installed.advances {bundle : AuthorityBundle} (h : Installed trust bundle next) :
    trust.Advances next where
  root := h.root
  meshId := h.meshId
  revision := by
    intro revision hrevision
    refine ⟨bundle.revision, h.revision, ?_⟩
    rcases h.newer revision hrevision with hlt | ⟨heq, -⟩
    · exact hlt.le
    · exact heq.le
  authorities := h.authorities
  subjects := fun _ hserial => h.subjects ▸ hserial

/-- An accepted operation moves the set forward. -/
theorem apply_advances (h : trust.apply crypto op = .ok next) : trust.Advances next := by
  cases op with
  | addAuthority certificate now =>
      obtain ⟨_, _, h⟩ := bind_eq_ok.mp (show trust.addAuthority crypto certificate now = _ from h)
      cases h
      exact { Advances.refl trust with }
  | resumeAuthorityRevision revision =>
      have h : trust.resumeAuthorityRevision revision = .ok next := h
      unfold resumeAuthorityRevision at h
      split at h
      · cases h
      · next hunset =>
          cases h
          rw [Bool.or_eq_true, Bool.or_eq_true, not_or, not_or] at hunset
          refine { Advances.refl trust with revision := fun revision hrevision => ?_ }
          rw [hrevision] at hunset
          exact absurd rfl hunset.1.2
  | installAuthorityBundle signed now => exact (installAuthorityBundle_ok h).advances
  | installAuthorityBundleAfterResume signed now =>
      exact (installAuthorityBundleAfterResume_ok h).advances
  | revokeSubject serial =>
      cases h
      exact { Advances.refl trust with
        subjects := fun _ hserial => ExtTreeSet.mem_insert.mpr (.inr hserial) }
  | revokeAuthority serial =>
      cases h
      exact { Advances.refl trust with
        authorities := fun _ hserial => ExtTreeSet.mem_insert.mpr (.inr hserial) }

theorem apply_installed {bundle : AuthorityBundle} (h : trust.apply crypto op = .ok next)
    (hbundle : op.bundle? = some bundle) : Installed trust bundle next := by
  cases op with
  | installAuthorityBundle signed now =>
      cases hbundle
      exact installAuthorityBundle_ok h
  | installAuthorityBundleAfterResume signed now =>
      cases hbundle
      exact installAuthorityBundleAfterResume_ok h
  | _ => cases hbundle

theorem step_advances (crypto : Crypto) (trust : TrustSet) (op : Op) :
    trust.Advances (trust.step crypto op) := by
  unfold step
  cases h : trust.apply crypto op with
  | error failure => exact .refl trust
  | ok next => exact apply_advances h

/-! ## Runs

Both results compare two moments of a run. The first operation leaves a serial or a revision behind, and
everything after it advances from there.
-/

variable {start : TrustSet} {credential : SubjectCredential} {now : Nat}

theorem exec_advances (crypto : Crypto) (trust : TrustSet) (ops : List Op) :
    trust.Advances (exec (step crypto) trust ops) := by
  induction ops using List.reverseRecOn with
  | nil => exact .refl trust
  | append_singleton ops op ih =>
      rw [exec_concat]
      exact ih.trans (step_advances crypto _ op)

/-- The operation revokes an Authority, by its serial or in a bundle that is accepted. -/
def RevokesAuthority (crypto : Crypto) (serial : CredentialSerial) (trust : TrustSet) (op : Op) : Prop :=
  op = .revokeAuthority serial ∨ (trust.apply crypto op).isOk = true ∧
    ∃ bundle, op.bundle? = some bundle ∧ serial ∈ bundle.revoked

theorem revokesAuthority_step {serial : CredentialSerial}
    (h : RevokesAuthority crypto serial trust op) :
    serial ∈ (trust.step crypto op).revokedAuthoritySerials := by
  rcases h with rfl | ⟨hok, bundle, hbundle, hlisted⟩
  · exact ExtTreeSet.mem_insert_self
  · unfold step
    cases happly : trust.apply crypto op with
    | error failure =>
        rw [happly] at hok
        cases hok
    | ok next => exact (apply_installed happly hbundle).listed serial hlisted

/-- What some operation of a run revoked is revoked at its end. -/
theorem mem_of_happened {P : TrustSet → Op → Prop} {Q : TrustSet → Prop} {ops : List Op}
    (h : Happened (step crypto) start P ops) (hstep : ∀ trust op, P trust op → Q (trust.step crypto op))
    (hkeep : ∀ a b : TrustSet, a.Advances b → Q a → Q b) : Q (exec (step crypto) start ops) := by
  obtain ⟨before, op, after, rfl, hop⟩ := h
  rw [exec_append, exec_cons]
  exact hkeep _ _ (exec_advances crypto _ after) (hstep _ op hop)

/-- **Revocation is permanent.** After any run, a credential that is accepted was revoked by no
operation of the run, and neither was the Authority that vouches for it: not by serial, and not in any
bundle that was accepted, even if later bundles leave it out. -/
theorem accepted_was_never_revoked {ops : List Op} {validUntil : Nat}
    (h : (exec (step crypto) start ops).subjectValidUntil crypto credential now = .ok validUntil) :
    ¬ Happened (step crypto) start (fun _ op => op = .revokeSubject credential.serial) ops ∧
      ∃ authority ∈ (exec (step crypto) start ops).authorities,
        ¬ Happened (step crypto) start (RevokesAuthority crypto authority.serial) ops ∧
        (verifyAuthority crypto start.root authority start.meshId now).isOk = true ∧
        (credential.verifyWithAuthority crypto authority.publicKey now).isOk = true ∧
        validUntil = min credential.notAfter authority.notAfter := by
  have hadvances := exec_advances crypto start ops
  obtain ⟨hsubject, authority, hmem, hauthority, hcertified, hsigned, hbound⟩ := subjectValidUntil_ok h
  refine ⟨fun hrevoked => ?_, authority, hmem, fun hrevoked => ?_, ?_, hsigned, hbound⟩
  · have hheld := mem_of_happened (Q := fun trust => credential.serial ∈ trust.revokedSubjectSerials)
      hrevoked (fun trust op hop => hop ▸ ExtTreeSet.mem_insert_self)
      fun a b hab => hab.subjects credential.serial
    exact Bool.false_ne_true (hsubject.symm.trans (ExtTreeSet.contains_iff_mem.mpr hheld))
  · have hheld := mem_of_happened (Q := fun trust => authority.serial ∈ trust.revokedAuthoritySerials)
      hrevoked (fun trust op => revokesAuthority_step) fun a b hab => hab.authorities authority.serial
    exact Bool.false_ne_true (hauthority.symm.trans (ExtTreeSet.contains_iff_mem.mpr hheld))
  · rw [← hadvances.root, ← hadvances.meshId]
    exact hcertified

/-- At a revision, with no restore to complete. -/
def Past (revision : Nat) (trust : TrustSet) : Prop :=
  trust.authorityRevisionResumed = false ∧
    ∃ current, trust.authorityRevision = some current ∧ revision ≤ current

theorem Past.step {revision : Nat} (h : Past revision trust) (op : Op) :
    Past revision (trust.step crypto op) := by
  obtain ⟨hfresh, current, hcurrent, hle⟩ := h
  obtain ⟨current', hcurrent', hle'⟩ := (step_advances crypto trust op).revision current hcurrent
  refine ⟨?_, current', hcurrent', hle.trans hle'⟩
  unfold TrustSet.step
  cases happly : trust.apply crypto op with
  | error failure => exact hfresh
  | ok next =>
      show next.authorityRevisionResumed = false
      cases op with
      | addAuthority certificate at_ =>
          obtain ⟨_, _, happly⟩ := bind_eq_ok.mp
            (show trust.addAuthority crypto certificate at_ = _ from happly)
          cases happly
          exact hfresh
      | resumeAuthorityRevision revision =>
          have happly : trust.resumeAuthorityRevision revision = .ok next := happly
          unfold resumeAuthorityRevision at happly
          rw [hcurrent, Option.isSome_some, Bool.or_true, Bool.true_or] at happly
          cases happly
      | installAuthorityBundle signed at_ => exact (installAuthorityBundle_ok happly).fresh
      | installAuthorityBundleAfterResume signed at_ =>
          exact (installAuthorityBundleAfterResume_ok happly).fresh
      | revokeSubject serial | revokeAuthority serial =>
          cases happly
          exact hfresh

/-- **Accepted revisions increase.** In any run, a bundle that is installed after another one has a
larger revision; a restored revision is completed at most once, before any other installation. -/
theorem installs_increase {before between : List Op} {op op' : Op} {revision revision' : Nat}
    (h : Installs crypto revision (exec (step crypto) start before) op)
    (h' : Installs crypto revision' (exec (step crypto) start (before ++ op :: between)) op') :
    revision < revision' := by
  rw [exec_append, exec_cons] at h'
  generalize exec (step crypto) start before = trust at h h'
  have hpast : Past revision (trust.step crypto op) := by
    obtain ⟨hok, bundle, hbundle, rfl⟩ := h
    unfold step
    cases happly : trust.apply crypto op with
    | error failure =>
        rw [happly] at hok
        cases hok
    | ok next =>
        have hinstalled := apply_installed happly hbundle
        exact ⟨hinstalled.fresh, _, hinstalled.revision, Nat.le_refl _⟩
  have hheld : Past revision (exec (step crypto) (trust.step crypto op) between) :=
    exec_invariant (I := Past revision) hpast (fun _ op h => h.step op) between
  generalize exec (step crypto) (trust.step crypto op) between = later at h' hheld
  obtain ⟨hfresh, current, hcurrent, hle⟩ := hheld
  obtain ⟨hok, bundle, hbundle, rfl⟩ := h'
  cases happly : later.apply crypto op' with
  | error failure =>
      rw [happly] at hok
      cases hok
  | ok next =>
      rcases (apply_installed happly hbundle).newer current hcurrent with hlt | ⟨-, hresumed⟩
      · exact hle.trans_lt hlt
      · cases hfresh.symm.trans hresumed

/-! ## Decisions and the order of the Authorities

The two decisions are folds over the held certificates. The first is a maximum, which no order changes; the
second stops at the first certificate with the key, which is why it needs the keys to be different.
-/

/-- The Authority vouches for the credential now. -/
def Vouches (crypto : Crypto) (trust : TrustSet) (credential : SubjectCredential) (now : Nat)
    (authority : AuthorityCertificate) : Prop :=
  trust.revokedAuthoritySerials.contains authority.serial = false ∧
    (verifyAuthority crypto trust.root authority trust.meshId now).isOk = true ∧
    (credential.verifyWithAuthority crypto authority.publicKey now).isOk = true

/-- The deadlines that the Authorities of a list give. -/
def Deadlines (crypto : Crypto) (trust : TrustSet) (credential : SubjectCredential) (now : Nat)
    (authorities : List AuthorityCertificate) : Set Nat :=
  { validUntil | ∃ authority ∈ authorities, Vouches crypto trust credential now authority ∧
    validUntil = min credential.notAfter authority.notAfter }

theorem extendValidity_of_vouches {found : Option Nat} {authority : AuthorityCertificate}
    (h : Vouches crypto trust credential now authority) :
    trust.extendValidity crypto credential now found authority =
      some (found.elim (min credential.notAfter authority.notAfter)
        (max · (min credential.notAfter authority.notAfter))) := by
  obtain ⟨hrevoked, hcertified, hsigned⟩ := h
  unfold extendValidity
  rw [hrevoked, hcertified, hsigned]
  rfl

theorem extendValidity_of_not {found : Option Nat} {authority : AuthorityCertificate}
    (h : ¬ Vouches crypto trust credential now authority) :
    trust.extendValidity crypto credential now found authority = found := by
  unfold extendValidity
  split
  · rfl
  · next hrevoked =>
      split
      · next hok =>
          rw [Bool.and_eq_true] at hok
          exact absurd ⟨Bool.eq_false_iff.mpr hrevoked, hok.1, hok.2⟩ h
      · rfl

theorem deadlines_concat (authorities : List AuthorityCertificate) (authority : AuthorityCertificate)
    (validUntil : Nat) :
    validUntil ∈ Deadlines crypto trust credential now (authorities ++ [authority]) ↔
      validUntil ∈ Deadlines crypto trust credential now authorities ∨
        (Vouches crypto trust credential now authority ∧
          validUntil = min credential.notAfter authority.notAfter) := by
  unfold Deadlines
  simp only [Set.mem_ofPred_eq, List.mem_append, List.mem_singleton, or_and_right, exists_or,
    exists_eq_left]

/-- The loop finds the latest deadline, and nothing exactly when there is none. -/
theorem foldl_extendValidity (crypto : Crypto) (trust : TrustSet) (credential : SubjectCredential)
    (now : Nat) (authorities : List AuthorityCertificate) :
    match authorities.foldl (trust.extendValidity crypto credential now) none with
    | none => Deadlines crypto trust credential now authorities = ∅
    | some validUntil => IsGreatest (Deadlines crypto trust credential now authorities) validUntil := by
  induction authorities using List.reverseRecOn with
  | nil =>
      refine Set.eq_empty_of_forall_notMem ?_
      rintro validUntil ⟨authority, hmem, -⟩
      cases hmem
  | append_singleton authorities authority ih =>
      rw [List.foldl_append, List.foldl_cons, List.foldl_nil]
      generalize authorities.foldl (trust.extendValidity crypto credential now) none = found at ih ⊢
      by_cases hvouches : Vouches crypto trust credential now authority
      · rw [extendValidity_of_vouches hvouches]
        cases found with
        | none =>
            refine ⟨(deadlines_concat ..).mpr (.inr ⟨hvouches, rfl⟩), fun validUntil hmem => ?_⟩
            rcases (deadlines_concat ..).mp hmem with hmem | ⟨-, rfl⟩
            · rw [ih] at hmem
              cases hmem
            · exact Nat.le_refl _
        | some previous =>
            refine ⟨(deadlines_concat ..).mpr ?_, fun validUntil hmem => ?_⟩
            · rcases Nat.le_total previous (min credential.notAfter authority.notAfter) with hle | hle
              · exact .inr ⟨hvouches, Nat.max_eq_right hle⟩
              · refine .inl ?_
                show max previous _ ∈ _
                rw [Nat.max_eq_left hle]
                exact ih.1
            · rcases (deadlines_concat ..).mp hmem with hmem | ⟨-, rfl⟩
              · exact (ih.2 hmem).trans (Nat.le_max_left _ _)
              · exact Nat.le_max_right _ _
      · rw [extendValidity_of_not hvouches]
        have hsame : Deadlines crypto trust credential now (authorities ++ [authority]) =
            Deadlines crypto trust credential now authorities := by
          ext validUntil
          rw [deadlines_concat, or_iff_left fun h => hvouches h.1]
        cases found with
        | none => exact hsame.trans ih
        | some previous =>
            show IsGreatest _ _
            rw [hsame]
            exact ih

/-- What `subject_valid_until` returns, and nothing else, is the latest deadline of an Authority that
vouches for an unrevoked credential of this Mesh. -/
theorem subjectValidUntil_eq_ok {validUntil : Nat} :
    trust.subjectValidUntil crypto credential now = .ok validUntil ↔
      credential.meshId = trust.meshId ∧ credential.role = credential.subject.role ∧
      credential.serial ∉ trust.revokedSubjectSerials ∧
      IsGreatest (Deadlines crypto trust credential now trust.authorities) validUntil := by
  have hfold := foldl_extendValidity crypto trust credential now trust.authorities
  unfold subjectValidUntil
  constructor
  · intro h
    obtain ⟨_, hmesh, h⟩ := bind_eq_ok.mp h
    obtain ⟨_, hrole, h⟩ := bind_eq_ok.mp h
    obtain ⟨_, hrevoked, h⟩ := bind_eq_ok.mp h
    have hmesh := rejectIf_eq_ok.mp hmesh
    have hrole := rejectIf_eq_ok.mp hrole
    have hrevoked := rejectIf_eq_ok.mp hrevoked
    rw [decide_eq_false_iff_not, not_not] at hmesh hrole
    rw [← Bool.not_eq_true, ExtTreeSet.contains_iff_mem] at hrevoked
    refine ⟨hmesh, hrole, hrevoked, ?_⟩
    split at h
    · next found hfound =>
        rw [hfound] at hfold
        cases h
        exact hfold
    · cases h
  · rintro ⟨hmesh, hrole, hrevoked, hgreatest⟩
    refine bind_eq_ok.mpr ⟨(), rejectIf_eq_ok.mpr (by simp [hmesh]), bind_eq_ok.mpr ⟨(),
      rejectIf_eq_ok.mpr (by simp [hrole]), bind_eq_ok.mpr ⟨(), rejectIf_eq_ok.mpr ?_, ?_⟩⟩⟩
    · rw [← Bool.not_eq_true, ExtTreeSet.contains_iff_mem]
      exact hrevoked
    · split
      · next found hfound =>
          rw [hfound] at hfold
          rw [hfold.unique hgreatest]
      · next hnone =>
          rw [hnone] at hfold
          rw [hfold] at hgreatest
          exact absurd hgreatest.1 (Set.notMem_empty _)

theorem foldl_extendValidity_congr (crypto : Crypto) (trust : TrustSet)
    (credential : SubjectCredential) (now : Nat) {authorities authorities' : List AuthorityCertificate}
    (h : ∀ authority, authority ∈ authorities ↔ authority ∈ authorities') :
    authorities.foldl (trust.extendValidity crypto credential now) none =
      authorities'.foldl (trust.extendValidity crypto credential now) none := by
  have hsame : Deadlines crypto trust credential now authorities =
      Deadlines crypto trust credential now authorities' := by
    unfold Deadlines
    simp only [h]
  have hleft := foldl_extendValidity crypto trust credential now authorities
  have hright := foldl_extendValidity crypto trust credential now authorities'
  rw [hsame] at hleft
  generalize authorities.foldl (trust.extendValidity crypto credential now) none = left at hleft ⊢
  generalize authorities'.foldl (trust.extendValidity crypto credential now) none = right at hright ⊢
  cases left with
  | none =>
      cases right with
      | none => rfl
      | some validUntil =>
          have hmem := hright.1
          rw [hleft] at hmem
          exact absurd hmem (Set.notMem_empty _)
  | some validUntil =>
      cases right with
      | none =>
          have hmem := hleft.1
          rw [hright] at hmem
          exact absurd hmem (Set.notMem_empty _)
      | some validUntil' => rw [hleft.unique hright]

/-- A search for what at most one element is does not depend on the order. -/
theorem find?_congr {α : Type} {p : α → Bool} {l l' : List α} (h : ∀ a, a ∈ l ↔ a ∈ l')
    (hunique : ∀ a ∈ l, ∀ b ∈ l, p a = true → p b = true → a = b) : l.find? p = l'.find? p := by
  cases hleft : l.find? p with
  | none =>
      symm
      rw [List.find?_eq_none] at hleft ⊢
      exact fun a ha => hleft a ((h a).mpr ha)
  | some a =>
      have hmem := List.mem_of_find?_eq_some hleft
      have hp := List.find?_some hleft
      cases hright : l'.find? p with
      | none => exact absurd hp (List.find?_eq_none.mp hright a ((h a).mp hmem))
      | some b =>
          have hb := (h b).mpr (List.mem_of_find?_eq_some hright)
          rw [hunique a hmem b hb hp (List.find?_some hright)]

/-- **Trust decisions do not depend on the order or multiplicity of the Authorities held.** For subjects
this holds always; for distribution keys, where the search stops at the first certificate with the
key, when no two of the certificates held share a key. -/
theorem decisions_ignore_order {authorities : List AuthorityCertificate}
    (h : ∀ authority, authority ∈ authorities ↔ authority ∈ trust.authorities) :
    (∀ credential now, { trust with authorities }.subjectValidUntil crypto credential now =
      trust.subjectValidUntil crypto credential now) ∧
    ((∀ a ∈ trust.authorities, ∀ b ∈ trust.authorities, a.publicKey = b.publicKey → a = b) →
      ∀ certificate now, { trust with authorities }.verifyDistribution crypto certificate now =
        trust.verifyDistribution crypto certificate now) := by
  refine ⟨fun credential now => ?_, fun hkeys certificate now => ?_⟩
  · have hfold := foldl_extendValidity_congr crypto trust credential now h
    have hextend : { trust with authorities }.extendValidity crypto credential now =
        trust.extendValidity crypto credential now := rfl
    unfold subjectValidUntil
    simp only [hextend, hfold]
  · unfold verifyDistribution
    have hfind : authorities.find? (·.publicKey = certificate.authorityPublicKey) =
        trust.authorities.find? (·.publicKey = certificate.authorityPublicKey) := by
      refine find?_congr h fun a ha b hb hpa hpb => ?_
      rw [decide_eq_true_eq] at hpa hpb
      exact hkeys a ((h a).mp ha) b ((h b).mp hb) (hpa.trans hpb.symm)
    simp only [hfind]

/-! ### Two bundles -/

section TwoBundles

/-- Verification that accepts every signature. -/
def lenient : Crypto :=
  ⟨fun _ _ _ => true, fun _ _ _ => true, fun _ _ _ => true, fun _ _ _ => true, fun _ => true⟩

def someMesh : MeshId := ⟨0x00000000000040008000000000000001#128, Types.random_one⟩
def firstSerial : CredentialSerial := ⟨0x00000000000040008000000000000002#128, Types.random_two⟩
def secondSerial : CredentialSerial := ⟨0x00000000000040008000000000000003#128, Types.random_three⟩
def relaySerial : CredentialSerial := ⟨0x00000000000040008000000000000004#128, Types.random_four⟩
def otherSerial : CredentialSerial := ⟨0x00000000000040008000000000000005#128, Types.random_five⟩

def firstAuthority : AuthorityCertificate where
  meshId := someMesh
  serial := firstSerial
  publicKey := 2
  notBefore := 0
  notAfter := 100
  signature := []

def secondAuthority : AuthorityCertificate := { firstAuthority with serial := secondSerial, publicKey := 3 }

def firstBundle : SignedAuthorityBundle :=
  ⟨⟨someMesh, 1, firstAuthority, [], []⟩, []⟩

/-- The second Authority replaces the first, which it revokes. -/
def secondBundle : SignedAuthorityBundle :=
  ⟨⟨someMesh, 2, secondAuthority, [], [firstAuthority.serial]⟩, []⟩

def relayCredential : SubjectCredential where
  subject := .relay someMesh
  meshId := someMesh
  identityPublicKey := 0
  publicNoiseKey := 5
  wireguardPublicKey := 0
  serial := relaySerial
  notBefore := 0
  notAfter := 80
  role := .relay
  signature := []

def rotated : List Op :=
  [.installAuthorityBundle firstBundle 10, .revokeSubject otherSerial, .installAuthorityBundle secondBundle 20]

def unset : TrustSet := { root := 1, meshId := someMesh }

/-- A credential outlives the Authority that was revoked. -/
theorem accepted_was_never_revoked_rotated :
    ¬ Happened (step lenient) unset (fun _ op => op = .revokeSubject relayCredential.serial) rotated :=
  (@accepted_was_never_revoked lenient unset relayCredential 30 rotated 80 (by decide +kernel)).1

theorem installs_increase_rotated :
    Installs lenient 1 unset (.installAuthorityBundle firstBundle 10) ∧
    firstBundle.bundle.revision < secondBundle.bundle.revision := by
  have hfirst : Installs lenient 1 unset (.installAuthorityBundle firstBundle 10) :=
    ⟨by decide +kernel, _, rfl, rfl⟩
  refine ⟨hfirst, @installs_increase lenient unset [] [.revokeSubject otherSerial]
    (.installAuthorityBundle firstBundle 10) (.installAuthorityBundle secondBundle 20) 1 2 hfirst
    ⟨by decide +kernel, _, rfl, rfl⟩⟩

def overlapping : TrustSet := { unset with authorities := [firstAuthority, secondAuthority] }

/-- Both certificates held, in either order. -/
theorem decisions_ignore_order_overlapping :
    { overlapping with authorities := [secondAuthority, firstAuthority] }.subjectValidUntil lenient
      relayCredential 30 = overlapping.subjectValidUntil lenient relayCredential 30 := by
  refine (@decisions_ignore_order lenient overlapping [secondAuthority, firstAuthority]
    fun authority => ?_).1 relayCredential 30
  show authority ∈ [secondAuthority, firstAuthority] ↔ authority ∈ [firstAuthority, secondAuthority]
  simp [or_comm]

end TwoBundles

end TrustSet

end Peerward.Credentials
