import Peerward.Management.Resources

/-!
# Device conditions

An administrator can require a minimum version, a platform, capabilities and remaining credential
lifetime of the devices in a scope. `only_restricts` compares two such conditions without looking at
any device; what it is for is that no device gains access by a change it accepts.

`Semver` stands for the `semver` crate: parsing, printing and the order of precedence.
-/

namespace Peerward.Management

open Std Peerward.Lib Peerward.Net Peerward.Types

structure Semver where
  Version : Type
  parse : Text → Option Version
  toText : Version → Text
  cmpPrecedence : Version → Version → Ordering

inductive DevicePlatform where
  | linux
  | android
  deriving DecidableEq

inductive DeviceCapability where
  | managedDns
  | resourceConsumer
  | exitConsumer
  | subnetGateway
  | exitGateway
  deriving DecidableEq

/-- Device-signed software statements, never hardware attestation or antivirus evidence. -/
structure DeviceEvidence where
  version : Text
  platform : DevicePlatform
  capabilities : Finset DeviceCapability
  deriving DecidableEq

/-- Only the spelling that the version prints as is accepted. -/
def canonicalDeviceVersion (semver : Semver) (value : Text) :
    Except ManagementError semver.Version :=
  if value.bytes.length > 128 then .error (.invalid "device_version")
  else match semver.parse value with
    | none => .error (.invalid "device_version")
    | some parsed =>
      if semver.toText parsed ≠ value then .error (.invalid "device_version") else .ok parsed

def DeviceEvidence.validate (semver : Semver) (evidence : DeviceEvidence) :
    Except ManagementError Unit := do
  let _ ← canonicalDeviceVersion semver evidence.version
  rejectIf (evidence.platform = .android
    && (.subnetGateway ∈ evidence.capabilities || .exitGateway ∈ evidence.capabilities))
    (.invalid "device_evidence.capabilities")

structure DeviceConditions where
  enabled : Bool := false
  scope : DeviceSelector := {}
  minimumVersion : Option Text := none
  platforms : Finset DevicePlatform := ∅
  requiredCapabilities : Finset DeviceCapability := ∅
  minimumCredentialSeconds : Nat := 0
  deriving DecidableEq

namespace DeviceConditions

/-- `first` is older than `second`, or one of them cannot be read. -/
def isOlder (semver : Semver) (first second : Text) : Bool :=
  match canonicalDeviceVersion semver first, canonicalDeviceVersion semver second with
  | .ok first, .ok second => (semver.cmpPrecedence first second).isLT
  | _, _ => true

/-- Conservative symbolic proof used to let emergency restrictions pass even if previously saved
positive traffic assertions no longer succeed. -/
def onlyRestricts (semver : Semver) (new old : DeviceConditions) : Bool :=
  if new = old || !old.enabled then true
  else if !new.enabled || new.scope ≠ old.scope then false
  else
    (old.platforms = ∅ || (new.platforms ≠ ∅ && new.platforms ⊆ old.platforms))
      && old.requiredCapabilities ⊆ new.requiredCapabilities
      && old.minimumCredentialSeconds ≤ new.minimumCredentialSeconds
      && old.minimumVersion.all fun old => new.minimumVersion.any fun new =>
        !isOlder semver new old

def validate (semver : Semver) (conditions : DeviceConditions) : Except ManagementError Unit := do
  conditions.scope.validate
  match conditions.minimumVersion with
  | some version => let _ ← canonicalDeviceVersion semver version
  | none => pure ()
  rejectIf (conditions.minimumCredentialSeconds > 86400) (.invalid "minimum_credential_seconds")

/-- The reasons against evidence that is valid and fresh. -/
def evidenceReasons (semver : Semver) (conditions : DeviceConditions) (evidence : DeviceEvidence) :
    List AdmissionReason :=
  (if conditions.platforms ≠ ∅ ∧ evidence.platform ∉ conditions.platforms then [.platform] else [])
    ++ (if conditions.requiredCapabilities ⊆ evidence.capabilities then [] else [.capabilities])
    ++ (if conditions.minimumVersion.any (isOlder semver evidence.version) then [.version]
        else [])

/-- The instant from which the credential is too close to its end. -/
def credentialDeadline (conditions : DeviceConditions) (credentialUntil : Nat) : Nat :=
  credentialUntil - conditions.minimumCredentialSeconds

/-- Called only after the server verifies evidence identity, signature and credential. -/
def evaluate (semver : Semver) (conditions : DeviceConditions) (evidence : Option DeviceEvidence)
    (evidenceUntil credentialUntil now : Nat) : AdmissionDecision :=
  let evidenceReasons := match evidence with
    | some evidence =>
      if (evidence.validate semver).isOk && evidenceUntil > now then
        conditions.evidenceReasons semver evidence
      else [.evidenceUnavailable]
    | none => [.evidenceUnavailable]
  let reasons := evidenceReasons
    ++ if conditions.credentialDeadline credentialUntil ≤ now then [.credential] else []
  { allowed := reasons.isEmpty
    validUntil := some (min evidenceUntil (conditions.credentialDeadline credentialUntil))
    reasons }

/-- What the server knows about one device. -/
structure Facts where
  peer : PeerId
  addresses : List IpAddr
  labels : ExtTreeMap Text Text
  evidence : Option DeviceEvidence
  evidenceUntil : Nat
  credentialUntil : Nat

/-- A matching address in either family selects the entire device, never just one tunnel IP. -/
def selects (scope : DeviceSelector) (device : Facts) : Bool :=
  device.addresses.any (scope.matchesDevice device.peer · device.labels)
    || (device.addresses.isEmpty && scope.cidrs.isEmpty
      && scope.matchesDevice device.peer (.v4 0) device.labels)

/-- The decision `read_device_admission` publishes for a device. -/
def admission (semver : Semver) (conditions : DeviceConditions) (device : Facts) (now : Nat) :
    AdmissionDecision :=
  if selects conditions.scope device then
    conditions.evaluate semver device.evidence device.evidenceUntil device.credentialUntil now
  else { allowed := true, validUntil := none, reasons := [] }

/-- The device has access at `time` under the decision taken at `now`. -/
def grants (semver : Semver) (conditions : DeviceConditions) (device : Facts) (now time : Nat) :
    Bool :=
  !conditions.enabled || (conditions.admission semver device now).permits time

/-! ## Restrictions are sound -/

variable {semver : Semver} {new old : DeviceConditions} {evidence : DeviceEvidence}
  {evidenceUntil credentialUntil now time : Nat}

/-- Evidence passes the conditions of a device in their scope. -/
structure Passes (semver : Semver) (conditions : DeviceConditions) (evidence : DeviceEvidence) :
    Prop where
  platform : conditions.platforms = ∅ ∨ evidence.platform ∈ conditions.platforms
  capabilities : conditions.requiredCapabilities ⊆ evidence.capabilities
  version : ∀ minimum ∈ conditions.minimumVersion, isOlder semver evidence.version minimum = false

theorem evidenceReasons_eq_nil {conditions : DeviceConditions} :
    conditions.evidenceReasons semver evidence = [] ↔ Passes semver conditions evidence := by
  have hversion : conditions.minimumVersion.any (isOlder semver evidence.version) = true ↔
      ¬ ∀ minimum ∈ conditions.minimumVersion, isOlder semver evidence.version minimum = false := by
    cases conditions.minimumVersion <;> simp
  simp only [evidenceReasons, List.append_eq_nil_iff, hversion]
  constructor
  · rintro ⟨⟨hplatform, hcapabilities⟩, hversion⟩
    refine ⟨?_, by simpa using hcapabilities, by simpa using hversion⟩
    by_contra hnot
    rw [not_or] at hnot
    simp [hnot] at hplatform
  · rintro ⟨hplatform, hcapabilities, hversion⟩
    refine ⟨⟨if_neg fun h => ?_, if_pos hcapabilities⟩, if_neg fun h => h hversion⟩
    exact hplatform.elim h.1 h.2

/-- Everything a decision that permits access rests on. -/
theorem evaluate_permits_iff {conditions : DeviceConditions} {evidence : Option DeviceEvidence} :
    (conditions.evaluate semver evidence evidenceUntil credentialUntil now).permits time = true ↔
      (∃ found, evidence = some found ∧ (found.validate semver).isOk = true ∧
        Passes semver conditions found) ∧
      max now time < evidenceUntil ∧
      max now time < conditions.credentialDeadline credentialUntil := by
  cases evidence with
  | none => simp [evaluate, AdmissionDecision.permits]
  | some found =>
      by_cases hfresh : (found.validate semver).isOk = true ∧ now < evidenceUntil
      · have hcomputes :
            (conditions.evaluate semver (some found) evidenceUntil credentialUntil now).permits time
              = true ↔ (Passes semver conditions found ∧
                now < conditions.credentialDeadline credentialUntil) ∧
                time < min evidenceUntil (conditions.credentialDeadline credentialUntil) := by
          simp [evaluate, AdmissionDecision.permits, hfresh, evidenceReasons_eq_nil]
        rw [hcomputes, lt_min_iff, max_lt_iff, max_lt_iff]
        constructor
        · rintro ⟨⟨hpasses, hnow⟩, htime⟩
          exact ⟨⟨found, rfl, hfresh.1, hpasses⟩, ⟨hfresh.2, htime.1⟩, hnow, htime.2⟩
        · rintro ⟨⟨_, ⟨rfl⟩, -, hpasses⟩, hevidence, hcredential⟩
          exact ⟨⟨hpasses, hcredential.1⟩, hevidence.2, hcredential.2⟩
      · have hstale : ((found.validate semver).isOk && decide (evidenceUntil > now)) = false := by
          simpa using hfresh
        simp only [evaluate, AdmissionDecision.permits, hstale]
        constructor
        · intro hpermits
          simp at hpermits
        · rintro ⟨⟨_, ⟨rfl⟩, hvalid, -⟩, htime, -⟩
          exact absurd ⟨hvalid, by omega⟩ hfresh

section Precedence

variable [TransCmp semver.cmpPrecedence]

/-- What is not older than a version is not older than a version that this one is not older than. -/
theorem isOlder_trans {first second third : Text} (h : isOlder semver first second = false)
    (h' : isOlder semver second third = false) : isOlder semver first third = false := by
  unfold isOlder at h h' ⊢
  cases hfirst : canonicalDeviceVersion semver first with
  | error failure => simp [hfirst] at h
  | ok first =>
      cases hsecond : canonicalDeviceVersion semver second with
      | error failure => simp [hfirst, hsecond] at h
      | ok second =>
          cases hthird : canonicalDeviceVersion semver third with
          | error failure => simp [hsecond, hthird] at h'
          | ok third =>
              simp only [hfirst, hsecond, hthird, ← Bool.not_eq_true, Ordering.isLT_iff_eq_lt,
                Ordering.ne_lt_iff_isGE] at h h' ⊢
              exact TransCmp.isGE_trans h h'

/-- The comparison, without the cases in which one of the conditions is switched off. -/
structure Restricts (semver : Semver) (new old : DeviceConditions) : Prop where
  platforms : old.platforms = ∅ ∨ (new.platforms ≠ ∅ ∧ new.platforms ⊆ old.platforms)
  capabilities : old.requiredCapabilities ⊆ new.requiredCapabilities
  credential : old.minimumCredentialSeconds ≤ new.minimumCredentialSeconds
  version : ∀ minimum ∈ old.minimumVersion, ∃ raised ∈ new.minimumVersion,
    isOlder semver raised minimum = false

theorem Passes.of_restricts (h : Restricts semver new old) (hpasses : Passes semver new evidence) :
    Passes semver old evidence where
  platform := by
    rcases h.platforms with hany | ⟨hsome, hsubset⟩
    · exact .inl hany
    · exact .inr (hsubset (hpasses.platform.resolve_left hsome))
  capabilities := h.capabilities.trans hpasses.capabilities
  version := by
    intro minimum hminimum
    obtain ⟨raised, hraised, hnotOlder⟩ := h.version minimum hminimum
    exact isOlder_trans (hpasses.version raised hraised) hnotOlder

end Precedence

theorem onlyRestricts_cases (h : onlyRestricts semver new old = true) :
    new = old ∨ old.enabled = false ∨
      (new.enabled = true ∧ new.scope = old.scope ∧ Restricts semver new old) := by
  unfold onlyRestricts at h
  split at h
  · next hsame => simpa [or_assoc] using Or.imp_right .inl (by simpa using hsame)
  · split at h
    · cases h
    · next henabled =>
        simp only [Bool.or_eq_true, Bool.not_eq_true', decide_eq_true_eq, not_or, not_not,
          Bool.not_eq_false] at henabled
        refine .inr (.inr ⟨henabled.1, henabled.2, ?_⟩)
        simp only [Bool.and_eq_true, Bool.or_eq_true, decide_eq_true_eq] at h
        refine ⟨h.1.1.1, h.1.1.2, h.1.2, fun minimum hminimum => ?_⟩
        rw [Option.mem_def.mp hminimum, Option.all_some, Option.any_eq_true] at h
        simpa using h.2

/-- No device gains access by a change that `only_restricts` accepts. -/
theorem grants_of_onlyRestricts (semver : Semver) [TransCmp semver.cmpPrecedence]
    (new old : DeviceConditions) (h : onlyRestricts semver new old = true) (device : Facts)
    (now time : Nat) (hgrants : new.grants semver device now time = true) :
    old.grants semver device now time = true := by
  rcases onlyRestricts_cases h with rfl | hdisabled | ⟨henabled, hscope, hrestricts⟩
  · exact hgrants
  · simp [grants, hdisabled]
  · simp only [grants, henabled, Bool.not_true, Bool.false_or] at hgrants
    rw [grants, Bool.or_eq_true]
    right
    rw [admission] at hgrants ⊢
    rw [← hscope]
    split at hgrants
    · next hselected =>
        rw [if_pos hselected]
        rw [evaluate_permits_iff] at hgrants ⊢
        obtain ⟨⟨found, hfound, hvalid, hpasses⟩, hevidence, hcredential⟩ := hgrants
        refine ⟨⟨found, hfound, hvalid, hpasses.of_restricts hrestricts⟩, hevidence, ?_⟩
        have := hrestricts.credential
        unfold credentialDeadline at hcredential ⊢
        omega
    · next hskipped => rw [if_neg hskipped]; rfl

/-- `"1.0.0"` and `"1.1.0"`. -/
def firstRelease : Text := ⟨[49, 46, 48, 46, 48], by decide +kernel⟩
def secondRelease : Text := ⟨[49, 46, 49, 46, 48], by decide +kernel⟩

/-- Precedence of versions without a prerelease part. -/
def precedence : Nat × Nat × Nat → Nat × Nat × Nat → Ordering :=
  compareLex (compareOn (·.1)) (compareLex (compareOn (·.2.1)) (compareOn (·.2.2)))

/-- The crate on these two versions. -/
def releases : Semver where
  Version := Nat × Nat × Nat
  parse text :=
    if text = firstRelease then some (1, 0, 0)
    else if text = secondRelease then some (1, 1, 0) else none
  toText version := if version.2.1 = 0 then firstRelease else secondRelease
  cmpPrecedence := precedence

instance : TransCmp precedence := inferInstanceAs (TransCmp (compareLex _ _))

instance : TransCmp releases.cmpPrecedence := inferInstanceAs (TransCmp precedence)

def requiring (minimum : Text) : DeviceConditions where
  enabled := true
  minimumVersion := some minimum

/-- A device that runs the second release. -/
def upToDate : Facts where
  peer := ⟨0x4000800000000000000a#128, Types.random_ten⟩
  addresses := []
  labels := ∅
  evidence := some { version := secondRelease, platform := .linux, capabilities := ∅ }
  evidenceUntil := 1000
  credentialUntil := 2000

theorem raised_minimum_keeps_upToDate :
    onlyRestricts releases (requiring secondRelease) (requiring firstRelease) = true ∧
      (requiring secondRelease).grants releases upToDate 100 200 = true ∧
      (requiring firstRelease).grants releases upToDate 100 200 = true := by
  have hrestricts :
      onlyRestricts releases (requiring secondRelease) (requiring firstRelease) = true := by
    decide +kernel
  have hgrants : (requiring secondRelease).grants releases upToDate 100 200 = true := by
    decide +kernel
  exact ⟨hrestricts, hgrants,
    grants_of_onlyRestricts releases _ _ hrestricts upToDate 100 200 hgrants⟩

end DeviceConditions

end Peerward.Management
