import Peerward.Policy.Evaluator

/-!
# The evaluator's tables

Five collections describe two tables: the flow states, indexed by deadline for reclamation and by
last use for eviction, and the audit throttle, indexed by the time of the last audit. `Consistent`
says that every index lists exactly the entries of its table and that neither table outgrows its
limit; every operation keeps it, whatever the clock does.
-/

namespace Peerward.IdentityPolicy

open Std Peerward.Lib Peerward.Net Peerward.Types

namespace Evaluator

/-! ## Runs -/

/-- One call on the evaluator. -/
inductive Op where
  | evaluate (packet : Packet) (now : Nat)
  | replacePolicy (policy : Policy)

/-- A policy that is not newer is refused and changes nothing. -/
def step (evaluator : Evaluator) : Op → Evaluator
  | .evaluate packet now => (evaluator.evaluate packet now).2
  | .replacePolicy policy =>
    match evaluator.replacePolicy policy with
    | .ok replaced => replaced
    | .error _ => evaluator

/-- The evaluator after a run of calls, oldest first. -/
def run (evaluator : Evaluator) (ops : List Op) : Evaluator := exec step evaluator ops

/-! ## Consistency

Two tables, each with an index, and a limit on either. The least recently used entry is the first of its
index.
-/

/-- The indexes list the entries of their tables, and the tables are within their limits. -/
structure Consistent (evaluator : Evaluator) : Prop where
  expirations : Indexed evaluator.states StateEntry.expiresAt evaluator.stateExpirations
  recency : Indexed evaluator.states StateEntry.touchedAt evaluator.stateRecency
  states_le : evaluator.states.size ≤ evaluator.maxStates
  denials : Indexed evaluator.denialAudits id evaluator.denialExpirations
  audits_le : evaluator.denialAudits.size ≤ evaluator.maxStates

theorem Consistent.new (meshId : MeshId) (policy : Policy)
    (maxStates expiryBudget denialInterval : Nat) :
    (new meshId policy maxStates expiryBudget denialInterval).Consistent :=
  ⟨Indexed.empty, Indexed.empty, by simp [Evaluator.new], Indexed.empty, by simp [Evaluator.new]⟩

/-! ### Flow states -/

section States

variable {evaluator : Evaluator}

theorem Consistent.removeState (h : evaluator.Consistent) (key : FlowKey) :
    (evaluator.removeState key).Consistent := by
  unfold Evaluator.removeState
  split
  · exact h
  · next entry hentry =>
    refine ⟨h.expirations.erase hentry, h.recency.erase hentry, ?_, h.denials, h.audits_le⟩
    exact ExtTreeMap.size_erase_le.trans h.states_le

theorem Consistent.expireLoop (h : evaluator.Consistent) (now budget : Nat) :
    (evaluator.expireLoop now budget).Consistent := by
  induction budget generalizing evaluator with
  | zero => exact h
  | succ budget ih =>
      unfold Evaluator.expireLoop
      split
      · exact h
      · split
        · exact h
        · exact ih (h.removeState _)

theorem Consistent.stateValid (h : evaluator.Consistent) (key : FlowKey) (now : Nat)
    (refresh : Bool) : (evaluator.stateValid key now refresh).2.Consistent := by
  unfold Evaluator.stateValid
  split
  · exact h
  · next entry hentry =>
    split
    · exact h.removeState key
    · split
      · refine ⟨h.expirations.insert_over _ hentry, h.recency.insert_over _ hentry, ?_, h.denials,
          h.audits_le⟩
        exact (size_insert_of_some hentry).le.trans h.states_le
      · exact h

theorem Consistent.anyValid (h : evaluator.Consistent) (now : Nat) (keys : List (FlowKey × Bool)) :
    (evaluator.anyValid now keys).2.Consistent := by
  induction keys generalizing evaluator with
  | nil => exact h
  | cons entry keys ih =>
      have hfirst := h.stateValid entry.1 now entry.2
      unfold Evaluator.anyValid
      split
      · next heq => rwa [heq] at hfirst
      · next heq =>
        rw [heq] at hfirst
        exact ih hfirst

theorem removeState_states (evaluator : Evaluator) (key : FlowKey) :
    (evaluator.removeState key).states = evaluator.states.erase key := by
  unfold removeState
  split
  · next hnone =>
    refine ExtTreeMap.ext_getElem? fun k => ?_
    rw [ExtTreeMap.getElem?_erase]
    split
    · next heq => rw [← LawfulEqOrd.eq_of_compare heq, hnone]
    · rfl
  · rfl

theorem removeState_maxStates (evaluator : Evaluator) (key : FlowKey) :
    (evaluator.removeState key).maxStates = evaluator.maxStates := by
  unfold removeState
  split <;> rfl

/-- A check that fails leaves no entry under the key it looked at. -/
theorem stateValid_absent {key : FlowKey} {now : Nat} {refresh : Bool}
    (h : (evaluator.stateValid key now refresh).1 = false) :
    (evaluator.stateValid key now refresh).2.states[key]? = none := by
  unfold stateValid at h ⊢
  split
  · next hnone => exact hnone
  · next entry hentry =>
    simp only [hentry] at h
    split at h
    · next hlate => simp [if_pos hlate, removeState_states]
    · split at h <;> cases h

theorem anyValid_absent {now : Nat} {keys : List (FlowKey × Bool)}
    (h : (evaluator.anyValid now keys).1 = false) :
    ∀ entry ∈ keys, (evaluator.anyValid now keys).2.states[entry.1]? = none := by
  induction keys generalizing evaluator with
  | nil => simp
  | cons first keys ih =>
      unfold anyValid at h ⊢
      split at h
      · cases h
      · next after heq =>
        have hfirst : (evaluator.stateValid first.1 now first.2).1 = false := by rw [heq]
        have habsent : after.states[first.1]? = none := by
          simpa [heq] using stateValid_absent hfirst
        refine List.forall_mem_cons.mpr ⟨?_, ih h⟩
        refine ExtTreeMap.getElem?_eq_none fun hmem => ?_
        obtain ⟨entry, hentry⟩ := mem_states_iff.mp ((anyValid_within after now keys).states hmem)
        rw [habsent] at hentry
        cases hentry

/-! ### Insertion -/

/-- The eviction of `insert_state`. -/
def makeRoom (evaluator : Evaluator) : Evaluator :=
  if evaluator.states.size ≥ evaluator.maxStates then
    match evaluator.stateRecency.first? with
    | some (_, oldest) => evaluator.removeState oldest
    | none => evaluator
  else evaluator

/-- The entry of a flow that is allowed now. -/
def entryAt (flow : FlowKey) (now : Nat) : StateEntry :=
  { expiresAt := saturatingAdd now (flowLifetime flow.protocol), touchedAt := now }

/-- The insertions of `insert_state`. -/
def record (evaluator : Evaluator) (flow : FlowKey) (now : Nat) : Evaluator :=
  { evaluator with
    states := evaluator.states.insert flow (entryAt flow now)
    stateExpirations := evaluator.stateExpirations.insert ((entryAt flow now).expiresAt, flow)
    stateRecency := evaluator.stateRecency.insert (now, flow) }

theorem insertState_eq (evaluator : Evaluator) (flow : FlowKey) (now : Nat) :
    evaluator.insertState flow now =
      if evaluator.maxStates = 0 then evaluator else evaluator.makeRoom.record flow now := rfl

/-- `key` is the least recently used key, the smallest one among those last used together. -/
def Oldest (evaluator : Evaluator) (key : FlowKey) : Prop :=
  ∃ entry, evaluator.states[key]? = some entry ∧ ∀ other entry',
    evaluator.states[other]? = some entry' →
      (byDeadline (entry.touchedAt, key) (entry'.touchedAt, other)).isLE

/-- **Eviction.** A full table gives up its oldest entry and no other. -/
theorem Consistent.makeRoom_full (h : evaluator.Consistent)
    (hfull : evaluator.maxStates ≤ evaluator.states.size) (hpos : 0 < evaluator.maxStates) :
    ∃ oldest, evaluator.Oldest oldest ∧ evaluator.makeRoom = evaluator.removeState oldest := by
  obtain ⟨⟨touched, oldest⟩, hfirst⟩ := h.recency.exists_first? (by omega)
  obtain ⟨entry, hentry, rfl⟩ := h.recency.first? hfirst
  refine ⟨oldest, ⟨entry, hentry, fun other entry' hother => ?_⟩, ?_⟩
  · exact Deadlines.first?_isLE hfirst ((h.recency _ _).mpr ⟨entry', hother, rfl⟩)
  · simp [makeRoom, hfull, hfirst]

theorem makeRoom_room (hroom : evaluator.states.size < evaluator.maxStates) :
    evaluator.makeRoom = evaluator := by
  simp [makeRoom, hroom]

theorem makeRoom_maxStates (evaluator : Evaluator) :
    evaluator.makeRoom.maxStates = evaluator.maxStates := by
  unfold makeRoom
  split
  · split
    · exact removeState_maxStates _ _
    · rfl
  · rfl

theorem Consistent.makeRoom (h : evaluator.Consistent) : evaluator.makeRoom.Consistent := by
  unfold Evaluator.makeRoom
  split
  · split
    · exact h.removeState _
    · exact h
  · exact h

/-- After an eviction there is room for one more. -/
theorem Consistent.makeRoom_lt (h : evaluator.Consistent) (hpos : 0 < evaluator.maxStates) :
    evaluator.makeRoom.states.size < evaluator.maxStates := by
  rcases Nat.lt_or_ge evaluator.states.size evaluator.maxStates with hroom | hfull
  · rwa [makeRoom_room hroom]
  · obtain ⟨oldest, ⟨entry, hentry, -⟩, heq⟩ := h.makeRoom_full hfull hpos
    have herase := size_erase_of_some hentry
    have hle := h.states_le
    rw [heq, removeState_states]
    omega

theorem Consistent.record {flow : FlowKey} (h : evaluator.Consistent)
    (habsent : evaluator.states[flow]? = none) (hroom : evaluator.states.size < evaluator.maxStates)
    (now : Nat) : (evaluator.record flow now).Consistent := by
  refine ⟨h.expirations.insert_fresh _ habsent, h.recency.insert_fresh _ habsent, ?_, h.denials,
    h.audits_le⟩
  show (evaluator.states.insert flow _).size ≤ evaluator.maxStates
  rw [size_insert_of_none habsent]
  exact hroom

theorem makeRoom_pruned (evaluator : Evaluator) : Pruned evaluator.makeRoom evaluator := by
  unfold makeRoom
  split
  · split
    · exact removeState_pruned _ _
    · exact .refl _
  · exact .refl _

theorem Consistent.insertState {flow : FlowKey} (h : evaluator.Consistent)
    (habsent : evaluator.states[flow]? = none) (now : Nat) :
    (evaluator.insertState flow now).Consistent := by
  rw [insertState_eq]
  split
  · exact h
  · next hzero =>
    refine h.makeRoom.record ?_ ?_ now
    · cases hmem : evaluator.makeRoom.states[flow]? with
      | none => rfl
      | some entry =>
          rw [(makeRoom_pruned evaluator).states hmem] at habsent
          cases habsent
    · rw [makeRoom_maxStates]
      exact h.makeRoom_lt (by omega)

end States

/-! ### The audit throttle -/

section Audits

variable {evaluator : Evaluator}

theorem Consistent.reclaimAudits (h : evaluator.Consistent) (now budget : Nat) :
    (evaluator.reclaimAudits now budget).Consistent := by
  induction budget generalizing evaluator with
  | zero => exact h
  | succ budget ih =>
      unfold Evaluator.reclaimAudits
      split
      · exact h
      · next last key hfirst =>
        split
        · exact h
        · obtain ⟨audit, haudit, rfl⟩ := h.denials.first? hfirst
          refine ih ⟨h.expirations, h.recency, h.states_le, h.denials.erase haudit, ?_⟩
          exact ExtTreeMap.size_erase_le.trans h.audits_le

/-- The throttle as `admit_denial_audit` reads it: after the reclamation. -/
def reclaimed (evaluator : Evaluator) (now : Nat) : Evaluator :=
  evaluator.reclaimAudits now (max evaluator.expiryBudget 1)

/-- The recording of an audit, which takes the place of an earlier one of the same flow. -/
def audited (evaluator : Evaluator) (flow : FlowKey) (now : Nat) : Evaluator :=
  { evaluator with
    denialAudits := evaluator.denialAudits.insert flow now
    denialExpirations :=
      (match evaluator.denialAudits[flow]? with
      | some last => evaluator.denialExpirations.erase (last, flow)
      | none => evaluator.denialExpirations).insert (now, flow) }

/-- **What `admit_denial_audit` does.** Without an interval it emits and remembers nothing; otherwise
it emits and records, or is silent because the flow is still throttled or the table is full. -/
theorem admitDenialAudit_cases (evaluator : Evaluator) (flow : FlowKey) (now : Nat) :
    (evaluator.denialInterval = 0 ∧ evaluator.admitDenialAudit flow now = (true, evaluator)) ∨
      (evaluator.denialInterval ≠ 0 ∧
        (evaluator.reclaimed now).denialAudits[flow]?.all
          (fun last => (evaluator.reclaimed now).denialInterval ≤ now - last) = true ∧
        ((evaluator.reclaimed now).denialAudits[flow]? = none →
          (evaluator.reclaimed now).denialAudits.size < (evaluator.reclaimed now).maxStates) ∧
        evaluator.admitDenialAudit flow now = (true, (evaluator.reclaimed now).audited flow now)) ∨
      (evaluator.denialInterval ≠ 0 ∧
        evaluator.admitDenialAudit flow now = (false, evaluator.reclaimed now)) := by
  unfold admitDenialAudit
  split
  · next hzero => exact .inl ⟨hzero, rfl⟩
  · next hzero =>
    simp only
    rw [show evaluator.reclaimAudits now (max evaluator.expiryBudget 1) = evaluator.reclaimed now
      from rfl]
    cases haudit : (evaluator.reclaimed now).denialAudits[flow]? with
    | some last =>
        simp only
        split
        · exact .inr (.inr ⟨hzero, rfl⟩)
        · next hlate =>
          exact .inr (.inl ⟨hzero, by simpa using hlate, nofun, by simp [audited, haudit]⟩)
    | none =>
        simp only
        split
        · exact .inr (.inr ⟨hzero, rfl⟩)
        · next hroom =>
          exact .inr (.inl ⟨hzero, rfl, fun _ => by omega, by simp [audited, haudit]⟩)

theorem Consistent.admitDenialAudit (h : evaluator.Consistent) (flow : FlowKey) (now : Nat) :
    (evaluator.admitDenialAudit flow now).2.Consistent := by
  have hreclaimed : (evaluator.reclaimed now).Consistent := h.reclaimAudits now _
  rcases evaluator.admitDenialAudit_cases flow now with ⟨-, heq⟩ | ⟨-, -, hroom, heq⟩ | ⟨-, heq⟩
  · rwa [heq]
  · rw [heq]
    refine ⟨hreclaimed.expirations, hreclaimed.recency, hreclaimed.states_le, ?_, ?_⟩
    · unfold audited
      cases haudit : (evaluator.reclaimed now).denialAudits[flow]? with
      | some last => exact hreclaimed.denials.insert_over now haudit
      | none => exact hreclaimed.denials.insert_fresh now haudit
    · show ((evaluator.reclaimed now).denialAudits.insert flow now).size ≤ _
      cases haudit : (evaluator.reclaimed now).denialAudits[flow]? with
      | some last => exact (size_insert_of_some haudit).le.trans hreclaimed.audits_le
      | none => exact (size_insert_of_none haudit).le.trans (hroom haudit)
  · rwa [heq]

theorem Consistent.denial (h : evaluator.Consistent) (flow : FlowKey) (ruleId : Option RuleId)
    (now : Nat) : (evaluator.denial flow ruleId now).2.Consistent :=
  h.admitDenialAudit flow now

end Audits

/-! ## Settings -/

/-- What no operation changes. -/
structure Settings where
  meshId : MeshId
  maxStates : Nat
  expiryBudget : Nat
  denialInterval : Nat

def settings (evaluator : Evaluator) : Settings :=
  ⟨evaluator.meshId, evaluator.maxStates, evaluator.expiryBudget, evaluator.denialInterval⟩

section Settings

variable (evaluator : Evaluator)

@[simp] theorem removeState_settings (key : FlowKey) :
    (evaluator.removeState key).settings = evaluator.settings := by
  unfold removeState
  split <;> rfl

@[simp] theorem expireLoop_settings (now budget : Nat) :
    (evaluator.expireLoop now budget).settings = evaluator.settings := by
  induction budget generalizing evaluator with
  | zero => rfl
  | succ budget ih =>
      unfold expireLoop
      split
      · rfl
      · split
        · rfl
        · rw [ih, removeState_settings]

@[simp] theorem stateValid_settings (key : FlowKey) (now : Nat) (refresh : Bool) :
    (evaluator.stateValid key now refresh).2.settings = evaluator.settings := by
  unfold stateValid
  split
  · rfl
  · split
    · exact removeState_settings _ _
    · split <;> rfl

@[simp] theorem anyValid_settings (now : Nat) (keys : List (FlowKey × Bool)) :
    (evaluator.anyValid now keys).2.settings = evaluator.settings := by
  induction keys generalizing evaluator with
  | nil => rfl
  | cons entry keys ih =>
      have hfirst := evaluator.stateValid_settings entry.1 now entry.2
      unfold anyValid
      split
      · next heq => rwa [heq] at hfirst
      · next heq =>
        rw [heq] at hfirst
        exact (ih _).trans hfirst

@[simp] theorem insertState_settings (flow : FlowKey) (now : Nat) :
    (evaluator.insertState flow now).settings = evaluator.settings := by
  rw [insertState_eq]
  split
  · rfl
  · show evaluator.makeRoom.settings = evaluator.settings
    unfold makeRoom
    split
    · split
      · exact removeState_settings _ _
      · rfl
    · rfl

@[simp] theorem reclaimAudits_settings (now budget : Nat) :
    (evaluator.reclaimAudits now budget).settings = evaluator.settings := by
  induction budget generalizing evaluator with
  | zero => rfl
  | succ budget ih =>
      unfold reclaimAudits
      split
      · rfl
      · split
        · rfl
        · rw [ih]
          rfl

@[simp] theorem denial_settings (flow : FlowKey) (ruleId : Option RuleId) (now : Nat) :
    (evaluator.denial flow ruleId now).2.settings = evaluator.settings := by
  show (evaluator.admitDenialAudit flow now).2.settings = evaluator.settings
  rcases evaluator.admitDenialAudit_cases flow now with ⟨-, heq⟩ | ⟨-, -, -, heq⟩ | ⟨-, heq⟩
  · rw [heq]
  · rw [heq]
    exact reclaimAudits_settings _ _ _
  · rw [heq]
    exact reclaimAudits_settings _ _ _

end Settings

/-! ## One evaluation

`Evaluates` lists the exits of `evaluate` with the tables at each of them: a sweep, the checks of state,
and what a decision by the policy leaves.
-/

/-- The state checks of an evaluation, after its sweep. -/
def checked (evaluator : Evaluator) (packet : Packet) (now : Nat) : Bool × Evaluator :=
  (evaluator.expireSome now).anyValid now (stateKeys packet)

/-- The decision of a packet that state or policy lets through. -/
def passes (evaluator : Evaluator) (ruleId : Option RuleId) : Decision where
  action := .allow
  ruleId := ruleId
  emitDenialAudit := false
  revision := evaluator.policy.revision

/-- The exits of `evaluate`. -/
inductive Evaluates (evaluator : Evaluator) (packet : Packet) (now : Nat) :
    Decision × Evaluator → Prop
  | foreign (mesh : packet.meshId ≠ evaluator.meshId) :
      Evaluates evaluator packet now ((evaluator.expireSome now).denial packet.flow none now)
  | passed (mesh : packet.meshId = evaluator.meshId) (valid : (evaluator.checked packet now).1 = true) :
      Evaluates evaluator packet now
        ((evaluator.checked packet now).2.passes none, (evaluator.checked packet now).2)
  | barred (mesh : packet.meshId = evaluator.meshId)
      (invalid : (evaluator.checked packet now).1 = false)
      (bar : packet.fragmentOf.isSome ∨ packet.relatedFlow.isSome ∨ packet.initiating = false) :
      Evaluates evaluator packet now ((evaluator.checked packet now).2.denial packet.flow none now)
  | opened (mesh : packet.meshId = evaluator.meshId)
      (invalid : (evaluator.checked packet now).1 = false)
      (initiates : Initiates evaluator.policy packet) :
      Evaluates evaluator packet now
        ((evaluator.checked packet now).2.passes (evaluator.policy.decide packet).ruleId,
          (evaluator.checked packet now).2.insertState packet.flow now)
  | refused (mesh : packet.meshId = evaluator.meshId)
      (invalid : (evaluator.checked packet now).1 = false)
      (deny : (evaluator.policy.decide packet).action ≠ .allow) :
      Evaluates evaluator packet now ((evaluator.checked packet now).2.denial packet.flow
        (evaluator.policy.decide packet).ruleId now)

theorem checked_policy (evaluator : Evaluator) (packet : Packet) (now : Nat) :
    (evaluator.checked packet now).2.policy = evaluator.policy :=
  ((anyValid_within _ _ _).trans (expireLoop_pruned _ _ _).within).policy

theorem evaluates (evaluator : Evaluator) (packet : Packet) (now : Nat) :
    Evaluates evaluator packet now (evaluator.evaluate packet now) := by
  have hpolicy := evaluator.checked_policy packet now
  have hvalid : (evaluator.expireSome now).anyValid now (stateKeys packet) =
      evaluator.checked packet now := rfl
  unfold evaluate
  simp only [show (evaluator.expireSome now).meshId = evaluator.meshId from
    congrArg Settings.meshId (expireLoop_settings _ _ _), hvalid]
  split
  · next hmesh => exact .foreign hmesh
  · next hmesh =>
    replace hmesh : packet.meshId = evaluator.meshId := by simpa using hmesh
    split
    · next after heq =>
      have hpassed : Evaluates evaluator packet now _ := .passed hmesh (by rw [heq])
      rwa [heq] at hpassed
    · next after heq =>
      have hinvalid : (evaluator.checked packet now).1 = false := by rw [heq]
      rw [heq] at hpolicy
      split
      · next hbar =>
        have hbarred : Evaluates evaluator packet now _ :=
          .barred hmesh hinvalid (by simpa [or_assoc] using hbar)
        rwa [heq] at hbarred
      · next hbar =>
        simp only [Bool.or_eq_true, Bool.not_eq_true', not_or, Bool.not_eq_true,
          Option.isSome_eq_false_iff, Option.isNone_iff_eq_none, Bool.not_eq_false] at hbar
        simp only [show after.policy = evaluator.policy from hpolicy]
        split
        · next hallow =>
          have hopened : Evaluates evaluator packet now _ :=
            .opened hmesh hinvalid ⟨hbar.1.1, hbar.1.2, hbar.2, hallow⟩
          rw [heq] at hopened
          simpa [passes, show after.policy = evaluator.policy from hpolicy] using hopened
        · next hdeny =>
          have hrefused : Evaluates evaluator packet now _ := .refused hmesh hinvalid hdeny
          rwa [heq] at hrefused

theorem Consistent.expireSome {evaluator : Evaluator} (h : evaluator.Consistent) (now : Nat) :
    (evaluator.expireSome now).Consistent := h.expireLoop now _

theorem Consistent.checked {evaluator : Evaluator} (h : evaluator.Consistent) (packet : Packet)
    (now : Nat) : (evaluator.checked packet now).2.Consistent := (h.expireSome now).anyValid now _

/-- The flow of a packet that opens an entry has none. -/
theorem checked_absent {evaluator : Evaluator} {packet : Packet} {now : Nat}
    (invalid : (evaluator.checked packet now).1 = false) (whole : packet.fragmentOf = none) :
    (evaluator.checked packet now).2.states[packet.flow]? = none :=
  anyValid_absent invalid (packet.flow, packet.relatedFlow.isNone) (by simp [stateKeys, whole])

theorem Consistent.evaluate {evaluator : Evaluator} (h : evaluator.Consistent) (packet : Packet)
    (now : Nat) : (evaluator.evaluate packet now).2.Consistent := by
  have hcases := evaluator.evaluates packet now
  generalize evaluator.evaluate packet now = result at hcases ⊢
  cases hcases with
  | foreign => exact (h.expireSome now).denial _ _ _
  | passed => exact h.checked packet now
  | barred => exact (h.checked packet now).denial _ _ _
  | opened _ invalid initiates =>
      exact (h.checked packet now).insertState (checked_absent invalid initiates.fragmentOf) now
  | refused => exact (h.checked packet now).denial _ _ _

/-- The evaluator with empty tables. -/
def cleared (evaluator : Evaluator) (policy : Policy) : Evaluator :=
  { evaluator with
    policy := policy
    states := ∅
    stateExpirations := ∅
    stateRecency := ∅
    denialAudits := ∅
    denialExpirations := ∅ }

theorem replacePolicy_cases (evaluator : Evaluator) (policy : Policy) :
    evaluator.step (.replacePolicy policy) = evaluator ∨
      evaluator.step (.replacePolicy policy) = evaluator.cleared policy := by
  by_cases hold : policy.revision ≤ evaluator.policy.revision
  · exact .inl (by simp [step, replacePolicy, hold])
  · exact .inr (by simp [step, replacePolicy, hold, cleared])

theorem Consistent.step {evaluator : Evaluator} (h : evaluator.Consistent) (op : Op) :
    (evaluator.step op).Consistent := by
  cases op with
  | evaluate packet now => exact h.evaluate packet now
  | replacePolicy policy =>
      rcases evaluator.replacePolicy_cases policy with heq | heq
      · rw [heq]
        exact h
      · rw [heq]
        exact ⟨Indexed.empty, Indexed.empty, by simp [cleared], Indexed.empty, by simp [cleared]⟩

theorem Consistent.run {evaluator : Evaluator} (h : evaluator.Consistent) (ops : List Op) :
    (evaluator.run ops).Consistent :=
  exec_invariant h (fun _ op h => h.step op) ops

section Runs

variable (evaluator : Evaluator)

theorem step_settings (op : Op) : (evaluator.step op).settings = evaluator.settings := by
  cases op with
  | evaluate packet now =>
      show (evaluator.evaluate packet now).2.settings = _
      have hcases := evaluator.evaluates packet now
      generalize evaluator.evaluate packet now = result at hcases ⊢
      cases hcases <;> simp [expireSome, checked]
  | replacePolicy policy =>
      rcases evaluator.replacePolicy_cases policy with heq | heq <;> rw [heq]
      rfl

theorem run_settings (ops : List Op) : (evaluator.run ops).settings = evaluator.settings :=
  exec_invariant (I := fun later => later.settings = evaluator.settings) rfl
    (fun later op h => (step_settings later op).trans h) ops

end Runs

/-! ## What an insertion finds and leaves

An insertion finds the table after the sweep and the checks. It evicts when the table is full, and then the
oldest entry only.
-/

/-- Reclamation never drops an entry that is still alive. -/
theorem Consistent.expireLoop_live {evaluator : Evaluator} (h : evaluator.Consistent) {now : Nat}
    (budget : Nat) {key : FlowKey} {entry : StateEntry} (hentry : evaluator.states[key]? = some entry)
    (hlive : now < entry.expiresAt) :
    (evaluator.expireLoop now budget).states[key]? = some entry := by
  induction budget generalizing evaluator with
  | zero => exact hentry
  | succ budget ih =>
      unfold Evaluator.expireLoop
      split
      · exact hentry
      · next due first hfirst =>
        split
        · exact hentry
        · next hdue =>
          obtain ⟨other, hother, rfl⟩ := h.expirations.first? hfirst
          refine ih (h.removeState first) ?_
          rw [removeState_states, ExtTreeMap.getElem?_erase, if_neg, hentry]
          intro heq
          rw [LawfulEqOrd.eq_of_compare heq, hentry] at hother
          cases hother
          omega

/-- Nor does a check that fails. -/
theorem stateValid_live_kept {evaluator : Evaluator} {first key : FlowKey} {now : Nat}
    {refresh : Bool} (h : (evaluator.stateValid first now refresh).1 = false) {entry : StateEntry}
    (hentry : evaluator.states[key]? = some entry) (hlive : now < entry.expiresAt) :
    (evaluator.stateValid first now refresh).2.states[key]? = some entry := by
  unfold stateValid at h ⊢
  split
  · exact hentry
  · next other hother =>
    simp only [hother] at h
    split at h
    · next hlate =>
      rw [if_pos hlate, removeState_states, ExtTreeMap.getElem?_erase, if_neg, hentry]
      intro heq
      rw [LawfulEqOrd.eq_of_compare heq, hentry] at hother
      cases hother
      omega
    · split at h <;> cases h

theorem anyValid_live_kept {evaluator : Evaluator} {key : FlowKey} {now : Nat}
    {keys : List (FlowKey × Bool)} (h : (evaluator.anyValid now keys).1 = false) {entry : StateEntry}
    (hentry : evaluator.states[key]? = some entry) (hlive : now < entry.expiresAt) :
    (evaluator.anyValid now keys).2.states[key]? = some entry := by
  induction keys generalizing evaluator with
  | nil => exact hentry
  | cons first keys ih =>
      unfold anyValid at h ⊢
      split at h
      · cases h
      · next after heq =>
        have hfirst : (evaluator.stateValid first.1 now first.2).1 = false := by rw [heq]
        have hkept := stateValid_live_kept hfirst hentry hlive
        rw [heq] at hkept
        exact ih h hkept

theorem anyValid_pruned {evaluator : Evaluator} {now : Nat} {keys : List (FlowKey × Bool)}
    (h : (evaluator.anyValid now keys).1 = false) :
    Pruned (evaluator.anyValid now keys).2 evaluator := by
  induction keys generalizing evaluator with
  | nil => exact .refl _
  | cons first keys ih =>
      unfold anyValid at h ⊢
      split at h
      · cases h
      · next after heq =>
        have hfirst : Pruned (evaluator.stateValid first.1 now first.2).2 evaluator :=
          stateValid_pruned (by rw [heq])
        rw [heq] at hfirst
        exact (ih h).trans hfirst

/-- A packet that only the policy can let through. -/
structure Opens (evaluator : Evaluator) (packet : Packet) (now : Nat) : Prop where
  mesh : packet.meshId = evaluator.meshId
  unknown : (evaluator.checked packet now).1 = false
  initiates : Initiates evaluator.policy packet

/-- What such a packet does to the flow states. `checked` is the table it finds: that of the
evaluator, less entries that have expired. -/
structure Inserts (evaluator : Evaluator) (packet : Packet) (now : Nat) : Prop where
  found : ∀ {key : FlowKey} {entry : StateEntry}, (evaluator.checked packet now).2.states[key]? = some entry →
    evaluator.states[key]? = some entry
  kept : ∀ {key : FlowKey} {entry : StateEntry}, evaluator.states[key]? = some entry → now < entry.expiresAt →
    (evaluator.checked packet now).2.states[key]? = some entry
  absent : (evaluator.checked packet now).2.states[packet.flow]? = none
  disabled : evaluator.maxStates = 0 →
    (evaluator.evaluate packet now).2.states = (evaluator.checked packet now).2.states
  room : (evaluator.checked packet now).2.states.size < evaluator.maxStates →
    (evaluator.evaluate packet now).2.states =
      (evaluator.checked packet now).2.states.insert packet.flow (entryAt packet.flow now)
  full : 0 < evaluator.maxStates →
    (evaluator.checked packet now).2.states.size = evaluator.maxStates →
    ∃ oldest, (evaluator.checked packet now).2.Oldest oldest ∧
      (evaluator.evaluate packet now).2.states =
        ((evaluator.checked packet now).2.states.erase oldest).insert packet.flow
          (entryAt packet.flow now)

theorem Opens.evaluate {evaluator : Evaluator} {packet : Packet} {now : Nat}
    (h : evaluator.Opens packet now) : (evaluator.evaluate packet now).2 =
      (evaluator.checked packet now).2.insertState packet.flow now := by
  have hcases := evaluator.evaluates packet now
  generalize evaluator.evaluate packet now = result at hcases ⊢
  cases hcases with
  | foreign mesh => exact absurd h.mesh mesh
  | passed _ valid =>
      rw [h.unknown] at valid
      cases valid
  | barred _ _ bar => simp [h.initiates.fragmentOf, h.initiates.relatedFlow,
      h.initiates.initiating] at bar
  | opened => rfl
  | refused _ _ deny => exact absurd h.initiates.allowed deny

theorem checked_settings (evaluator : Evaluator) (packet : Packet) (now : Nat) :
    (evaluator.checked packet now).2.settings = evaluator.settings := by
  simp [checked, expireSome]

theorem Consistent.inserts {evaluator : Evaluator} (h : evaluator.Consistent) {packet : Packet}
    {now : Nat} (hopens : evaluator.Opens packet now) : evaluator.Inserts packet now := by
  have hchecked := h.checked packet now
  have hmax : (evaluator.checked packet now).2.maxStates = evaluator.maxStates :=
    congrArg Settings.maxStates (evaluator.checked_settings packet now)
  refine ⟨?_, ?_, checked_absent hopens.unknown hopens.initiates.fragmentOf, ?_, ?_, ?_⟩
  · intro key entry hentry
    exact ((anyValid_pruned hopens.unknown).trans (expireLoop_pruned _ _ _)).states hentry
  · intro key entry hentry hlive
    exact anyValid_live_kept hopens.unknown (h.expireLoop_live _ hentry hlive) hlive
  · intro hzero
    rw [hopens.evaluate, insertState_eq, if_pos (hmax.trans hzero)]
  · intro hroom
    rw [hopens.evaluate, insertState_eq, if_neg (by omega), makeRoom_room (by omega)]
    rfl
  · intro hpos hfull
    obtain ⟨oldest, holdest, heq⟩ := hchecked.makeRoom_full (by omega) (by omega)
    refine ⟨oldest, holdest, ?_⟩
    rw [hopens.evaluate, insertState_eq, if_neg (by omega), heq]
    show (((evaluator.checked packet now).2.removeState oldest).states.insert _ _) = _
    rw [removeState_states]

/-- **The tables are consistent, bounded and exact** after every run, whatever the packets, the
policies and the clock: the indexes list exactly the entries, neither table outgrows its limit, a
packet is allowed by the policy or by an entry that has not expired, and an insertion into a full
table takes the place of the oldest entry alone. -/
theorem run_tables (meshId : MeshId) (policy : Policy)
    (maxStates expiryBudget denialInterval : Nat) (ops : List Op) :
    let evaluator := (new meshId policy maxStates expiryBudget denialInterval).run ops
    evaluator.Consistent ∧ evaluator.maxStates = maxStates ∧
      ∀ packet now,
        ((evaluator.evaluate packet now).1.action = .allow →
          (∃ entry ∈ stateKeys packet, evaluator.live entry.1 now = true) ∨
            evaluator.Opens packet now) ∧
        (evaluator.Opens packet now → evaluator.Inserts packet now) := by
  intro evaluator
  have hconsistent : evaluator.Consistent := (Consistent.new _ _ _ _ _).run ops
  refine ⟨hconsistent, congrArg Settings.maxStates (run_settings _ ops), fun packet now => ?_⟩
  refine ⟨fun hallow => ?_, hconsistent.inserts⟩
  have hcases := evaluator.evaluates packet now
  generalize evaluator.evaluate packet now = result at hcases hallow
  cases hcases with
  | foreign => cases hallow
  | passed _ valid =>
      obtain ⟨entry, hentry, hlive⟩ := anyValid_live valid
      exact .inl ⟨entry, hentry, (expireLoop_pruned _ _ _).live hlive⟩
  | barred => cases hallow
  | opened mesh invalid initiates => exact .inr ⟨mesh, invalid, initiates⟩
  | refused => cases hallow

end Evaluator

end Peerward.IdentityPolicy
