import Peerward.Lib.Run
import Peerward.Policy.Document

/-!
# The stateful policy evaluator

`Evaluator` remembers the flows its policy allowed. The table is bounded: it has an index by
deadline for reclamation and one by recency for eviction. A second table throttles denial audits.

Whatever the tables do, a packet is only ever let through by the policy itself or by an entry for
one of its keys, and entries are only ever made for packets the policy allowed (`evaluate_cases`).
-/

namespace Peerward.IdentityPolicy

open Std Peerward.Lib Peerward.Net Peerward.Types

/-- Packet metadata required for an enforcement decision. -/
structure Packet where
  /-- Mesh carried by the authenticated session. -/
  meshId : MeshId
  source : PeerDescriptor
  destination : PeerDescriptor
  flow : FlowKey
  /-- Whether this packet may initiate state. -/
  initiating : Bool
  /-- Original initiating flow for an ICMP error. -/
  relatedFlow : Option FlowKey
  /-- First-fragment flow tuple for a later IP fragment. -/
  fragmentOf : Option FlowKey

/-- Observable enforcement result without packet contents. -/
structure Decision where
  action : Action
  ruleId : Option RuleId
  emitDenialAudit : Bool
  revision : Nat
  deriving DecidableEq

structure StateEntry where
  expiresAt : Nat
  touchedAt : Nat
  deriving DecidableEq

/-- Stateful evaluator with fixed memory and bounded expiry work. -/
structure Evaluator where
  meshId : MeshId
  policy : Policy
  states : ExtTreeMap FlowKey StateEntry := ∅
  stateExpirations : Deadlines FlowKey := ∅
  stateRecency : Deadlines FlowKey := ∅
  denialAudits : ExtTreeMap FlowKey Nat := ∅
  denialExpirations : Deadlines FlowKey := ∅
  maxStates : Nat
  expiryBudget : Nat
  denialInterval : Nat

/-- Idle lifetimes, not maximum durations for an authorized connection. -/
def flowLifetime (protocol : UInt8) : Nat :=
  if protocol = TCP then 300 else if protocol = UDP then 60 else 30

/-- `Policy::decide`. -/
def Policy.decide (policy : Policy) (packet : Packet) : PolicyDecision :=
  policy.decideInitiation packet.source packet.destination packet.flow.protocol
    packet.flow.destinationPort

namespace Evaluator

def new (meshId : MeshId) (policy : Policy) (maxStates expiryBudget denialInterval : Nat) :
    Evaluator := { meshId, policy, maxStates, expiryBudget, denialInterval }

/-- Replaces policy state and invalidates all flow state. -/
def replacePolicy (evaluator : Evaluator) (policy : Policy) : Except PolicyError Evaluator :=
  if policy.revision ≤ evaluator.policy.revision then .error .revisionRollback
  else .ok
    { evaluator with
      policy := policy
      states := ∅
      stateExpirations := ∅
      stateRecency := ∅
      denialAudits := ∅
      denialExpirations := ∅ }

def removeState (evaluator : Evaluator) (key : FlowKey) : Evaluator :=
  match evaluator.states[key]? with
  | none => evaluator
  | some entry =>
    { evaluator with
      states := evaluator.states.erase key
      stateExpirations := evaluator.stateExpirations.erase (entry.expiresAt, key)
      stateRecency := evaluator.stateRecency.erase (entry.touchedAt, key) }

/-- The loop of `expire_some`: at most `budget` overdue entries. -/
def expireLoop (evaluator : Evaluator) (now : Nat) : (budget : Nat) → Evaluator
  | 0 => evaluator
  | budget + 1 =>
    match evaluator.stateExpirations.first? with
    | none => evaluator
    | some (expiresAt, key) =>
      if expiresAt > now then evaluator else expireLoop (evaluator.removeState key) now budget

def expireSome (evaluator : Evaluator) (now : Nat) : Evaluator :=
  evaluator.expireLoop now evaluator.expiryBudget

def stateValid (evaluator : Evaluator) (key : FlowKey) (now : Nat) (refresh : Bool) :
    Bool × Evaluator :=
  match evaluator.states[key]? with
  | none => (false, evaluator)
  | some entry =>
    if entry.expiresAt ≤ now then (false, evaluator.removeState key)
    else if refresh && now > entry.touchedAt then
      let entry' : StateEntry :=
        { expiresAt := saturatingAdd now (flowLifetime key.protocol), touchedAt := now }
      (true,
        { evaluator with
          states := evaluator.states.insert key entry'
          stateExpirations := (evaluator.stateExpirations.erase (entry.expiresAt, key)).insert
            (entry'.expiresAt, key)
          stateRecency := (evaluator.stateRecency.erase (entry.touchedAt, key)).insert
            (entry'.touchedAt, key) })
    else (true, evaluator)

def insertState (evaluator : Evaluator) (flow : FlowKey) (now : Nat) : Evaluator :=
  if evaluator.maxStates = 0 then evaluator
  else
    let evaluator :=
      if evaluator.states.size ≥ evaluator.maxStates then
        match evaluator.stateRecency.first? with
        | some (_, oldest) => evaluator.removeState oldest
        | none => evaluator
      else evaluator
    let expiresAt := saturatingAdd now (flowLifetime flow.protocol)
    { evaluator with
      states := evaluator.states.insert flow { expiresAt, touchedAt := now }
      stateExpirations := evaluator.stateExpirations.insert (expiresAt, flow)
      stateRecency := evaluator.stateRecency.insert (now, flow) }

/-- The reclamation loop of `admit_denial_audit`. -/
def reclaimAudits (evaluator : Evaluator) (now : Nat) : (budget : Nat) → Evaluator
  | 0 => evaluator
  | budget + 1 =>
    match evaluator.denialExpirations.first? with
    | none => evaluator
    | some (last, key) =>
      if now - last < evaluator.denialInterval then evaluator
      else reclaimAudits
        { evaluator with
          denialExpirations := evaluator.denialExpirations.erase (last, key)
          denialAudits := evaluator.denialAudits.erase key } now budget

/-- Live throttle entries are never evicted: rotating flow tuples must not bypass the rate limit. -/
def admitDenialAudit (evaluator : Evaluator) (flow : FlowKey) (now : Nat) : Bool × Evaluator :=
  if evaluator.denialInterval = 0 then (true, evaluator)
  else
    let evaluator := evaluator.reclaimAudits now (max evaluator.expiryBudget 1)
    let record (evaluator : Evaluator) : Bool × Evaluator :=
      (true,
        { evaluator with
          denialAudits := evaluator.denialAudits.insert flow now
          denialExpirations := evaluator.denialExpirations.insert (now, flow) })
    match evaluator.denialAudits[flow]? with
    | some last =>
      if now - last < evaluator.denialInterval then (false, evaluator)
      else record
        { evaluator with denialExpirations := evaluator.denialExpirations.erase (last, flow) }
    | none => if evaluator.denialAudits.size ≥ evaluator.maxStates then (false, evaluator)
      else record evaluator

def denial (evaluator : Evaluator) (flow : FlowKey) (ruleId : Option RuleId) (now : Nat) :
    Decision × Evaluator :=
  let (emit, evaluator) := evaluator.admitDenialAudit flow now
  ({ action := .deny, ruleId, emitDenialAudit := emit, revision := evaluator.policy.revision },
    evaluator)

/-- Short-circuiting `||` over several `state_valid` calls. -/
def anyValid (evaluator : Evaluator) (now : Nat) : List (FlowKey × Bool) → Bool × Evaluator
  | [] => (false, evaluator)
  | (key, refresh) :: rest =>
    match evaluator.stateValid key now refresh with
    | (true, evaluator) => (true, evaluator)
    | (false, evaluator) => anyValid evaluator now rest

/-- The keys whose entries can let a packet through, and whether using one refreshes it. -/
def stateKeys (packet : Packet) : List (FlowKey × Bool) :=
  match packet.fragmentOf with
  | some firstFragment => [(firstFragment, false), (firstFragment.reverse, false)]
  | none =>
    [(packet.flow, packet.relatedFlow.isNone), (packet.flow.reverse, packet.relatedFlow.isNone)]
      ++ packet.relatedFlow.toList.map fun flow => (flow, false)

/-- Evaluates one packet at monotonic time `now`. -/
def evaluate (evaluator : Evaluator) (packet : Packet) (now : Nat) : Decision × Evaluator :=
  let evaluator := evaluator.expireSome now
  if packet.meshId ≠ evaluator.meshId then evaluator.denial packet.flow none now
  else
    match evaluator.anyValid now (stateKeys packet) with
    | (true, evaluator) =>
      ({ action := .allow, ruleId := none, emitDenialAudit := false
         revision := evaluator.policy.revision }, evaluator)
    | (false, evaluator) =>
      if packet.fragmentOf.isSome || packet.relatedFlow.isSome || !packet.initiating then
        evaluator.denial packet.flow none now
      else
        let decision := evaluator.policy.decide packet
        if decision.action = .allow then
          ({ action := .allow, ruleId := decision.ruleId, emitDenialAudit := false
             revision := evaluator.policy.revision }, evaluator.insertState packet.flow now)
        else evaluator.denial packet.flow decision.ruleId now

/-! ## Where entries come from

Sweeps and failing checks remove entries and a permitted initiation adds its own. There is no other way for
an entry to appear.
-/

/-- The evaluator has an entry for `key` that still authorizes at `now`. -/
def live (evaluator : Evaluator) (key : FlowKey) (now : Nat) : Bool :=
  evaluator.states[key]?.any fun entry => now < entry.expiresAt

/-- `later` has the policy of `earlier` and no keys of its own. -/
structure Within (later earlier : Evaluator) : Prop where
  policy : later.policy = earlier.policy
  states : ∀ ⦃key⦄, key ∈ later.states → key ∈ earlier.states

theorem Within.refl (evaluator : Evaluator) : Within evaluator evaluator := ⟨rfl, fun _ h => h⟩

theorem Within.trans {a b c : Evaluator} (hab : Within a b) (hbc : Within b c) : Within a c :=
  ⟨hab.policy.trans hbc.policy, fun _ h => hbc.states (hab.states h)⟩

/-- `later` was reached by removals alone. -/
structure Pruned (later earlier : Evaluator) : Prop where
  policy : later.policy = earlier.policy
  states : ∀ ⦃key : FlowKey⦄ ⦃entry : StateEntry⦄,
    later.states[key]? = some entry → earlier.states[key]? = some entry

theorem Pruned.refl (evaluator : Evaluator) : Pruned evaluator evaluator := ⟨rfl, fun _ _ h => h⟩

theorem Pruned.trans {a b c : Evaluator} (hab : Pruned a b) (hbc : Pruned b c) : Pruned a c :=
  ⟨hab.policy.trans hbc.policy, fun _ _ h => hbc.states (hab.states h)⟩

theorem mem_states_iff {evaluator : Evaluator} {key : FlowKey} :
    key ∈ evaluator.states ↔ ∃ entry, evaluator.states[key]? = some entry := by
  rw [ExtTreeMap.mem_iff_isSome_getElem?, Option.isSome_iff_exists]

theorem Pruned.within {later earlier : Evaluator} (h : Pruned later earlier) :
    Within later earlier := by
  refine ⟨h.policy, fun key hkey => ?_⟩
  rw [mem_states_iff] at hkey ⊢
  exact hkey.imp fun entry hentry => h.states hentry

theorem Pruned.live {later earlier : Evaluator} (h : Pruned later earlier) {key : FlowKey}
    {now : Nat} (hlive : later.live key now = true) : earlier.live key now = true := by
  unfold Evaluator.live at hlive ⊢
  rw [Option.any_eq_true] at hlive ⊢
  obtain ⟨entry, hentry, hnow⟩ := hlive
  exact ⟨entry, h.states hentry, hnow⟩

theorem removeState_pruned (evaluator : Evaluator) (key : FlowKey) :
    Pruned (evaluator.removeState key) evaluator := by
  unfold removeState
  split
  · exact .refl _
  · refine ⟨rfl, fun k entry hk => ?_⟩
    rw [ExtTreeMap.getElem?_erase] at hk
    split at hk
    · cases hk
    · exact hk

theorem expireLoop_pruned (evaluator : Evaluator) (now budget : Nat) :
    Pruned (evaluator.expireLoop now budget) evaluator := by
  induction budget generalizing evaluator with
  | zero => exact .refl _
  | succ budget ih =>
      unfold expireLoop
      split
      · exact .refl _
      · split
        · exact .refl _
        · exact (ih _).trans (removeState_pruned _ _)

theorem stateValid_within (evaluator : Evaluator) (key : FlowKey) (now : Nat) (refresh : Bool) :
    Within (evaluator.stateValid key now refresh).2 evaluator := by
  unfold stateValid
  split
  · exact .refl _
  · next entry hentry =>
    split
    · exact (removeState_pruned _ _).within
    · split
      · refine ⟨rfl, fun k hk => ?_⟩
        rw [ExtTreeMap.mem_insert, LawfulEqOrd.compare_eq_iff_eq] at hk
        rcases hk with rfl | hk
        · exact mem_states_iff.mpr ⟨entry, hentry⟩
        · exact hk
      · exact .refl _

theorem stateValid_live {evaluator : Evaluator} {key : FlowKey} {now : Nat} {refresh : Bool}
    (h : (evaluator.stateValid key now refresh).1 = true) : evaluator.live key now = true := by
  unfold stateValid at h
  split at h
  · cases h
  · next entry hentry =>
    split at h
    · cases h
    · next hlive =>
      rw [live, hentry]
      simpa using hlive

/-- A check that fails drops at most the entry it looked at. -/
theorem stateValid_pruned {evaluator : Evaluator} {key : FlowKey} {now : Nat} {refresh : Bool}
    (h : (evaluator.stateValid key now refresh).1 = false) :
    Pruned (evaluator.stateValid key now refresh).2 evaluator := by
  unfold stateValid at h ⊢
  split
  · exact .refl _
  · next entry hentry =>
    simp only [hentry] at h
    split at h
    · next hlate =>
      rw [if_pos hlate]
      exact removeState_pruned _ _
    · split at h <;> cases h

theorem anyValid_within (evaluator : Evaluator) (now : Nat) (keys : List (FlowKey × Bool)) :
    Within (evaluator.anyValid now keys).2 evaluator := by
  induction keys generalizing evaluator with
  | nil => exact .refl _
  | cons entry keys ih =>
      have hfirst := stateValid_within evaluator entry.1 now entry.2
      unfold anyValid
      split
      · next heq => rwa [heq] at hfirst
      · next heq =>
        rw [heq] at hfirst
        exact (ih _).trans hfirst

theorem anyValid_live {evaluator : Evaluator} {now : Nat} {keys : List (FlowKey × Bool)}
    (h : (evaluator.anyValid now keys).1 = true) :
    ∃ entry ∈ keys, evaluator.live entry.1 now = true := by
  induction keys generalizing evaluator with
  | nil => cases h
  | cons entry keys ih =>
      unfold anyValid at h
      split at h
      · next heq => exact ⟨entry, by simp, stateValid_live (by rw [heq])⟩
      · next rest heq =>
        obtain ⟨other, hother, hlive⟩ := ih h
        have hfirst := stateValid_pruned (show
          (evaluator.stateValid entry.1 now entry.2).1 = false by rw [heq])
        rw [heq] at hfirst
        exact ⟨other, by simp [hother], hfirst.live hlive⟩

theorem reclaimAudits_within (evaluator : Evaluator) (now budget : Nat) :
    Within (evaluator.reclaimAudits now budget) evaluator := by
  induction budget generalizing evaluator with
  | zero => exact .refl _
  | succ budget ih =>
      unfold reclaimAudits
      split
      · exact .refl _
      · split
        · exact .refl _
        · exact (ih _).trans ⟨rfl, fun _ h => h⟩

theorem denial_within (evaluator : Evaluator) (flow : FlowKey) (ruleId : Option RuleId) (now : Nat) :
    Within (evaluator.denial flow ruleId now).2 evaluator := by
  have haudit : Within (evaluator.admitDenialAudit flow now).2 evaluator := by
    have hreclaim := reclaimAudits_within evaluator now (max evaluator.expiryBudget 1)
    unfold admitDenialAudit
    simp only
    split
    · exact .refl _
    · split
      · split
        · exact hreclaim
        · exact ⟨hreclaim.policy, hreclaim.states⟩
      · split
        · exact hreclaim
        · exact ⟨hreclaim.policy, hreclaim.states⟩
  exact haudit

theorem denial_action (evaluator : Evaluator) (flow : FlowKey) (ruleId : Option RuleId)
    (now : Nat) : (evaluator.denial flow ruleId now).1.action = .deny := rfl

/-- An insertion adds its own flow and nothing else. -/
theorem insertState_states {evaluator : Evaluator} {flow key : FlowKey} {now : Nat}
    (h : key ∈ (evaluator.insertState flow now).states) : key = flow ∨ key ∈ evaluator.states := by
  unfold insertState at h
  split at h
  · exact .inr h
  · rw [ExtTreeMap.mem_insert, LawfulEqOrd.compare_eq_iff_eq] at h
    refine h.imp Eq.symm fun hkey => ?_
    split at hkey
    · split at hkey
      · exact (removeState_pruned _ _).within.states hkey
      · exact hkey
    · exact hkey

theorem insertState_policy (evaluator : Evaluator) (flow : FlowKey) (now : Nat) :
    (evaluator.insertState flow now).policy = evaluator.policy := by
  unfold insertState
  split
  · rfl
  · simp only
    split
    · split
      · exact (removeState_pruned _ _).policy
      · rfl
    · rfl

/-- The policy itself is consulted for the packet and allows it. -/
structure Initiates (policy : Policy) (packet : Packet) : Prop where
  fragmentOf : packet.fragmentOf = none
  relatedFlow : packet.relatedFlow = none
  initiating : packet.initiating = true
  allowed : (policy.decide packet).action = .allow

/-- **What one evaluation can do.** A packet passes on a live entry for one of its keys or because the
policy allows it; entries are kept, dropped, or made for a packet the policy allows. -/
theorem evaluate_cases (evaluator : Evaluator) (packet : Packet) (now : Nat) :
    (evaluator.evaluate packet now).2.policy = evaluator.policy ∧
      ((evaluator.evaluate packet now).1.action = .allow →
        (∃ entry ∈ stateKeys packet, evaluator.live entry.1 now = true) ∨
          Initiates evaluator.policy packet) ∧
      ∀ key ∈ (evaluator.evaluate packet now).2.states,
        key ∈ evaluator.states ∨ (key = packet.flow ∧ Initiates evaluator.policy packet) := by
  have hsweep : Pruned (evaluator.expireSome now) evaluator := expireLoop_pruned _ _ _
  have hdenied : ∀ {before : Evaluator} (ruleId : Option RuleId), Within before evaluator →
      (before.denial packet.flow ruleId now).2.policy = evaluator.policy ∧
        ((before.denial packet.flow ruleId now).1.action = .allow →
          (∃ entry ∈ stateKeys packet, evaluator.live entry.1 now = true) ∨
            Initiates evaluator.policy packet) ∧
        ∀ key ∈ (before.denial packet.flow ruleId now).2.states,
          key ∈ evaluator.states ∨ (key = packet.flow ∧ Initiates evaluator.policy packet) := by
    intro before ruleId hbefore
    have hwithin := (denial_within before packet.flow ruleId now).trans hbefore
    refine ⟨hwithin.policy, fun h => ?_, fun key hkey => .inl (hwithin.states hkey)⟩
    rw [denial_action] at h
    cases h
  unfold evaluate
  simp only
  split
  · exact hdenied none hsweep.within
  · have hany :=
      (anyValid_within (evaluator.expireSome now) now (stateKeys packet)).trans hsweep.within
    split
    · next after heq =>
      rw [heq] at hany
      refine ⟨hany.policy, fun _ => .inl ?_, fun key hkey => .inl (hany.states hkey)⟩
      obtain ⟨entry, hentry, hlive⟩ := anyValid_live (show
        ((evaluator.expireSome now).anyValid now (stateKeys packet)).1 = true by rw [heq])
      exact ⟨entry, hentry, hsweep.live hlive⟩
    · next after heq =>
      rw [heq] at hany
      split
      · exact hdenied none hany
      · next hinitiating =>
        simp only [Bool.or_eq_true, Bool.not_eq_true', not_or, Bool.not_eq_true,
          Option.isSome_eq_false_iff, Option.isNone_iff_eq_none, Bool.not_eq_false] at hinitiating
        split
        · next hallow =>
          have hinitiates : Initiates evaluator.policy packet :=
            ⟨hinitiating.1.1, hinitiating.1.2, hinitiating.2, hany.policy ▸ hallow⟩
          refine ⟨(insertState_policy _ _ _).trans hany.policy, fun _ => .inr hinitiates, ?_⟩
          intro key hkey
          rcases insertState_states hkey with rfl | hkey
          · exact .inr ⟨rfl, hinitiates⟩
          · exact .inl (hany.states hkey)
        · exact hdenied _ hany

end Evaluator

end Peerward.IdentityPolicy
