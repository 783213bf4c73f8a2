import Peerward.Dataplane.FirewallSteps

/-!
# Shard tables stay indexed, at home and bounded

`Shard.Sound` adds to the exact indexes of `Shard.WF` that every key is one the shard is selected
for and that neither table outgrows the limit. Whatever only deletes keeps it (`Sound.of_sub`);
the two insertions keep it because room was made first, which is where the indexes matter: a full
table has an oldest entry in its index, and that entry is in the table.
-/

namespace Peerward.Dataplane

open Std Peerward.Lib Peerward.Net

namespace Shard

/-- Indexed tables whose keys belong here and whose sizes are bounded. -/
structure Sound (flowHome : FlowKey → Prop) (fragmentHome : FragmentKey → Prop) (limit : Nat)
    (s : Shard) : Prop where
  wf : s.WF
  flow_home : ∀ {k : FlowKey} {st}, s.flows[k]? = some st → flowHome k
  fragment_home : ∀ {k : FragmentKey} {st}, s.fragments[k]? = some st → fragmentHome k
  flows_le : s.flows.size ≤ limit
  fragments_le : s.fragments.size ≤ limit

/-! ## Making room

Whatever is stored into a full table is preceded by an eviction, and the index says which entry is the
oldest. So a table is never longer than its limit.
-/

/-- Removing a present flow makes room for one. -/
theorem removeFlow_size {s : Shard} {key : FlowKey} {st : FlowState} (h : s.flows[key]? = some st) :
    (s.removeFlow key).flows.size + 1 = s.flows.size := by
  unfold removeFlow
  rw [h]
  exact size_erase_of_some h

theorem removeFragment_size {s : Shard} {key : FragmentKey} {st : FragmentState}
    (h : s.fragments[key]? = some st) :
    (s.removeFragment key).fragments.size + 1 = s.fragments.size := by
  unfold removeFragment
  rw [h]
  exact size_erase_of_some h

/-- The oldest indexed flow is in the table, so evicting it makes room. -/
theorem evictFlowIfFull_size {s : Shard} (h : s.WF) {limit : Nat} (hpos : 0 < limit)
    (hle : s.flows.size ≤ limit) : (s.evictFlowIfFull limit).flows.size < limit := by
  unfold evictFlowIfFull
  split
  · next hroom => exact hroom
  · next hfull =>
    obtain ⟨⟨due, oldest⟩, hfirst⟩ := h.flows.exists_first? (by omega)
    obtain ⟨st, hst, -⟩ := h.flows.first? hfirst
    have hsize := removeFlow_size hst
    simp only [hfirst]
    omega

/-! ## Storing -/

theorem storeFlow_size_le (s : Shard) (key : FlowKey) (state : FlowState) {limit : Nat}
    (hle : s.flows.size ≤ limit) (hroom : s.flows[key]? = none → s.flows.size < limit) :
    (s.storeFlow key state).flows.size ≤ limit := by
  unfold storeFlow
  split
  · next previous hprevious =>
    have hsize : (s.flows.insert key state).size = s.flows.size := size_insert_of_some hprevious
    split <;> exact hsize.trans_le hle
  · next hnone =>
    have hsize := size_insert_of_none (v := state) hnone
    exact hsize.trans_le (hroom hnone)

namespace Sound

variable {flowHome : FlowKey → Prop} {fragmentHome : FragmentKey → Prop} {limit : Nat} {s : Shard}

theorem empty : Sound flowHome fragmentHome limit {} where
  wf := .empty
  flow_home := by simp
  fragment_home := by simp
  flows_le := by simp
  fragments_le := by simp

/-- Deleting keeps a shard sound. -/
theorem of_sub {s' : Shard} (h : Sound flowHome fragmentHome limit s) (hsub : s'.Sub s)
    (hwf : s'.WF) : Sound flowHome fragmentHome limit s' where
  wf := hwf
  flow_home hk := h.flow_home (hsub.flows hk)
  fragment_home hk := h.fragment_home (hsub.fragments hk)
  flows_le := (size_le_of_sub hsub.flows).trans h.flows_le
  fragments_le := (size_le_of_sub hsub.fragments).trans h.fragments_le

theorem expire (h : Sound flowHome fragmentHome limit s) (now budget : Nat) :
    Sound flowHome fragmentHome limit (s.expire now budget) :=
  h.of_sub (.expire s now budget) (h.wf.expire now budget)

theorem removeFlow (h : Sound flowHome fragmentHome limit s) (key : FlowKey) :
    Sound flowHome fragmentHome limit (s.removeFlow key) :=
  h.of_sub (.removeFlow s key) (h.wf.removeFlow key)

theorem removeFragment (h : Sound flowHome fragmentHome limit s) (key : FragmentKey) :
    Sound flowHome fragmentHome limit (s.removeFragment key) :=
  h.of_sub (.removeFragment s key) (h.wf.removeFragment key)

theorem evictFlowIfFull (h : Sound flowHome fragmentHome limit s) :
    Sound flowHome fragmentHome limit (s.evictFlowIfFull limit) :=
  h.of_sub (.evictFlowIfFull s limit) (h.wf.evictFlowIfFull limit)

/-- A flow may be stored where its key belongs, over an entry or into room. -/
theorem storeFlow (h : Sound flowHome fragmentHome limit s) {key : FlowKey} (hhome : flowHome key)
    (state : FlowState) (hroom : s.flows[key]? = none → s.flows.size < limit) :
    Sound flowHome fragmentHome limit (s.storeFlow key state) where
  wf := h.wf.storeFlow key state
  flow_home := by
    intro k st hk
    rw [storeFlow_flows] at hk
    split at hk
    · next heq => exact heq ▸ hhome
    · exact h.flow_home hk
  fragment_home := by
    intro k st hk
    rw [storeFlow_fragments] at hk
    exact h.fragment_home hk
  flows_le := storeFlow_size_le s key state h.flows_le hroom
  fragments_le := by
    rw [storeFlow_fragments]
    exact h.fragments_le

end Sound

end Shard

namespace Firewall

variable {hash : ShardHash}

/-! ## Room for an association -/

theorem fragmentRoom_size {fw : Firewall} (key : FragmentKey) {shard : Shard} (h : shard.WF)
    (hpos : 0 < fw.perShardLimit) (hle : shard.fragments.size ≤ fw.perShardLimit) :
    (fragmentRoom fw key shard).fragments.size < fw.perShardLimit := by
  have hremoved : (shard.removeFragment key).fragments.size ≤ fw.perShardLimit :=
    (size_le_of_sub (Shard.Sub.removeFragment shard key).fragments).trans hle
  unfold fragmentRoom
  split
  · next hfull =>
    have hwf := h.removeFragment key
    obtain ⟨⟨due, expiring⟩, hfirst⟩ := hwf.fragments.exists_first? (by omega)
    obtain ⟨st, hst, -⟩ := hwf.fragments.first? hfirst
    have hsize := Shard.removeFragment_size hst
    simp only [hfirst]
    omega
  · next hroom => omega

/-! ## Sound firewalls

A shard is sound for the keys its hash selects: indexed, at home and bounded. Every operation stores what
it stores through `shard_index`, so it keeps all shards sound.
-/

/-- The keys a shard is selected for. -/
def flowHome (hash : ShardHash) (fw : Firewall) (index : Fin fw.shardCount) (key : FlowKey) : Prop :=
  fw.shardIndex (hash.flow key) = index

def fragmentHome (hash : ShardHash) (fw : Firewall) (index : Fin fw.shardCount)
    (key : FragmentKey) : Prop :=
  fw.shardIndex (hash.fragment key) = index

/-- Every shard is sound for the keys it is selected for. -/
structure Sound (hash : ShardHash) (fw : Firewall) : Prop where
  limit_pos : 0 < fw.perShardLimit
  shard : ∀ index : Fin fw.shardCount,
    (fw.shards index).Sound (flowHome hash fw index) (fragmentHome hash fw index) fw.perShardLimit

namespace Sound

theorem wf {fw : Firewall} (h : Sound hash fw) : fw.WF := fun index => (h.shard index).wf

theorem new (revision : Nat) (default : Action) (rules : List Rule) (stateLimit shardCount : Nat) :
    Sound hash (Firewall.new revision default rules stateLimit shardCount) where
  limit_pos := by
    show 0 < (max stateLimit 1 + (max shardCount 1 - 1)) / max shardCount 1
    exact Nat.div_pos (by omega) (by omega)
  shard _ := .empty

theorem setShard {fw : Firewall} (h : Sound hash fw) {index : Fin fw.shardCount} {shard : Shard}
    (hs : shard.Sound (flowHome hash fw index) (fragmentHome hash fw index) fw.perShardLimit) :
    Sound hash (fw.setShard index shard) := by
  have hall : ∀ i : Fin fw.shardCount, (Function.update fw.shards index shard i).Sound
      (flowHome hash fw i) (fragmentHome hash fw i) fw.perShardLimit := by
    intro i
    rw [Function.update_apply]
    split
    · next heq => exact heq ▸ hs
    · exact h.shard i
  exact ⟨h.limit_pos, hall⟩

theorem probe {fw : Firewall} (h : Sound hash fw) (packet : ParsedPacket) (key : FlowKey)
    (initiator : Bool) (now : Nat) : Sound hash (probe hash fw packet key initiator now).2 := by
  have hs := (h.shard (fw.shardIndex (hash.flow key))).expire now fw.expiryBudget
  rw [probe_eq]
  split
  · exact h.setShard hs
  · next state hstate =>
    split
    · exact h.setShard (hs.removeFlow key)
    · split
      · exact h.setShard hs
      · split
        · exact h.setShard (hs.removeFlow key)
        · -- refreshing writes over the entry that authorized the packet
          refine h.setShard (hs.storeFlow rfl _ fun hnone => ?_)
          rw [hstate] at hnone
          cases hnone

theorem insertFlow {fw : Firewall} (h : Sound hash fw) (flow : FlowKey) (packet : ParsedPacket)
    (now : Nat) : Sound hash (insertFlow hash fw flow packet now) := by
  have hs := (h.shard (fw.shardIndex (hash.flow flow))).expire now fw.expiryBudget
  have hroom := Shard.evictFlowIfFull_size hs.wf h.limit_pos hs.flows_le
  exact h.setShard (hs.evictFlowIfFull.storeFlow rfl _ fun _ => hroom)

theorem insertFragment {fw : Firewall} (h : Sound hash fw) (packet : ParsedPacket)
    (fragment : Fragment) (action : Action) (ruleId : Option RuleId) (now : Nat) :
    Sound hash (insertFragment hash fw packet fragment action ruleId now) := by
  have hs := h.shard (fw.shardIndex (hash.fragment (fragmentKey packet fragment)))
  have hsub := (fragmentRoom_sub fw (fragmentKey packet fragment) _).trans
    (Shard.Sub.removeFragment (fw.shards (fw.shardIndex (hash.fragment (fragmentKey packet fragment))))
      (fragmentKey packet fragment))
  have hroom := fragmentRoom_size (fragmentKey packet fragment) hs.wf h.limit_pos hs.fragments_le
  have hbase := hs.of_sub hsub (fragmentRoom_wf fw _ hs.wf)
  have hgone : (fragmentRoom fw (fragmentKey packet fragment) (fw.shards (fw.shardIndex
      (hash.fragment (fragmentKey packet fragment))))).fragments[fragmentKey packet fragment]? =
      none := by
    rw [Option.eq_none_iff_forall_ne_some]
    intro st hst
    have hgone := (fragmentRoom_sub _ _ _).fragments hst
    simp at hgone
  rw [insertFragment_eq]
  refine h.setShard ⟨?_, hbase.flow_home, ?_, hbase.flows_le, ?_⟩
  · exact ⟨hbase.wf.flows, hbase.wf.fragments.insert_fresh (association fw action ruleId now) hgone⟩
  · intro k st hk
    rw [ExtTreeMap.getElem?_insert] at hk
    split at hk
    · next heq => exact LawfulEqOrd.eq_of_compare heq ▸ rfl
    · exact hbase.fragment_home hk
  · rw [size_insert_of_none hgone]
    exact hroom

theorem evaluateLaterFragment {fw : Firewall} (h : Sound hash fw) (packet : ParsedPacket)
    (fragment : Fragment) (now : Nat) :
    Sound hash (evaluateLaterFragment hash fw packet fragment now).2 := by
  unfold Firewall.evaluateLaterFragment
  simp only
  split
  · exact h
  · split
    · exact h.setShard ((h.shard _).removeFragment _)
    · exact h

theorem evaluate {fw : Firewall} (h : Sound hash fw) (packet : ParsedPacket) (now : Nat)
    (policy : PolicyCallback) : Sound hash (evaluateWithPolicy hash fw packet now policy).2 :=
  evaluate_keeps (P := Sound hash)
    (fun _ fragment h => h.evaluateLaterFragment packet fragment now)
    (fun _ key initiator h => h.probe packet key initiator now)
    (fun _ flow h => h.insertFlow flow packet now)
    (fun _ fragment action ruleId _ _ _ h => h.insertFragment packet fragment action ruleId now) h

theorem forgetFlow {fw : Firewall} (h : Sound hash fw) (key : FlowKey) :
    Sound hash (fw.forgetFlow key) where
  limit_pos := h.limit_pos
  shard index := by
    have hs := ((h.shard index).removeFlow key).removeFlow key.reverse
    exact hs.of_sub (.foldl_removeFragment _ _) (hs.wf.foldl_removeFragment _)

theorem invalidateState {fw : Firewall} (h : Sound hash fw) : Sound hash fw.invalidateState where
  limit_pos := h.limit_pos
  shard _ := .empty

theorem step {fw : Firewall} (h : Sound hash fw) (op : Op) : Sound hash (step hash fw op) := by
  cases op with
  | evaluate packet now policy => exact h.evaluate packet now policy
  | forgetFlow key => exact h.forgetFlow key
  | invalidateState => exact h.invalidateState
  | replace revision default rules =>
      show Sound hash (fw.replace revision default rules).2
      unfold replace
      split
      · exact h
      · exact ⟨h.limit_pos, fun _ => .empty⟩

theorem run {fw : Firewall} (h : Sound hash fw) (ops : List Op) : Sound hash (run hash fw ops) :=
  exec_invariant h (fun _ op h => h.step op) ops

end Sound

/-- The limit is set once in `Firewall::new`. -/
theorem evaluate_limit (fw : Firewall) (packet : ParsedPacket) (now : Nat)
    (policy : PolicyCallback) :
    (evaluateWithPolicy hash fw packet now policy).2.perShardLimit = fw.perShardLimit := by
  refine evaluate_keeps (P := fun fw' => fw'.perShardLimit = fw.perShardLimit) ?_ ?_ ?_ ?_ rfl
  · intro fw' fragment h
    rw [← h]
    unfold evaluateLaterFragment
    simp only
    split
    · rfl
    · split <;> rfl
  · intro fw' key initiator h
    rw [← h, probe_eq]
    split
    · rfl
    · split
      · rfl
      · split
        · rfl
        · split <;> rfl
  · intro fw' flow h
    exact h
  · intro fw' fragment action ruleId _ _ _ h
    exact h

theorem run_limit (fw : Firewall) (ops : List Op) :
    (run hash fw ops).perShardLimit = fw.perShardLimit := by
  refine exec_invariant (I := fun fw' : Firewall => fw'.perShardLimit = fw.perShardLimit) rfl ?_ ops
  intro fw' op h
  rw [← h]
  cases op with
  | evaluate packet now policy => exact evaluate_limit fw' packet now policy
  | forgetFlow key => rfl
  | invalidateState => rfl
  | replace revision default rules =>
      show (fw'.replace revision default rules).2.perShardLimit = fw'.perShardLimit
      unfold replace
      split <;> rfl

/-! ## Forgetting one connection -/

theorem forgetInShard_flows (key k : FlowKey) (s : Shard) :
    (forgetInShard key s).flows[k]? =
      if k = key ∨ k = key.reverse then none else s.flows[k]? := by
  rw [forgetInShard, Shard.foldl_removeFragment_flows, Shard.removeFlow_flows,
    Shard.removeFlow_flows]
  by_cases hkey : k = key
  · simp [hkey]
  · by_cases hreverse : k = key.reverse
    · simp [hreverse]
    · rw [if_neg (Ne.symm hreverse), if_neg (Ne.symm hkey), if_neg (by tauto)]

theorem forgetInShard_fragments (key : FlowKey) (k : FragmentKey) (s : Shard) :
    (forgetInShard key s).fragments[k]? = if forgets key k then none else s.fragments[k]? := by
  rw [forgetInShard, Shard.foldl_removeFragment_fragments, Shard.removeFlow_fragments,
    Shard.removeFlow_fragments]
  cases hk : s.fragments[k]? with
  | none => simp
  | some st =>
      have hmem : k ∈ s.fragments.keys :=
        ExtTreeMap.mem_keys.mpr (ExtTreeMap.mem_iff_isSome_getElem?.mpr (by rw [hk]; rfl))
      simp [List.mem_filter, hmem]

/-- An association between the two endpoints of a flow, in either direction. -/
def Between (key : FlowKey) (k : FragmentKey) : Prop :=
  (k.source = key.source ∧ k.destination = key.destination) ∨
    (k.source = key.destination ∧ k.destination = key.source)

theorem forgets_iff (key : FlowKey) (k : FragmentKey) :
    forgets key k = true ↔
      Between key k ∧ (k.protocol = key.protocol ∨ k.source.isIpv6 = true) := by
  simp only [forgets, Between, Bool.and_eq_true, Bool.or_eq_true, decide_eq_true_eq]
  exact and_comm

/-- **Shards stay indexed, at home and bounded.** After any run, each shard's deadline indexes are
exactly its tables, every key is in the shard its hash selects and no table exceeds the limit;
forgetting a connection then drops its two flow entries and the associations between its endpoints,
and keeps every other flow. -/
theorem run_shards (hash : ShardHash) (revision : Nat) (default : Action) (rules : List Rule)
    (stateLimit shardCount : Nat) (ops : List Op) :
    let start := Firewall.new revision default rules stateLimit shardCount
    let fw := run hash start ops
    fw.perShardLimit = start.perShardLimit ∧
    (∀ index : Fin fw.shardCount, let shard := fw.shards index
      (∀ due key, (due, key) ∈ shard.flowExpirations ↔
        ∃ st, shard.flows[key]? = some st ∧ st.expiresAt = due) ∧
      (∀ due key, (due, key) ∈ shard.fragmentExpirations ↔
        ∃ st, shard.fragments[key]? = some st ∧ st.expiresAt = due) ∧
      (∀ key st, shard.flows[key]? = some st → fw.shardIndex (hash.flow key) = index) ∧
      (∀ key st, shard.fragments[key]? = some st → fw.shardIndex (hash.fragment key) = index) ∧
      shard.flows.size ≤ start.perShardLimit ∧ shard.fragments.size ≤ start.perShardLimit) ∧
    ∀ (key : FlowKey) (index : Fin fw.shardCount),
      let before := fw.shards index
      let after := (fw.forgetFlow key).shards index
      after.flows[key]? = none ∧ after.flows[key.reverse]? = none ∧
      (∀ k, Between key k → (k.protocol = key.protocol ∨ k.source.isIpv6 = true) →
        after.fragments[k]? = none) ∧
      ∀ k, k ≠ key → k ≠ key.reverse → after.flows[k]? = before.flows[k]? := by
  intro start fw
  have hsound : Sound hash fw := (Sound.new revision default rules stateLimit shardCount).run ops
  have hlimit : fw.perShardLimit = start.perShardLimit := run_limit start ops
  refine ⟨hlimit, fun index => ?_, fun key index => ?_⟩
  · have hs := hsound.shard index
    rw [hlimit] at hs
    exact ⟨hs.wf.flows, hs.wf.fragments, fun _ _ hk => hs.flow_home hk,
      fun _ _ hk => hs.fragment_home hk, hs.flows_le, hs.fragments_le⟩
  · intro before after
    have hflows : ∀ k, after.flows[k]? =
        if k = key ∨ k = key.reverse then none else before.flows[k]? :=
      fun k => forgetInShard_flows key k before
    have hfragments : ∀ k, after.fragments[k]? =
        if forgets key k then none else before.fragments[k]? :=
      fun k => forgetInShard_fragments key k before
    refine ⟨?_, ?_, ?_, ?_⟩
    · rw [hflows, if_pos (.inl rfl)]
    · rw [hflows, if_pos (.inr rfl)]
    · intro k hbetween hprotocol
      rw [hfragments, if_pos ((forgets_iff key k).mpr ⟨hbetween, hprotocol⟩)]
    · intro k hkey hreverse
      rw [hflows, if_neg (by tauto)]

end Firewall

end Peerward.Dataplane
