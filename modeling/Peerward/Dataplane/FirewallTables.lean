import Peerward.Dataplane.Firewall

/-!
# What the firewall operations do to its tables

Each table operation gets one lemma that says what a lookup returns afterwards; everything later
reads tables through these and never unfolds an operation again. Two facts recur:

* `Shard.Sub` — reclamation, eviction and forgetting only ever delete;
* `Shard.WF` — the deadline indexes describe the tables exactly, so that reclamation deletes
  nothing that is still alive.
-/

namespace Peerward.Dataplane

open Std Peerward.Lib Peerward.Net

namespace Shard

/-! ## Lookups after one table operation -/

@[simp] theorem removeFlow_flows (s : Shard) (key k : FlowKey) :
    (s.removeFlow key).flows[k]? = if key = k then none else s.flows[k]? := by
  unfold removeFlow
  split
  · simp [ExtTreeMap.getElem?_erase]
  · rename_i h
    split
    · next hk => rw [← hk, h]
    · rfl

@[simp] theorem removeFlow_fragments (s : Shard) (key : FlowKey) :
    (s.removeFlow key).fragments = s.fragments := by
  unfold removeFlow
  split <;> rfl

@[simp] theorem removeFlow_fragmentExpirations (s : Shard) (key : FlowKey) :
    (s.removeFlow key).fragmentExpirations = s.fragmentExpirations := by
  unfold removeFlow
  split <;> rfl

@[simp] theorem storeFlow_flows (s : Shard) (key k : FlowKey) (state : FlowState) :
    (s.storeFlow key state).flows[k]? = if key = k then some state else s.flows[k]? := by
  unfold storeFlow
  split
  · split <;> simp [ExtTreeMap.getElem?_insert]
  · simp [ExtTreeMap.getElem?_insert]

@[simp] theorem storeFlow_fragments (s : Shard) (key : FlowKey) (state : FlowState) :
    (s.storeFlow key state).fragments = s.fragments := by
  unfold storeFlow
  split
  · split <;> rfl
  · rfl

@[simp] theorem storeFlow_fragmentExpirations (s : Shard) (key : FlowKey) (state : FlowState) :
    (s.storeFlow key state).fragmentExpirations = s.fragmentExpirations := by
  unfold storeFlow
  split
  · split <;> rfl
  · rfl

@[simp] theorem removeFragment_fragments (s : Shard) (key k : FragmentKey) :
    (s.removeFragment key).fragments[k]? = if key = k then none else s.fragments[k]? := by
  unfold removeFragment
  split
  · simp [ExtTreeMap.getElem?_erase]
  · rename_i h
    split
    · next hk => rw [← hk, h]
    · rfl

@[simp] theorem removeFragment_flows (s : Shard) (key : FragmentKey) :
    (s.removeFragment key).flows = s.flows := by
  unfold removeFragment
  split <;> rfl

@[simp] theorem removeFragment_flowExpirations (s : Shard) (key : FragmentKey) :
    (s.removeFragment key).flowExpirations = s.flowExpirations := by
  unfold removeFragment
  split <;> rfl

/-! ## Deleting operations

Most operations only delete. `Sub` is that, and every invariant that deletion keeps is kept by it.
-/

/-- Every entry of `s` is an entry of `s'`. -/
structure Sub (s s' : Shard) : Prop where
  flows : ∀ {k : FlowKey} {st}, s.flows[k]? = some st → s'.flows[k]? = some st
  fragments : ∀ {k : FragmentKey} {st}, s.fragments[k]? = some st → s'.fragments[k]? = some st

namespace Sub

theorem refl (s : Shard) : Sub s s := ⟨id, id⟩

theorem trans {s₁ s₂ s₃ : Shard} (h : Sub s₁ s₂) (h' : Sub s₂ s₃) : Sub s₁ s₃ :=
  ⟨fun hk => h'.flows (h.flows hk), fun hk => h'.fragments (h.fragments hk)⟩

theorem removeFlow (s : Shard) (key : FlowKey) : Sub (s.removeFlow key) s := by
  refine ⟨?_, by simp⟩
  intro k st h
  rw [removeFlow_flows] at h
  split at h
  · cases h
  · exact h

theorem removeFragment (s : Shard) (key : FragmentKey) : Sub (s.removeFragment key) s := by
  refine ⟨by simp, ?_⟩
  intro k st h
  rw [removeFragment_fragments] at h
  split at h
  · cases h
  · exact h

theorem expireFlows (s : Shard) (now budget : Nat) : Sub (s.expireFlows now budget) s := by
  induction budget generalizing s with
  | zero => exact refl s
  | succ budget ih =>
      unfold Shard.expireFlows
      split
      · exact refl s
      · split
        · exact refl s
        · exact (ih _).trans (removeFlow s _)

theorem expireFragments (s : Shard) (now budget : Nat) :
    Sub (s.expireFragments now budget) s := by
  induction budget generalizing s with
  | zero => exact refl s
  | succ budget ih =>
      unfold Shard.expireFragments
      split
      · exact refl s
      · split
        · exact refl s
        · exact (ih _).trans (removeFragment s _)

theorem expire (s : Shard) (now budget : Nat) : Sub (s.expire now budget) s :=
  (expireFragments _ now budget).trans (expireFlows s now budget)

theorem evictFlowIfFull (s : Shard) (limit : Nat) : Sub (s.evictFlowIfFull limit) s := by
  unfold Shard.evictFlowIfFull
  split
  · exact refl s
  · split
    · exact removeFlow s _
    · exact refl s

theorem foldl_removeFragment (keys : List FragmentKey) (s : Shard) :
    Sub (keys.foldl Shard.removeFragment s) s := by
  induction keys generalizing s with
  | nil => exact refl s
  | cons key keys ih => exact (ih _).trans (removeFragment s key)

end Sub

@[simp] theorem evictFlowIfFull_fragments (s : Shard) (limit : Nat) :
    (s.evictFlowIfFull limit).fragments = s.fragments := by
  unfold evictFlowIfFull
  split
  · rfl
  · split
    · exact removeFlow_fragments s _
    · rfl

theorem foldl_removeFragment_flows (keys : List FragmentKey) (s : Shard) :
    (keys.foldl removeFragment s).flows = s.flows := by
  induction keys generalizing s with
  | nil => rfl
  | cons key keys ih => rw [List.foldl_cons, ih, removeFragment_flows]

theorem foldl_removeFragment_fragments (keys : List FragmentKey) (s : Shard) (k : FragmentKey) :
    (keys.foldl removeFragment s).fragments[k]? =
      if k ∈ keys then none else s.fragments[k]? := by
  induction keys generalizing s with
  | nil => simp
  | cons key keys ih =>
      rw [List.foldl_cons, ih, removeFragment_fragments]
      by_cases hk : key = k
      · simp [hk]
      · have hk' : k ≠ key := fun h => hk h.symm
        simp [hk, hk']

/-! ## Indexed shards -/

/-- Both deadline indexes describe their tables exactly. -/
structure WF (s : Shard) : Prop where
  flows : Indexed s.flows FlowState.expiresAt s.flowExpirations
  fragments : Indexed s.fragments FragmentState.expiresAt s.fragmentExpirations

namespace WF

theorem empty : WF {} := ⟨Indexed.empty, Indexed.empty⟩

theorem removeFlow {s : Shard} (h : s.WF) (key : FlowKey) : (s.removeFlow key).WF := by
  unfold Shard.removeFlow
  split
  · next state hk => exact ⟨h.flows.erase hk, h.fragments⟩
  · exact h

theorem storeFlow {s : Shard} (h : s.WF) (key : FlowKey) (state : FlowState) :
    (s.storeFlow key state).WF := by
  unfold Shard.storeFlow
  split
  · next previous hk =>
    split
    · next hdue => exact ⟨h.flows.insert_same hk hdue, h.fragments⟩
    · exact ⟨h.flows.insert_over state hk, h.fragments⟩
  · next hk => exact ⟨h.flows.insert_fresh state hk, h.fragments⟩

theorem removeFragment {s : Shard} (h : s.WF) (key : FragmentKey) : (s.removeFragment key).WF := by
  unfold Shard.removeFragment
  split
  · next state hk => exact ⟨h.flows, h.fragments.erase hk⟩
  · exact h

theorem expireFlows {s : Shard} (h : s.WF) (now budget : Nat) : (s.expireFlows now budget).WF := by
  induction budget generalizing s with
  | zero => exact h
  | succ budget ih =>
      unfold Shard.expireFlows
      split
      · exact h
      · split
        · exact h
        · exact ih (h.removeFlow _)

theorem expireFragments {s : Shard} (h : s.WF) (now budget : Nat) :
    (s.expireFragments now budget).WF := by
  induction budget generalizing s with
  | zero => exact h
  | succ budget ih =>
      unfold Shard.expireFragments
      split
      · exact h
      · split
        · exact h
        · exact ih (h.removeFragment _)

theorem expire {s : Shard} (h : s.WF) (now budget : Nat) : (s.expire now budget).WF :=
  (h.expireFlows now budget).expireFragments now budget

theorem evictFlowIfFull {s : Shard} (h : s.WF) (limit : Nat) : (s.evictFlowIfFull limit).WF := by
  unfold Shard.evictFlowIfFull
  split
  · exact h
  · split
    · exact h.removeFlow _
    · exact h

theorem foldl_removeFragment {s : Shard} (h : s.WF) (keys : List FragmentKey) :
    (keys.foldl Shard.removeFragment s).WF := by
  induction keys generalizing s with
  | nil => exact h
  | cons key keys ih => exact ih (h.removeFragment key)

/-- Reclamation never touches a flow that is still alive. -/
theorem expireFlows_live {s : Shard} (h : s.WF) {now : Nat} (budget : Nat) {k : FlowKey}
    {st : FlowState} (hk : s.flows[k]? = some st) (hlive : now < st.expiresAt) :
    (s.expireFlows now budget).flows[k]? = some st := by
  induction budget generalizing s with
  | zero => exact hk
  | succ budget ih =>
      unfold Shard.expireFlows
      split
      · exact hk
      · next t key hfirst =>
        split
        · exact hk
        · next hdue =>
          obtain ⟨v, hv, rfl⟩ := h.flows.first? hfirst
          have hne : key ≠ k := by
            rintro rfl
            rw [hk] at hv
            cases hv
            omega
          exact ih (h.removeFlow key) (by simpa [hne] using hk)

theorem expireFragments_live {s : Shard} (h : s.WF) {now : Nat} (budget : Nat) {k : FragmentKey}
    {st : FragmentState} (hk : s.fragments[k]? = some st) (hlive : now < st.expiresAt) :
    (s.expireFragments now budget).fragments[k]? = some st := by
  induction budget generalizing s with
  | zero => exact hk
  | succ budget ih =>
      unfold Shard.expireFragments
      split
      · exact hk
      · next t key hfirst =>
        split
        · exact hk
        · next hdue =>
          obtain ⟨v, hv, rfl⟩ := h.fragments.first? hfirst
          have hne : key ≠ k := by
            rintro rfl
            rw [hk] at hv
            cases hv
            omega
          exact ih (h.removeFragment key) (by simpa [hne] using hk)

end WF

theorem expireFlows_fragments (s : Shard) (now budget : Nat) :
    (s.expireFlows now budget).fragments = s.fragments := by
  induction budget generalizing s with
  | zero => rfl
  | succ budget ih =>
      unfold expireFlows
      split
      · rfl
      · split
        · rfl
        · rw [ih, removeFlow_fragments]

theorem expireFragments_flows (s : Shard) (now budget : Nat) :
    (s.expireFragments now budget).flows = s.flows := by
  induction budget generalizing s with
  | zero => rfl
  | succ budget ih =>
      unfold expireFragments
      split
      · rfl
      · split
        · rfl
        · rw [ih, removeFragment_flows]

theorem WF.expire_flow_live {s : Shard} (h : s.WF) {now : Nat} (budget : Nat) {k : FlowKey}
    {st : FlowState} (hk : s.flows[k]? = some st) (hlive : now < st.expiresAt) :
    (s.expire now budget).flows[k]? = some st := by
  rw [Shard.expire, expireFragments_flows]
  exact h.expireFlows_live budget hk hlive

theorem WF.expire_fragment_live {s : Shard} (h : s.WF) {now : Nat} (budget : Nat)
    {k : FragmentKey} {st : FragmentState} (hk : s.fragments[k]? = some st)
    (hlive : now < st.expiresAt) : (s.expire now budget).fragments[k]? = some st := by
  refine (h.expireFlows now budget).expireFragments_live budget ?_ hlive
  rw [expireFlows_fragments]
  exact hk

end Shard

/-! ## Lookups through the shard hash

An evaluation looks a key up in the shard that the hash selects. From here on tables are spoken of through
these two lookups, and shards are not mentioned.
-/

namespace Firewall

variable (hash : ShardHash)

/-- The flow entry an evaluation would find. -/
def flow? (fw : Firewall) (key : FlowKey) : Option FlowState :=
  (fw.shards (fw.shardIndex (hash.flow key))).flows[key]?

/-- The fragment association an evaluation would find. -/
def fragment? (fw : Firewall) (key : FragmentKey) : Option FragmentState :=
  (fw.shards (fw.shardIndex (hash.fragment key))).fragments[key]?

theorem flow?_setShard (fw : Firewall) (index : Fin fw.shardCount) (shard : Shard) (key : FlowKey) :
    flow? hash (fw.setShard index shard) key =
      if fw.shardIndex (hash.flow key) = index then shard.flows[key]? else flow? hash fw key := by
  show (Function.update fw.shards index shard (fw.shardIndex (hash.flow key))).flows[key]? = _
  rw [Function.update_apply]
  split <;> rfl

theorem fragment?_setShard (fw : Firewall) (index : Fin fw.shardCount) (shard : Shard)
    (key : FragmentKey) :
    fragment? hash (fw.setShard index shard) key =
      if fw.shardIndex (hash.fragment key) = index then shard.fragments[key]?
      else fragment? hash fw key := by
  show (Function.update fw.shards index shard (fw.shardIndex (hash.fragment key))).fragments[key]? = _
  rw [Function.update_apply]
  split <;> rfl

/-- Every entry that can be looked up in `fw` can be looked up, unchanged, in `fw'`. -/
structure Sub (fw fw' : Firewall) : Prop where
  flows : ∀ {k st}, flow? hash fw k = some st → flow? hash fw' k = some st
  fragments : ∀ {k st}, fragment? hash fw k = some st → fragment? hash fw' k = some st

theorem Sub.refl (fw : Firewall) : Sub hash fw fw := ⟨id, id⟩

variable {hash}

theorem Sub.trans {fw₁ fw₂ fw₃ : Firewall} (h : Sub hash fw₁ fw₂) (h' : Sub hash fw₂ fw₃) :
    Sub hash fw₁ fw₃ :=
  ⟨fun hk => h'.flows (h.flows hk), fun hk => h'.fragments (h.fragments hk)⟩

/-- Shrinking one shard shrinks the firewall. -/
theorem Sub.setShard {fw : Firewall} {index : Fin fw.shardCount} {shard : Shard}
    (h : shard.Sub (fw.shards index)) : Sub hash (fw.setShard index shard) fw := by
  constructor
  · intro k st hk
    rw [flow?_setShard] at hk
    split at hk
    · next hi =>
      rw [flow?, hi]
      exact h.flows hk
    · exact hk
  · intro k st hk
    rw [fragment?_setShard] at hk
    split at hk
    · next hi =>
      rw [fragment?, hi]
      exact h.fragments hk
    · exact hk

/-- All shards are indexed exactly. -/
def WF (fw : Firewall) : Prop := ∀ index, (fw.shards index).WF

theorem WF.new (revision : Nat) (default : Action) (rules : List Rule) (stateLimit shardCount : Nat) :
    (Firewall.new revision default rules stateLimit shardCount).WF :=
  fun _ => Shard.WF.empty

theorem WF.setShard {fw : Firewall} (h : fw.WF) {index : Fin fw.shardCount} {shard : Shard}
    (hs : shard.WF) : (fw.setShard index shard).WF := by
  have hall : ∀ i : Fin fw.shardCount, (Function.update fw.shards index shard i).WF := by
    intro i
    rw [Function.update_apply]
    split
    · exact hs
    · exact h i
  exact hall

end Firewall

end Peerward.Dataplane
