import Peerward.Dataplane.FirewallSteps

/-!
# Which packets use a flow

An entry of the flow table is used by a packet of its flow, in either direction, that passes on its
own account rather than for a flow it quotes. A flow is never entered in both directions at once, so
such a packet finds the one entry there is: it refreshes that entry, or drops it by a reset.
-/

namespace Peerward.Dataplane.Firewall

open Std Peerward.Lib Peerward.Net

variable {hash : ShardHash} {fw : Firewall} {packet : ParsedPacket} {policy : PolicyCallback}
  {key k flow : FlowKey} {now : Nat} {initiator : Bool} {st : FlowState}

/-- The packet is one of the flow, and it passes without help from a flow it quotes. -/
structure Uses (hash : ShardHash) (fw : Firewall) (key : FlowKey) (packet : ParsedPacket) (now : Nat)
    (policy : PolicyCallback) : Prop where
  own : FlowKey.fromPacket packet = some key ∨ FlowKey.fromPacket packet = some key.reverse
  unrelated : relatedLive hash fw packet now = false
  action : (evaluateWithPolicy hash fw packet now policy).1.action = .allow

/-- A packet that its policy callback allowed uses its flow. -/
theorem Permits.uses (h : Permits hash fw packet now policy)
    (hown : FlowKey.fromPacket packet = some key ∨ FlowKey.fromPacket packet = some key.reverse) :
    Uses hash fw key packet now policy := by
  refine ⟨hown, ?_, h.action⟩
  have hstateful := h.stateful
  generalize hr : evaluateWithPolicy hash fw packet now policy = r at hstateful
  have hcases := hr ▸ @evaluates hash fw packet now policy
  cases hcases with
  | @later fragment hfragment hoffset =>
      have hzero : fragment.offset = 0 :=
        hown.elim (fromPacket_offset · hfragment) (fromPacket_offset · hfragment)
      exact absurd hzero hoffset
  | related _ _ => cases hstateful
  | existing _ hrelated _ => exact hrelated
  | initiate _ hrelated _ => exact hrelated

/-! ## Probes

Where a probe decides, an entry was there, and it is refreshed with the phase that the packet leads to.
Where it does not, no live entry was.
-/

/-- A probe that decides nothing leaves no entry behind. -/
theorem probe_flow_none (h : (probe hash fw packet key initiator now).1 = none) :
    flow? hash (probe hash fw packet key initiator now).2 key = none := by
  rw [probe_eq] at h ⊢
  split at h
  · next hnone => rw [flow?_setShard, if_pos rfl, hnone]
  · split at h
    · next hdead => rw [if_pos hdead, flow?_setShard, if_pos rfl, Shard.removeFlow_flows, if_pos rfl]
    · split at h
      · cases h
      · split at h <;> cases h

/-- A probe that decides nothing only deletes. -/
theorem probe_flow_of_none (h : (probe hash fw packet key initiator now).1 = none)
    (hk : flow? hash (probe hash fw packet key initiator now).2 k = some st) :
    flow? hash fw k = some st := by
  rcases probe_flow hk with hbefore | ⟨-, hsome, -⟩
  · exact hbefore
  · rw [h] at hsome
    cases hsome

/-- The packet used the entry `old` of the flow and left `st` there. -/
structure Refreshed (fw : Firewall) (packet : ParsedPacket) (now : Nat) (initiator : Bool)
    (old st : FlowState) : Prop where
  live : now < old.expiresAt
  kept : resets packet = false
  phase : phaseAfter packet initiator old.phase = some st.phase
  deadline : st.expiresAt = saturatingAdd now (fw.idle packet.protocol st.phase)

/-- Only an entry decides. -/
theorem probe_found {decision : Decision}
    (h : (probe hash fw packet key initiator now).1 = some decision) :
    ∃ old, flow? hash fw key = some old := by
  have hsub := Shard.Sub.expire (fw.shards (fw.shardIndex (hash.flow key))) now fw.expiryBudget
  rw [probe_eq] at h
  split at h
  · cases h
  · next old hold => exact ⟨old, hsub.flows hold⟩

/-- The entry that lets a packet through is refreshed, if it is still there. -/
theorem probe_hit (h : (probe hash fw packet key initiator now).1 = some allowedByState)
    (hk : flow? hash (probe hash fw packet key initiator now).2 key = some st) :
    ∃ old, flow? hash fw key = some old ∧ Refreshed fw packet now initiator old st := by
  have hsub := Shard.Sub.expire (fw.shards (fw.shardIndex (hash.flow key))) now fw.expiryBudget
  rw [probe_eq] at h hk
  split at h
  · cases h
  · next old hold =>
    simp only [hold] at hk
    split at h
    · cases h
    · next hnow =>
      rw [if_neg hnow] at hk
      split at h
      · cases h
      · next phase hphase =>
        simp only [hphase] at hk
        split at h
        · next hreset =>
          rw [if_pos hreset, flow?_setShard, if_pos rfl, Shard.removeFlow_flows, if_pos rfl] at hk
          cases hk
        · next hreset =>
          rw [if_neg hreset, flow?_setShard, if_pos rfl, Shard.storeFlow_flows, if_pos rfl] at hk
          cases hk
          exact ⟨old, hsub.flows hold, by omega, by simpa using hreset, hphase, rfl⟩

/-! ## One direction at a time

A flow is opened where neither direction has an entry. So of the two entries an evaluation could use at
most one exists, and the packet's use of the flow is a use of that one.
-/

/-- No flow is entered in both directions. -/
def OneWay (hash : ShardHash) (fw : Firewall) : Prop :=
  ∀ k st, flow? hash fw k = some st → k.reverse = k ∨ flow? hash fw k.reverse = none

theorem OneWay.of_sub {fw' : Firewall} (h : OneWay hash fw) (hsub : Sub hash fw' fw) :
    OneWay hash fw' := by
  intro k st hk
  refine (h k st (hsub.flows hk)).imp_right fun hnone => Option.eq_none_iff_forall_ne_some.mpr ?_
  intro st' hst'
  rw [hsub.flows hst'] at hnone
  cases hnone

/-- Where neither direction decided, neither has an entry. -/
theorem evaluateExisting_none (h : (evaluateExisting hash fw packet flow now).1 = none)
    (hk : k = flow ∨ k = flow.reverse) :
    flow? hash (evaluateExisting hash fw packet flow now).2 k = none := by
  unfold evaluateExisting at h ⊢
  split at h
  · cases h
  · next fw' hprobe =>
    have hfirst : (probe hash fw packet flow true now).1 = none := by rw [hprobe]
    have hgone := probe_flow_none hfirst
    rw [hprobe] at hgone
    rcases hk with rfl | rfl
    · refine Option.eq_none_iff_forall_ne_some.mpr fun st hst => ?_
      rw [probe_flow_of_none h hst] at hgone
      cases hgone
    · exact probe_flow_none h

/-- The entry a packet of its flow passed on is refreshed, if it is still there. -/
theorem evaluateExisting_hit (hone : OneWay hash fw)
    (h : (evaluateExisting hash fw packet flow now).1 = some allowedByState)
    (hown : flow = k ∨ flow = k.reverse)
    (hk : flow? hash (evaluateExisting hash fw packet flow now).2 k = some st) :
    ∃ old, flow? hash fw k = some old ∧ Refreshed fw packet now (flow = k) old st := by
  unfold evaluateExisting at h hk
  split at h
  · next decision fw' hprobe =>
    -- the packet's own direction decided
    have hdecision : (probe hash fw packet flow true now).1 = some allowedByState := by
      rw [hprobe]
      exact h
    rw [hprobe] at hk
    replace hk : flow? hash (probe hash fw packet flow true now).2 k = some st := by
      rw [hprobe]
      exact hk
    by_cases hsame : flow = k
    · subst hsame
      rw [decide_eq_true rfl]
      exact probe_hit hdecision hk
    · obtain rfl := hown.resolve_left hsame
      obtain ⟨old, hold⟩ := probe_found hdecision
      rcases probe_flow hk with hbefore | ⟨heq, -⟩
      · rcases hone k st hbefore with heq | hnone
        · exact absurd heq hsame
        · rw [hnone] at hold
          cases hold
      · exact absurd heq.symm hsame
  · next fw' hprobe =>
    -- the other direction decided
    have hfirst : (probe hash fw packet flow true now).1 = none := by rw [hprobe]
    have hfw' : fw' = (probe hash fw packet flow true now).2 := by rw [hprobe]
    have hgone := probe_flow_none hfirst
    rw [hprobe] at hk
    rw [← hfw'] at hgone
    by_cases hsame : flow = k
    · subst hsame
      rcases probe_flow hk with hbefore | ⟨heq, -, old, hold, -⟩
      · rw [hgone] at hbefore
        cases hbefore
      · rw [← heq, hgone] at hold
        cases hold
    · obtain rfl := hown.resolve_left hsame
      obtain ⟨old, hold, hrefreshed⟩ := probe_hit h hk
      rw [FlowKey.reverse_reverse, hfw'] at hold
      refine ⟨old, probe_flow_of_none hfirst hold, ?_⟩
      rw [decide_eq_false hsame]
      refine ⟨hrefreshed.live, hrefreshed.kept, hrefreshed.phase, ?_⟩
      rw [hrefreshed.deadline, hfw', idle_congr (probe_timeouts fw packet k.reverse true now)]

theorem evaluateExisting_allow (hwf : fw.WF) {decision : Decision}
    (h : (evaluateExisting hash fw packet flow now).1 = some decision)
    (hallow : decision.action = .allow) : decision = allowedByState := by
  have hverdict : ∀ initiator state, verdict packet initiator state = decision →
      decision = allowedByState := by
    rintro initiator state rfl
    unfold verdict at hallow ⊢
    split at hallow
    · next hsome => rw [if_pos hsome]
    · cases hallow
  rw [evaluateExisting_fst hwf, Option.or_eq_some_iff] at h
  rcases h with h | ⟨-, h⟩
  · obtain ⟨state, -, hdecision⟩ := Option.map_eq_some_iff.mp h
    exact hverdict _ _ hdecision
  · obtain ⟨state, -, hdecision⟩ := Option.map_eq_some_iff.mp h
    exact hverdict _ _ hdecision

/-- **What an evaluation makes of a flow**: its entry is kept by a packet that does not use it,
refreshed by one that does, or opened by a policy decision. -/
theorem evaluate_use (hwf : fw.WF) (hone : OneWay hash fw)
    (h : flow? hash (evaluateWithPolicy hash fw packet now policy).2 k = some st) :
    (flow? hash fw k = some st ∧ ¬ Uses hash fw k packet now policy) ∨
      (Uses hash fw k packet now policy ∧
        (evaluateWithPolicy hash fw packet now policy).1.stateful = true ∧
        ∃ old, flow? hash fw k = some old ∧
          Refreshed fw packet now (FlowKey.fromPacket packet = some k) old st) ∨
      (FlowKey.fromPacket packet = some k ∧ Permits hash fw packet now policy ∧
        st = opened fw packet now) := by
  generalize hr : evaluateWithPolicy hash fw packet now policy = r at h ⊢
  have hcases := hr ▸ @evaluates hash fw packet now policy
  cases hcases with
  | @later fragment hfragment hoffset =>
      refine .inl ⟨(evaluateLaterFragment_sub fw packet _ now).flows h, fun huse => hoffset ?_⟩
      exact huse.own.elim (fromPacket_offset · hfragment) (fromPacket_offset · hfragment)
  | related _ hlive =>
      refine .inl ⟨h, fun huse => ?_⟩
      rw [huse.unrelated] at hlive
      cases hlive
  | @existing flow decision hflow hrelated hdecision =>
      by_cases huse : Uses hash fw k packet now policy
      · obtain rfl := evaluateExisting_allow hwf hdecision (by simpa [hr] using huse.action)
        have hown : flow = k ∨ flow = k.reverse :=
          huse.own.imp (Option.some.inj <| hflow.symm.trans ·) (Option.some.inj <| hflow.symm.trans ·)
        obtain ⟨old, hold, hrefreshed⟩ := evaluateExisting_hit hone hdecision hown h
        refine .inr (.inl ⟨huse, rfl, old, hold, ?_⟩)
        simpa only [hflow, Option.some.injEq] using hrefreshed
      · rcases evaluateExisting_flow h with hbefore | ⟨hsome, hrefresh⟩
        · exact .inl ⟨hbefore, huse⟩
        · obtain ⟨initiator, _, hkey, -⟩ := hrefresh.used
          rw [hdecision] at hsome
          cases hsome
          refine absurd ⟨?_, hrelated, by rw [hr]; rfl⟩ huse
          cases initiator with
          | true => exact .inl (hkey ▸ hflow)
          | false =>
              right
              rw [hkey]
              exact hflow
  | @initiate flow hflow hrelated hnone =>
      have hsub := evaluateExisting_sub_of_none hnone
      -- the flow had no entry left when the policy was asked
      have hother : flow? hash (evaluateExisting hash fw packet flow now).2 k = some st →
          ¬ Uses hash fw k packet now policy := by
        rintro hbefore huse
        have hown : k = flow ∨ k = flow.reverse := by
          rcases huse.own with hown | hown <;> cases hflow.symm.trans hown
          · exact .inl rfl
          · exact .inr rfl
        rw [evaluateExisting_none hnone hown] at hbefore
        cases hbefore
      rw [initiate_snd] at h
      split at h
      · next hvalid =>
        rcases admitted_flow h with hbefore | ⟨rfl, hopened⟩
        · exact .inl ⟨hsub.flows hbefore, hother hbefore⟩
        · refine .inr (.inr ⟨hflow, ⟨hvalid.2, ?_, ?_⟩, ?_⟩)
          · rw [hr, initiate_fst, if_pos hvalid.1, hvalid.2]
          · rw [hr, initiate_fst, if_pos hvalid.1]
          · have htimeouts := @evaluateExisting_timeouts hash fw packet k now
            simp only [timeouts, Prod.mk.injEq] at htimeouts
            rw [hopened, opened, opened, htimeouts.1, htimeouts.2.1]
      · exact .inl ⟨hsub.flows h, hother h⟩

/-- An evaluation opens a flow where neither direction has an entry. -/
theorem OneWay.evaluate (hwf : fw.WF) (hone : OneWay hash fw) (packet : ParsedPacket) (now : Nat)
    (policy : PolicyCallback) : OneWay hash (evaluateWithPolicy hash fw packet now policy).2 := by
  -- an entry is opened by this packet, or was there before it
  have hcases : ∀ {k st}, flow? hash (evaluateWithPolicy hash fw packet now policy).2 k = some st →
      (FlowKey.fromPacket packet = some k ∧ Permits hash fw packet now policy) ∨
        ∃ old, flow? hash fw k = some old := by
    intro k st hk
    rcases evaluate_use hwf hone hk with ⟨hold, -⟩ | ⟨-, -, old, hold, -⟩ | ⟨hown, hpermits, -⟩
    · exact .inr ⟨st, hold⟩
    · exact .inr ⟨old, hold⟩
    · exact .inl ⟨hown, hpermits⟩
  -- and where it opens one, the other direction is not in use
  have hopens : ∀ {k st}, FlowKey.fromPacket packet = some k → Permits hash fw packet now policy →
      flow? hash (evaluateWithPolicy hash fw packet now policy).2 k.reverse = some st →
        k.reverse = k := by
    intro k st hown hpermits hk
    have huse : Uses hash fw k.reverse packet now policy := hpermits.uses (.inr hown)
    rcases evaluate_use hwf hone hk with ⟨-, hnot⟩ | ⟨-, hstateful, -⟩ | ⟨hown', -⟩
    · exact absurd huse hnot
    · rw [hpermits.stateful] at hstateful
      cases hstateful
    · exact Option.some.inj (hown'.symm.trans hown)
  intro k st hk
  cases hback : flow? hash (evaluateWithPolicy hash fw packet now policy).2 k.reverse with
  | none => exact .inr rfl
  | some st' =>
      left
      rcases hcases hk with ⟨hown, hpermits⟩ | ⟨old, hold⟩
      · exact hopens hown hpermits hback
      · rcases hcases hback with ⟨hown, hpermits⟩ | ⟨old', hold'⟩
        · exact (hopens hown hpermits hk).symm
        · rcases hone k old hold with heq | hnone
          · exact heq
          · rw [hnone] at hold'
            cases hold'

theorem OneWay.step (hwf : fw.WF) (hone : OneWay hash fw) (op : Op) : OneWay hash (step hash fw op) := by
  cases op with
  | evaluate packet now policy => exact hone.evaluate hwf packet now policy
  | forgetFlow key => exact hone.of_sub (forgetFlow_sub fw key)
  | invalidateState =>
      intro k st hk
      rw [Firewall.step, invalidateState_flow] at hk
      cases hk
  | replace revision default rules =>
      rcases @replace_cases hash fw revision default rules with ⟨-, hsame⟩ | ⟨-, hflows, -⟩
      · rw [Firewall.step, hsame]
        exact hone
      · intro k st hk
        rw [Firewall.step, hflows] at hk
        cases hk

/-- No run enters a flow in both directions. -/
theorem run_oneWay (hwf : fw.WF) (hone : OneWay hash fw) (ops : List Op) :
    OneWay hash (run hash fw ops) :=
  (exec_invariant (I := fun fw => fw.WF ∧ OneWay hash fw) ⟨hwf, hone⟩
    (fun _ op h => ⟨step_wf h.1 op, h.2.step h.1 op⟩) ops).2

end Peerward.Dataplane.Firewall
