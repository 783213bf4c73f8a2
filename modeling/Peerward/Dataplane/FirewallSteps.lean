import Peerward.Dataplane.FirewallTables

/-!
# What one firewall operation can do

One lemma per operation, stated on the lookups of `FirewallTables`. `live?` is the part of the flow
table that authorizes anything: an entry whose deadline has not passed. Whether lazy reclamation has
already removed a dead entry is invisible through it, which is what makes the decision of
`evaluate_with_policy` a function of the live entries alone.
-/

namespace Peerward.Dataplane

open Std Peerward.Lib Peerward.Net

/-- The TCP phase of an entry after `packet` used it, or `none` when the packet is refused. -/
def phaseAfter (packet : ParsedPacket) (initiator : Bool) (phase : Option TcpPhase) :
    Option (Option TcpPhase) :=
  if packet.protocol = TCP then
    if packet.tcpFlags.getD 0 &&& TCP_RST ≠ 0 then some (some .closing)
    else advancePhase phase initiator (packet.tcpFlags.getD 0)
  else some phase

/-- A reset: the packet is let through and its flow is dropped. -/
def resets (packet : ParsedPacket) : Bool :=
  packet.protocol = TCP && packet.tcpFlags.getD 0 &&& TCP_RST ≠ 0

theorem advance_eq (packet : ParsedPacket) (initiator : Bool) (state : FlowState) :
    (if packet.protocol = TCP then advanceTcp state (packet.tcpFlags.getD 0) initiator
      else some state) =
    (phaseAfter packet initiator state.phase).map fun phase => { state with phase := phase } := by
  unfold phaseAfter advanceTcp
  split
  · split <;> rfl
  · rfl

namespace Firewall

variable {hash : ShardHash}

/-- The idle lifetime of an entry: 60 s, or 600 s for a TCP connection that is not closing. -/
def idle (fw : Firewall) (protocol : UInt8) (phase : Option TcpPhase) : Nat :=
  if phase = some .closing then fw.flowTimeout else timeout protocol fw.flowTimeout fw.tcpTimeout

variable (hash) in
/-- The entry for `key`, if it still authorizes anything at `now`. -/
def live? (fw : Firewall) (key : FlowKey) (now : Nat) : Option FlowState :=
  (flow? hash fw key).filter fun state => now < state.expiresAt

theorem live?_eq_some {fw : Firewall} {key : FlowKey} {now : Nat} {st : FlowState} :
    live? hash fw key now = some st ↔ flow? hash fw key = some st ∧ now < st.expiresAt := by
  simp [live?, Option.filter_eq_some_iff]

theorem hasState_eq (fw : Firewall) (key : FlowKey) (now : Nat) :
    hasState hash fw key now = (live? hash fw key now).isSome := by
  unfold hasState live? flow?
  cases (fw.shards (fw.shardIndex (hash.flow key))).flows[key]? with
  | none => rfl
  | some st => by_cases h : now < st.expiresAt <;> simp [Option.filter, h]

/-- The clocks of a firewall, set once in `Firewall::new`. -/
def timeouts (fw : Firewall) : Nat × Nat × Nat := (fw.flowTimeout, fw.tcpTimeout, fw.fragmentTimeout)

theorem idle_congr {fw fw' : Firewall} (h : fw.timeouts = fw'.timeouts) : fw.idle = fw'.idle := by
  simp only [timeouts, Prod.mk.injEq] at h
  funext protocol phase
  simp only [idle, h.1, h.2.1]

/-! ## Probing one direction

A probe sweeps its shard and then looks up its key. Separating the two says at once what a probe does to
other entries: it deletes what is overdue.
-/

/-- `probe` with the shard bookkeeping factored out: the sweep first, then one table operation that
depends on what the sweep left under `key`. -/
theorem probe_eq (fw : Firewall) (packet : ParsedPacket) (key : FlowKey) (initiator : Bool)
    (now : Nat) :
    let index := fw.shardIndex (hash.flow key)
    let shard := (fw.shards index).expire now fw.expiryBudget
    probe hash fw packet key initiator now =
      match shard.flows[key]? with
      | none => (none, fw.setShard index shard)
      | some state =>
        if state.expiresAt ≤ now then (none, fw.setShard index (shard.removeFlow key))
        else
          match phaseAfter packet initiator state.phase with
          | none => (some denied, fw.setShard index shard)
          | some phase =>
            if resets packet then (some allowedByState, fw.setShard index (shard.removeFlow key))
            else (some allowedByState, fw.setShard index (shard.storeFlow key
              ⟨saturatingAdd now (fw.idle packet.protocol phase), phase⟩)) := by
  intro index shard
  unfold probe
  simp only [advance_eq]
  cases hs : shard.flows[key]? with
  | none => simp [shard, index]
  | some state =>
      simp only
      split
      · rfl
      · cases phaseAfter packet initiator state.phase with
        | none => rfl
        | some phase => simp only [Option.map_some, resets, idle, Bool.and_eq_true, decide_eq_true_eq,
            shard, index]

/-- An entry read after a sweep was there before it, and a live one is never swept. -/
theorem swept_flow {fw : Firewall} (hwf : fw.WF) {key : FlowKey} {now : Nat} :
    (((fw.shards (fw.shardIndex (hash.flow key))).expire now fw.expiryBudget).flows[key]?).filter
        (fun state => now < state.expiresAt) = live? hash fw key now := by
  set index := fw.shardIndex (hash.flow key) with hindex
  cases hlive : live? hash fw key now with
  | some st =>
      rw [live?_eq_some, flow?, ← hindex] at hlive
      rw [(hwf index).expire_flow_live fw.expiryBudget hlive.1 hlive.2]
      simp [Option.filter, hlive.2]
  | none =>
      rw [Option.filter_eq_none_iff]
      intro st hst hnow
      have hmem := (Shard.Sub.expire (fw.shards index) now fw.expiryBudget).flows hst
      have : live? hash fw key now = some st := live?_eq_some.mpr ⟨hmem, by simpa using hnow⟩
      rw [hlive] at this
      cases this

/-- The decision of one probe, in terms of the live entries. -/
theorem probe_fst {fw : Firewall} (hwf : fw.WF) (packet : ParsedPacket) (key : FlowKey)
    (initiator : Bool) (now : Nat) :
    (probe hash fw packet key initiator now).1 =
      (live? hash fw key now).map fun state =>
        if (phaseAfter packet initiator state.phase).isSome then allowedByState else denied := by
  rw [← swept_flow hwf, probe_eq]
  cases hs : ((fw.shards (fw.shardIndex (hash.flow key))).expire now fw.expiryBudget).flows[key]? with
  | none => simp
  | some state =>
      by_cases hnow : state.expiresAt ≤ now
      · simp [Option.filter, hnow]
      · have hlt : now < state.expiresAt := by omega
        simp only [hnow, if_false, Option.filter, hlt, decide_true, if_true, Option.map_some]
        cases phaseAfter packet initiator state.phase with
        | none => simp
        | some phase =>
            simp only [Option.isSome_some, if_true]
            split <;> rfl

/-- A probe deletes entries, and otherwise changes at most the entry it was authorized by. -/
theorem probe_flow {fw : Firewall} {packet : ParsedPacket} {key k : FlowKey} {initiator : Bool}
    {now : Nat} {st : FlowState}
    (h : flow? hash (probe hash fw packet key initiator now).2 k = some st) :
    flow? hash fw k = some st ∨
      (k = key ∧ (probe hash fw packet key initiator now).1 = some allowedByState ∧
        ∃ old, flow? hash fw key = some old ∧ now < old.expiresAt ∧
          phaseAfter packet initiator old.phase = some st.phase ∧
          st.expiresAt = saturatingAdd now (fw.idle packet.protocol st.phase)) := by
  have hsub := Shard.Sub.expire (fw.shards (fw.shardIndex (hash.flow key))) now fw.expiryBudget
  rw [probe_eq] at h ⊢
  split at h
  · exact .inl ((Sub.setShard hsub).flows h)
  · next state hstate =>
    split at h
    · exact .inl ((Sub.setShard ((Shard.Sub.removeFlow _ _).trans hsub)).flows h)
    · next hnow =>
      split at h
      · exact .inl ((Sub.setShard hsub).flows h)
      · next phase hphase =>
        split at h
        · exact .inl ((Sub.setShard ((Shard.Sub.removeFlow _ _).trans hsub)).flows h)
        · next hreset =>
          rw [flow?_setShard] at h
          split at h
          · next hindex =>
            rw [Shard.storeFlow_flows] at h
            split at h
            · next hkey =>
              subst hkey
              cases h
              exact .inr ⟨rfl, by simp [hnow, hreset], state, hsub.flows hstate, by omega, hphase,
                rfl⟩
            · left
              rw [flow?, hindex]
              exact hsub.flows h
          · exact .inl h

theorem probe_fragment {fw : Firewall} {packet : ParsedPacket} {key : FlowKey} {initiator : Bool}
    {now : Nat} {k : FragmentKey} {st : FragmentState}
    (h : fragment? hash (probe hash fw packet key initiator now).2 k = some st) :
    fragment? hash fw k = some st := by
  have hsub := Shard.Sub.expire (fw.shards (fw.shardIndex (hash.flow key))) now fw.expiryBudget
  rw [probe_eq] at h
  split at h
  · exact (Sub.setShard hsub).fragments h
  · split at h
    · exact (Sub.setShard ((Shard.Sub.removeFlow _ _).trans hsub)).fragments h
    · split at h
      · exact (Sub.setShard hsub).fragments h
      · split at h
        · exact (Sub.setShard ((Shard.Sub.removeFlow _ _).trans hsub)).fragments h
        · rw [fragment?_setShard] at h
          split at h
          · next hindex =>
            rw [Shard.storeFlow_fragments] at h
            rw [fragment?, hindex]
            exact hsub.fragments h
          · exact h

theorem probe_wf {fw : Firewall} (hwf : fw.WF) (packet : ParsedPacket) (key : FlowKey)
    (initiator : Bool) (now : Nat) : (probe hash fw packet key initiator now).2.WF := by
  have hs := (hwf (fw.shardIndex (hash.flow key))).expire now fw.expiryBudget
  rw [probe_eq]
  split
  · exact hwf.setShard hs
  · split
    · exact hwf.setShard (hs.removeFlow key)
    · split
      · exact hwf.setShard hs
      · split
        · exact hwf.setShard (hs.removeFlow key)
        · exact hwf.setShard (hs.storeFlow key _)

theorem probe_timeouts (fw : Firewall) (packet : ParsedPacket) (key : FlowKey) (initiator : Bool)
    (now : Nat) : (probe hash fw packet key initiator now).2.timeouts = fw.timeouts := by
  rw [probe_eq]
  split
  · rfl
  · split
    · rfl
    · split
      · rfl
      · split <;> rfl

/-- A probe that decides nothing leaves every live entry in place. -/
theorem probe_live {fw : Firewall} (hwf : fw.WF) {packet : ParsedPacket} {key : FlowKey}
    {initiator : Bool} {now : Nat} (h : (probe hash fw packet key initiator now).1 = none)
    (k : FlowKey) :
    live? hash (probe hash fw packet key initiator now).2 k now = live? hash fw k now := by
  have hkey : live? hash fw key now = none := by
    rw [probe_fst hwf] at h
    simpa using h
  cases hlive : live? hash fw k now with
  | none =>
      cases hafter : live? hash (probe hash fw packet key initiator now).2 k now with
      | none => rfl
      | some st =>
          rw [live?_eq_some] at hafter
          rcases probe_flow hafter.1 with hbefore | ⟨-, hsome, -⟩
          · rw [← hlive, live?_eq_some.mpr ⟨hbefore, hafter.2⟩]
          · rw [h] at hsome
            cases hsome
  | some st =>
      obtain ⟨hk, hnow⟩ := live?_eq_some.mp hlive
      refine live?_eq_some.mpr ⟨?_, hnow⟩
      have hne : key ≠ k := by
        rintro rfl
        rw [hkey] at hlive
        cases hlive
      have hswept : ∀ index, fw.shardIndex (hash.flow k) = index →
          ((fw.shards index).expire now fw.expiryBudget).flows[k]? = some st := by
        rintro index rfl
        exact (hwf _).expire_flow_live fw.expiryBudget hk hnow
      rw [probe_eq] at h ⊢
      split at h
      · rw [flow?_setShard]
        split
        · next hindex => exact hswept _ hindex
        · exact hk
      · split at h
        · next hdead =>
          rw [if_pos hdead, flow?_setShard]
          split
          · next hindex => simpa [hne] using hswept _ hindex
          · exact hk
        · split at h
          · cases h
          · split at h <;> cases h

/-- Everything a sweep leaves alone: live fragment associations survive a probe. -/
theorem probe_fragment_live {fw : Firewall} (hwf : fw.WF) {packet : ParsedPacket} {key : FlowKey}
    {initiator : Bool} {now : Nat} {k : FragmentKey} {st : FragmentState}
    (hk : fragment? hash fw k = some st) (hlive : now < st.expiresAt) :
    fragment? hash (probe hash fw packet key initiator now).2 k = some st := by
  have hswept : ∀ index, fw.shardIndex (hash.fragment k) = index →
      ((fw.shards index).expire now fw.expiryBudget).fragments[k]? = some st := by
    rintro index rfl
    exact (hwf _).expire_fragment_live fw.expiryBudget hk hlive
  -- whichever table operation follows the sweep, it is one on flows
  have hset : ∀ shard : Shard, (shard.fragments[k]? = some st ∨
      fw.shardIndex (hash.fragment k) ≠ fw.shardIndex (hash.flow key)) →
      fragment? hash (fw.setShard (fw.shardIndex (hash.flow key)) shard) k = some st := by
    intro shard hshard
    rw [fragment?_setShard]
    split
    · next hindex => exact hshard.resolve_right (fun hne => hne hindex)
    · exact hk
  have hbase : ((fw.shards (fw.shardIndex (hash.flow key))).expire now
      fw.expiryBudget).fragments[k]? = some st ∨
        fw.shardIndex (hash.fragment k) ≠ fw.shardIndex (hash.flow key) := by
    by_cases hindex : fw.shardIndex (hash.fragment k) = fw.shardIndex (hash.flow key)
    · exact .inl (hswept _ hindex)
    · exact .inr hindex
  rw [probe_eq]
  split
  · exact hset _ hbase
  · split
    · exact hset _ (by simpa using hbase)
    · split
      · exact hset _ hbase
      · split
        · exact hset _ (by simpa using hbase)
        · exact hset _ (by simpa using hbase)

/-! ## Both directions

At most one of the two probes decides. Whatever a property is kept by one probe is kept by both, which is
how the invariants use this.
-/

/-- What an existing entry says about a packet of its flow. -/
def verdict (packet : ParsedPacket) (initiator : Bool) (state : FlowState) : Decision :=
  if (phaseAfter packet initiator state.phase).isSome then allowedByState else denied

theorem evaluateExisting_fst {fw : Firewall} (hwf : fw.WF) (packet : ParsedPacket) (flow : FlowKey)
    (now : Nat) :
    (evaluateExisting hash fw packet flow now).1 =
      ((live? hash fw flow now).map (verdict packet true)).or
        ((live? hash fw flow.reverse now).map (verdict packet false)) := by
  have hfst := @probe_fst hash fw hwf packet flow true now
  unfold evaluateExisting
  split
  · next decision fw' hprobe =>
    rw [hprobe] at hfst
    rw [show (live? hash fw flow now).map (verdict packet true) = some decision from hfst.symm]
    rfl
  · next fw' hprobe =>
    have hnone : (probe hash fw packet flow true now).1 = none := by rw [hprobe]
    have hfw' : fw' = (probe hash fw packet flow true now).2 := by rw [hprobe]
    rw [hprobe] at hfst
    rw [show (live? hash fw flow now).map (verdict packet true) = none from hfst.symm, Option.none_or,
      ← probe_live hwf hnone, hfw']
    exact probe_fst (probe_wf hwf packet flow true now) packet flow.reverse false now

/-- `packet` used the live entry of `key`, and left `st` there. -/
structure Refreshes (hash : ShardHash) (fw : Firewall) (packet : ParsedPacket) (now : Nat)
    (flow key : FlowKey) (st : FlowState) : Prop where
  used : ∃ initiator old, key = (if initiator then flow else flow.reverse) ∧
    flow? hash fw key = some old ∧ now < old.expiresAt ∧
    phaseAfter packet initiator old.phase = some st.phase
  deadline : st.expiresAt = saturatingAdd now (fw.idle packet.protocol st.phase)

theorem evaluateExisting_flow {fw : Firewall} {packet : ParsedPacket} {flow k : FlowKey} {now : Nat}
    {st : FlowState} (h : flow? hash (evaluateExisting hash fw packet flow now).2 k = some st) :
    flow? hash fw k = some st ∨
      ((evaluateExisting hash fw packet flow now).1 = some allowedByState ∧
        Refreshes hash fw packet now flow k st) := by
  unfold evaluateExisting at h ⊢
  split at h
  · next decision fw' hprobe =>
    have h' : flow? hash (probe hash fw packet flow true now).2 k = some st := by rw [hprobe]; exact h
    rcases probe_flow h' with hbefore | ⟨rfl, hallow, old, hold, hnow, hphase, hdue⟩
    · exact .inl hbefore
    · rw [hprobe] at hallow
      exact .inr ⟨hallow, ⟨true, old, rfl, hold, hnow, hphase⟩, hdue⟩
  · next fw' hprobe =>
    have hnone : (probe hash fw packet flow true now).1 = none := by rw [hprobe]
    have hback : ∀ {k st}, flow? hash fw' k = some st → flow? hash fw k = some st := by
      intro k st hk
      rw [show fw' = (probe hash fw packet flow true now).2 by rw [hprobe]] at hk
      rcases probe_flow hk with hbefore | ⟨-, hsome, -⟩
      · exact hbefore
      · rw [hnone] at hsome
        cases hsome
    rcases probe_flow h with hbefore | ⟨rfl, hallow, old, hold, hnow, hphase, hdue⟩
    · exact .inl (hback hbefore)
    · have hidle : fw'.idle = fw.idle := by
        apply idle_congr
        rw [show fw' = (probe hash fw packet flow true now).2 by rw [hprobe]]
        exact probe_timeouts fw packet flow true now
      rw [hidle] at hdue
      exact .inr ⟨hallow, ⟨false, old, rfl, hback hold, hnow, hphase⟩, hdue⟩

/-- The other things `evaluate_existing` keeps: a property of the firewall that survives any probe
survives both. -/
theorem evaluateExisting_keeps {P : Firewall → Prop} {packet : ParsedPacket} {flow : FlowKey}
    {now : Nat} (hprobe : ∀ fw key initiator, P fw → P (probe hash fw packet key initiator now).2)
    {fw : Firewall} (h : P fw) : P (evaluateExisting hash fw packet flow now).2 := by
  have hfirst := hprobe fw flow true h
  unfold evaluateExisting
  split
  · next heq => rwa [heq] at hfirst
  · next heq =>
    rw [heq] at hfirst
    exact hprobe _ flow.reverse false hfirst

/-! ## Opening a flow -/

/-- The entry a freshly permitted packet opens. -/
def opened (fw : Firewall) (packet : ParsedPacket) (now : Nat) : FlowState where
  expiresAt := saturatingAdd now (timeout packet.protocol fw.flowTimeout fw.tcpTimeout)
  phase := if packet.protocol = TCP then some .synSent else none

theorem insertFlow_flow {fw : Firewall} {flow k : FlowKey} {packet : ParsedPacket} {now : Nat}
    {st : FlowState} (h : flow? hash (insertFlow hash fw flow packet now) k = some st) :
    flow? hash fw k = some st ∨ (k = flow ∧ st = opened fw packet now) := by
  have hsub := (Shard.Sub.evictFlowIfFull _ fw.perShardLimit).trans
    (Shard.Sub.expire (fw.shards (fw.shardIndex (hash.flow flow))) now fw.expiryBudget)
  rw [insertFlow, flow?_setShard] at h
  split at h
  · next hindex =>
    rw [Shard.storeFlow_flows] at h
    split at h
    · next hkey =>
      cases h
      exact .inr ⟨hkey.symm, rfl⟩
    · left
      rw [flow?, hindex]
      exact hsub.flows h
  · exact .inl h

theorem insertFlow_fragment {fw : Firewall} {flow : FlowKey} {packet : ParsedPacket} {now : Nat}
    {k : FragmentKey} {st : FragmentState}
    (h : fragment? hash (insertFlow hash fw flow packet now) k = some st) :
    fragment? hash fw k = some st := by
  have hsub := (Shard.Sub.evictFlowIfFull _ fw.perShardLimit).trans
    (Shard.Sub.expire (fw.shards (fw.shardIndex (hash.flow flow))) now fw.expiryBudget)
  rw [insertFlow, fragment?_setShard] at h
  split at h
  · next hindex =>
    rw [Shard.storeFlow_fragments] at h
    rw [fragment?, hindex]
    exact hsub.fragments h
  · exact h

theorem insertFlow_wf {fw : Firewall} (hwf : fw.WF) (flow : FlowKey) (packet : ParsedPacket)
    (now : Nat) : (insertFlow hash fw flow packet now).WF :=
  hwf.setShard ((((hwf _).expire now _).evictFlowIfFull _).storeFlow flow _)

theorem insertFlow_fragment_live {fw : Firewall} (hwf : fw.WF) {flow : FlowKey}
    {packet : ParsedPacket} {now : Nat} {k : FragmentKey} {st : FragmentState}
    (hk : fragment? hash fw k = some st) (hlive : now < st.expiresAt) :
    fragment? hash (insertFlow hash fw flow packet now) k = some st := by
  rw [insertFlow, fragment?_setShard]
  split
  · next hindex =>
    rw [fragment?, hindex] at hk
    rw [Shard.storeFlow_fragments, Shard.evictFlowIfFull_fragments]
    exact (hwf _).expire_fragment_live fw.expiryBudget hk hlive
  · exact hk

/-! ## Opening a fragment association -/

/-- The shard of a new association once room has been made for it. -/
def fragmentRoom (fw : Firewall) (key : FragmentKey) (shard : Shard) : Shard :=
  if (shard.removeFragment key).fragments.size ≥ fw.perShardLimit then
    match (shard.removeFragment key).fragmentExpirations.first? with
    | some (_, expiring) => (shard.removeFragment key).removeFragment expiring
    | none => shard.removeFragment key
  else shard.removeFragment key

theorem fragmentRoom_sub (fw : Firewall) (key : FragmentKey) (shard : Shard) :
    (fragmentRoom fw key shard).Sub (shard.removeFragment key) := by
  unfold fragmentRoom
  split
  · split
    · exact Shard.Sub.removeFragment _ _
    · exact Shard.Sub.refl _
  · exact Shard.Sub.refl _

theorem fragmentRoom_wf (fw : Firewall) (key : FragmentKey) {shard : Shard} (h : shard.WF) :
    (fragmentRoom fw key shard).WF := by
  unfold fragmentRoom
  split
  · split
    · exact (h.removeFragment key).removeFragment _
    · exact h.removeFragment key
  · exact h.removeFragment key

theorem fragmentRoom_flows (fw : Firewall) (key : FragmentKey) (shard : Shard) :
    (fragmentRoom fw key shard).flows = shard.flows := by
  unfold fragmentRoom
  split
  · split <;> simp
  · simp

/-- The association a permitted first fragment opens. -/
def association (fw : Firewall) (action : Action) (ruleId : Option RuleId) (now : Nat) :
    FragmentState where
  expiresAt := saturatingAdd now fw.fragmentTimeout
  action := action
  ruleId := ruleId

theorem insertFragment_eq (fw : Firewall) (packet : ParsedPacket) (fragment : Fragment)
    (action : Action) (ruleId : Option RuleId) (now : Nat) :
    let key := fragmentKey packet fragment
    let index := fw.shardIndex (hash.fragment key)
    let room := fragmentRoom fw key (fw.shards index)
    insertFragment hash fw packet fragment action ruleId now =
      fw.setShard index
        { room with
          fragmentExpirations := room.fragmentExpirations.insert
            (saturatingAdd now fw.fragmentTimeout, key)
          fragments := room.fragments.insert key (association fw action ruleId now) } := rfl

theorem insertFragment_fragment {fw : Firewall} {packet : ParsedPacket} {fragment : Fragment}
    {action : Action} {ruleId : Option RuleId} {now : Nat} {k : FragmentKey} {st : FragmentState}
    (h : fragment? hash (insertFragment hash fw packet fragment action ruleId now) k = some st) :
    (k ≠ fragmentKey packet fragment ∧ fragment? hash fw k = some st) ∨
      (k = fragmentKey packet fragment ∧ st = association fw action ruleId now) := by
  rw [insertFragment_eq, fragment?_setShard] at h
  by_cases hkey : fragmentKey packet fragment = k
  · subst hkey
    rw [if_pos rfl, ExtTreeMap.getElem?_insert_self] at h
    cases h
    exact .inr ⟨rfl, rfl⟩
  · refine .inl ⟨fun h => hkey h.symm, ?_⟩
    split at h
    · next hindex =>
      rw [ExtTreeMap.getElem?_insert, if_neg (by simpa using hkey)] at h
      rw [fragment?, hindex]
      exact (Shard.Sub.removeFragment _ _).fragments ((fragmentRoom_sub _ _ _).fragments h)
    · exact h

theorem insertFragment_self (fw : Firewall) (packet : ParsedPacket) (fragment : Fragment)
    (action : Action) (ruleId : Option RuleId) (now : Nat) :
    fragment? hash (insertFragment hash fw packet fragment action ruleId now)
      (fragmentKey packet fragment) = some (association fw action ruleId now) := by
  rw [insertFragment_eq, fragment?_setShard, if_pos rfl, ExtTreeMap.getElem?_insert_self]

theorem insertFragment_flow (fw : Firewall) (packet : ParsedPacket) (fragment : Fragment)
    (action : Action) (ruleId : Option RuleId) (now : Nat) (k : FlowKey) :
    flow? hash (insertFragment hash fw packet fragment action ruleId now) k = flow? hash fw k := by
  rw [insertFragment_eq, flow?_setShard]
  split
  · next hindex => rw [fragmentRoom_flows, flow?, hindex]
  · rfl

theorem insertFragment_wf {fw : Firewall} (hwf : fw.WF) (packet : ParsedPacket)
    (fragment : Fragment) (action : Action) (ruleId : Option RuleId) (now : Nat) :
    (insertFragment hash fw packet fragment action ruleId now).WF := by
  have hroom := fragmentRoom_wf fw (fragmentKey packet fragment)
    (hwf (fw.shardIndex (hash.fragment (fragmentKey packet fragment))))
  rw [insertFragment_eq]
  refine hwf.setShard ⟨hroom.flows, hroom.fragments.insert_fresh (association fw action ruleId now) ?_⟩
  rw [Option.eq_none_iff_forall_ne_some]
  intro st hst
  have hgone := (fragmentRoom_sub _ _ _).fragments hst
  simp at hgone

/-! ## Later fragments

A later fragment has no ports, so nothing but the association of its datagram can decide it.
-/

theorem evaluateLaterFragment_sub (fw : Firewall) (packet : ParsedPacket) (fragment : Fragment)
    (now : Nat) : Sub hash (evaluateLaterFragment hash fw packet fragment now).2 fw := by
  unfold evaluateLaterFragment
  simp only
  split
  · exact Sub.refl hash fw
  · split
    · exact Sub.setShard (Shard.Sub.removeFragment _ _)
    · exact Sub.refl hash fw

theorem evaluateLaterFragment_wf {fw : Firewall} (hwf : fw.WF) (packet : ParsedPacket)
    (fragment : Fragment) (now : Nat) : (evaluateLaterFragment hash fw packet fragment now).2.WF := by
  unfold evaluateLaterFragment
  simp only
  split
  · exact hwf
  · split
    · exact hwf.setShard ((hwf _).removeFragment _)
    · exact hwf

/-- A later fragment is decided by its live association and nothing else. -/
theorem evaluateLaterFragment_fst (fw : Firewall) (packet : ParsedPacket) (fragment : Fragment)
    (now : Nat) :
    (evaluateLaterFragment hash fw packet fragment now).1 =
      match (fragment? hash fw (fragmentKey packet fragment)).filter (now < ·.expiresAt) with
      | none => denied
      | some state => { action := state.action, ruleId := state.ruleId, stateful := true } := by
  unfold evaluateLaterFragment fragment?
  simp only
  split
  · next h => simp [h]
  · next state h =>
    split
    · next hdead =>
      have hlt : ¬ now < state.expiresAt := by omega
      simp [h, Option.filter, hlt]
    · next hlive =>
      have hlt : now < state.expiresAt := by omega
      simp [h, Option.filter, hlt]

/-! ## The whole evaluation

`Evaluates` lists the four ways out: state decided, a later fragment was decided, the policy denied, the
policy allowed. The statements about what an evaluation may change are read off it.
-/

/-- The packet passed because its policy callback was consulted and allowed it. -/
structure Permits (hash : ShardHash) (fw : Firewall) (packet : ParsedPacket) (now : Nat)
    (policy : PolicyCallback) : Prop where
  callback : (policy packet).1 = .allow
  action : (evaluateWithPolicy hash fw packet now policy).1.action = .allow
  stateful : (evaluateWithPolicy hash fw packet now policy).1.stateful = false

/-- The keys whose live entries can let a packet through: those an ICMP error quotes, then its own,
each in both directions. -/
def authorizingKeys (packet : ParsedPacket) : List FlowKey :=
  (packet.relatedFlow.toList ++ (FlowKey.fromPacket packet).toList).flatMap fun key =>
    [key, key.reverse]

theorem fromPacket_offset {packet : ParsedPacket} {flow : FlowKey}
    (h : FlowKey.fromPacket packet = some flow) {fragment : Fragment}
    (hf : packet.fragment = some fragment) : fragment.offset = 0 := by
  simp only [FlowKey.fromPacket, hf, Option.all_some, decide_eq_true_eq] at h
  split at h
  · next h0 => exact h0
  · cases h

theorem evaluateExisting_sub_of_none {fw : Firewall} {packet : ParsedPacket} {flow : FlowKey}
    {now : Nat} (h : (evaluateExisting hash fw packet flow now).1 = none) :
    Sub hash (evaluateExisting hash fw packet flow now).2 fw where
  flows := by
    intro k st hk
    rcases evaluateExisting_flow hk with hbefore | ⟨hsome, -⟩
    · exact hbefore
    · rw [h] at hsome
      cases hsome
  fragments := by
    intro k st
    exact evaluateExisting_keeps (P := fun fw' => fragment? hash fw' k = some st →
        fragment? hash fw k = some st)
      (fun fw' key initiator ih hk => ih (probe_fragment hk)) id

theorem evaluateExisting_timeouts (fw : Firewall) (packet : ParsedPacket) (flow : FlowKey)
    (now : Nat) : (evaluateExisting hash fw packet flow now).2.timeouts = fw.timeouts :=
  evaluateExisting_keeps (P := fun fw' => fw'.timeouts = fw.timeouts)
    (fun fw' key initiator ih => (probe_timeouts fw' packet key initiator now).trans ih) rfl

/-- A quoted flow that is alive in either direction. -/
def relatedLive (hash : ShardHash) (fw : Firewall) (packet : ParsedPacket) (now : Nat) : Bool :=
  packet.relatedFlow.any fun related =>
    hasState hash fw related now || hasState hash fw related.reverse now

/-- The four ways an evaluation can go. -/
inductive Evaluates (hash : ShardHash) (fw : Firewall) (packet : ParsedPacket) (now : Nat)
    (policy : PolicyCallback) : Decision × Firewall → Prop
  | later {fragment} : packet.fragment = some fragment → fragment.offset ≠ 0 →
      Evaluates hash fw packet now policy (evaluateLaterFragment hash fw packet fragment now)
  | related : (∀ fragment, packet.fragment = some fragment → fragment.offset = 0) →
      relatedLive hash fw packet now = true →
      Evaluates hash fw packet now policy (allowedByState, fw)
  | existing {flow decision} : FlowKey.fromPacket packet = some flow →
      relatedLive hash fw packet now = false →
      (evaluateExisting hash fw packet flow now).1 = some decision →
      Evaluates hash fw packet now policy
        (decision, (evaluateExisting hash fw packet flow now).2)
  | initiate {flow} : FlowKey.fromPacket packet = some flow →
      relatedLive hash fw packet now = false →
      (evaluateExisting hash fw packet flow now).1 = none →
      Evaluates hash fw packet now policy
        (initiate hash (evaluateExisting hash fw packet flow now).2 packet flow now policy)

theorem evaluates (fw : Firewall) (packet : ParsedPacket) (now : Nat) (policy : PolicyCallback) :
    Evaluates hash fw packet now policy (evaluateWithPolicy hash fw packet now policy) := by
  unfold evaluateWithPolicy
  split
  · next fragment hfragment =>
    rw [Option.filter_eq_some_iff] at hfragment
    exact .later hfragment.1 (by simpa using hfragment.2)
  · next hfragment =>
    have hzero : ∀ fragment, packet.fragment = some fragment → fragment.offset = 0 := by
      intro fragment hf
      rw [Option.filter_eq_none_iff] at hfragment
      simpa using hfragment fragment hf
    split
    · next hrelated => exact .related hzero hrelated
    · next hrelated =>
      have hrel : relatedLive hash fw packet now = false := by simpa [relatedLive] using hrelated
      split
      · next hnone =>
        -- a packet that is not a later fragment always has a flow key
        exfalso
        have hall : packet.fragment.all (fun fragment => fragment.offset = 0) = true := by
          simpa [Option.all_eq_true] using hzero
        simp [FlowKey.fromPacket, hall] at hnone
      · next flow hflow =>
        split
        · next decision fw' heq =>
          have h := @Evaluates.existing hash fw packet now policy flow decision hflow hrel (by rw [heq])
          rwa [heq] at h
        · next fw' heq =>
          have h := @Evaluates.initiate hash fw packet now policy flow hflow hrel (by rw [heq])
          rwa [heq] at h

/-- What `initiate` decides. -/
theorem initiate_fst (fw : Firewall) (packet : ParsedPacket) (flow : FlowKey) (now : Nat)
    (policy : PolicyCallback) :
    (initiate hash fw packet flow now policy).1 =
      if validInitiation packet then
        { action := (policy packet).1, ruleId := (policy packet).2, stateful := false }
      else denied := by
  unfold initiate
  cases validInitiation packet with
  | false => rfl
  | true =>
      simp only [Bool.not_true, Bool.false_eq_true, if_false, if_true]
      split
      · split <;> rfl
      · rfl

/-- The firewall once a permitted packet's flow is tracked, for the protocols that are. -/
def tracked (hash : ShardHash) (fw : Firewall) (packet : ParsedPacket) (flow : FlowKey) (now : Nat) :
    Firewall :=
  if packet.protocol ∈ [TCP, UDP, ICMP_V4, ICMP_V6] then insertFlow hash fw flow packet now else fw

/-- The firewall `initiate` leaves when the callback allows the packet. -/
def admitted (hash : ShardHash) (fw : Firewall) (packet : ParsedPacket) (flow : FlowKey) (now : Nat)
    (policy : PolicyCallback) : Firewall :=
  match packet.fragment.filter (·.more) with
  | some fragment =>
    insertFragment hash (tracked hash fw packet flow now) packet fragment .allow (policy packet).2 now
  | none => tracked hash fw packet flow now

theorem initiate_snd (fw : Firewall) (packet : ParsedPacket) (flow : FlowKey) (now : Nat)
    (policy : PolicyCallback) :
    (initiate hash fw packet flow now policy).2 =
      if validInitiation packet ∧ (policy packet).1 = .allow then
        admitted hash fw packet flow now policy
      else fw := by
  unfold initiate admitted tracked
  cases validInitiation packet with
  | false => simp
  | true =>
      simp only [Bool.not_true, Bool.false_eq_true, if_false, true_and]
      by_cases hallow : (policy packet).1 = .allow
      · simp only [hallow, if_true]
        cases packet.fragment.filter (·.more) <;> rfl
      · simp only [hallow, if_false]

theorem tracked_flow {fw : Firewall} {packet : ParsedPacket} {flow k : FlowKey} {now : Nat}
    {st : FlowState} (h : flow? hash (tracked hash fw packet flow now) k = some st) :
    flow? hash fw k = some st ∨ (k = flow ∧ st = opened fw packet now) := by
  unfold tracked at h
  split at h
  · exact insertFlow_flow h
  · exact .inl h

theorem tracked_fragment {fw : Firewall} {packet : ParsedPacket} {flow : FlowKey} {now : Nat}
    {k : FragmentKey} {st : FragmentState}
    (h : fragment? hash (tracked hash fw packet flow now) k = some st) :
    fragment? hash fw k = some st := by
  unfold tracked at h
  split at h
  · exact insertFlow_fragment h
  · exact h

theorem tracked_timeouts (fw : Firewall) (packet : ParsedPacket) (flow : FlowKey) (now : Nat) :
    (tracked hash fw packet flow now).timeouts = fw.timeouts := by
  unfold tracked
  split <;> rfl

theorem association_congr {fw fw' : Firewall} (h : fw.timeouts = fw'.timeouts) (action : Action)
    (ruleId : Option RuleId) (now : Nat) :
    association fw action ruleId now = association fw' action ruleId now := by
  simp only [timeouts, Prod.mk.injEq] at h
  rw [association, association, h.2.2]

theorem admitted_flow {fw : Firewall} {packet : ParsedPacket} {flow k : FlowKey} {now : Nat}
    {policy : PolicyCallback} {st : FlowState}
    (h : flow? hash (admitted hash fw packet flow now policy) k = some st) :
    flow? hash fw k = some st ∨ (k = flow ∧ st = opened fw packet now) := by
  unfold admitted at h
  split at h
  · rw [insertFragment_flow] at h
    exact tracked_flow h
  · exact tracked_flow h

theorem admitted_fragment {fw : Firewall} {packet : ParsedPacket} {flow : FlowKey} {now : Nat}
    {policy : PolicyCallback} {k : FragmentKey} {st : FragmentState}
    (h : fragment? hash (admitted hash fw packet flow now policy) k = some st) :
    fragment? hash fw k = some st ∨
      ∃ fragment, packet.fragment = some fragment ∧ fragment.more = true ∧
        k = fragmentKey packet fragment ∧ st = association fw .allow (policy packet).2 now := by
  unfold admitted at h
  split at h
  · next fragment hfragment =>
    rw [Option.filter_eq_some_iff] at hfragment
    rcases insertFragment_fragment h with ⟨-, hbefore⟩ | ⟨rfl, rfl⟩
    · exact .inl (tracked_fragment hbefore)
    · exact .inr ⟨fragment, hfragment.1, hfragment.2, rfl,
        association_congr (tracked_timeouts fw packet flow now) _ _ _⟩
  · exact .inl (tracked_fragment h)

/-- **Fragment associations after an evaluation**: kept, or opened by a first fragment that its
policy callback allowed. -/
theorem evaluate_fragment {fw : Firewall} {packet : ParsedPacket} {now : Nat}
    {policy : PolicyCallback} {k : FragmentKey} {st : FragmentState}
    (h : fragment? hash (evaluateWithPolicy hash fw packet now policy).2 k = some st) :
    fragment? hash fw k = some st ∨
      (Permits hash fw packet now policy ∧
        ∃ fragment, packet.fragment = some fragment ∧ fragment.offset = 0 ∧ fragment.more = true ∧
          k = fragmentKey packet fragment ∧ st = association fw .allow (policy packet).2 now) := by
  generalize hr : evaluateWithPolicy hash fw packet now policy = r at h ⊢
  have hcases := hr ▸ @evaluates hash fw packet now policy
  cases hcases with
  | later _ _ => exact .inl ((evaluateLaterFragment_sub fw packet _ now).fragments h)
  | related _ _ => exact .inl h
  | @existing flow decision hflow _ hdecision =>
      exact .inl (evaluateExisting_keeps (P := fun fw' => fragment? hash fw' k = some st →
        fragment? hash fw k = some st) (fun fw' key initiator ih hk => ih (probe_fragment hk)) id h)
  | @initiate flow hflow _ hnone =>
      have hsub := evaluateExisting_sub_of_none hnone
      rw [initiate_snd] at h
      split at h
      · next hvalid =>
        rcases admitted_fragment h with hbefore | ⟨fragment, hfragment, hmore, hkey, hst⟩
        · exact .inl (hsub.fragments hbefore)
        · refine .inr ⟨⟨hvalid.2, ?_, ?_⟩, fragment, hfragment, fromPacket_offset hflow hfragment,
            hmore, hkey, ?_⟩
          · rw [hr, initiate_fst, if_pos hvalid.1, hvalid.2]
          · rw [hr, initiate_fst, if_pos hvalid.1]
          · rw [hst]
            exact association_congr (evaluateExisting_timeouts fw packet flow now) _ _ _
      · exact .inl (hsub.fragments h)

theorem evaluate_keeps {P : Firewall → Prop} {packet : ParsedPacket} {now : Nat}
    {policy : PolicyCallback}
    (hlater : ∀ fw fragment, P fw → P (evaluateLaterFragment hash fw packet fragment now).2)
    (hprobe : ∀ fw key initiator, P fw → P (probe hash fw packet key initiator now).2)
    (hflow : ∀ fw flow, P fw → P (insertFlow hash fw flow packet now))
    (hfragment : ∀ fw fragment action ruleId, packet.fragment = some fragment →
      fragment.offset = 0 → fragment.more = true → P fw →
      P (insertFragment hash fw packet fragment action ruleId now))
    {fw : Firewall} (h : P fw) : P (evaluateWithPolicy hash fw packet now policy).2 := by
  generalize hr : evaluateWithPolicy hash fw packet now policy = r
  have hcases := hr ▸ @evaluates hash fw packet now policy
  cases hcases with
  | later _ _ => exact hlater fw _ h
  | related _ _ => exact h
  | existing _ _ _ => exact evaluateExisting_keeps hprobe h
  | @initiate flow hkey _ _ =>
      have hexisting : P (evaluateExisting hash fw packet flow now).2 :=
        evaluateExisting_keeps hprobe h
      have htracked : P (tracked hash (evaluateExisting hash fw packet flow now).2 packet flow now) := by
        unfold tracked
        split
        · exact hflow _ _ hexisting
        · exact hexisting
      rw [initiate_snd]
      split
      · unfold admitted
        split
        · next fragment hfirst =>
          rw [Option.filter_eq_some_iff] at hfirst
          exact hfragment _ _ _ _ hfirst.1 (fromPacket_offset hkey hfirst.1) hfirst.2 htracked
        · exact htracked
      · exact hexisting

theorem evaluate_wf {fw : Firewall} (hwf : fw.WF) (packet : ParsedPacket) (now : Nat)
    (policy : PolicyCallback) : (evaluateWithPolicy hash fw packet now policy).2.WF :=
  evaluate_keeps (P := WF) (fun _ fragment h => evaluateLaterFragment_wf h packet fragment now)
    (fun _ key initiator h => probe_wf h packet key initiator now)
    (fun _ flow h => insertFlow_wf h flow packet now)
    (fun _ fragment action ruleId _ _ _ h => insertFragment_wf h packet fragment action ruleId now)
    hwf

theorem evaluate_timeouts (fw : Firewall) (packet : ParsedPacket) (now : Nat)
    (policy : PolicyCallback) :
    (evaluateWithPolicy hash fw packet now policy).2.timeouts = fw.timeouts := by
  refine evaluate_keeps (P := fun fw' => fw'.timeouts = fw.timeouts) ?_ ?_ ?_ ?_ rfl
  · intro fw' fragment h
    rw [← h]
    unfold evaluateLaterFragment
    simp only
    split
    · rfl
    · split <;> rfl
  · intro fw' key initiator h
    exact (probe_timeouts fw' packet key initiator now).trans h
  · intro fw' flow h
    exact h
  · intro fw' fragment action ruleId _ _ _ h
    exact h

/-- **State hits.** A packet let through by state is a later fragment with a live association, or
one of its keys has a live flow entry. -/
theorem evaluate_stateful {fw : Firewall} (hwf : fw.WF) {packet : ParsedPacket} {now : Nat}
    {policy : PolicyCallback}
    (haction : (evaluateWithPolicy hash fw packet now policy).1.action = .allow)
    (hstateful : (evaluateWithPolicy hash fw packet now policy).1.stateful = true) :
    (∃ fragment st, packet.fragment = some fragment ∧ fragment.offset ≠ 0 ∧
        fragment? hash fw (fragmentKey packet fragment) = some st ∧ now < st.expiresAt) ∨
      ∃ key ∈ authorizingKeys packet, ∃ st, live? hash fw key now = some st := by
  generalize hr : evaluateWithPolicy hash fw packet now policy = r at haction hstateful
  have hcases := hr ▸ @evaluates hash fw packet now policy
  cases hcases with
  | @later fragment hfragment hoffset =>
      rw [evaluateLaterFragment_fst] at haction
      split at haction
      · cases haction
      · next st hst =>
        rw [Option.filter_eq_some_iff] at hst
        exact .inl ⟨fragment, st, hfragment, hoffset, hst.1, by simpa using hst.2⟩
  | related _ hlive =>
      rw [relatedLive, Option.any_eq_true] at hlive
      obtain ⟨related, hrelated, hlive⟩ := hlive
      simp only [hasState_eq, Bool.or_eq_true, Option.isSome_iff_exists] at hlive
      rcases hlive with hlive | hlive
      · exact .inr ⟨related, by simp [authorizingKeys, hrelated], hlive⟩
      · exact .inr ⟨related.reverse, by simp [authorizingKeys, hrelated], hlive⟩
  | @existing flow decision hflow _ hdecision =>
      rw [evaluateExisting_fst hwf, Option.or_eq_some_iff, Option.map_eq_some_iff] at hdecision
      rcases hdecision with ⟨st, hst, -⟩ | ⟨-, hdecision⟩
      · exact .inr ⟨flow, by simp [authorizingKeys, hflow], st, hst⟩
      · obtain ⟨st, hst, -⟩ := Option.map_eq_some_iff.mp hdecision
        exact .inr ⟨flow.reverse, by simp [authorizingKeys, hflow], st, hst⟩
  | initiate _ _ _ =>
      rw [initiate_fst] at hstateful
      split at hstateful <;> cases hstateful

/-! ## The clearing operations

Clearing deletes, and a newer revision deletes everything. Nothing that is left changes.
-/

theorem forgetFlow_sub (fw : Firewall) (key : FlowKey) : Sub hash (fw.forgetFlow key) fw := by
  have hshard : ∀ shard : Shard, (forgetInShard key shard).Sub shard := fun shard =>
    (Shard.Sub.foldl_removeFragment _ _).trans
      ((Shard.Sub.removeFlow _ _).trans (Shard.Sub.removeFlow _ _))
  exact ⟨fun h => (hshard _).flows h, fun h => (hshard _).fragments h⟩

/-- A forgotten flow is gone in both directions. -/
theorem forgetFlow_flow {fw : Firewall} {key k : FlowKey} (hk : k = key ∨ k = key.reverse) :
    flow? hash (fw.forgetFlow key) k = none := by
  show (forgetInShard key (fw.shards (fw.shardIndex (hash.flow k)))).flows[k]? = none
  rw [forgetInShard, Shard.foldl_removeFragment_flows]
  rcases hk with rfl | rfl <;> simp

/-- Associations `forgets` selects are gone. -/
theorem forgetFlow_fragment {fw : Firewall} {key : FlowKey} {k : FragmentKey}
    (hk : forgets key k = true) : fragment? hash (fw.forgetFlow key) k = none := by
  show (forgetInShard key (fw.shards (fw.shardIndex (hash.fragment k)))).fragments[k]? = none
  rw [forgetInShard, Shard.foldl_removeFragment_fragments]
  split
  · rfl
  · next hmem =>
    refine ExtTreeMap.getElem?_eq_none fun hin => ?_
    exact hmem (List.mem_filter.mpr ⟨ExtTreeMap.mem_keys.mpr hin, hk⟩)

theorem forgetFlow_wf {fw : Firewall} (hwf : fw.WF) (key : FlowKey) : (fw.forgetFlow key).WF :=
  fun index => (((hwf index).removeFlow key).removeFlow key.reverse).foldl_removeFragment _

@[simp] theorem invalidateState_flow (fw : Firewall) (k : FlowKey) :
    flow? hash fw.invalidateState k = none := by
  simp [flow?, invalidateState]

@[simp] theorem invalidateState_fragment (fw : Firewall) (k : FragmentKey) :
    fragment? hash fw.invalidateState k = none := by
  simp [fragment?, invalidateState]

/-- Whether a `replace` takes effect, and clears every table when it does. -/
theorem replace_cases (fw : Firewall) (revision : Nat) (default : Action) (rules : List Rule) :
    (fw.replace revision default rules).1 = false ∧ (fw.replace revision default rules).2 = fw ∨
      (fw.replace revision default rules).1 = true ∧
        (∀ k, flow? hash (fw.replace revision default rules).2 k = none) ∧
        (∀ k, fragment? hash (fw.replace revision default rules).2 k = none) := by
  unfold replace
  split
  · exact .inl ⟨rfl, rfl⟩
  · exact .inr ⟨rfl, fun k => invalidateState_flow _ k, fun k => invalidateState_fragment _ k⟩

/-! ## Invariants of every run -/

theorem step_wf {fw : Firewall} (hwf : fw.WF) (op : Op) : (step hash fw op).WF := by
  cases op with
  | evaluate packet now policy => exact evaluate_wf hwf packet now policy
  | forgetFlow key => exact forgetFlow_wf hwf key
  | invalidateState => exact fun _ => Shard.WF.empty
  | replace revision default rules =>
      show (fw.replace revision default rules).2.WF
      unfold replace
      split
      · exact hwf
      · exact fun _ => Shard.WF.empty

theorem step_timeouts (fw : Firewall) (op : Op) : (step hash fw op).timeouts = fw.timeouts := by
  cases op with
  | evaluate packet now policy => exact evaluate_timeouts fw packet now policy
  | forgetFlow key => rfl
  | invalidateState => rfl
  | replace revision default rules =>
      show (fw.replace revision default rules).2.timeouts = fw.timeouts
      unfold replace
      split <;> rfl

theorem run_wf {fw : Firewall} (hwf : fw.WF) (ops : List Op) : (run hash fw ops).WF :=
  exec_invariant hwf (fun _ op h => step_wf h op) ops

theorem run_timeouts (fw : Firewall) (ops : List Op) : (run hash fw ops).timeouts = fw.timeouts :=
  exec_invariant (I := fun fw' => fw'.timeouts = fw.timeouts) rfl
    (fun fw' op h => (step_timeouts fw' op).trans h) ops

end Firewall

end Peerward.Dataplane
