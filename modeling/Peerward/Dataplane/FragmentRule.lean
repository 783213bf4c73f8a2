import Peerward.Dataplane.Provenance

/-!
# The fragment rule

The crate documents that a permitted first fragment creates a short-lived association for its later
fragments. Only the path through a fresh policy decision does so: a first fragment that an existing
or a quoted flow lets through returns before the association is stored. `AuthorizesLater` is the
documented rule; `Covered` says, on the firewall before the first fragment, exactly when it is kept.
-/

namespace Peerward.Dataplane.Firewall

open Std Peerward.Lib Peerward.Net

variable {hash : ShardHash}

/-! ## The rule

The documentation says that a permitted first fragment lets its later fragments through for a while. Said
of one first fragment, in one state, whatever else happens in between.
-/

/-- An operation that leaves the association of `key` alone up to `deadline`: an evaluation no later
than that, of a packet that is not a first fragment of the same shard. -/
def Quiet (hash : ShardHash) (shardCount : Nat) (key : FragmentKey) (deadline : Nat) : Op → Prop
  | .evaluate packet now _ => now ≤ deadline ∧
      ∀ fragment, packet.fragment = some fragment → fragment.offset = 0 → fragment.more = true →
        hash.fragment (fragmentKey packet fragment) % shardCount ≠ hash.fragment key % shardCount
  | _ => False

/-- **The documented rule**, for the first fragment `packet`: if it passes, so does every later
fragment of the same datagram within 15 seconds, whatever quiet operations come in between. -/
def AuthorizesLater (hash : ShardHash) (fw : Firewall) (packet : ParsedPacket) (fragment : Fragment)
    (now : Nat) (policy : PolicyCallback) : Prop :=
  (evaluateWithPolicy hash fw packet now policy).1.action = .allow →
    ∀ (between : List Op) (later : ParsedPacket) (laterFragment : Fragment) (laterNow : Nat)
      (laterPolicy : PolicyCallback),
      now ≤ laterNow → laterNow < now + 15 → laterNow ≤ U64_MAX →
      (∀ op ∈ between, Quiet hash fw.shardCount (fragmentKey packet fragment) laterNow op) →
      later.fragment = some laterFragment → laterFragment.offset ≠ 0 →
      fragmentKey later laterFragment = fragmentKey packet fragment →
      (evaluateWithPolicy hash (run hash (evaluateWithPolicy hash fw packet now policy).2 between)
        later laterNow laterPolicy).1.action = .allow

/-- What live state says about a packet that is no later fragment: `none` leaves the decision to the
policy callback. -/
def stateVerdict (hash : ShardHash) (fw : Firewall) (packet : ParsedPacket) (now : Nat) :
    Option Bool :=
  if relatedLive hash fw packet now then some true
  else (FlowKey.fromPacket packet).bind fun flow =>
    ((live? hash fw flow now).map fun state => (phaseAfter packet true state.phase).isSome).or
      ((live? hash fw flow.reverse now).map fun state =>
        (phaseAfter packet false state.phase).isSome)

/-- The condition under which the rule is kept. A first fragment that state lets through must find
an association that already lasts 15 seconds; one that its policy callback lets through must come
early enough for the clock to represent the new deadline. -/
def Covered (hash : ShardHash) (fw : Firewall) (packet : ParsedPacket) (fragment : Fragment)
    (now : Nat) (policy : PolicyCallback) : Prop :=
  match stateVerdict hash fw packet now with
  | some true => ∃ st, fragment? hash fw (fragmentKey packet fragment) = some st ∧
      now + 15 ≤ st.expiresAt
  | some false => True
  | none => validInitiation packet = true → (policy packet).1 = .allow → now + 15 ≤ U64_MAX

/-! ## Associations of reachable firewalls -/

/-- Every association allows, and its deadline is a clock reading. -/
def FragmentsAllow (hash : ShardHash) (fw : Firewall) : Prop :=
  ∀ ⦃key st⦄, fragment? hash fw key = some st → st.action = .allow ∧ st.expiresAt ≤ U64_MAX

theorem step_fragmentsAllow {fw : Firewall} (h : FragmentsAllow hash fw) (op : Op) :
    FragmentsAllow hash (step hash fw op) := by
  intro key st hst
  cases op with
  | evaluate packet now policy =>
      rcases evaluate_fragment hst with hbefore | ⟨-, fragment, -, -, -, -, rfl⟩
      · exact h hbefore
      · exact ⟨rfl, min_le_right _ _⟩
  | forgetFlow forgotten => exact h ((forgetFlow_sub fw forgotten).fragments hst)
  | invalidateState => simp [step] at hst
  | replace revision default rules =>
      rcases @replace_cases hash fw revision default rules with ⟨-, hsame⟩ | ⟨-, -, hnone⟩
      · rw [step, hsame] at hst
        exact h hst
      · exact absurd ((hnone key).symm.trans hst) (by simp)

theorem run_fragmentsAllow {fw : Firewall} (h : FragmentsAllow hash fw) (ops : List Op) :
    FragmentsAllow hash (run hash fw ops) :=
  exec_invariant h (fun _ op h => step_fragmentsAllow h op) ops

/-! ## A live association survives quiet operations

Nothing but its deadline, a clearing operation or a full shard removes an association, and only a first
fragment makes a shard fuller.
-/

theorem probe_shardCount (fw : Firewall) (packet : ParsedPacket) (key : FlowKey) (initiator : Bool)
    (now : Nat) : (probe hash fw packet key initiator now).2.shardCount = fw.shardCount := by
  rw [probe_eq]
  split
  · rfl
  · split
    · rfl
    · split
      · rfl
      · split <;> rfl

theorem evaluateLaterFragment_shardCount (fw : Firewall) (packet : ParsedPacket)
    (fragment : Fragment) (now : Nat) :
    (evaluateLaterFragment hash fw packet fragment now).2.shardCount = fw.shardCount := by
  unfold evaluateLaterFragment
  simp only
  split
  · rfl
  · split <;> rfl

theorem evaluate_shardCount (fw : Firewall) (packet : ParsedPacket) (now : Nat)
    (policy : PolicyCallback) :
    (evaluateWithPolicy hash fw packet now policy).2.shardCount = fw.shardCount :=
  evaluate_keeps (P := fun fw' => fw'.shardCount = fw.shardCount)
    (fun fw' fragment h => (evaluateLaterFragment_shardCount fw' packet fragment now).trans h)
    (fun fw' key initiator h => (probe_shardCount fw' packet key initiator now).trans h)
    (fun _ _ h => h) (fun _ _ _ _ _ _ _ h => h) rfl

theorem evaluateLaterFragment_live {fw : Firewall} {packet : ParsedPacket} {fragment : Fragment}
    {now : Nat} {k : FragmentKey} {st : FragmentState} (hk : fragment? hash fw k = some st)
    (hlive : now < st.expiresAt) :
    fragment? hash (evaluateLaterFragment hash fw packet fragment now).2 k = some st := by
  unfold evaluateLaterFragment
  simp only
  split
  · exact hk
  · next found hfound =>
    split
    · next hdead =>
      rw [fragment?_setShard]
      split
      · next hindex =>
        -- only an association that has run out is dropped, so it is not this one
        have hne : fragmentKey packet fragment ≠ k := by
          rintro rfl
          rw [fragment?, hfound] at hk
          cases hk
          omega
        rw [fragment?, hindex] at hk
        rw [Shard.removeFragment_fragments, if_neg hne, hk]
      · exact hk
    · exact hk

theorem insertFragment_elsewhere {fw : Firewall} {packet : ParsedPacket} {fragment : Fragment}
    {action : Action} {ruleId : Option RuleId} {now : Nat} {k : FragmentKey}
    (h : hash.fragment (fragmentKey packet fragment) % fw.shardCount ≠
      hash.fragment k % fw.shardCount) :
    fragment? hash (insertFragment hash fw packet fragment action ruleId now) k =
      fragment? hash fw k := by
  rw [insertFragment_eq, fragment?_setShard, if_neg]
  intro hindex
  exact h (congrArg Fin.val hindex).symm

theorem step_association_live {fw : Firewall} (hwf : fw.WF) {shardCount : Nat}
    (hcount : fw.shardCount = shardCount) {k : FragmentKey} {st : FragmentState} {deadline : Nat}
    (hk : fragment? hash fw k = some st) (hlive : deadline < st.expiresAt) {op : Op}
    (hquiet : Quiet hash shardCount k deadline op) :
    (step hash fw op).WF ∧ (step hash fw op).shardCount = shardCount ∧
      fragment? hash (step hash fw op) k = some st := by
  cases op with
  | evaluate packet now policy =>
      obtain ⟨hnow, hfirst⟩ := hquiet
      have hlt : now < st.expiresAt := by omega
      refine evaluate_keeps (P := fun fw' => fw'.WF ∧ fw'.shardCount = shardCount ∧
        fragment? hash fw' k = some st) ?_ ?_ ?_ ?_ ⟨hwf, hcount, hk⟩
      · rintro fw' fragment ⟨hwf', hcount', hk'⟩
        exact ⟨evaluateLaterFragment_wf hwf' packet fragment now,
          (evaluateLaterFragment_shardCount fw' packet fragment now).trans hcount',
          evaluateLaterFragment_live hk' hlt⟩
      · rintro fw' key initiator ⟨hwf', hcount', hk'⟩
        exact ⟨probe_wf hwf' packet key initiator now,
          (probe_shardCount fw' packet key initiator now).trans hcount',
          probe_fragment_live hwf' hk' hlt⟩
      · rintro fw' flow ⟨hwf', hcount', hk'⟩
        exact ⟨insertFlow_wf hwf' flow packet now, hcount', insertFlow_fragment_live hwf' hk' hlt⟩
      · rintro fw' fragment action ruleId hfragment hoffset hmore ⟨hwf', hcount', hk'⟩
        refine ⟨insertFragment_wf hwf' packet fragment action ruleId now, hcount', ?_⟩
        rw [insertFragment_elsewhere (hcount' ▸ hfirst fragment hfragment hoffset hmore)]
        exact hk'
  | forgetFlow key => exact hquiet.elim
  | invalidateState => exact hquiet.elim
  | replace revision default rules => exact hquiet.elim

/-- By induction on the operations in between. -/
theorem run_association_live {fw : Firewall} (hwf : fw.WF) {k : FragmentKey} {st : FragmentState}
    {deadline : Nat} (hk : fragment? hash fw k = some st) (hlive : deadline < st.expiresAt)
    {ops : List Op} (hquiet : ∀ op ∈ ops, Quiet hash fw.shardCount k deadline op) :
    fragment? hash (run hash fw ops) k = some st := by
  suffices h : ∀ ops, (∀ op ∈ ops, Quiet hash fw.shardCount k deadline op) →
      (run hash fw ops).WF ∧ (run hash fw ops).shardCount = fw.shardCount ∧
        fragment? hash (run hash fw ops) k = some st from (h ops hquiet).2.2
  intro ops
  induction ops using List.reverseRecOn with
  | nil => exact fun _ => ⟨hwf, rfl, hk⟩
  | append_singleton ops op ih =>
      intro hall
      obtain ⟨hwf', hcount', hk'⟩ := ih fun op hop => hall op (by simp [hop])
      rw [run, exec_concat]
      exact step_association_live hwf' hcount' hk' hlive (hall op (by simp))

/-! ## What a first fragment leaves behind

Which of the four ways its evaluation goes decides whether an association is there afterwards. State that
lets it through leaves none.
-/

theorem evaluateExisting_verdict {fw : Firewall} (hwf : fw.WF) {packet : ParsedPacket}
    {flow : FlowKey} {now : Nat} (hflow : FlowKey.fromPacket packet = some flow)
    (hrelated : relatedLive hash fw packet now = false) :
    (evaluateExisting hash fw packet flow now).1 =
      (stateVerdict hash fw packet now).map fun allowed =>
        if allowed then allowedByState else denied := by
  rw [evaluateExisting_fst hwf, stateVerdict, if_neg (by simp [hrelated]), hflow, Option.bind_some,
    Option.map_or, Option.map_map, Option.map_map]
  rfl

/-- The firewall after a first fragment, by what decided it. -/
theorem evaluate_first {fw : Firewall} (hwf : fw.WF) {packet : ParsedPacket} {fragment : Fragment}
    (hfragment : packet.fragment = some fragment) (hoffset : fragment.offset = 0)
    (hmore : fragment.more = true) (now : Nat) (policy : PolicyCallback) :
    match stateVerdict hash fw packet now with
    | some true => (evaluateWithPolicy hash fw packet now policy).1 = allowedByState ∧
        ∀ ⦃key st⦄, fragment? hash fw key = some st → now < st.expiresAt →
          fragment? hash (evaluateWithPolicy hash fw packet now policy).2 key = some st
    | some false => (evaluateWithPolicy hash fw packet now policy).1 = denied
    | none =>
      if validInitiation packet = true ∧ (policy packet).1 = .allow then
        (evaluateWithPolicy hash fw packet now policy).1.action = .allow ∧
          fragment? hash (evaluateWithPolicy hash fw packet now policy).2
            (fragmentKey packet fragment) = some (association fw .allow (policy packet).2 now)
      else (evaluateWithPolicy hash fw packet now policy).1.action = .deny := by
  generalize hr : evaluateWithPolicy hash fw packet now policy = r
  have hcases := hr ▸ @evaluates hash fw packet now policy
  cases hcases with
  | @later other hother hne =>
      rw [hfragment] at hother
      cases hother
      exact absurd hoffset hne
  | related _ hlive =>
      rw [stateVerdict, if_pos hlive]
      exact ⟨rfl, fun _ _ hst _ => hst⟩
  | @existing flow decision hflow hrelated hdecision =>
      rw [evaluateExisting_verdict hwf hflow hrelated, Option.map_eq_some_iff] at hdecision
      obtain ⟨allowed, hallowed, rfl⟩ := hdecision
      rw [hallowed]
      cases allowed with
      | false => rfl
      | true =>
          refine ⟨rfl, fun key st hst hlive => ?_⟩
          -- state has decided: what was associated stays so, and nothing is added
          have hkept := @evaluateExisting_keeps hash
            (fun fw' => fw'.WF ∧ fragment? hash fw' key = some st) packet flow now
            (fun fw' k initiator h => ⟨probe_wf h.1 packet k initiator now,
              probe_fragment_live h.1 h.2 hlive⟩) fw ⟨hwf, hst⟩
          exact hkept.2
  | @initiate flow hflow hrelated hnone =>
      -- state says nothing: the policy decides, and its permission is associated
      have hverdict := evaluateExisting_verdict hwf hflow hrelated
      rw [hnone, eq_comm, Option.map_eq_none_iff] at hverdict
      rw [hverdict]
      dsimp only
      split
      · next hvalid =>
        refine ⟨by rw [initiate_fst, if_pos hvalid.1]; exact hvalid.2, ?_⟩
        rw [initiate_snd, if_pos hvalid, admitted]
        simp only [hfragment, Option.filter_some, hmore, if_true]
        rw [insertFragment_self]
        exact congrArg some (association_congr ((tracked_timeouts _ packet flow now).trans
          (evaluateExisting_timeouts fw packet flow now)) _ _ _)
      · next hvalid =>
        rw [initiate_fst]
        split
        · next hinit =>
          cases haction : (policy packet).1 with
          | allow => exact absurd ⟨hinit, haction⟩ hvalid
          | deny => rfl
        · rfl

/-- A later fragment passes exactly when its association is alive, in a firewall whose associations
all allow. -/
theorem later_allowed_iff {fw : Firewall} (hallow : FragmentsAllow hash fw) {packet : ParsedPacket}
    {fragment : Fragment} (hfragment : packet.fragment = some fragment)
    (hoffset : fragment.offset ≠ 0) (now : Nat) (policy : PolicyCallback) :
    (evaluateWithPolicy hash fw packet now policy).1.action = .allow ↔
      ∃ st, fragment? hash fw (fragmentKey packet fragment) = some st ∧ now < st.expiresAt := by
  have heval : evaluateWithPolicy hash fw packet now policy =
      evaluateLaterFragment hash fw packet fragment now := by
    rw [evaluateWithPolicy, hfragment, Option.filter_some, if_pos (by simpa using hoffset)]
  rw [heval, evaluateLaterFragment_fst]
  constructor
  · intro h
    split at h
    · cases h
    · next st hst =>
      rw [Option.filter_eq_some_iff] at hst
      exact ⟨st, hst.1, by simpa using hst.2⟩
  · rintro ⟨st, hst, hlive⟩
    rw [hst, Option.filter_some, if_pos (by simpa using hlive)]
    exact (hallow hst).1

/-- The shortest later fragment of a datagram; it carries no transport header. -/
def tail (packet : ParsedPacket) (fragment : Fragment) : ParsedPacket :=
  { packet with
    sourcePort := none
    destinationPort := none
    tcpFlags := none
    icmp := none
    relatedFlow := none
    fragment := some { fragment with offset := 1, more := false } }

section FirstFragment

variable {fw : Firewall} (hwf : fw.WF) (hstd : Standard fw) (hallow : FragmentsAllow hash fw)
  {packet : ParsedPacket} {fragment : Fragment}

include hwf hallow in
/-- An association that lasts long enough after the first fragment serves every later one. -/
theorem authorizesLater_of_association {now : Nat} {policy : PolicyCallback} {st : FragmentState}
    (hst : fragment? hash (evaluateWithPolicy hash fw packet now policy).2
      (fragmentKey packet fragment) = some st) (hlasts : now + 15 ≤ st.expiresAt) :
    AuthorizesLater hash fw packet fragment now policy := by
  intro _ between later laterFragment laterNow laterPolicy _ hlt _ hquiet hlater hne hkey
  have hafter : FragmentsAllow hash (evaluateWithPolicy hash fw packet now policy).2 :=
    step_fragmentsAllow hallow (.evaluate packet now policy)
  rw [later_allowed_iff (run_fragmentsAllow hafter between) hlater hne, hkey]
  have hlive : laterNow < st.expiresAt := by omega
  exact ⟨st, run_association_live (evaluate_wf hwf packet now policy) hst hlive
    (evaluate_shardCount fw packet now policy ▸ hquiet), hlive⟩

include hallow in
/-- Conversely the rule fails on the datagram's tail, presented as late as the clock allows, unless
there is such an association. -/
theorem association_of_authorizesLater {now : Nat} {policy : PolicyCallback} (hnow : now ≤ U64_MAX)
    (h : AuthorizesLater hash fw packet fragment now policy)
    (haction : (evaluateWithPolicy hash fw packet now policy).1.action = .allow) :
    ∃ st, fragment? hash (evaluateWithPolicy hash fw packet now policy).2
      (fragmentKey packet fragment) = some st ∧ now + 15 ≤ st.expiresAt := by
  have hafter : FragmentsAllow hash (evaluateWithPolicy hash fw packet now policy).2 :=
    step_fragmentsAllow hallow (.evaluate packet now policy)
  have htail := h haction [] (tail packet fragment) { fragment with offset := 1, more := false }
    (min (now + 14) U64_MAX) policy (by omega) (by omega) (by omega) (by simp) rfl (by simp) rfl
  obtain ⟨st, hst, hlive⟩ := (later_allowed_iff hafter rfl (by simp) _ _).mp htail
  have hbound := (hafter hst).2
  exact ⟨st, hst, by omega⟩

variable (hfragment : packet.fragment = some fragment) (hoffset : fragment.offset = 0)
  (hmore : fragment.more = true)

include hwf hstd hallow hfragment hoffset hmore in
theorem authorizesLater_of_covered {now : Nat} {policy : PolicyCallback}
    (h : Covered hash fw packet fragment now policy) :
    AuthorizesLater hash fw packet fragment now policy := by
  have hfirst := @evaluate_first hash fw hwf packet fragment hfragment hoffset hmore now policy
  unfold Covered at h
  cases hverdict : stateVerdict hash fw packet now with
  | none =>
      rw [hverdict] at h hfirst
      dsimp only at h hfirst
      split at hfirst
      · next hvalid =>
        refine authorizesLater_of_association hwf hallow hfirst.2 ?_
        have htimeout : fw.fragmentTimeout = 15 := congrArg (·.2.2) hstd
        rw [association, htimeout, saturatingAdd_eq (h hvalid.1 hvalid.2)]
      · intro haction
        rw [hfirst] at haction
        cases haction
  | some allowed =>
      rw [hverdict] at h hfirst
      cases allowed with
      | true =>
          obtain ⟨st, hst, hlasts⟩ := h
          exact authorizesLater_of_association hwf hallow (hfirst.2 hst (by omega)) hlasts
      | false =>
          intro haction
          rw [hfirst] at haction
          cases haction

include hwf hallow hfragment hoffset hmore in
theorem covered_of_authorizesLater {now : Nat} {policy : PolicyCallback} (hnow : now ≤ U64_MAX)
    (h : AuthorizesLater hash fw packet fragment now policy) :
    Covered hash fw packet fragment now policy := by
  have hfirst := @evaluate_first hash fw hwf packet fragment hfragment hoffset hmore now policy
  unfold Covered
  cases hverdict : stateVerdict hash fw packet now with
  | none =>
      rw [hverdict] at hfirst
      intro hvalid haction
      dsimp only at hfirst
      rw [if_pos ⟨hvalid, haction⟩] at hfirst
      obtain ⟨st, hst, hlasts⟩ := association_of_authorizesLater hallow hnow h hfirst.1
      have hbound := (step_fragmentsAllow hallow (.evaluate packet now policy) hst).2
      omega
  | some allowed =>
      rw [hverdict] at hfirst
      cases allowed with
      | true =>
          have haction := congrArg Decision.action hfirst.1
          obtain ⟨st, hst, hlasts⟩ := association_of_authorizesLater hallow hnow h haction
          rcases evaluate_fragment hst with hbefore | ⟨hpermits, -⟩
          · exact ⟨st, hbefore, hlasts⟩
          · have hstateful := hpermits.stateful
            rw [hfirst.1] at hstateful
            cases hstateful
      | false => trivial

end FirstFragment

/-- **When a permitted first fragment authorizes its later fragments.** In every reachable firewall
the documented rule holds of a first fragment exactly when no live flow lets it through without an
association that lasts long enough (and the deadline of a new one fits the clock). -/
theorem authorizesLater_iff_covered (hash : ShardHash) (revision : Nat) (default : Action)
    (rules : List Rule) (stateLimit shardCount : Nat) (ops : List Op) (packet : ParsedPacket)
    (fragment : Fragment) (now : Nat) (policy : PolicyCallback)
    (hfragment : packet.fragment = some fragment) (hoffset : fragment.offset = 0)
    (hmore : fragment.more = true) (hnow : now ≤ U64_MAX) :
    AuthorizesLater hash (run hash (Firewall.new revision default rules stateLimit shardCount) ops)
        packet fragment now policy ↔
      Covered hash (run hash (Firewall.new revision default rules stateLimit shardCount) ops)
        packet fragment now policy := by
  have hwf := @run_wf hash _ (WF.new revision default rules stateLimit shardCount) ops
  have hstd : Standard (run hash (Firewall.new revision default rules stateLimit shardCount) ops) :=
    (run_timeouts _ ops).trans rfl
  have hallow := @run_fragmentsAllow hash (Firewall.new revision default rules stateLimit shardCount)
    (fun key st hst => by simp [fragment?, Firewall.new] at hst) ops
  exact ⟨covered_of_authorizesLater hwf hallow hfragment hoffset hmore hnow,
    authorizesLater_of_covered hwf hstd hallow hfragment hoffset hmore⟩

/-- A DNS query from 10.0.0.2 to 10.0.1.53. -/
def dnsQuery : ParsedPacket where
  source := .v4 0x0a000002#32
  destination := .v4 0x0a000135#32
  protocol := UDP
  sourcePort := some 53000
  destinationPort := some 53
  tcpFlags := none
  icmp := none
  fragment := none
  packetLen := 28
  relatedFlow := none

/-- The first fragment of a longer query on the flow of `dnsQuery`. -/
def dnsFirstFragment : ParsedPacket :=
  { dnsQuery with fragment := some { identification := 7, offset := 0, more := true } }

/-- A fresh flow: the first fragment opens an association and its tail passes. -/
theorem fresh_dnsFirstFragment_authorizesLater :
    AuthorizesLater ⟨fun _ => 0, fun _ => 0⟩ (Firewall.new 1 .deny [] 16 2) dnsFirstFragment
      { identification := 7, offset := 0, more := true } 1 fun _ => (.allow, none) :=
  (authorizesLater_iff_covered ⟨fun _ => 0, fun _ => 0⟩ 1 .deny [] 16 2 [] dnsFirstFragment
    { identification := 7, offset := 0, more := true } 1 (fun _ => (.allow, none)) rfl rfl rfl
    (by decide)).mpr fun _ _ => by decide

/-- The flow already exists: `evaluate_existing` lets the first fragment through, no association is
stored, and the tail of the same datagram is denied one second later. -/
theorem established_dnsFirstFragment_strands_tail :
    ¬ AuthorizesLater ⟨fun _ => 0, fun _ => 0⟩
      (run ⟨fun _ => 0, fun _ => 0⟩ (Firewall.new 1 .deny [] 16 2)
        [.evaluate dnsQuery 1 fun _ => (.allow, none)])
      dnsFirstFragment { identification := 7, offset := 0, more := true } 2
      fun _ => (.allow, none) := by
  intro h
  have htail := h (by decide +kernel) []
    (tail dnsFirstFragment { identification := 7, offset := 0, more := true })
    { identification := 7, offset := 1, more := false } 3 (fun _ => (.allow, none)) (by decide)
    (by decide) (by decide) (by simp) rfl (by decide) rfl
  revert htail
  decide +kernel

end Peerward.Dataplane.Firewall
