import Peerward.Dataplane.FirewallSteps
import Peerward.PeerCore.PairIsolation
import Peerward.Policy.DenialAudits

/-!
# ICMP errors about a connection

Both connection trackers let an ICMP error through on the state of the flow it quotes. The firewall
looks the quoted flow up in both directions; the evaluator looks it up as it is quoted, and its table
holds a flow in the direction it was opened in and in no other (`OneWay`). An error about a reply
therefore finds nothing.
-/

namespace Peerward.IdentityPolicy.Evaluator

open Std Peerward.Lib Peerward.Net Peerward.Types

/-! ## One direction per flow

A flow is recorded in the direction of its first packet. An error may quote it in the other one, and the
evaluator is asked with the flow as quoted.
-/

/-- No flow is recorded in both directions. -/
def OneWay (evaluator : Evaluator) : Prop :=
  ∀ key, key ∈ evaluator.states → key.reverse ∈ evaluator.states → key.reverse = key

theorem OneWay.within {later earlier : Evaluator} (h : earlier.OneWay) (hwithin : Within later earlier) :
    later.OneWay :=
  fun key hkey hreverse => h key (hwithin.states hkey) (hwithin.states hreverse)

theorem checked_within (evaluator : Evaluator) (packet : Packet) (now : Nat) :
    Within (evaluator.checked packet now).2 evaluator :=
  (anyValid_within _ _ _).trans (expireLoop_pruned _ _ _).within

theorem OneWay.evaluate {evaluator : Evaluator} (h : evaluator.OneWay) (packet : Packet) (now : Nat) :
    (evaluator.evaluate packet now).2.OneWay := by
  have hchecked := evaluator.checked_within packet now
  have hcases := evaluator.evaluates packet now
  generalize evaluator.evaluate packet now = result at hcases ⊢
  cases hcases with
  | foreign => exact h.within ((denial_within _ _ _ _).trans (expireLoop_pruned _ _ _).within)
  | passed => exact h.within hchecked
  | barred => exact h.within ((denial_within _ _ _ _).trans hchecked)
  | refused => exact h.within ((denial_within _ _ _ _).trans hchecked)
  | opened _ invalid initiates =>
      -- the flow is recorded only when neither direction of it is
      have habsent : ∀ key ∈ [packet.flow, packet.flow.reverse],
          key ∉ (evaluator.checked packet now).2.states := by
        intro key hkey hmem
        obtain ⟨entry, hentry⟩ := mem_states_iff.mp hmem
        have hnone := anyValid_absent invalid (key, packet.relatedFlow.isNone) (by
          simpa [stateKeys, initiates.fragmentOf, initiates.relatedFlow] using hkey)
        exact absurd (hnone.symm.trans hentry) (by rintro ⟨⟩)
      intro key hkey hreverse
      rcases insertState_states hkey with rfl | hkey
      · rcases insertState_states hreverse with heq | hreverse
        · exact heq
        · exact absurd hreverse (habsent _ (by simp))
      · rcases insertState_states hreverse with heq | hreverse
        · exact absurd hkey (habsent key (by simp [← heq]))
        · exact h.within hchecked key hkey hreverse

theorem OneWay.run {evaluator : Evaluator} (h : evaluator.OneWay) (ops : List Op) :
    (evaluator.run ops).OneWay := by
  refine exec_invariant h (fun later op h => ?_) ops
  cases op with
  | evaluate packet now => exact h.evaluate packet now
  | replacePolicy policy =>
      rcases later.replacePolicy_cases policy with heq | heq
      · rwa [heq]
      · rw [heq]
        intro key hkey
        simp [cleared] at hkey

theorem OneWay.new (meshId : MeshId) (policy : Policy) (maxStates expiryBudget denialInterval : Nat) :
    (new meshId policy maxStates expiryBudget denialInterval).OneWay := by
  intro key hkey
  simp [Evaluator.new] at hkey

/-! ## Live entries -/

/-- The state checks succeed exactly on a live entry. -/
theorem Consistent.checked_eq_true {evaluator : Evaluator} (h : evaluator.Consistent)
    {packet : Packet} {now : Nat} : (evaluator.checked packet now).1 = true ↔
      ∃ entry ∈ stateKeys packet, evaluator.live entry.1 now = true := by
  constructor
  · intro hvalid
    obtain ⟨entry, hentry, hlive⟩ := anyValid_live hvalid
    exact ⟨entry, hentry, (expireLoop_pruned _ _ _).live hlive⟩
  · rintro ⟨key, hkey, hlive⟩
    by_contra hinvalid
    rw [Bool.not_eq_true] at hinvalid
    rw [live, Option.any_eq_true] at hlive
    obtain ⟨entry, hentry, hnow⟩ := hlive
    rw [decide_eq_true_eq] at hnow
    have hkept := anyValid_live_kept hinvalid (h.expireLoop_live _ hentry hnow) hnow
    rw [anyValid_absent hinvalid key hkey] at hkept
    cases hkept

/-- Checks that refresh nothing leave live entries as they are. -/
theorem anyValid_live_same {evaluator : Evaluator} {key : FlowKey} {now : Nat}
    {keys : List (FlowKey × Bool)} (hkeys : ∀ entry ∈ keys, entry.2 = false) {entry : StateEntry}
    (hentry : evaluator.states[key]? = some entry) (hlive : now < entry.expiresAt) :
    (evaluator.anyValid now keys).2.states[key]? = some entry := by
  induction keys generalizing evaluator with
  | nil => exact hentry
  | cons first keys ih =>
      obtain ⟨hfirst, hkeys⟩ := List.forall_mem_cons.mp hkeys
      unfold anyValid
      split
      · next after heq =>
        have hsame : after = evaluator := by
          unfold stateValid at heq
          rw [hfirst] at heq
          split at heq
          · cases heq
          · split at heq
            · cases heq
            · rw [Bool.false_and, if_neg Bool.false_ne_true] at heq
              exact (Prod.ext_iff.mp heq).2.symm
        rwa [hsame]
      · next after heq =>
        have hinvalid : (evaluator.stateValid first.1 now first.2).1 = false := by rw [heq]
        have hkept := stateValid_live_kept hinvalid hentry hlive
        rw [heq] at hkept
        exact ih hkeys hkept

/-! ## The error

An ICMP error about a live flow is neither an initiation nor a packet of the flow. The state of its own
tuple aside, it passes on the entry of the flow it quotes, which is looked up as quoted.
-/

/-- `packet` is an ICMP error about `flow`, which has a live entry: it quotes the flow in one of its
directions and goes back from the destination of the quoted packet to its source. -/
structure RelatedError (evaluator : Evaluator) (packet : Packet) (flow : FlowKey) (now : Nat) :
    Prop where
  mesh : packet.meshId = evaluator.meshId
  whole : packet.fragmentOf = none
  live : evaluator.live flow now = true
  quotes : packet.relatedFlow = some flow ∨ packet.relatedFlow = some flow.reverse
  returns : ∀ quoted ∈ packet.relatedFlow,
    packet.flow.source = quoted.destination ∧ packet.flow.destination = quoted.source

/-- The error is let through, and the flow's entry is the one it was. -/
def PassesUnextended (evaluator : Evaluator) (packet : Packet) (flow : FlowKey) (now : Nat) : Prop :=
  (evaluator.evaluate packet now).1.action = .allow ∧
    (evaluator.evaluate packet now).2.states[flow]? = evaluator.states[flow]?

variable {evaluator : Evaluator} {packet : Packet} {flow : FlowKey} {now : Nat}

/-- Whatever is decided, the entry stays as it is. -/
theorem RelatedError.unextended (h : evaluator.Consistent)
    (herror : evaluator.RelatedError packet flow now) :
    (evaluator.evaluate packet now).2.states[flow]? = evaluator.states[flow]? := by
  have hlive := herror.live
  rw [Evaluator.live, Option.any_eq_true] at hlive
  obtain ⟨entry, hentry, hnow⟩ := hlive
  rw [decide_eq_true_eq] at hnow
  have hrelated : packet.relatedFlow.isNone = false := by
    rcases herror.quotes with hquotes | hquotes <;> rw [hquotes] <;> rfl
  have hswept := h.expireLoop_live evaluator.expiryBudget hentry hnow
  have hchecked : (evaluator.checked packet now).2.states[flow]? = some entry := by
    refine anyValid_live_same ?_ hswept hnow
    intro key hkey
    simp only [stateKeys, herror.whole, hrelated, List.mem_append, List.mem_map] at hkey
    rcases hkey with hkey | ⟨_, _, rfl⟩
    · simp only [List.mem_cons, List.not_mem_nil, or_false] at hkey
      rcases hkey with rfl | rfl <;> rfl
    · rfl
  rw [hentry]
  have hcases := evaluator.evaluates packet now
  generalize evaluator.evaluate packet now = result at hcases ⊢
  cases hcases with
  | foreign mesh => exact absurd herror.mesh mesh
  | passed => exact hchecked
  | barred => rwa [(denial_agree _ _ _ _).fields.2.2.1]
  | refused => rwa [(denial_agree _ _ _ _).fields.2.2.1]
  | opened _ _ initiates =>
      rw [initiates.relatedFlow] at hrelated
      cases hrelated

/-- The error is let through on the state of its own tuple or of the flow as it quotes it. -/
theorem RelatedError.allow_iff (h : evaluator.Consistent)
    (herror : evaluator.RelatedError packet flow now) :
    (evaluator.evaluate packet now).1.action = .allow ↔
      evaluator.live packet.flow now = true ∨ evaluator.live packet.flow.reverse now = true ∨
        ∃ quoted, packet.relatedFlow = some quoted ∧ evaluator.live quoted now = true := by
  have hkeys : (evaluator.checked packet now).1 = true ↔ _ := h.checked_eq_true
  have hdenied : (evaluator.evaluate packet now).1.action = .allow ↔
      (evaluator.checked packet now).1 = true := by
    have hcases := evaluator.evaluates packet now
    generalize evaluator.evaluate packet now = result at hcases ⊢
    cases hcases with
    | foreign mesh => exact absurd herror.mesh mesh
    | passed _ valid => exact iff_of_true rfl valid
    | barred _ invalid => exact iff_of_false nofun (by simp [invalid])
    | refused _ invalid => exact iff_of_false nofun (by simp [invalid])
    | opened _ _ initiates =>
        rcases herror.quotes with hquotes | hquotes <;>
          exact absurd (initiates.relatedFlow.symm.trans hquotes) nofun
  rw [hdenied, hkeys]
  simp [stateKeys, herror.whole]

/-- **Errors about replies are denied.** In every reachable state an ICMP error about a live flow is
let through exactly if it quotes the flow in the direction it was opened in, or its own tuple has a
live entry; the firewall lets it through whichever direction it quotes. -/
theorem relatedError_passes_iff (meshId : MeshId) (policy : Policy)
    (maxStates expiryBudget denialInterval : Nat) (ops : List Op) (packet : Packet) (flow : FlowKey)
    (now : Nat)
    (herror : ((new meshId policy maxStates expiryBudget denialInterval).run ops).RelatedError packet
      flow now) :
    let evaluator := (new meshId policy maxStates expiryBudget denialInterval).run ops
    (evaluator.PassesUnextended packet flow now ↔
      packet.relatedFlow = some flow ∨ evaluator.live packet.flow now = true ∨
        evaluator.live packet.flow.reverse now = true) ∧
      ∀ (hash : Dataplane.ShardHash) (firewall : Dataplane.Firewall) (parsed : ParsedPacket)
        (initiation : Dataplane.PolicyCallback),
        parsed.relatedFlow = packet.relatedFlow → parsed.fragment.all (·.offset = 0) = true →
        Dataplane.Firewall.hasState hash firewall flow now = true →
        Dataplane.Firewall.evaluateWithPolicy hash firewall parsed now initiation =
          (Dataplane.allowedByState, firewall) := by
  intro evaluator
  have hconsistent : evaluator.Consistent := (Consistent.new _ _ _ _ _).run ops
  have honeWay : evaluator.OneWay := (OneWay.new _ _ _ _ _).run ops
  have hmem : ∀ key, evaluator.live key now = true → key ∈ evaluator.states := by
    intro key hlive
    rw [Evaluator.live, Option.any_eq_true] at hlive
    obtain ⟨entry, hentry, -⟩ := hlive
    exact mem_states_iff.mpr ⟨entry, hentry⟩
  constructor
  · rw [PassesUnextended, and_iff_left (herror.unextended hconsistent),
      herror.allow_iff hconsistent]
    constructor
    · rintro (hown | hown | ⟨quoted, hquoted, hlive⟩)
      · exact .inr (.inl hown)
      · exact .inr (.inr hown)
      · rcases herror.quotes with hquotes | hquotes
        · exact .inl hquotes
        · cases hquoted.symm.trans hquotes
          exact .inl (by rw [hquotes, honeWay flow (hmem _ herror.live) (hmem _ hlive)])
    · rintro (hquotes | hown | hown)
      · exact .inr (.inr ⟨flow, hquotes, herror.live⟩)
      · exact .inl hown
      · exact .inr (.inl hown)
  · intro hash firewall parsed initiation hrelated hfragment hstate
    have hfound : parsed.relatedFlow.any (fun related =>
        Dataplane.Firewall.hasState hash firewall related now
          || Dataplane.Firewall.hasState hash firewall related.reverse now) = true := by
      rw [hrelated]
      rcases herror.quotes with hquotes | hquotes <;> simp [hquotes, hstate]
    have hfirst : parsed.fragment.filter (·.offset ≠ 0) = none := by
      rw [Option.filter_eq_none_iff]
      intro fragment hmem
      simpa [hmem] using hfragment
    unfold Dataplane.Firewall.evaluateWithPolicy
    simp only [hfirst, hfound, if_true]

end Peerward.IdentityPolicy.Evaluator

/-! ## A reply that is too big

Peer A has opened a connection to Peer B; the path from B to A has become narrower. -/

namespace Peerward.PeerCore.PolicyEngine

open Std Peerward.Lib Peerward.Net Peerward.Types
open Peerward.IdentityPolicy (Evaluator)

/-- "Fragmentation needed", sent back for a packet of the flow `quoted`. -/
def fragmentationNeeded (quoted : FlowKey) : ParsedPacket where
  source := quoted.destination
  destination := quoted.source
  protocol := ICMP_V4
  sourcePort := none
  destinationPort := none
  tcpFlags := none
  icmp := some (3, 4)
  fragment := none
  packetLen := 56
  relatedFlow := some quoted

/-- What A's engine hands to the evaluator for a packet between A and B. -/
def betweenAB (parsed : ParsedPacket) : IdentityPolicy.Packet :=
  engineA.policyPacket ⟨peerA, addressA, ∅⟩ ⟨peerB, addressB, ∅⟩ parsed true

/-- The evaluator after A's SYN. -/
def evaluatorA : Evaluator :=
  (Evaluator.new peerA (.new 1 .allow []) 16 4 10).run [.evaluate (betweenAB synToB.packet) 1]

/-- The firewall after A's SYN. -/
def firewallA : Dataplane.Firewall :=
  (Dataplane.Firewall.evaluateWithPolicy ⟨fun _ => 0, fun _ => 0⟩ (.new 1 .allow [] 16 1) synToB.packet
    1 fun _ => (.allow, none)).2

/-- An error about the SYN itself is let through. -/
theorem fragmentationNeeded_for_request :
    evaluatorA.PassesUnextended (betweenAB (fragmentationNeeded (flowOf synToB.packet)))
      (flowOf synToB.packet) 2 :=
  (Evaluator.relatedError_passes_iff peerA (.new 1 .allow []) 16 4 10
    [.evaluate (betweenAB synToB.packet) 1] _ _ 2
    { mesh := by decide +kernel
      whole := rfl
      live := by decide +kernel
      quotes := .inl rfl
      returns := by simp [betweenAB, policyPacket, fragmentationNeeded, flowOf] }).1.mpr (.inl rfl)

/-- An error about B's answer is denied by the evaluator, and so by A's engine; the firewall lets it
through. -/
theorem fragmentationNeeded_for_reply_denied :
    evaluatorA.RelatedError (betweenAB (fragmentationNeeded (flowOf synAckFromB.packet)))
        (flowOf synToB.packet) 2 ∧
      ¬ evaluatorA.PassesUnextended (betweenAB (fragmentationNeeded (flowOf synAckFromB.packet)))
        (flowOf synToB.packet) 2 ∧
      answer (engineA.run [synToB, synAckFromB])
        ⟨fragmentationNeeded (flowOf synAckFromB.packet), 2, true⟩ = .deny ∧
      (Dataplane.Firewall.evaluateWithPolicy ⟨fun _ => 0, fun _ => 0⟩ firewallA
        (fragmentationNeeded (flowOf synAckFromB.packet)) 2 fun _ => (.deny, none)).1 =
          Dataplane.allowedByState := by
  refine ⟨⟨by decide +kernel, rfl, by decide +kernel, .inr rfl, ?_⟩, ?_, by decide +kernel,
    by decide +kernel⟩
  · simp [betweenAB, policyPacket, fragmentationNeeded, flowOf]
  · intro hpasses
    have hdenied : (evaluatorA.evaluate
        (betweenAB (fragmentationNeeded (flowOf synAckFromB.packet))) 2).1.action = .deny := by
      decide +kernel
    rw [hpasses.1] at hdenied
    cases hdenied

end Peerward.PeerCore.PolicyEngine
