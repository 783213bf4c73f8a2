import Peerward.PeerCore.PolicyEngine

/-!
# Isolation between Peer pairs

The engine lets a packet through on state when it has a live entry for the packet's flow, for the
reverse of it, or for the flow an ICMP error quotes. Entries are made for packets the policy allowed
to initiate, so the first two keys lead back to an initiation between the same two addresses. The
third is a claim of the packet about itself: nothing ties the quoted flow to the ends of the packet
that quotes it. `strays` singles out the packets for which that matters.
-/

namespace Peerward.PeerCore.PolicyEngine

open Std Peerward.Lib Peerward.Net Peerward.Types
open Peerward.IdentityPolicy (PeerDescriptor Policy Evaluator)

/-- The two flows have the same two ends, in either order. -/
def samePair (a b : FlowKey) : Bool :=
  (a.source = b.source && a.destination = b.destination)
    || (a.source = b.destination && a.destination = b.source)

/-- The policy is asked about the call's packet and allows it to initiate. -/
structure Permitted (engine : PolicyEngine) (call : Call) : Prop where
  initiating : isInitiating call.packet = true ∧ call.allowInitiation = true
  allowed : ∃ source destination policy,
    engine.participants call.packet = some (source, destination) ∧
      engine.state.policy = some policy ∧
      (policy.decideInitiation source destination call.packet.protocol
        call.packet.destinationPort).action = .allow

/-- The engine has a live entry for `key`. -/
def live (engine : PolicyEngine) (key : FlowKey) (now : Nat) : Bool :=
  engine.state.evaluator.any (·.live key now)

/-- The packet is one the engine would consider, quotes a live flow between another pair of
addresses, and has no live entry of its own. -/
def strays (engine : PolicyEngine) (call : Call) : Bool :=
  engine.ready && (engine.participants call.packet).isSome
    && call.packet.relatedFlow.any (fun quoted =>
      engine.live quoted call.now && !samePair quoted (flowOf call.packet))
    && !engine.live (flowOf call.packet) call.now
    && !engine.live (flowOf call.packet).reverse call.now

theorem ofIdentityAction_eq_allow {action : IdentityPolicy.Action} :
    ofIdentityAction action = .allow ↔ action = .allow := by
  cases action <;> simp [ofIdentityAction]

/-! ## One call

A packet passes on a live entry or by the policy. What is said of the entry is whose call has made it.
-/

/-- What a call leaves alone. -/
structure Settled (engine engine' : PolicyEngine) : Prop where
  localPeer : engine'.localPeer = engine.localPeer
  peers : engine'.state.peers = engine.state.peers
  policy : engine'.state.policy = engine.state.policy

theorem Settled.participants {engine engine' : PolicyEngine} (h : Settled engine engine')
    (packet : ParsedPacket) : engine'.participants packet = engine.participants packet := by
  simp only [PolicyEngine.participants, h.peers, h.localPeer]

theorem Settled.permitted {engine engine' : PolicyEngine} (h : Settled engine engine')
    {call : Call} (hcall : Permitted engine' call) : Permitted engine call := by
  obtain ⟨source, destination, policy, hpeers, hpolicy, hallow⟩ := hcall.allowed
  refine ⟨hcall.initiating, source, destination, policy, ?_, ?_, hallow⟩
  · rw [← h.participants, hpeers]
  · rw [← h.policy, hpolicy]

/-- The evaluator runs the installed policy. -/
def Installed (engine : PolicyEngine) : Prop :=
  ∀ evaluator ∈ engine.state.evaluator, engine.state.policy = some evaluator.policy

/-- **What one call can do.** It passes on a live entry for one of the packet's keys or because the
policy permits it; every entry it leaves was there before or is the packet's own flow. -/
theorem call_cases {engine : PolicyEngine} (hinstalled : Installed engine) (call : Call) :
    Settled engine (engine.step call) ∧ Installed (engine.step call) ∧
      (engine.answer call = .allow → engine.ready = true ∧
        (engine.participants call.packet).isSome = true ∧
        ((∃ key, engine.live key call.now = true ∧
            (key = flowOf call.packet ∨ key = (flowOf call.packet).reverse ∨
              call.packet.relatedFlow = some key)) ∨
          Permitted engine call)) ∧
      ∀ evaluator ∈ (engine.step call).state.evaluator, ∀ key ∈ evaluator.states,
        (∃ before ∈ engine.state.evaluator, key ∈ before.states) ∨
          (key = flowOf call.packet ∧ Permitted engine call) := by
  -- an engine that is not ready, or does not know both ends, answers without a change
  have hidle : Settled engine engine ∧ Installed engine ∧
      ∀ evaluator ∈ engine.state.evaluator, ∀ key ∈ evaluator.states,
        (∃ before ∈ engine.state.evaluator, key ∈ before.states) ∨
          (key = flowOf call.packet ∧ Permitted engine call) :=
    ⟨⟨rfl, rfl, rfl⟩, hinstalled, fun evaluator hev key hkey => .inl ⟨evaluator, hev, hkey⟩⟩
  unfold step answer evaluateInbound
  split
  swap
  · exact ⟨hidle.1, hidle.2.1, nofun, hidle.2.2⟩
  next hready =>
  unfold decide
  split
  swap
  · exact ⟨hidle.1, hidle.2.1, nofun, hidle.2.2⟩
  next source destination policy evaluator hpeers hpolicy hevaluator =>
  obtain ⟨hkept, hpasses, hentries⟩ := Evaluator.evaluate_cases evaluator
    (engine.policyPacket source destination call.packet call.allowInitiation) call.now
  generalize evaluator.evaluate (engine.policyPacket source destination call.packet
    call.allowInitiation) call.now = result at hkept hpasses hentries ⊢
  obtain ⟨evaluation, after⟩ := result
  have hsame : policy = evaluator.policy := by
    have := hinstalled evaluator (by simp [hevaluator])
    rw [hpolicy] at this
    exact Option.some.inj this
  have hpermitted : Evaluator.Initiates evaluator.policy
      (engine.policyPacket source destination call.packet call.allowInitiation) →
      Permitted engine call := by
    intro hinit
    have hboth := hinit.initiating
    simp only [policyPacket, Bool.and_eq_true] at hboth
    exact ⟨hboth, source, destination, policy, hpeers, hpolicy, hsame ▸ hinit.allowed⟩
  refine ⟨⟨rfl, rfl, rfl⟩, ?_, fun hallow => ⟨hready, by simp [hpeers], ?_⟩, ?_⟩
  · intro evaluator' hafter
    cases hafter
    rw [hkept, ← hsame]
    exact hpolicy
  · have hallow' : evaluation.action = .allow := ofIdentityAction_eq_allow.mp hallow
    rcases hpasses hallow' with ⟨entry, hentry, hlive⟩ | hinit
    · refine .inl ⟨entry.1, by simpa [live, hevaluator] using hlive, ?_⟩
      simp only [Evaluator.stateKeys, policyPacket, List.mem_append, List.mem_cons,
        List.not_mem_nil, or_false, List.mem_map, Option.mem_toList] at hentry
      rcases hentry with (rfl | rfl) | ⟨quoted, hquoted, rfl⟩
      · exact .inl rfl
      · exact .inr (.inl rfl)
      · exact .inr (.inr hquoted)
    · exact .inr (hpermitted hinit)
  · intro evaluator' hafter key hkey
    cases hafter
    rcases hentries key hkey with hkey | ⟨rfl, hinit⟩
    · exact .inl ⟨evaluator, by simp [hevaluator], hkey⟩
    · exact .inr ⟨rfl, hpermitted hinit⟩

/-! ## Whole runs

Every entry leads back to a call that the policy permitted, by induction on the run. Whether that call was
between the ends of the packet depends on which key the packet was let through by.
-/

/-- Every entry of an engine reached by `calls` is the flow of a call the policy permitted. -/
structure Traced (start : PolicyEngine) (calls : List Call) (engine : PolicyEngine) : Prop where
  settled : Settled start engine
  installed : Installed engine
  entries : ∀ evaluator ∈ engine.state.evaluator, ∀ key ∈ evaluator.states,
    ∃ call ∈ calls, flowOf call.packet = key ∧ Permitted start call

theorem Traced.step {start engine : PolicyEngine} {calls : List Call}
    (h : Traced start calls engine) (call : Call) :
    Traced start (calls ++ [call]) (engine.step call) := by
  obtain ⟨hsettled, hinstalled, -, hentries⟩ := call_cases h.installed call
  refine ⟨⟨?_, ?_, ?_⟩, hinstalled, ?_⟩
  · rw [hsettled.localPeer, h.settled.localPeer]
  · rw [hsettled.peers, h.settled.peers]
  · rw [hsettled.policy, h.settled.policy]
  · intro evaluator hev key hkey
    rcases hentries evaluator hev key hkey with ⟨before, hbefore, hkey⟩ | ⟨rfl, hpermitted⟩
    · obtain ⟨earlier, hearlier, hflow⟩ := h.entries before hbefore key hkey
      exact ⟨earlier, by simp [hearlier], hflow⟩
    · exact ⟨call, by simp, rfl, h.settled.permitted hpermitted⟩

theorem Fresh.traced {start : PolicyEngine} (h : Fresh start) (calls : List Call) :
    Traced start calls (start.run calls) := by
  refine exec_history (I := Traced start) ⟨⟨rfl, rfl, rfl⟩, ?_, ?_⟩ (fun _ call ih => ih.step call)
    calls
  · intro evaluator hev
    rw [h] at hev
    obtain ⟨policy, hpolicy, rfl⟩ := Option.map_eq_some_iff.mp hev
    exact hpolicy
  · intro evaluator hev key hkey
    rw [h] at hev
    obtain ⟨policy, -, rfl⟩ := Option.map_eq_some_iff.mp hev
    simp [newEvaluator, Evaluator.new] at hkey

theorem samePair_self (flow : FlowKey) : samePair flow flow = true := by simp [samePair]

theorem samePair_reverse (flow : FlowKey) : samePair flow.reverse flow = true := by simp [samePair]

/-- **A packet that passes has an initiation between its own ends behind it**, unless it strays:
at every point of every run since the last installation, whatever the clock does. -/
theorem allow_needs_own_initiation (start : PolicyEngine) (hfresh : Fresh start)
    (calls : List Call) (call : Call) (hown : strays (start.run calls) call = false)
    (hallow : answer (start.run calls) call = .allow) :
    ∃ earlier ∈ calls ++ [call], Permitted start earlier ∧
      samePair (flowOf earlier.packet) (flowOf call.packet) = true := by
  have htraced := hfresh.traced calls
  obtain ⟨-, -, hpasses, -⟩ := call_cases htraced.installed call
  obtain ⟨hready, hpeers, ⟨key, hlive, hkey⟩ | hpermitted⟩ := hpasses hallow
  swap
  · exact ⟨call, by simp, htraced.settled.permitted hpermitted, samePair_self _⟩
  have hpair : ∃ key, live (start.run calls) key call.now = true ∧
      samePair key (flowOf call.packet) = true := by
    rcases hkey with rfl | rfl | hquoted
    · exact ⟨_, hlive, samePair_self _⟩
    · exact ⟨_, hlive, samePair_reverse _⟩
    · -- Only here does the packet itself name the key.
      by_contra hnone
      push Not at hnone
      have hother := hnone key hlive
      have hforward : live (start.run calls) (flowOf call.packet) call.now = false := by
        by_contra hlive'
        exact hnone _ (by simpa using hlive') (samePair_self _)
      have hback : live (start.run calls) (flowOf call.packet).reverse call.now = false := by
        by_contra hlive'
        exact hnone _ (by simpa using hlive') (samePair_reverse _)
      simp only [Bool.not_eq_true] at hother
      simp [strays, hready, hpeers, hquoted, hlive, hother, hforward, hback] at hown
  obtain ⟨key, hlive, hpair⟩ := hpair
  simp only [live, Option.any_eq_true] at hlive
  obtain ⟨evaluator, hev, hlive⟩ := hlive
  simp only [Evaluator.live, Option.any_eq_true] at hlive
  obtain ⟨entry, hentry, -⟩ := hlive
  obtain ⟨earlier, hearlier, rfl, hpermitted⟩ :=
    htraced.entries evaluator hev key (Evaluator.mem_states_iff.mpr ⟨entry, hentry⟩)
  exact ⟨earlier, by simp [hearlier], hpermitted, hpair⟩

/-! ## A third Peer's ICMP error

Peer A may open TCP connections to Peer B; Peer C takes part in no rule. -/

def peerA : PeerId := ⟨0x00000000000040008000000000000001#128, Types.random_one⟩
def peerB : PeerId := ⟨0x00000000000040008000000000000002#128, Types.random_two⟩
def peerC : PeerId := ⟨0x00000000000040008000000000000003#128, Types.random_three⟩

def addressA : IpAddr := .v4 0x0a090002#32
def addressB : IpAddr := .v4 0x0a090003#32
def addressC : IpAddr := .v4 0x0a090004#32

def directory : List PeerDescriptor :=
  [⟨peerA, addressA, ∅⟩, ⟨peerB, addressB, ∅⟩, ⟨peerC, addressC, ∅⟩]

/-- The engine of Peer A. -/
def engineA : PolicyEngine :=
  installPolicy
    { ready := true
      meshId := peerA
      localPeer := peerA
      stateLimit := 16
      expiryBudget := 4
      state := { peers := .ofList (directory.map fun peer => (peer.address, peer)) } }
    (.new 1 .deny
      [{ id := peerB
         priority := 10
         enabled := true
         log := false
         action := .allow
         source := { peerIds := .ofList [peerA] }
         destination := { peerIds := .ofList [peerB] }
         protocol := .tcp
         destinationPorts := [] }])

/-- A opens a connection to port 443 of B. -/
def synToB : Call where
  packet :=
    { source := addressA
      destination := addressB
      protocol := TCP
      sourcePort := some 40000
      destinationPort := some 443
      tcpFlags := some TCP_SYN
      icmp := none
      fragment := none
      packetLen := 40
      relatedFlow := none }
  now := 1
  allowInitiation := true

/-- The answer of B. -/
def synAckFromB : Call where
  packet :=
    { synToB.packet with
      source := addressB
      destination := addressA
      sourcePort := some 443
      destinationPort := some 40000
      tcpFlags := some (TCP_SYN ||| TCP_ACK) }
  now := 2
  allowInitiation := false

/-- C sends A a "host unreachable" that quotes the connection between A and B. -/
def unreachableFromC : Call where
  packet :=
    { source := addressC
      destination := addressA
      protocol := ICMP_V4
      sourcePort := none
      destinationPort := none
      tcpFlags := none
      icmp := some (3, 1)
      fragment := none
      packetLen := 56
      relatedFlow := some (flowOf synToB.packet) }
  now := 2
  allowInitiation := false

theorem synAckFromB_has_own_initiation :
    ∃ earlier ∈ [synToB, synAckFromB], Permitted engineA earlier ∧
      samePair (flowOf earlier.packet) (flowOf synAckFromB.packet) = true :=
  allow_needs_own_initiation engineA (installPolicy_fresh _ _) [synToB] synAckFromB
    (by decide +kernel) (by decide +kernel)

/-- A is sent packets by C, although the policy never allowed anything between the two. -/
theorem unreachableFromC_passes_without_initiation :
    Fresh engineA ∧ answer (engineA.run [synToB]) unreachableFromC = .allow ∧
      ¬ ∃ earlier ∈ [synToB, unreachableFromC], Permitted engineA earlier ∧
        samePair (flowOf earlier.packet) (flowOf unreachableFromC.packet) = true := by
  refine ⟨installPolicy_fresh _ _, by decide +kernel, ?_⟩
  rintro ⟨earlier, hearlier, hpermitted, hpair⟩
  simp only [List.mem_cons, List.not_mem_nil, or_false] at hearlier
  rcases hearlier with rfl | rfl
  · exact absurd hpair (by decide +kernel)
  · exact absurd hpermitted.initiating.1 (by decide +kernel)

end Peerward.PeerCore.PolicyEngine
