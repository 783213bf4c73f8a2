import Peerward.Dataplane.Firewall
import Peerward.PeerCore.Sessions
import Peerward.Policy.Evaluator

/-!
# The Peer's policy engine

`PolicyEngine` owns the signed directory and policy of one Peer and decides its data-plane packets:
statefully through the policy crate's `Evaluator`, statelessly for name and service visibility.

Locks are dropped: every operation is one atomic step. Signature checks come before installation,
so the `install` operations here take what the checks let through.
-/

namespace Peerward.PeerCore

open Std Peerward.Lib Peerward.Net Peerward.Types
open Peerward.IdentityPolicy (PeerDescriptor Policy Evaluator)

/-- `peerward_dataplane::Action` for a `peerward_policy::Action`. -/
def ofIdentityAction : IdentityPolicy.Action → Dataplane.Action
  | .allow => .allow
  | .deny => .deny

structure PolicyState where
  peers : ExtTreeMap IpAddr PeerDescriptor := ∅
  policyRevision : Option Nat := none
  policy : Option Policy := none
  evaluator : Option Evaluator := none

/-- Shared identity policy and bounded connection-tracking engine. -/
structure PolicyEngine where
  ready : Bool
  meshId : MeshId
  localPeer : PeerId
  stateLimit : Nat
  expiryBudget : Nat
  state : PolicyState := {}
  logLast : ExtTreeMap RuleId Nat := ∅

/-! ## Bounded rule logs -/

def LOG_INTERVAL_SECONDS : Nat := 10
def MAX_LOG_KEYS : Nat := 4096

/-- `logs.iter().min_by_key(time)`: the first of the oldest entries. -/
def oldestLog (logs : ExtTreeMap RuleId Nat) : Option RuleId :=
  let oldest := logs.toList.foldl (fun best entry =>
    match best with
    | none => some entry
    | some found => if entry.2 < found.2 then some entry else some found) none
  oldest.map Prod.fst

def boundedLogDue (logs : ExtTreeMap RuleId Nat) (ruleId : RuleId) (now : Nat) :
    Bool × ExtTreeMap RuleId Nat :=
  if logs[ruleId]?.any fun last => now - last < LOG_INTERVAL_SECONDS then (false, logs)
  else
    let logs :=
      if logs.size ≥ MAX_LOG_KEYS && !logs.contains ruleId then
        match oldestLog logs with
        | some oldest => logs.erase oldest
        | none => logs
      else logs
    (true, logs.insert ruleId now)

namespace PolicyEngine

/-! ## Installation -/

/-- Creates a deny-until-verified engine for one local Peer. -/
def new (meshId : MeshId) (localPeer : PeerId) (stateLimit shards : Nat) :
    Except PeerError PolicyEngine :=
  if stateLimit = 0 ∨ shards = 0 then .error .invalidConfig
  else .ok
    { ready := true
      meshId := meshId
      localPeer := localPeer
      stateLimit := stateLimit
      expiryBudget := max (stateLimit / shards) 1 }

def setReady (engine : PolicyEngine) (ready : Bool) : PolicyEngine := { engine with ready := ready }

/-- The evaluator every installation starts over with: no flow state, ten seconds between denial
audits of a flow. -/
def newEvaluator (engine : PolicyEngine) (policy : Policy) : Evaluator :=
  Evaluator.new engine.meshId policy engine.stateLimit engine.expiryBudget 10

def clearConnections (engine : PolicyEngine) : PolicyEngine :=
  { engine with
    state := { engine.state with evaluator := engine.state.policy.map engine.newEvaluator } }

def descriptor (engine : PolicyEngine) (address : IpAddr) : Option PeerDescriptor :=
  engine.state.peers[address]?

/-- The insertion loop of `replace_peers`: an address may occur once. -/
def byAddress (peers : ExtTreeMap IpAddr PeerDescriptor) :
    List PeerDescriptor → Except PeerError (ExtTreeMap IpAddr PeerDescriptor)
  | [] => .ok peers
  | peer :: rest =>
    if peers.contains peer.address then .error .invalidConfig
    else byAddress (peers.insert peer.address peer) rest

/-- `replace_peers` followed by `clear_logs`. -/
def installVerifiedPeers (engine : PolicyEngine) (peers : List PeerDescriptor) :
    Except PeerError PolicyEngine := do
  if !peers.any (fun peer => peer.id = engine.localPeer) then .error .invalidConfig
  let peers ← byAddress ∅ peers
  let evaluator := engine.state.policy.map engine.newEvaluator
  return { engine with state := { engine.state with peers, evaluator }, logLast := ∅ }

/-- `install_policy` for a bundle that was verified and decoded. -/
def installPolicy (engine : PolicyEngine) (policy : Policy) : PolicyEngine :=
  { engine with
    state :=
      { engine.state with
        policyRevision := some policy.revision
        policy := some policy
        evaluator := some (engine.newEvaluator policy) }
    logLast := ∅ }

/-! ## Decisions

A decision needs both ends in the directory, one of them the local Peer. State decides before rules do, and
a decision by a rule is logged for the rule.
-/

/-- The descriptors of both ends, when both are in the directory and one is the local Peer. -/
def participants (engine : PolicyEngine) (packet : ParsedPacket) :
    Option (PeerDescriptor × PeerDescriptor) := do
  let source ← engine.state.peers[packet.source]?
  let destination ← engine.state.peers[packet.destination]?
  if source.id ≠ engine.localPeer ∧ destination.id ≠ engine.localPeer then none
  return (source, destination)

/-- `PolicyFlowKey` of the packet itself; unlike `FlowKey::from_packet` it exists for every
fragment. -/
def flowOf (packet : ParsedPacket) : FlowKey where
  source := packet.source
  destination := packet.destination
  protocol := packet.protocol
  sourcePort := packet.sourcePort
  destinationPort := packet.destinationPort

/-- Whether the packet has the shape of a first packet. -/
def isInitiating (packet : ParsedPacket) : Bool :=
  if packet.protocol = TCP then
    packet.tcpFlags.any fun flags => flags &&& TCP_SYN ≠ 0 && flags &&& TCP_ACK = 0
  else if packet.protocol = ICMP_V4 then packet.icmp.any fun icmp => icmp.1 = 8
  else if packet.protocol = ICMP_V6 then packet.icmp.any fun icmp => icmp.1 = 128
  else packet.fragment.all fun fragment => fragment.offset = 0

/-- What `decide` hands to the evaluator. -/
def policyPacket (engine : PolicyEngine) (source destination : PeerDescriptor)
    (packet : ParsedPacket) (allowInitiation : Bool) : IdentityPolicy.Packet where
  meshId := engine.meshId
  source := source
  destination := destination
  flow := flowOf packet
  initiating := isInitiating packet && allowInitiation
  relatedFlow := packet.relatedFlow
  fragmentOf := none

/-- The closure `direct_decision`, for a clock and a log: the decision and the log after it. -/
def directDecision (policy : Policy) (source destination : PeerDescriptor) (packet : ParsedPacket)
    (now : Option Nat) (logLast : ExtTreeMap RuleId Nat) :
    Dataplane.Action × ExtTreeMap RuleId Nat :=
  let decision := policy.decideInitiation source destination packet.protocol packet.destinationPort
  let logLast :=
    match decision.log, decision.ruleId, now with
    | true, some ruleId, some now => (boundedLogDue logLast ruleId now).2
    | _, _, _ => logLast
  (ofIdentityAction decision.action, logLast)

/-- `decide` with a clock: the evaluator decides, and a decision by a rule is logged. -/
def decide (engine : PolicyEngine) (packet : ParsedPacket) (now : Nat) (allowInitiation : Bool) :
    Dataplane.Action × PolicyEngine :=
  match engine.participants packet, engine.state.policy, engine.state.evaluator with
  | some (source, destination), some policy, some evaluator =>
    let (evaluation, evaluator) :=
      evaluator.evaluate (engine.policyPacket source destination packet allowInitiation) now
    let logLast :=
      if evaluation.ruleId.isSome then
        (directDecision policy source destination packet (some now) engine.logLast).2
      else engine.logLast
    (ofIdentityAction evaluation.action,
      { engine with
        state := { engine.state with evaluator := some evaluator }
        logLast := logLast })
  | _, _, _ => (.deny, engine)

/-- Blocking inbound initiation must retain responses to locally initiated flows. -/
def evaluateInbound (engine : PolicyEngine) (packet : ParsedPacket) (now : Nat)
    (allowInitiation : Bool) : Dataplane.Action × PolicyEngine :=
  if engine.ready then engine.decide packet now allowInitiation else (.deny, engine)

/-- Stateful source/destination enforcement for a real packet. -/
def evaluate (engine : PolicyEngine) (packet : ParsedPacket) (now : Nat) :
    Dataplane.Action × PolicyEngine :=
  engine.evaluateInbound packet now true

/-- Stateless visibility decision used for DNS and service metadata. -/
def visible (engine : PolicyEngine) (packet : ParsedPacket) : Dataplane.Action :=
  if engine.ready then
    match engine.participants packet, engine.state.policy with
    | some (source, destination), some policy =>
      (directDecision policy source destination packet none engine.logLast).1
    | _, _ => .deny
  else .deny

/-! ## Calls and runs

A run is a sequence of calls since the policy and the directory were installed last, because an
installation starts over without state.
-/

/-- One call of `evaluate_inbound`, or of `evaluate` when initiation is allowed. -/
structure Call where
  packet : ParsedPacket
  now : Nat
  allowInitiation : Bool

/-- The engine's answer to a call. -/
def answer (engine : PolicyEngine) (call : Call) : Dataplane.Action :=
  (engine.evaluateInbound call.packet call.now call.allowInitiation).1

def step (engine : PolicyEngine) (call : Call) : PolicyEngine :=
  (engine.evaluateInbound call.packet call.now call.allowInitiation).2

/-- The engine after a run of calls, oldest first. -/
def run (engine : PolicyEngine) (calls : List Call) : PolicyEngine := exec step engine calls

/-- No flow has been recorded since the policy or the directory was installed. -/
def Fresh (engine : PolicyEngine) : Prop :=
  engine.state.evaluator = engine.state.policy.map engine.newEvaluator

theorem new_fresh {meshId : MeshId} {localPeer : PeerId} {stateLimit shards : Nat}
    {engine : PolicyEngine} (h : new meshId localPeer stateLimit shards = .ok engine) :
    Fresh engine := by
  unfold new at h
  split at h
  · cases h
  · cases h
    rfl

theorem clearConnections_fresh (engine : PolicyEngine) : Fresh engine.clearConnections := rfl

theorem installVerifiedPeers_fresh {engine engine' : PolicyEngine} {peers : List PeerDescriptor}
    (h : engine.installVerifiedPeers peers = .ok engine') : Fresh engine' := by
  unfold installVerifiedPeers at h
  split at h
  · cases h
  · cases hpeers : byAddress ∅ peers with
    | error err =>
        rw [hpeers] at h
        cases h
    | ok table =>
        rw [hpeers] at h
        cases h
        rfl

theorem installPolicy_fresh (engine : PolicyEngine) (policy : Policy) :
    Fresh (engine.installPolicy policy) := rfl

end PolicyEngine

end Peerward.PeerCore
