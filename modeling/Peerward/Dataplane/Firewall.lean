import Peerward.Lib.Run
import Peerward.Net.IpNet

/-!
# The sharded stateful firewall

`Firewall` keeps per-shard tables of authorized flows and of first-fragment associations, each with
a deadline index for bounded reclamation. The `Mutex` around a shard is dropped: every operation
here is one atomic step, and each one holds at most one lock at a time.

`DefaultHasher` only decides which shard a key lives in, so it is a parameter (`ShardHash`) and
nothing below depends on its values.
-/

namespace Peerward.Dataplane

open Std Peerward.Lib Peerward.Net

/-- `peerward_types::RuleId`, compared and ordered by its UUID bytes. -/
abbrev RuleId := BitVec 128

/-- ACL action. -/
inductive Action where
  | allow
  | deny
  deriving DecidableEq

/-- One ordered initiation rule. -/
structure Rule where
  id : RuleId
  /-- Lower values match first. -/
  priority : Nat
  action : Action
  source : Option IpNet
  destination : Option IpNet
  protocol : Option UInt8
  /-- TCP/UDP destination ranges; empty matches any port. -/
  destinationPorts : List (Nat × Nat)

/-- Rule.matches; an absent predicate matches every packet. -/
def Rule.matchesPacket (rule : Rule) (packet : ParsedPacket) : Bool :=
  rule.source.all (·.contains packet.source)
    && rule.destination.all (·.contains packet.destination)
    && rule.protocol.all (· = packet.protocol)
    && (rule.destinationPorts.isEmpty
      || packet.destinationPort.any fun port =>
        rule.destinationPorts.any fun range => range.1 ≤ port && port ≤ range.2)

inductive TcpPhase where
  | synSent
  | synReceived
  | established
  | closing
  deriving DecidableEq

structure FlowState where
  expiresAt : Nat
  phase : Option TcpPhase
  deriving DecidableEq

structure FragmentKey where
  source : IpAddr
  destination : IpAddr
  protocol : UInt8
  identification : Nat
  deriving DecidableEq

namespace FragmentKey

def cmp : FragmentKey → FragmentKey → Ordering :=
  compareLex (compareOn source) <| compareLex (compareOn destination) <|
    compareLex (compareOn protocol) (compareOn identification)

instance : Ord FragmentKey := ⟨cmp⟩

instance : TransOrd FragmentKey := inferInstanceAs (TransCmp (compareLex _ _))

instance : LawfulEqOrd FragmentKey where
  eq_of_compare := by
    intro a b h
    replace h : cmp a b = .eq := h
    simp only [cmp, compareLex_eq_eq, compareOn] at h
    obtain ⟨h₁, h₂, h₃, h₄⟩ := h
    cases a
    cases b
    congr
    · exact LawfulEqOrd.eq_of_compare h₁
    · exact LawfulEqOrd.eq_of_compare h₂
    · exact LawfulEqOrd.eq_of_compare h₃
    · exact LawfulEqOrd.eq_of_compare h₄

end FragmentKey

structure FragmentState where
  expiresAt : Nat
  action : Action
  ruleId : Option RuleId
  deriving DecidableEq

/-! ## One shard

A shard has two tables and, for each, an index by deadline. A sweep takes what is overdue from the front of
the index, and at most its budget.
-/

structure Shard where
  flows : ExtTreeMap FlowKey FlowState := ∅
  flowExpirations : Deadlines FlowKey := ∅
  fragments : ExtTreeMap FragmentKey FragmentState := ∅
  fragmentExpirations : Deadlines FragmentKey := ∅

namespace Shard

def removeFlow (shard : Shard) (key : FlowKey) : Shard :=
  match shard.flows[key]? with
  | some state =>
    { shard with
      flows := shard.flows.erase key
      flowExpirations := shard.flowExpirations.erase (state.expiresAt, key) }
  | none => shard

def storeFlow (shard : Shard) (key : FlowKey) (state : FlowState) : Shard :=
  match shard.flows[key]? with
  | some previous =>
    if previous.expiresAt = state.expiresAt then
      { shard with flows := shard.flows.insert key state }
    else
      { shard with
        flows := shard.flows.insert key state
        flowExpirations := (shard.flowExpirations.erase (previous.expiresAt, key)).insert
          (state.expiresAt, key) }
  | none =>
    { shard with
      flows := shard.flows.insert key state
      flowExpirations := shard.flowExpirations.insert (state.expiresAt, key) }

def removeFragment (shard : Shard) (key : FragmentKey) : Shard :=
  match shard.fragments[key]? with
  | some state =>
    { shard with
      fragments := shard.fragments.erase key
      fragmentExpirations := shard.fragmentExpirations.erase (state.expiresAt, key) }
  | none => shard

def evictFlowIfFull (shard : Shard) (limit : Nat) : Shard :=
  if shard.flows.size < limit then shard
  else
    match shard.flowExpirations.first? with
    | some (_, oldest) => shard.removeFlow oldest
    | none => shard

/-- The first loop of `expire`: at most `budget` overdue flows. -/
def expireFlows (shard : Shard) (now : Nat) : (budget : Nat) → Shard
  | 0 => shard
  | budget + 1 =>
    match shard.flowExpirations.first? with
    | none => shard
    | some (expiresAt, key) =>
      if expiresAt > now then shard else expireFlows (shard.removeFlow key) now budget

/-- The second loop of `expire`: at most `budget` overdue fragment associations. -/
def expireFragments (shard : Shard) (now : Nat) : (budget : Nat) → Shard
  | 0 => shard
  | budget + 1 =>
    match shard.fragmentExpirations.first? with
    | none => shard
    | some (expiresAt, key) =>
      if expiresAt > now then shard else expireFragments (shard.removeFragment key) now budget

def expire (shard : Shard) (now budget : Nat) : Shard :=
  (shard.expireFlows now budget).expireFragments now budget

end Shard

/-! ## Pure decisions

What a packet's flow entry says about the packet, without any table: the phase of its connection after it,
or that it does not fit.
-/

/-- Authorization outcome without packet contents. -/
structure Decision where
  action : Action
  ruleId : Option RuleId
  /-- Whether existing state authorized the packet. -/
  stateful : Bool
  deriving DecidableEq

def denied : Decision := { action := .deny, ruleId := none, stateful := false }

/-- The decision every state hit on a flow returns. -/
def allowedByState : Decision := { action := .allow, ruleId := none, stateful := true }

def validInitiation (packet : ParsedPacket) : Bool :=
  if packet.protocol = TCP then
    packet.tcpFlags.any fun flags => flags &&& TCP_SYN ≠ 0 && flags &&& TCP_ACK = 0
  else if packet.protocol = ICMP_V4 then packet.icmp.any fun icmp => icmp.1 = 8
  else if packet.protocol = ICMP_V6 then packet.icmp.any fun icmp => icmp.1 = 128
  else true

/-- The TCP phase after one packet, or `none` when the packet does not fit the phase. Lost SYN and
SYN-ACK packets must be retransmittable without advancing the handshake in the wrong direction. -/
def advancePhase (phase : Option TcpPhase) (initiator : Bool) (flags : UInt8) :
    Option (Option TcpPhase) :=
  let value := flags &&& (TCP_SYN ||| TCP_ACK ||| TCP_FIN)
  match phase, initiator with
  | some .synSent, true => if value = TCP_SYN then some phase else none
  | some .synReceived, true =>
    if value = TCP_SYN then some phase
    else if value &&& TCP_ACK ≠ 0 then some (some .established)
    else none
  | some .synReceived, false => if value = TCP_SYN ||| TCP_ACK then some phase else none
  | some .synSent, false =>
    if value &&& (TCP_SYN ||| TCP_ACK) = TCP_SYN ||| TCP_ACK then some (some .synReceived) else none
  | some .established, _ => if value &&& TCP_FIN ≠ 0 then some (some .closing) else some phase
  | some .closing, _ => some phase
  | none, _ => none

/-- `none` stands for the `false` the source returns, in which case the caller drops the packet
and never stores the state it passed in. -/
def advanceTcp (state : FlowState) (flags : UInt8) (initiator : Bool) : Option FlowState :=
  if flags &&& TCP_RST ≠ 0 then some { state with phase := some .closing }
  else (advancePhase state.phase initiator flags).map fun phase => { state with phase := phase }

def timeout (protocol : UInt8) (flow tcp : Nat) : Nat := if protocol = TCP then tcp else flow

def fragmentKey (packet : ParsedPacket) (fragment : Fragment) : FragmentKey where
  source := packet.source
  destination := packet.destination
  protocol := if packet.source.isIpv6 then 0 else packet.protocol
  identification := fragment.identification

/-! ## The firewall

An evaluation asks the tables first, both directions of the packet's own flow and of the flow that an ICMP
error quotes, and only then the policy. A policy decision opens the flow, or the association of a first
fragment.
-/

/-- `DefaultHasher` on the two key types, reduced to what `shard_index` uses of it. -/
structure ShardHash where
  flow : FlowKey → Nat
  fragment : FragmentKey → Nat

structure Firewall where
  rules : List Rule
  default : Action
  revision : Nat
  shardCount : Nat
  /-- `Firewall::new` builds at least one shard. -/
  shardCount_pos : 0 < shardCount
  shards : Fin shardCount → Shard
  perShardLimit : Nat
  flowTimeout : Nat
  tcpTimeout : Nat
  fragmentTimeout : Nat
  expiryBudget : Nat

/-- The initiation policy a caller supplies. -/
abbrev PolicyCallback := ParsedPacket → Action × Option RuleId

namespace Firewall

/-- Rules in ascending priority; the sort is stable. -/
def orderRules (rules : List Rule) : List Rule :=
  rules.mergeSort fun a b => a.priority ≤ b.priority

def new (revision : Nat) (default : Action) (rules : List Rule) (stateLimit shardCount : Nat) :
    Firewall where
  rules := orderRules rules
  default := default
  revision := revision
  shardCount := max shardCount 1
  shardCount_pos := by omega
  shards := fun _ => {}
  -- state_limit.max(1).div_ceil(count)
  perShardLimit := (max stateLimit 1 + (max shardCount 1 - 1)) / max shardCount 1
  flowTimeout := 60
  tcpTimeout := 600
  fragmentTimeout := 15
  expiryBudget := 64

def shardIndex (fw : Firewall) (hash : Nat) : Fin fw.shardCount :=
  ⟨hash % fw.shardCount, Nat.mod_lt _ fw.shardCount_pos⟩

def setShard (fw : Firewall) (index : Fin fw.shardCount) (shard : Shard) : Firewall :=
  { fw with shards := Function.update fw.shards index shard }

/-- Invalidates every flow and fragment after a non-policy authorization input changes. -/
def invalidateState (fw : Firewall) : Firewall := { fw with shards := fun _ => {} }

/-- Replaces policy and invalidates all state; a revision that is not newer changes nothing. -/
def replace (fw : Firewall) (revision : Nat) (default : Action) (rules : List Rule) :
    Bool × Firewall :=
  if revision ≤ fw.revision then (false, fw)
  else
    (true, invalidateState
      { fw with revision := revision, default := default, rules := orderRules rules })

/-- Which fragment associations `forget_flow` drops: every one between the two endpoints, for any
protocol when the addresses are IPv6, whose associations do not record one. -/
def forgets (key : FlowKey) (fragment : FragmentKey) : Bool :=
  (fragment.protocol = key.protocol || fragment.source.isIpv6)
    && ((fragment.source = key.source && fragment.destination = key.destination)
      || (fragment.source = key.destination && fragment.destination = key.source))

def forgetInShard (key : FlowKey) (shard : Shard) : Shard :=
  let shard := (shard.removeFlow key).removeFlow key.reverse
  (shard.fragments.keys.filter (forgets key)).foldl Shard.removeFragment shard

/-- Removes one connection without invalidating healthy unrelated flows. -/
def forgetFlow (fw : Firewall) (key : FlowKey) : Firewall :=
  { fw with shards := fun index => forgetInShard key (fw.shards index) }

/-- The bounded number of flow entries across all shards. -/
def stateLen (fw : Firewall) : Nat := ∑ index, (fw.shards index).flows.size

/-- Evaluates ordered policy without reading or creating flow state. -/
def policyDecision (fw : Firewall) (packet : ParsedPacket) : Decision :=
  match fw.rules.find? (·.matchesPacket packet) with
  | some rule => { action := rule.action, ruleId := some rule.id, stateful := false }
  | none => { action := fw.default, ruleId := none, stateful := false }

variable (hash : ShardHash)

def hasState (fw : Firewall) (key : FlowKey) (now : Nat) : Bool :=
  (fw.shards (fw.shardIndex (hash.flow key))).flows[key]?.any fun state => state.expiresAt > now

/-- One iteration of the loop in `evaluate_existing`; `none` continues with the other direction. -/
def probe (fw : Firewall) (packet : ParsedPacket) (key : FlowKey) (initiator : Bool) (now : Nat) :
    Option Decision × Firewall :=
  let index := fw.shardIndex (hash.flow key)
  let shard := (fw.shards index).expire now fw.expiryBudget
  match shard.flows[key]? with
  | none => (none, fw.setShard index shard)
  | some state =>
    -- Reclamation is bounded, but authorization expiry is exact even when this entry was not
    -- reached by the current cleanup sweep.
    if state.expiresAt ≤ now then (none, fw.setShard index (shard.removeFlow key))
    else
      let flags := packet.tcpFlags.getD 0
      match if packet.protocol = TCP then advanceTcp state flags initiator else some state with
      | none => (some denied, fw.setShard index shard)
      | some state =>
        if packet.protocol = TCP ∧ flags &&& TCP_RST ≠ 0 then
          (some allowedByState, fw.setShard index (shard.removeFlow key))
        else
          let idle := if state.phase = some .closing then fw.flowTimeout
            else timeout packet.protocol fw.flowTimeout fw.tcpTimeout
          let state := { state with expiresAt := saturatingAdd now idle }
          (some allowedByState, fw.setShard index (shard.storeFlow key state))

def evaluateExisting (fw : Firewall) (packet : ParsedPacket) (flow : FlowKey) (now : Nat) :
    Option Decision × Firewall :=
  match probe hash fw packet flow true now with
  | (some decision, fw) => (some decision, fw)
  | (none, fw) => probe hash fw packet flow.reverse false now

def insertFlow (fw : Firewall) (flow : FlowKey) (packet : ParsedPacket) (now : Nat) : Firewall :=
  let index := fw.shardIndex (hash.flow flow)
  let shard := (fw.shards index).expire now fw.expiryBudget
  let shard := shard.evictFlowIfFull fw.perShardLimit
  fw.setShard index <| shard.storeFlow flow {
    expiresAt := saturatingAdd now (timeout packet.protocol fw.flowTimeout fw.tcpTimeout)
    phase := if packet.protocol = TCP then some .synSent else none }

def insertFragment (fw : Firewall) (packet : ParsedPacket) (fragment : Fragment) (action : Action)
    (ruleId : Option RuleId) (now : Nat) : Firewall :=
  let key := fragmentKey packet fragment
  let index := fw.shardIndex (hash.fragment key)
  let shard := (fw.shards index).removeFragment key
  let shard :=
    if shard.fragments.size ≥ fw.perShardLimit then
      match shard.fragmentExpirations.first? with
      | some (_, expiring) => shard.removeFragment expiring
      | none => shard
    else shard
  let expiresAt := saturatingAdd now fw.fragmentTimeout
  fw.setShard index
    { shard with
      fragmentExpirations := shard.fragmentExpirations.insert (expiresAt, key)
      fragments := shard.fragments.insert key { expiresAt, action, ruleId } }

def evaluateLaterFragment (fw : Firewall) (packet : ParsedPacket) (fragment : Fragment)
    (now : Nat) : Decision × Firewall :=
  let key := fragmentKey packet fragment
  let index := fw.shardIndex (hash.fragment key)
  let shard := fw.shards index
  match shard.fragments[key]? with
  | none => (denied, fw)
  | some state =>
    if state.expiresAt ≤ now then (denied, fw.setShard index (shard.removeFragment key))
    else ({ action := state.action, ruleId := state.ruleId, stateful := true }, fw)

/-- What `evaluate_with_policy` does once no state decided the packet. -/
def initiate (fw : Firewall) (packet : ParsedPacket) (flow : FlowKey) (now : Nat)
    (policy : PolicyCallback) : Decision × Firewall :=
  if !validInitiation packet then (denied, fw)
  else
    let (action, ruleId) := policy packet
    let decision := { action, ruleId, stateful := false }
    if action = .allow then
      let fw :=
        if packet.protocol ∈ [TCP, UDP, ICMP_V4, ICMP_V6] then insertFlow hash fw flow packet now
        else fw
      match packet.fragment.filter (·.more) with
      | some fragment => (decision, insertFragment hash fw packet fragment action ruleId now)
      | none => (decision, fw)
    else (decision, fw)

/-- Evaluates strict state using an identity-aware initiation policy supplied by the caller. The
callback is consulted only for a structurally valid new initiation. -/
def evaluateWithPolicy (fw : Firewall) (packet : ParsedPacket) (now : Nat)
    (policy : PolicyCallback) : Decision × Firewall :=
  match packet.fragment.filter (·.offset ≠ 0) with
  | some fragment => evaluateLaterFragment hash fw packet fragment now
  | none =>
    if packet.relatedFlow.any fun related =>
        hasState hash fw related now || hasState hash fw related.reverse now then
      (allowedByState, fw)
    else
      match FlowKey.fromPacket packet with
      | none => (denied, fw)
      | some flow =>
        match evaluateExisting hash fw packet flow now with
        | (some decision, fw) => (decision, fw)
        | (none, fw) => initiate hash fw packet flow now policy

/-- Evaluates one parsed packet against the firewall's own rules. -/
def evaluate (fw : Firewall) (packet : ParsedPacket) (now : Nat) : Decision × Firewall :=
  evaluateWithPolicy hash fw packet now fun packet =>
    ((fw.policyDecision packet).action, (fw.policyDecision packet).ruleId)

/-! ## Runs -/

/-- One call on the firewall. -/
inductive Op where
  | evaluate (packet : ParsedPacket) (now : Nat) (policy : PolicyCallback)
  | forgetFlow (key : FlowKey)
  | invalidateState
  | replace (revision : Nat) (default : Action) (rules : List Rule)

/-- The clock reading an operation carries. -/
def Op.now? : Op → Option Nat
  | .evaluate _ now _ => some now
  | _ => none

def step (fw : Firewall) : Op → Firewall
  | .evaluate packet now policy => (evaluateWithPolicy hash fw packet now policy).2
  | .forgetFlow key => fw.forgetFlow key
  | .invalidateState => fw.invalidateState
  | .replace revision default rules => (fw.replace revision default rules).2

/-- The firewall after a run. -/
def run (fw : Firewall) (ops : List Op) : Firewall := exec (step hash) fw ops

end Firewall

end Peerward.Dataplane
