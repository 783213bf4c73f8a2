import Peerward.Lib.Sorted
import Peerward.Net.IpNet
import Peerward.Types.Ids

/-!
# Identity policies

A policy is an ordered list of initiation rules over Peer identities, labels and addresses.
`Policy::new` brings the rules and the lists inside them into a deterministic order;
`decide_initiation` returns the first rule that matches.
-/

namespace Peerward.IdentityPolicy

open Std Peerward.Lib Peerward.Net Peerward.Types

/-- Policy construction or revision failure. -/
inductive PolicyError where
  | invalidPortRange
  | revisionRollback
  | invalidEncoding
  deriving DecidableEq

inductive Action where
  | allow
  | deny
  deriving DecidableEq

/-- `peerward_types::PolicyProtocol`. -/
inductive PolicyProtocol where
  | any
  | tcp
  | udp
  | icmp
  deriving DecidableEq

/-- Matches a parsed IP protocol without discarding unknown numbers. -/
def PolicyProtocol.matchesProtocol (protocol : PolicyProtocol) (actual : UInt8) : Bool :=
  match protocol with
  | .any => true
  | .tcp => actual = TCP
  | .udp => actual = UDP
  | .icmp => actual = ICMP_V4 || actual = ICMP_V6

/-- Peer attributes used by selectors. -/
structure PeerDescriptor where
  id : PeerId
  address : IpAddr
  /-- Exact label key/value pairs. -/
  labels : ExtTreeMap Text Text

/-- Conjunctive source or destination selector. -/
structure Selector where
  /-- Exact Peer alternatives; empty removes this dimension. -/
  peerIds : ExtTreeSet PeerId := ∅
  /-- Every label pair must match. -/
  labels : ExtTreeMap Text Text := ∅
  /-- Network alternatives; empty removes this dimension. -/
  cidrs : List IpNet := []

/-- Builds a selector and canonicalizes CIDR alternatives. -/
def Selector.new (peerIds : ExtTreeSet PeerId) (labels : ExtTreeMap Text Text)
    (cidrs : List IpNet) : Selector where
  peerIds := peerIds
  labels := labels
  cidrs := sortDedup cidrs

/-- Selector.matches. -/
def Selector.matchesPeer (selector : Selector) (peer : PeerDescriptor) : Bool :=
  (selector.peerIds.isEmpty || selector.peerIds.contains peer.id)
    && selector.labels.toList.all (fun label => peer.labels[label.1]? = some label.2)
    && (selector.cidrs.isEmpty || selector.cidrs.any (·.contains peer.address))

/-- Inclusive destination port interval. -/
structure PortRange where
  first : Nat
  last : Nat
  /-- What `PortRange::new` checks. -/
  valid : 0 < first ∧ first ≤ last ∧ last < 65536
  deriving DecidableEq

namespace PortRange

/-- Validates a non-zero inclusive interval of 16-bit ports. -/
def new (first last : Nat) : Except PolicyError PortRange :=
  if h : 0 < first ∧ first ≤ last ∧ last < 65536 then .ok ⟨first, last, h⟩
  else .error .invalidPortRange

def contains (range : PortRange) (port : Nat) : Bool := range.first ≤ port && port ≤ range.last

/-- The key of the sort in `Policy::new`. -/
def cmp : PortRange → PortRange → Ordering := compareLex (compareOn first) (compareOn last)

instance : Ord PortRange := ⟨cmp⟩

instance : TransOrd PortRange := inferInstanceAs (TransCmp (compareLex _ _))

instance : LawfulEqOrd PortRange where
  eq_of_compare := by
    rintro ⟨a, b, _⟩ ⟨a', b', _⟩ h
    replace h : cmp _ _ = .eq := h
    simp only [cmp, compareLex_eq_eq, compareOn] at h
    have ha : a = a' := LawfulEqOrd.eq_of_compare h.1
    have hb : b = b' := LawfulEqOrd.eq_of_compare h.2
    subst ha hb
    rfl

end PortRange

/-- One ordered initiation rule. -/
structure Rule where
  id : RuleId
  /-- Lower priorities evaluate first. -/
  priority : UInt32
  enabled : Bool
  log : Bool
  action : Action
  source : Selector
  destination : Selector
  protocol : PolicyProtocol
  /-- TCP/UDP destination ports; empty matches every port. -/
  destinationPorts : List PortRange

/-- Detailed result of ordered rule evaluation. -/
structure PolicyDecision where
  action : Action
  ruleId : Option RuleId
  log : Bool
  deriving DecidableEq

/-- One immutable policy revision. -/
structure Policy where
  revision : Nat
  /-- Action when no rule matches. -/
  default : Action
  rules : List Rule

def actionOrder : Action → Nat
  | .deny => 0
  | .allow => 1

namespace Rule

/-- The key rules are sorted by. -/
def cmp : Rule → Rule → Ordering :=
  compareLex (compareOn fun rule => rule.priority.toNat) <|
    compareLex (compareOn fun rule => actionOrder rule.action) (compareOn id)

instance : TransCmp cmp := inferInstanceAs (TransCmp (compareLex _ _))

/-- The first loop of `Policy::new`: the lists inside a rule are sorted and deduplicated. -/
def canonicalize (rule : Rule) : Rule :=
  { rule with
    source := { rule.source with cidrs := sortDedup rule.source.cidrs }
    destination := { rule.destination with cidrs := sortDedup rule.destination.cidrs }
    destinationPorts := sortDedup rule.destinationPorts }

/-- The port test of `decide_initiation`. -/
def matchesPort (rule : Rule) (destinationPort : Option Nat) : Bool :=
  match rule.protocol with
  | .tcp | .udp => rule.destinationPorts.isEmpty
    || destinationPort.any fun port => rule.destinationPorts.any (·.contains port)
  | .any | .icmp => true

/-- All tests `decide_initiation` makes of one rule. -/
def matchesInitiation (rule : Rule) (source destination : PeerDescriptor) (protocol : UInt8)
    (destinationPort : Option Nat) : Bool :=
  rule.enabled && rule.protocol.matchesProtocol protocol && rule.source.matchesPeer source
    && rule.destination.matchesPeer destination && rule.matchesPort destinationPort

end Rule

namespace Policy

/-- Creates a policy and applies its deterministic ordering. -/
def new (revision : Nat) (default : Action) (rules : List Rule) : Policy where
  revision := revision
  default := default
  rules := sortBy Rule.cmp (rules.map Rule.canonicalize)

/-- Evaluates ordered identity selectors for one new initiation. -/
def decideInitiation (policy : Policy) (source destination : PeerDescriptor) (protocol : UInt8)
    (destinationPort : Option Nat) : PolicyDecision :=
  match policy.rules.find? (·.matchesInitiation source destination protocol destinationPort) with
  | some rule => { action := rule.action, ruleId := some rule.id, log := rule.log }
  | none => { action := policy.default, ruleId := none, log := false }

end Policy

end Peerward.IdentityPolicy
