import Peerward.Management.Leases
import Peerward.Net.IpNet

/-!
# Network resources

What a mesh offers beyond its own Peers: subnets and Internet exits, the Peers an administrator
approved as their gateways, and the collections and selectors that rules name devices by. Everything
here is plain data with the checks a receiver makes of it.
-/

namespace Peerward.Management

open Std Peerward.Lib Peerward.Net Peerward.Types

/-! ## Names -/

/-- `char::is_control`: the general category Cc. -/
def isControl (c : Char) : Bool := c.val < 0x20 || (0x7f ≤ c.val && c.val ≤ 0x9f)

/-- `char::is_whitespace`: the property `White_Space`. -/
def isWhitespace (c : Char) : Bool :=
  (0x09 ≤ c.val && c.val ≤ 0x0d) || (0x2000 ≤ c.val && c.val ≤ 0x200a)
    || [0x20, 0x85, 0xa0, 0x1680, 0x2028, 0x2029, 0x202f, 0x205f, 0x3000].contains c.val

/-- Shared bounded resource name validation. -/
def nameValid (name : Text) : Bool :=
  !name.bytes.isEmpty && name.bytes.length ≤ 128
    -- `name.trim() == name`
    && !name.chars.head?.any isWhitespace && !name.chars.getLast?.any isWhitespace
    && !name.chars.any isControl

/-- The check of the labels on resources and collections. -/
def labelsValid (labels : ExtTreeMap Text Text) : Bool :=
  labels.size ≤ 32 && labels.toList.all fun (key, value) =>
    nameValid key && !value.bytes.isEmpty && value.bytes.length ≤ 256 && !value.chars.any isControl

/-! ## Targets

What a resource stands for: a device, an address, a subnet or the Internet. Each kind has its own checks,
and a specificity that orders them.
-/

/-- Octet `index` of an IPv4 address, from the left. -/
def octet (address : BitVec 32) (index : Nat) : Nat := (address.extractLsb' (24 - 8 * index) 8).toNat

/-- Segment `index` of an IPv6 address, from the left. -/
def segment (address : BitVec 128) (index : Nat) : Nat :=
  (address.extractLsb' (112 - 16 * index) 16).toNat

def publicV4 (address : BitVec 32) : Bool :=
  let a := octet address 0
  let b := octet address 1
  let c := octet address 2
  let d := octet address 3
  !(a = 0 || a = 10 || a = 127 || a ≥ 224
    || (a = 100 && (64 ≤ b && b ≤ 127))
    || (a = 169 && b = 254)
    || (a = 172 && (16 ≤ b && b ≤ 31))
    || (a = 192 && b = 168)
    || (a = 192 && b = 0 && c = 0 && !([9, 10].contains d))
    || (a = 192 && b = 0 && c = 2)
    || (a = 192 && b = 88 && c = 99)
    || (a = 198 && [18, 19].contains b)
    || (a = 198 && b = 51 && c = 100)
    || (a = 203 && b = 0 && c = 113))

/-- Internet grants cover public destinations, never local or infrastructure ranges. -/
def internetDestination : IpAddr → Bool
  | .v4 address => publicV4 address
  | .v6 address =>
    let first := segment address 0
    let subnet := segment address 1
    -- the well-known NAT64 range must not smuggle private IPv4 targets
    if (List.range 6).map (segment address) = [0x64, 0xff9b, 0, 0, 0, 0] then
      publicV4 (address.extractLsb' 0 32)
    else if first &&& 0xe000 ≠ 0x2000 || first = 0x2002 || (first = 0x2001 && subnet = 0xdb8)
        || (first = 0x3fff && subnet < 0x1000) then false
    else if first = 0x2001 && subnet < 0x200 then
      (subnet = 1 && (List.range 5).all (fun index => segment address (index + 2) = 0)
          && [1, 2, 3].contains (segment address 7))
        || subnet = 3 || (subnet = 4 && segment address 2 = 0x112) || (0x20 ≤ subnet && subnet ≤ 0x3f)
    else true

/-- Business target; tunnel identity belongs only to the approved provider. -/
inductive ResourceTarget where
  | subnet (network : IpNet) (siteId : Uuid)
  | internet (ipv4 ipv6 : Bool)
  deriving DecidableEq

namespace ResourceTarget

def specificity : ResourceTarget → Nat
  | subnet network _ => network.prefixLen
  | internet _ _ => 0

def contains : ResourceTarget → IpAddr → Bool
  | subnet network _, address => network.contains address
  | internet ipv4 ipv6, address =>
    (if address.isIpv4 then ipv4 else ipv6) && internetDestination address

def isInternet : ResourceTarget → Bool
  | subnet _ _ => false
  | internet _ _ => true

def validate : ResourceTarget → Except ManagementError Unit
  | subnet network siteId =>
    rejectIf (siteId = 0 || network.prefixLen = 0 || network.addr ≠ network.network
      || network.addr.isUnspecified || network.addr.isMulticast || network.addr.isLoopback)
      (.invalid "target.prefix")
  | internet ipv4 ipv6 => rejectIf (!ipv4 && !ipv6) (.invalid "target.address_families")

end ResourceTarget

/-- Explicit TCP connect only. -/
structure TargetProbe where
  address : IpAddr
  port : Nat
  deriving DecidableEq

/-- `is_link_local` or `is_broadcast`; `is_unicast_link_local` or an IPv4-mapped address. -/
def unroutable : IpAddr → Bool
  | .v4 address => address >>> 16 = 0xa9fe#32 || address = 0xffffffff#32
  | .v6 address => address >>> 118 = 0x3fa#128 || address >>> 32 = 0xffff#128

def TargetProbe.validate (probe : TargetProbe) (target : ResourceTarget) :
    Except ManagementError Unit :=
  rejectIf (probe.port = 0 || !target.contains probe.address || probe.address.isLoopback
    || probe.address.isMulticast || probe.address.isUnspecified || unroutable probe.address)
    (.invalid "health_probe")

structure ResourceDefinition where
  name : Text
  target : ResourceTarget
  labels : ExtTreeMap Text Text := ∅
  healthProbe : Option TargetProbe := none
  deriving DecidableEq

def ResourceDefinition.validate (definition : ResourceDefinition) : Except ManagementError Unit := do
  rejectIf (!nameValid definition.name) (.invalid "name")
  rejectIf (!labelsValid definition.labels) (.invalid "labels")
  definition.target.validate
  match definition.healthProbe with
  | some probe => probe.validate definition.target
  | none => pure ()

structure NetworkResource where
  id : Uuid
  meshId : MeshId
  version : Nat
  definition : ResourceDefinition
  deriving DecidableEq

/-! ## Gateways

A binding is what an administrator has granted and an advertisement what a Peer has said. Both are needed
for a Peer to be selected.
-/

inductive ForwardingMode where
  | snat
  | preserveSource
  deriving DecidableEq

inductive ApprovalSource where
  | manual
  | automatic (ruleId : Uuid) (ruleVersion : Nat)
  deriving DecidableEq

/-- Administrator-owned grant. Advertisements cannot change approval. -/
structure GatewayBinding where
  id : Uuid
  resourceId : Uuid
  peerId : PeerId
  version : Nat
  approved : Bool
  priority : Nat
  forwarding : ForwardingMode
  returnRouteConfirmed : Bool
  approvalSource : ApprovalSource
  deriving DecidableEq

def GatewayBinding.validate (binding : GatewayBinding) : Except ManagementError Unit := do
  rejectIf (versionNum binding.id ≠ 4 || binding.resourceId = 0 || binding.version = 0)
    (.invalid "binding")
  match binding.approvalSource with
  | .automatic ruleId ruleVersion =>
    rejectIf (versionNum ruleId ≠ 4 || ruleVersion = 0) (.invalid "approval_source")
  | .manual => pure ()
  rejectIf (binding.approved && binding.forwarding = .preserveSource && !binding.returnRouteConfirmed)
    (.invalid "return_route_confirmed")

/-- Authenticated provider observation, distinct from an administrator grant. -/
structure RouteAdvertisement where
  bindingVersion : Nat
  bindingId : Uuid
  peerId : PeerId
  sequence : Nat
  published : Bool
  validUntil : Nat
  forwardingReady : Bool
  deriving DecidableEq

/-- The advertisement speaks for this version of the binding, and says that it forwards. -/
def RouteAdvertisement.supports (ad : RouteAdvertisement) (binding : GatewayBinding)
    (wall : Nat) : Bool :=
  ad.bindingId = binding.id && ad.bindingVersion = binding.version && ad.peerId = binding.peerId
    && ad.published && ad.forwardingReady && ad.validUntil > wall

/-! ## Selectors and collections -/

/-- Explicit membership plus an optional simple conjunction of controlled labels. -/
structure DeviceSelector where
  peers : ExtTreeSet PeerId := ∅
  labels : ExtTreeMap Text Text := ∅
  cidrs : List IpNet := []
  deriving DecidableEq

namespace DeviceSelector

def validate (selector : DeviceSelector) : Except ManagementError Unit :=
  rejectIf (selector.peers.size > 4096 || selector.labels.size > 32 || selector.cidrs.length > 64
    || selector.labels.toList.any (fun (key, value) =>
      key.bytes.isEmpty || key.bytes.length > 64 || value.bytes.length > 128
        || (key.chars ++ value.chars).any isControl)
    || selector.cidrs.any fun network => network.network ≠ network.addr) (.invalid "selector")

/-- DeviceSelector.matches. -/
def matchesDevice (selector : DeviceSelector) (peer : PeerId) (address : IpAddr)
    (labels : ExtTreeMap Text Text) : Bool :=
  (selector.peers.isEmpty || selector.peers.contains peer)
    && selector.labels.toList.all (fun (key, value) => labels[key]? = some value)
    && (selector.cidrs.isEmpty || selector.cidrs.any (·.contains address))

end DeviceSelector

inductive CollectionKind where
  | devices
  | resources
  deriving DecidableEq

/-- Signed, resolved membership belongs to the same configuration as its rules. -/
structure ResolvedCollection where
  id : Uuid
  kind : CollectionKind
  members : ExtTreeSet Uuid
  deriving DecidableEq

def collectionContains (collections : List ResolvedCollection) (selected : ExtTreeSet Uuid)
    (kind : CollectionKind) (member : Uuid) : Bool :=
  collections.any fun collection =>
    collection.kind = kind && selected.contains collection.id && collection.members.contains member

/-! ## Admission -/

inductive AdmissionReason where
  | evidenceUnavailable
  | version
  | platform
  | capabilities
  | credential
  deriving DecidableEq

structure AdmissionDecision where
  allowed : Bool
  /-- `none` only for devices outside the condition scope. -/
  validUntil : Option Nat
  reasons : List AdmissionReason
  deriving DecidableEq

def AdmissionDecision.permits (decision : AdmissionDecision) (now : Nat) : Bool :=
  decision.allowed && decision.validUntil.all (now < ·)

structure AdmissionConfiguration where
  enabled : Bool := false
  peers : ExtTreeMap PeerId AdmissionDecision := ∅
  deriving DecidableEq

namespace AdmissionConfiguration

/-- A refresh which only extends unchanged evidence does not tear down flows. -/
def sameRequirements (old next : AdmissionConfiguration) : Bool :=
  old.enabled = next.enabled && old.peers.size = next.peers.size
    && old.peers.toList.all fun (peer, before) => next.peers[peer]?.any fun after =>
      before.allowed = after.allowed && before.reasons = after.reasons
        && match before.validUntil, after.validUntil with
          | some before, some after => after ≥ before
          | none, none => true
          | _, _ => false

def permits (admission : AdmissionConfiguration) (peer : PeerId) (now : Nat) : Bool :=
  !admission.enabled || admission.peers[peer]?.any (·.permits now)

def validate (admission : AdmissionConfiguration) : Except ManagementError Unit :=
  rejectIf (admission.peers.size > 4096 || admission.peers.toList.any fun (_, decision) =>
    decision.reasons.length > 5 || (decision.allowed && !decision.reasons.isEmpty))
    (.invalid "admission_configuration")

end AdmissionConfiguration

end Peerward.Management
