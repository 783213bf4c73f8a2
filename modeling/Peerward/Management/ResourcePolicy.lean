import Peerward.Lib.Sorted
import Peerward.Management.Resources

/-!
# Resource rules

Rules grant devices access to resources through providers. A packet names no resource, so the rules
of all equally specific resources at its address share one priority order.
-/

namespace Peerward.Management

open Std Peerward.Lib Peerward.Net Peerward.Types

inductive ResourceAction where
  | deny
  | allow
  deriving DecidableEq

/-- The derived order. -/
def ResourceAction.rank : ResourceAction → Nat
  | deny => 0
  | allow => 1

structure ResourceRule where
  id : Uuid
  priority : Nat
  enabled : Bool
  action : ResourceAction
  source : DeviceSelector
  resources : ExtTreeSet Uuid
  /-- Additional source restriction; a device must belong to at least one selected collection. -/
  sourceCollections : ExtTreeSet Uuid := ∅
  /-- Alternative target membership, unioned with explicit resource ids. -/
  resourceCollections : ExtTreeSet Uuid := ∅
  /-- Empty allows any currently approved provider for this real resource. -/
  providers : ExtTreeSet PeerId
  /-- IP protocol number; zero means any. Port predicates require TCP or UDP. -/
  protocol : UInt8
  destinationPorts : List (Nat × Nat)
  notAfter : Option Nat
  deriving DecidableEq

def ResourceRule.validate (rule : ResourceRule) : Except ManagementError Unit := do
  rule.source.validate
  rejectIf (rule.providers.size > 4096) (.invalid "resource_rule.providers")
  rejectIf (versionNum rule.id ≠ 4
    || (rule.resources.isEmpty && rule.resourceCollections.isEmpty)
    || rule.sourceCollections.size > 64 || rule.resourceCollections.size > 64
    || rule.resources.size > 4096 || rule.destinationPorts.length > 64
    || !([0, 1, 6, 17, 58].contains rule.protocol)
    || (!rule.destinationPorts.isEmpty && !([6, 17].contains rule.protocol))
    || rule.destinationPorts.any fun (first, last) => first = 0 || first > last)
    (.invalid "resource_rule")

/-- The provider identity is an independent predicate, never a target selector. -/
structure ResourceAccess where
  sourcePeer : PeerId
  sourceAddress : IpAddr
  sourceLabels : ExtTreeMap Text Text
  resource : Uuid
  provider : PeerId
  protocol : UInt8
  destinationPort : Option Nat
  now : Nat

def resourceRuleMatches (rule : ResourceRule) (collections : List ResolvedCollection)
    (access : ResourceAccess) : Bool :=
  rule.enabled && rule.validate.isOk && rule.notAfter.all (access.now < ·)
    && (rule.resources.contains access.resource
      || collectionContains collections rule.resourceCollections .resources access.resource)
    && (rule.sourceCollections.isEmpty
      || collectionContains collections rule.sourceCollections .devices access.sourcePeer.value)
    && (rule.providers.isEmpty || rule.providers.contains access.provider)
    && rule.source.matchesDevice access.sourcePeer access.sourceAddress access.sourceLabels
    && (rule.protocol = 0 || rule.protocol = access.protocol)
    && (rule.destinationPorts.isEmpty || access.destinationPort.any fun port =>
      rule.destinationPorts.any fun (first, last) => first ≤ port && port ≤ last)

/-- The aliases at an address: the most specific resources that contain it. An explicitly selected
exit is considered only when no more specific network exists. -/
def packetResourceAliases (resources : List NetworkResource) (address : IpAddr)
    (exit : Option Uuid) : List Uuid :=
  let found := resources.filter fun resource =>
    resource.definition.target.contains address
      && (!resource.definition.target.isInternet || some resource.id = exit)
  match (found.map (·.definition.target.specificity)).max? with
  | none => []
  | some specificity =>
    sortBy compare
      ((found.filter (·.definition.target.specificity = specificity)).map (·.id))

/-- The key `decide_resource_aliases` selects by: the least one wins. -/
def selectionCmp : ResourceRule × Uuid → ResourceRule × Uuid → Ordering :=
  compareLex (compareOn fun entry => entry.1.priority) <|
    compareLex (compareOn fun entry => entry.1.action.rank) <|
      compareLex (compareOn fun entry => entry.1.id) (compareOn Prod.snd)

/-- `min` and `min_by_key`: the first of the least. -/
def least {α : Type} (cmp : α → α → Ordering) (items : List α) : Option α :=
  items.foldl (fun best item =>
    match best with
    | none => some item
    | some found => if cmp item found = .lt then some item else best) none

/-- Whether a rule applies to one alias: an `Allow` requires the provider's own approved binding. -/
def ruleApplies (collections : List ResolvedCollection) (bindings : List GatewayBinding)
    (access : ResourceAccess) (rule : ResourceRule) (resource : Uuid) : Bool :=
  resourceRuleMatches rule collections { access with resource }
    && (rule.action = .deny || bindings.any fun binding =>
      binding.resourceId = resource && binding.peerId = access.provider && binding.approved)

/-- Rules for all equally specific aliases share one deterministic priority order. A matching `Deny`
cannot be bypassed by choosing a second alias. -/
def decideResourceAliases (rules : List ResourceRule) (collections : List ResolvedCollection)
    (aliases : List Uuid) (bindings : List GatewayBinding) (access : ResourceAccess) :
    ResourceAction × Option Uuid × Option Uuid :=
  let candidates := rules.filterMap fun rule =>
    (least compare (aliases.filter (ruleApplies collections bindings access rule))).map (rule, ·)
  match least selectionCmp candidates with
  | none => (.deny, none, none)
  | some (rule, resource) => (rule.action, some rule.id, some resource)

end Peerward.Management
