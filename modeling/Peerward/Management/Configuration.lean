import Peerward.Management.ResourcePolicy

/-!
# Configuration deliveries

One delivery carries a signed manifest, a signed lease, the resources of the mesh and the DNS
profiles. `validate_payload` checks the last two against each other and against the manifest.

`content_digest` hashes the JSON of a typed document; the two digests it takes here are the
parameters in `ContentDigests`.
-/

namespace Peerward.Management

open Std Peerward.Lib Peerward.Net Peerward.Types

/-! ## DNS profiles -/

inductive DnsRecord where
  | a (address : BitVec 32)
  | aaaa (address : BitVec 128)
  | cname (target : Text)
  deriving DecidableEq

/-- An upstream: `std::net::SocketAddr`, reduced to its address and port. -/
structure Upstream where
  ip : IpAddr
  port : Nat
  deriving DecidableEq

/-- Every upstream in one group must serve the same namespace; no public fallback. -/
structure DnsRoute where
  suffix : Text
  upstreams : List Upstream
  deriving DecidableEq

structure DnsProfile where
  id : Uuid
  scope : DeviceSelector
  searchDomains : List Text
  routes : List DnsRoute
  records : ExtTreeMap Text (List DnsRecord)
  deriving DecidableEq

/-- `'.'` and `'-'`. -/
def DOT : UInt8 := 46
def HYPHEN : UInt8 := 45

def isLabelByte (byte : UInt8) : Bool :=
  (97 ≤ byte && byte ≤ 122) || (48 ≤ byte && byte ≤ 57) || byte = HYPHEN

def validLabel (label : Bytes) : Bool :=
  !label.isEmpty && label.length ≤ 63 && label.all isLabelByte && label.head? ≠ some HYPHEN
    && label.getLast? ≠ some HYPHEN

/-- Every label is made of lowercase letters, digits and hyphens, so the name is its own
`to_ascii_lowercase`. -/
def validDnsName (name : Text) : Bool :=
  !name.bytes.isEmpty && name.bytes.length ≤ 253 && (name.bytes.splitOn DOT).all validLabel

/-- The loop that follows a chain of aliases. A name is visited at most once, so one turn more than
there are names ends it. -/
def followAliases (records : ExtTreeMap Text (List DnsRecord)) :
    Nat → List Text → Text → Except ManagementError Unit
  | 0, _, _ => .ok ()
  | turns + 1, visited, current =>
    match records[current]? with
    | none => .ok ()
    | some values =>
      if visited.contains current then .error (.conflict "dns.cname_cycle")
      else match values.head? with
        | some (.cname next) => followAliases records turns (current :: visited) next
        | _ => .ok ()

def validateRecords (records : ExtTreeMap Text (List DnsRecord)) : Except ManagementError Unit :=
  records.toList.forM fun (name, values) => do
    rejectIf (!validDnsName name || values.isEmpty || values.length > 16) (.invalid "dns.records")
    rejectIf (values.any fun
      | .cname target => values.length ≠ 1 || !validDnsName target
      | _ => false) (.invalid "dns.cname")
    followAliases records (records.size + 1) [] name

def DnsProfile.validate (profile : DnsProfile) : Except ManagementError Unit := do
  profile.scope.validate
  rejectIf (versionNum profile.id ≠ 4 || profile.searchDomains.length > 6
    || profile.routes.length > 64 || profile.records.size > 4096) (.invalid "dns.bounds")
  rejectIf (profile.searchDomains.any (!validDnsName ·)) (.invalid "dns.search_domains")
  rejectIf (!decide (profile.routes.map (·.suffix)).Nodup || profile.routes.any fun route =>
    !(route.suffix.bytes = [DOT] || validDnsName route.suffix)
      || route.upstreams.isEmpty || route.upstreams.length > 4
      || route.upstreams.any fun server =>
        server.port = 0 || server.ip.isUnspecified || server.ip.isMulticast) (.invalid "dns.routes")
  validateRecords profile.records

/-! ## Resource configurations -/

/-- Capture exclusion only. This never grants a gateway packet authorization. -/
structure ResourceWithdrawal where
  target : ResourceTarget
  providers : ExtTreeSet PeerId
  deriving DecidableEq

structure ProviderCaptureExclusion where
  target : ResourceTarget
  providers : ExtTreeSet PeerId
  deriving DecidableEq

structure ResourceConfiguration where
  admission : AdmissionConfiguration := {}
  collections : List ResolvedCollection := []
  /-- Address shadows survive target replacement and deletion until a matching approval. -/
  withdrawals : List ResourceWithdrawal := []
  /-- Former providers retain their directly connected LAN. No access is granted. -/
  captureExclusions : List ProviderCaptureExclusion := []
  resources : List NetworkResource := []
  bindings : List GatewayBinding := []
  advertisements : List RouteAdvertisement := []
  rules : List ResourceRule := []
  deriving DecidableEq

namespace ResourceConfiguration

/-- Grants and forwarding intent exclude refreshed provider observations. -/
def sameGrants (old next : ResourceConfiguration) : Bool :=
  old.admission.sameRequirements next.admission && old.collections = next.collections
    && old.withdrawals = next.withdrawals && old.captureExclusions = next.captureExclusions
    && old.resources = next.resources && old.bindings = next.bindings && old.rules = next.rules

def validateBounds (configuration : ResourceConfiguration) : Except ManagementError Unit :=
  rejectIf (configuration.collections.length > 64
    || (configuration.resources.filter (·.definition.healthProbe.isSome)).length > 64
    || configuration.withdrawals.length > 4096 || configuration.captureExclusions.length > 4096
    || configuration.resources.length > 4096 || configuration.bindings.length > 8192
    || configuration.advertisements.length > 8192 || configuration.rules.length > 4096)
    (.invalid "resource_configuration.bounds")

def validateWithdrawals (configuration : ResourceConfiguration) : Except ManagementError Unit := do
  configuration.withdrawals.forM fun withdrawal => do
    withdrawal.target.validate
    rejectIf (withdrawal.providers.size > 4096) (.invalid "withdrawal.providers")
  configuration.captureExclusions.forM fun exclusion => do
    exclusion.target.validate
    rejectIf (exclusion.target.isInternet || exclusion.providers.size > 4096)
      (.invalid "capture_exclusion.providers")

/-- The loop over the resources: `seen` are the ids inserted so far. -/
def validateResources (seen : List Uuid) : List NetworkResource → Except ManagementError Unit
  | [] => .ok ()
  | resource :: rest => do
    resource.definition.validate
    rejectIf (resource.version = 0 || resource.id = 0 || seen.contains resource.id)
      (.invalid "resource_configuration.identity")
    validateResources (resource.id :: seen) rest

def validateCollections (configuration : ResourceConfiguration) : Except ManagementError Unit :=
  rejectIf (!decide (configuration.collections.map (·.id)).Nodup
    || configuration.collections.any fun collection =>
      versionNum collection.id ≠ 4 || collection.members.size > 4096
        || collection.members.toList.any (versionNum · ≠ 4)
        || (collection.kind = .resources && !collection.members.toList.all fun id =>
          (configuration.resources.map (·.id)).contains id))
    (.invalid "resource_configuration.collection")

/-- Whether a binding approves its Peer as an Internet exit. -/
def approvesExit (configuration : ResourceConfiguration) (binding : GatewayBinding) : Bool :=
  binding.approved && configuration.resources.any fun resource =>
    resource.id = binding.resourceId && resource.definition.target.isInternet

/-- The loop over the bindings: the ids inserted so far, and the exit each provider serves. -/
def validateBindings (configuration : ResourceConfiguration) (seen : List Uuid)
    (exits : ExtTreeMap PeerId Uuid) : List GatewayBinding → Except ManagementError Unit
  | [] => .ok ()
  | binding :: rest => do
    binding.validate
    rejectIf (!(configuration.resources.map (·.id)).contains binding.resourceId
      || seen.contains binding.id) (.invalid "resource_configuration.binding")
    let exit := configuration.approvesExit binding
    rejectIf (exit && exits[binding.peerId]?.any (· ≠ binding.resourceId))
      (.conflict "exit.provider_resource")
    validateBindings configuration (binding.id :: seen)
      (if exit then exits.insert binding.peerId binding.resourceId else exits) rest

def validateAdvertisements (configuration : ResourceConfiguration) : Except ManagementError Unit :=
  rejectIf (!decide (configuration.advertisements.map (·.bindingId)).Nodup
    || configuration.advertisements.any fun ad =>
      ad.sequence = 0 || ad.bindingVersion = 0
        || !(configuration.bindings.find? (·.id = ad.bindingId)).any (·.peerId = ad.peerId))
    (.invalid "resource_configuration.advertisement")

/-- Whether a rule names a collection of another kind, or none at all. -/
def misnames (configuration : ResourceConfiguration) (selected : ExtTreeSet Uuid)
    (kind : CollectionKind) : Bool :=
  selected.toList.any fun id =>
    !(configuration.collections.find? (·.id = id)).any (·.kind = kind)

/-- The loop over the rules. -/
def validateRules (configuration : ResourceConfiguration) (seen : List Uuid) :
    List ResourceRule → Except ManagementError Unit
  | [] => .ok ()
  | rule :: rest => do
    rule.validate
    rejectIf (seen.contains rule.id
      || rule.resources.toList.any (!(configuration.resources.map (·.id)).contains ·)
      || configuration.misnames rule.sourceCollections .devices
      || configuration.misnames rule.resourceCollections .resources)
      (.invalid "resource_configuration.rule")
    validateRules configuration (rule.id :: seen) rest

def validate (configuration : ResourceConfiguration) : Except ManagementError Unit := do
  configuration.admission.validate
  configuration.validateBounds
  configuration.validateWithdrawals
  validateResources [] configuration.resources
  configuration.validateCollections
  configuration.validateBindings [] ∅ configuration.bindings
  configuration.validateAdvertisements
  configuration.validateRules [] configuration.rules

end ResourceConfiguration

/-! ## Deliveries -/

/-- One bounded delivery. -/
structure ConfigurationDelivery where
  manifest : SignedManifest
  lease : SignedLease
  resources : ResourceConfiguration
  dns : List DnsProfile

structure ContentDigests where
  resources : ResourceConfiguration → Digest
  dns : List DnsProfile → Digest

/-- The manifest names this part with this digest. -/
def ConfigurationManifest.names (manifest : ConfigurationManifest) (part : ConfigurationPart)
    (digest : Digest) : Bool := manifest.parts[part]?.any (·.digest = digest)

def ConfigurationDelivery.validatePayload (digests : ContentDigests)
    (delivery : ConfigurationDelivery) : Except ManagementError Unit := do
  delivery.resources.validate
  rejectIf (delivery.dns.length > 256) (.invalid "dns.profiles")
  delivery.dns.forM DnsProfile.validate
  rejectIf (delivery.resources.resources.any (·.meshId ≠ delivery.manifest.manifest.meshId))
    (.invalid "resource.mesh_id")
  rejectIf (!delivery.manifest.manifest.names .resources (digests.resources delivery.resources)
    || !delivery.manifest.manifest.names .dns (digests.dns delivery.dns)) .incomplete

end Peerward.Management
