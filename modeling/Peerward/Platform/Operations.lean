import Peerward.Platform.Host

/-!
# Network intents and their operations

What is asked of the host, the checks on it, and the operations it becomes: each a command and the
command that takes it back. Reading the host, running a command and writing the journal may fail for
reasons of their own; `Environment` says which of them do.
-/

namespace Peerward.Platform

open Peerward.Lib Peerward.Net

def utf8 (text : String) : Bytes := text.toUTF8.toList

structure Operation where
  apply : CommandSpec
  rollback : CommandSpec
  deriving DecidableEq

/-! ## What may fail -/

inductive TransactionPhase where
  | prepared
  | active
  | rollingBack
  deriving DecidableEq

structure NetworkJournal where
  schemaVersion : Nat
  phase : TransactionPhase
  rollback : List CommandSpec
  deriving DecidableEq

/-- A probe, snapshot or read. -/
inductive Query where
  | resolvedProbe (interface : Bytes)
  | resolvedSnapshot (interface : Bytes)
  | profileId (connection : Bytes)
  | profileDns (connection : Bytes) (family : AddressFamily)
  | profileSearch (connection : Bytes) (family : AddressFamily)
  | resolvconfVersion
  | resolvConf (path : Bytes)
  | acceptRa (interface : Bytes)
  | forwarding (family : AddressFamily)
  deriving DecidableEq

inductive Event where
  | apply (command : CommandSpec)
  | rollback (command : CommandSpec)
  | query (query : Query)
  | save (journal : NetworkJournal)
  deriving DecidableEq

structure Environment where
  /-- The events that fail whatever the host is like. -/
  fails : Event → Bool
  /-- The routes that the kernel holds itself. -/
  connected : Connected

variable (env : Environment)

/-- A read of the host. -/
def observe {α : Type} (query : Query) (answer : Except PlatformError α) : Except PlatformError α :=
  if env.fails (.query query) then .error (.command "read failed") else answer

/-! ## Names -/

def safeProfile (value : Bytes) : Bool :=
  !value.isEmpty && value.length ≤ 128 && !value.any fun b => b = 10 || b = 13 || b = 0

def safeResolverPath (path : Bytes) : Bool :=
  path.head? = some 47 && path.length ≤ 4096 && !path.contains 0

/-- The length of the white space character at the front, or 0. -/
def whitespaceLength : Bytes → Nat
  | 0xC2 :: b :: _ => if b = 0x85 || b = 0xA0 then 2 else 0
  | 0xE1 :: 0x9A :: 0x80 :: _ => 3
  | 0xE2 :: 0x80 :: b :: _ => if (0x80 ≤ b && b ≤ 0x8A) || b = 0xA8 || b = 0xA9 || b = 0xAF then 3 else 0
  | 0xE2 :: 0x81 :: 0x9F :: _ => 3
  | 0xE3 :: 0x80 :: 0x80 :: _ => 3
  | b :: _ => if (9 ≤ b && b ≤ 13) || b = 32 then 1 else 0
  | [] => 0

/-- `contains(char::is_whitespace)`. -/
def hasWhitespace : Bytes → Bool
  | [] => false
  | b :: rest => whitespaceLength (b :: rest) ≠ 0 || hasWhitespace rest

/-- `trim_start`, with `skip` bytes of a white space character left. -/
def trimStart : Nat → Bytes → Bytes
  | _, [] => []
  | skip + 1, _ :: rest => trimStart skip rest
  | 0, b :: rest =>
    match whitespaceLength (b :: rest) with
    | 0 => b :: rest
    | n + 1 => trimStart n rest

/-- `split_whitespace().next()`, of a text without white space in front. -/
def word : Bytes → Bytes
  | [] => []
  | b :: rest => if whitespaceLength (b :: rest) = 0 then b :: word rest else []

/-- `lines`, with the line read so far reversed. -/
def lines : Bytes → Bytes → List Bytes
  | line, [] => if line.isEmpty then [] else [line.reverse]
  | line, b :: rest =>
    if b = 10 then (match line with | 13 :: line => line.reverse | _ => line.reverse) :: lines [] rest
    else lines (b :: line) rest

/-! ## The peer network

The operations of `prepare` for a valid configuration: the interface, its addresses, the link and the
routes, each with the command that takes it back.
-/

inductive DnsBackend where
  | auto (connection : Option Bytes) (resolvConf : Bytes)
  | systemdResolved
  | networkManager (connection : Bytes)
  | openResolv
  | resolvConf (path : Bytes)
  deriving DecidableEq

structure NftAllow where
  destination : IpNet
  protocol : Option Bytes
  destinationPort : Option Nat
  deriving DecidableEq

/-- Complete Linux peer network intent. -/
structure LinuxNetworkConfig where
  interface : Bytes
  interfacePrecreated : Bool
  address : IpNet
  secondaryAddress : Option IpNet
  mtu : Nat
  routes : List IpNet
  dnsSuffix : Bytes
  dnsServer : IpAddr
  dnsBackend : DnsBackend
  nftAllow : List NftAllow
  deriving DecidableEq

/-- `validate_assignments` succeeds. -/
def validAssignments (primary : IpNet) (secondary : Option IpNet) (routes : List IpNet) : Bool :=
  let assigned := primary :: secondary.toList
  !(secondary.any (fun address => address.addr.isIpv4 = primary.addr.isIpv4)
    || assigned.any (fun address => address.addr.isUnspecified || address.addr.isMulticast
      || !routes.any (·.contains address.addr))
    || routes.any fun route => !assigned.any fun address => address.addr.isIpv4 = route.addr.isIpv4)

def unsafeBackend : DnsBackend → Bool
  | .networkManager connection => !safeProfile connection
  | .auto connection resolvConf => connection.any (!safeProfile ·) || !safeResolverPath resolvConf
  | .resolvConf path => !safeResolverPath path
  | .systemdResolved | .openResolv => false

def validateConfig (config : LinuxNetworkConfig) : Except PlatformError Unit := do
  rejectIf (!validAssignments config.address config.secondaryAddress config.routes
    || !safeName config.interface || config.mtu < 576 || 9000 < config.mtu
    || config.dnsSuffix.isEmpty || config.dnsSuffix.head? = some 46 || hasWhitespace config.dnsSuffix
    || config.address.addr.isIpv4 ≠ config.dnsServer.isIpv4) .invalidName
  rejectIf (unsafeBackend config.dnsBackend) .invalidName
  rejectIf (config.nftAllow.any fun rule =>
    rule.protocol.any (fun protocol => protocol ≠ utf8 "tcp" && protocol ≠ utf8 "udp")
      || rule.destinationPort = some 0) .invalidName
  rejectIf (!config.routes.any (·.contains config.dnsServer)) .invalidName

/-- The address of one host. -/
def hostNet : IpAddr → IpNet
  | .v4 bits => .v4 ⟨bits, 32, Nat.le_refl 32⟩
  | .v6 bits => .v6 ⟨bits, 128, Nat.le_refl 128⟩

def addressOperation (interface : Bytes) (network : IpNet) : Operation :=
  { apply := .addressAdd network interface, rollback := .addressDel network interface }

def routeOperation (interface : Bytes) (network : IpNet) : Operation :=
  { apply := .routeAdd network interface, rollback := .routeDel network interface }

def buildPrepareOperations (config : LinuxNetworkConfig) : List Operation :=
  let interface := config.interface
  (if config.interfacePrecreated then []
    else [{ apply := .tuntapAdd interface, rollback := .tuntapDel interface }])
  ++ [addressOperation interface config.address,
      { apply := .linkUp interface config.mtu, rollback := .linkDown interface }]
  ++ config.secondaryAddress.toList.map (addressOperation interface)
  ++ (if config.address.addr ≠ config.dnsServer then
      [addressOperation interface (hostNet config.dnsServer)] else [])
  ++ config.routes.map (routeOperation interface)

/-- `peerward_<interface>`, with underscores for hyphens. -/
def nftTable (interface : Bytes) : Bytes :=
  utf8 "peerward_" ++ interface.map fun b => if b = 45 then 95 else b

def nftOperation (table : Bytes) (contents : NftTable) : Operation :=
  { apply := .nftReplace table contents, rollback := .nftDestroy table }

def nftOperations (config : LinuxNetworkConfig) (table : Bytes) : List Operation :=
  [nftOperation table {
    chains := [.egress]
    rules := config.nftAllow.map fun rule =>
      .egress config.interface rule.destination rule.protocol
        (rule.protocol.bind fun _ => rule.destinationPort) }]

/-! ## Host DNS

What is in force is read before it is swapped, so a rollback has something to return to. The mechanism is
given or probed for.
-/

/-- A swap and the swap back. -/
def swapOperation {α : Type} (command : Mutation α → CommandSpec) (original replacement : α) : Operation :=
  { apply := command { expected := original, replacement },
    rollback := command { expected := replacement, replacement := original } }

/-- `nmcli -g connection.id`: the backend reads DNS properties only. -/
def profileId (_connection : Bytes) (_h : Host) : Except PlatformError Bytes :=
  .error (.command "unsupported NetworkManager property")

/-- The mechanism that `Auto` probes to. -/
def selectBackend (h : Host) (interface : Bytes) : DnsBackend → DnsBackend
  | .auto connection resolvConf =>
    let probed := observe env (.resolvedProbe interface) do
      let _ ← requireLink h interface
      required (.command "system D-Bus") (h (.resolved interface))
    let profile := connection.filter fun connection =>
      match observe env (.profileId connection) (profileId connection h) with
      | .ok name => !(trimStart 0 name).isEmpty
      | .error _ => false
    let version := observe env .resolvconfVersion (if h .openresolv then .ok () else .error .io)
    match probed, profile, version with
    | .ok _, _, _ => .systemdResolved
    | .error _, some connection, _ => .networkManager connection
    | .error _, none, .ok _ => .openResolv
    | .error _, none, .error _ => .resolvConf resolvConf
  | backend => backend

/-- The resolver file with Peerward's nameserver in it. -/
def resolvConfReplacement (original server : Bytes) (search : Option (List Bytes)) : Bytes :=
  let kept := (lines [] original).filter fun line =>
    let trimmed := trimStart 0 line
    !(utf8 "nameserver").isPrefixOf trimmed && trimmed ≠ utf8 "# Managed temporarily by Peerward"
      && !(search.isSome && (word trimmed = utf8 "search" || word trimmed = utf8 "domain"))
  utf8 "# Managed temporarily by Peerward\nnameserver " ++ server ++ [10]
    ++ (match search with
      | some search => utf8 "search " ++ [32].intercalate search ++ [10]
      | none => [])
    ++ kept.flatMap (· ++ [10])

def resolvConfOperationsSearch (h : Host) (path server : Bytes) (search : Option (List Bytes)) :
    Except PlatformError (List Operation) := do
  let original ← observe env (.resolvConf path) (readResolvConf h path)
  return [swapOperation (.resolvConfReplace path) original (resolvConfReplacement original server search)]

def dnsOperationsScoped (h : Host) (config : LinuxNetworkConfig) (domains : List (Bytes × Bool))
    (recordLabel : Option Bytes) : Except PlatformError (List Operation) :=
  let interface := config.interface
  let server := config.dnsServer.display
  let routeDomain : Bytes := [44].intercalate
    (domains.map fun (name, routeOnly) => if routeOnly then 126 :: name else name)
  let searched := (domains.filter (!·.2)).map (·.1)
  match selectBackend env h interface config.dnsBackend with
  | .systemdResolved => do
    let original ← observe env (.resolvedSnapshot interface) do
      let _ ← requireLink h interface
      required (.command "system D-Bus") (h (.resolved interface))
    let replacement : ResolvedLinkState := {
      dns := [(if config.dnsServer.isIpv4 then 2 else 10, config.dnsServer.octets)]
      domains
      defaultRoute := false }
    return [swapOperation (.resolvedReplace interface) original replacement]
  | .networkManager connection => do
    let family := if config.dnsServer.isIpv4 then AddressFamily.ipv4 else .ipv6
    let missing := PlatformError.command "NetworkManager profile does not exist"
    let oldDns ← observe env (.profileDns connection family) do
      let state ← required missing (h (.profile connection family))
      return state.dns
    let oldSearch ← observe env (.profileSearch connection family) do
      let state ← required missing (h (.profile connection family))
      return state.search
    return [swapOperation (.profileReplace connection) { family, dns := oldDns, search := oldSearch }
      { family, dns := server, search := routeDomain }]
  | .openResolv =>
    let search := [32].intercalate searched
    let label := recordLabel.getD (interface ++ utf8 ".peerward")
    .ok [{ apply := .recordAdd label {
            nameserver := server, search := if search.isEmpty then config.dnsSuffix else search },
           rollback := .recordDel label }]
  | .resolvConf path =>
    resolvConfOperationsSearch env h path server (if searched.isEmpty then none else some searched)
  -- `selectBackend` has replaced it.
  | .auto _ _ => .error .invalidName

/-- All managed queries enter the local resolver. -/
def dnsOperations (h : Host) (config : LinuxNetworkConfig) : Except PlatformError (List Operation) :=
  dnsOperationsScoped env h config [([46], true), (config.dnsSuffix, true)] none

/-! ## Shared resources

Forwarding, router advertisements, routes and one table. A setting that is already as it should be is not
touched.
-/

structure GatewayForward where
  prefixNet : IpNet
  masquerade : Bool
  deriving DecidableEq

/-- Host intent compiled from the locally verified configuration and client preferences. -/
structure ResourceNetworkIntent where
  interface : Bytes
  localAddresses : List IpAddr
  meshPrefixes : List IpNet
  acceptedRoutes : List IpNet
  gatewayRoutes : List GatewayForward
  deriving DecidableEq

/-- A route observed on the host. -/
structure HostRoute where
  prefixNet : IpNet
  interface : Bytes
  protocol : Nat
  deriving DecidableEq

def overlaps (left right : IpNet) : Bool := left.contains right.network || right.contains left.network

/-- Two gateways of one prefix with different modes. -/
def conflictingModes : List GatewayForward → Bool
  | [] => false
  | route :: rest =>
    rest.any (fun other => other.prefixNet = route.prefixNet && other.masquerade ≠ route.masquerade)
      || conflictingModes rest

def validateAccepted (intent : ResourceNetworkIntent) (routes : List HostRoute) (accepted : IpNet) :
    Except PlatformError Unit :=
  rejectIf (intent.meshPrefixes.any (overlaps · accepted)
    || routes.any fun route => 0 < route.prefixNet.prefixLen && overlaps route.prefixNet accepted
      && (route.interface ≠ intent.interface || route.protocol ≠ 99)) (.command "route conflicts")

def validateGateway (intent : ResourceNetworkIntent) (routes : List HostRoute) (gateway : GatewayForward) :
    Except PlatformError Unit :=
  if gateway.prefixNet.prefixLen = 0 then
    rejectIf (!routes.any fun route => route.interface ≠ intent.interface
      && route.prefixNet.prefixLen = 0
      && route.prefixNet.addr.isIpv4 = gateway.prefixNet.addr.isIpv4)
      (.command "no underlay default route reaches Internet family")
  else do
    rejectIf (intent.meshPrefixes.any (overlaps · gateway.prefixNet)) .invalidName
    rejectIf (!routes.any fun route => route.interface ≠ intent.interface
      && 0 < route.prefixNet.prefixLen && route.prefixNet.prefixLen ≤ gateway.prefixNet.prefixLen
      && route.prefixNet.contains gateway.prefixNet.network)
      (.command "no local route reaches gateway target")

/-- `ResourceNetworkIntent::validate`. -/
def validateIntent (intent : ResourceNetworkIntent) (routes : List HostRoute) :
    Except PlatformError Unit := do
  rejectIf (!safeName intent.interface || intent.localAddresses.isEmpty
    || 4 < intent.localAddresses.length || intent.meshPrefixes.isEmpty
    || 4 < intent.meshPrefixes.length || 128 < intent.acceptedRoutes.length
    || 128 < intent.gatewayRoutes.length
    || intent.acceptedRoutes.any (fun net => net.prefixLen = 0 || net.network ≠ net.addr)
    || intent.gatewayRoutes.any fun route => route.prefixNet.network ≠ route.prefixNet.addr
      || (route.prefixNet.prefixLen = 0 && !route.masquerade)) .invalidName
  rejectIf (conflictingModes intent.gatewayRoutes)
    (.command "same gateway prefix has conflicting forwarding modes")
  intent.acceptedRoutes.forM (validateAccepted intent routes)
  intent.gatewayRoutes.forM (validateGateway intent routes)

/-- By decreasing prefix length, then by prefix. -/
def gatewayLe (a b : GatewayForward) : Bool :=
  b.prefixNet.prefixLen < a.prefixNet.prefixLen
    || (a.prefixNet.prefixLen = b.prefixNet.prefixLen && (compare a.prefixNet b.prefixNet).isLE)

def resourceNft (intent : ResourceNetworkIntent) : NftTable :=
  let interface := intent.interface
  let sources := fun (route : GatewayForward) =>
    intent.meshPrefixes.filter fun source => source.addr.isIpv4 = route.prefixNet.addr.isIpv4
  { chains := [.transit, .input, .nat]
    rules := intent.localAddresses.map (.localAccept interface) ++ [.localDrop interface]
      ++ ((intent.gatewayRoutes.insertionSort fun a b => gatewayLe a b).flatMap fun route =>
        (sources route).flatMap fun source =>
          [.transitAccept interface source route.prefixNet,
           .nat interface source route.prefixNet route.masquerade])
      ++ [.transitEstablished interface, .transitDropIn interface, .transitDropOut interface] }

def resourceTable (interface : Bytes) : Bytes := utf8 "pw_shared_" ++ interface

/-- The families of the gateways, in order. -/
def gatewayFamilies (intent : ResourceNetworkIntent) : List AddressFamily :=
  (if intent.gatewayRoutes.any (·.prefixNet.addr.isIpv4) then [.ipv4] else [])
    ++ (if intent.gatewayRoutes.any (!·.prefixNet.addr.isIpv4) then [.ipv6] else [])

/-- The other interfaces with an IPv6 default route, in order. -/
def raInterfaces (intent : ResourceNetworkIntent) (routes : List HostRoute) : List Bytes :=
  ((routes.filter fun route => !route.prefixNet.addr.isIpv4 && route.prefixNet.prefixLen = 0
      && route.interface ≠ intent.interface).map (·.interface)).dedup.insertionSort
    fun a b => (compare a b).isLE

/-- `peerward-ipv6-ra read`. -/
def readAcceptRa (h : Host) (interface : Bytes) : Except PlatformError Bytes :=
  observe env (.acceptRa interface) do
    rejectIf (!safeName interface) .invalidName
    required .io (h (.acceptRa interface))

/-- Dynamic IPv6 default routing is kept on an interface. -/
def acceptRaOperations (h : Host) (interface : Bytes) : Except PlatformError (List Operation) := do
  let previous ← readAcceptRa env h interface
  if previous = utf8 "1" then
    return [swapOperation (.acceptRaReplace interface) (utf8 "1") (utf8 "2")]
  rejectIf (previous ≠ utf8 "0" && previous ≠ utf8 "2") .ownershipConflict
  return []

def forwardingOperations (h : Host) (family : AddressFamily) : Except PlatformError (List Operation) := do
  let previous ← observe env (.forwarding family) (.ok (h (.forwarding family)))
  if previous = utf8 "1" then return []
  rejectIf (previous ≠ utf8 "0") .ownershipConflict
  return [swapOperation (.forwardingReplace family) (utf8 "0") (utf8 "1")]

/-- The operations of `apply_resource_network`. -/
def resourceOperations (h : Host) (intent : ResourceNetworkIntent) (routes : List HostRoute) :
    Except PlatformError (List Operation) := do
  let families := gatewayFamilies intent
  let interfaces := if families.contains .ipv6 then raInterfaces intent routes else []
  let ra ← interfaces.mapM (acceptRaOperations env h)
  let forwarding ← families.mapM (forwardingOperations env h)
  return [nftOperation (resourceTable intent.interface) (resourceNft intent)] ++ ra.flatten
    ++ forwarding.flatten ++ intent.acceptedRoutes.map (routeOperation intent.interface)

end Peerward.Platform
