import Peerward.Lib.Decoder
import Peerward.Net.Display

/-!
# The host and its commands

The part of a host that a network transaction changes, object by object, and what each command does to
it. A command touches one object, but for a link that goes down: the kernel drops the IPv6 addresses on it
and the routes through it. Adding what is there and deleting what is not are errors of the kernel;
destroying a table that is not there is not. The resolver and the sysctls are changed by compare and swap.

A string is its bytes. A NetworkManager property is the text it is read and written as.
-/

namespace Peerward.Platform

open Peerward.Lib Peerward.Net

inductive PlatformError where
  | invalidName
  | command (what : String)
  | interfaceMissing (interface : Bytes)
  | io
  | rollback
  | ownershipConflict
  deriving DecidableEq

inductive AddressFamily where
  | ipv4
  | ipv6
  deriving DecidableEq

structure Link where
  up : Bool
  mtu : Nat
  deriving DecidableEq

structure ResolvedLinkState where
  dns : List (Nat × Bytes)
  domains : List (Bytes × Bool)
  defaultRoute : Bool
  deriving DecidableEq

/-- What a NetworkManager profile holds for one family. -/
structure ProfileDns where
  dns : Bytes
  search : Bytes
  deriving DecidableEq

structure NetworkManagerDnsState extends ProfileDns where
  family : AddressFamily
  deriving DecidableEq

/-- A record of openresolv: `nameserver` and `search`. -/
structure ResolverRecord where
  nameserver : Bytes
  search : Bytes
  deriving DecidableEq

/-- `ResolvedLinkMutation`, `NetworkManagerDnsMutation` and `ResolvConfMutation`. -/
structure Mutation (α : Type) where
  expected : α
  replacement : α
  deriving DecidableEq

/-- A rule of a Peerward table, by its chain. -/
inductive NftRule where
  | egress (oifname : Bytes) (daddr : IpNet) (protocol : Option Bytes) (dport : Option Nat)
  | localAccept (iifname : Bytes) (daddr : IpAddr)
  | localDrop (iifname : Bytes)
  | transitAccept (interface : Bytes) (saddr daddr : IpNet)
  | nat (interface : Bytes) (saddr daddr : IpNet) (masquerade : Bool)
  | transitEstablished (oifname : Bytes)
  | transitDropIn (iifname : Bytes)
  | transitDropOut (oifname : Bytes)
  deriving DecidableEq

/-- A base chain with its hook. -/
inductive NftChain where
  | egress
  | transit
  | input
  | nat
  deriving DecidableEq

structure NftTable where
  chains : List NftChain
  rules : List NftRule
  deriving DecidableEq

/-! ## Objects

The host as far as the commands see it: a value for each object. A link that goes down takes its routes and
its IPv6 addresses with it.
-/

inductive Object where
  | link (interface : Bytes)
  | address (interface : Bytes) (network : IpNet)
  /-- A route of protocol 99. -/
  | route (interface : Bytes) (network : IpNet)
  | table (name : Bytes)
  | resolved (interface : Bytes)
  | profile (connection : Bytes) (family : AddressFamily)
  | openresolv
  | record (label : Bytes)
  | resolvConf (path : Bytes)
  | forwarding (family : AddressFamily)
  | acceptRa (interface : Bytes)
  deriving DecidableEq

@[reducible] def Object.Value : Object → Type
  | .link _ => Option Link
  | .address _ _ => Bool
  | .route _ _ => Bool
  | .table _ => Option NftTable
  | .resolved _ => Option ResolvedLinkState
  | .profile _ _ => Option ProfileDns
  | .openresolv => Bool
  | .record _ => Option ResolverRecord
  | .resolvConf _ => Option Bytes
  | .forwarding _ => Bytes
  | .acceptRa _ => Option Bytes

abbrev Host : Type := (object : Object) → object.Value

namespace Host

def set (h : Host) (object : Object) (value : object.Value) : Host := Function.update h object value

@[simp] theorem set_self (h : Host) (object : Object) (value : object.Value) :
    h.set object value object = value := Function.update_self object value h

theorem set_of_ne (h : Host) {object other : Object} (value : object.Value) (hne : other ≠ object) :
    h.set object value other = h other := Function.update_of_ne hne value h

end Host

/-- What changes when a link goes down: the link, the IPv6 addresses on it and the routes through it. -/
def Object.under (interface : Bytes) : Object → Bool
  | .link other | .route other _ => other = interface
  | .address other network => other = interface && !network.addr.isIpv4
  | _ => false

/-- The host after a link has gone down. -/
def Host.down (h : Host) (interface : Bytes) (mtu : Nat) : Host
  | .link other => if other = interface then some { up := false, mtu } else h (.link other)
  | .address other network =>
    h (.address other network) && !(Object.address other network).under interface
  | .route other network => h (.route other network) && !(Object.route other network).under interface
  | object => h object

theorem Host.down_of_not_under {h : Host} {interface : Bytes} {mtu : Nat} {object : Object}
    (hnot : object.under interface = false) : h.down interface mtu object = h object := by
  cases object with
  | link other => exact if_neg (of_decide_eq_false hnot)
  | address other network =>
      show (_ && !_) = _
      rw [hnot, Bool.not_false, Bool.and_true]
  | route other network =>
      show (_ && !_) = _
      rw [hnot, Bool.not_false, Bool.and_true]
  | _ => rfl

/-- What is left does not depend on the host. -/
theorem Host.down_of_under {h h' : Host} {interface : Bytes} {mtu : Nat} {object : Object}
    (hunder : object.under interface = true) :
    h.down interface mtu object = h'.down interface mtu object := by
  cases object with
  | link other => exact (if_pos (of_decide_eq_true hunder)).trans (if_pos (of_decide_eq_true hunder)).symm
  | address other network =>
      show (_ && !_) = (_ && !_)
      rw [hunder, Bool.not_true, Bool.and_false, Bool.and_false]
  | route other network =>
      show (_ && !_) = (_ && !_)
      rw [hunder, Bool.not_true, Bool.and_false, Bool.and_false]
  | _ => cases hunder

/-! ## Commands

Commands are refused where their object is not as they expect, as the kernel or a service refuses them.
Compare and swap is refused by the backend itself.
-/

inductive CommandSpec where
  | tuntapAdd (interface : Bytes)
  | tuntapDel (interface : Bytes)
  | addressAdd (network : IpNet) (interface : Bytes)
  | addressDel (network : IpNet) (interface : Bytes)
  /-- `link set dev <interface> mtu <mtu> up`. -/
  | linkUp (interface : Bytes) (mtu : Nat)
  | linkDown (interface : Bytes)
  | routeAdd (network : IpNet) (interface : Bytes)
  | routeDel (network : IpNet) (interface : Bytes)
  /-- One batch: destroy the table and add it with these rules. -/
  | nftReplace (table : Bytes) (contents : NftTable)
  | nftDestroy (table : Bytes)
  | resolvedReplace (interface : Bytes) (mutation : Mutation ResolvedLinkState)
  | profileReplace (connection : Bytes) (mutation : Mutation NetworkManagerDnsState)
  | recordAdd (label : Bytes) (record : ResolverRecord)
  | recordDel (label : Bytes)
  | resolvConfReplace (path : Bytes) (mutation : Mutation Bytes)
  | forwardingReplace (family : AddressFamily) (mutation : Mutation Bytes)
  | acceptRaReplace (interface : Bytes) (mutation : Mutation Bytes)
  deriving DecidableEq

/-- The object a command changes. -/
def CommandSpec.object : CommandSpec → Object
  | .tuntapAdd interface | .tuntapDel interface | .linkUp interface _ | .linkDown interface =>
    .link interface
  | .addressAdd network interface | .addressDel network interface => .address interface network
  | .routeAdd network interface | .routeDel network interface => .route interface network.trunc
  | .nftReplace table _ | .nftDestroy table => .table table
  | .resolvedReplace interface _ => .resolved interface
  | .profileReplace connection mutation => .profile connection mutation.expected.family
  | .recordAdd label _ | .recordDel label => .record label
  | .resolvConfReplace path _ => .resolvConf path
  | .forwardingReplace family _ => .forwarding family
  | .acceptRaReplace interface _ => .acceptRa interface

def safeName (value : Bytes) : Bool :=
  !value.isEmpty && value.length ≤ 15
    && value.all fun b => (48 ≤ b && b ≤ 57) || (65 ≤ b && b ≤ 90) || (97 ≤ b && b ≤ 122)
      || b = 95 || b = 45

def MAX_RESOLV_CONF_BYTES : Nat := 65536

/-- Compare and swap: what is there already stays. -/
def Mutation.swap {α : Type} [DecidableEq α] (mutation : Mutation α) (current : α) :
    Except PlatformError α :=
  if current = mutation.replacement then .ok current
  else if current ≠ mutation.expected then .error .ownershipConflict
  else .ok mutation.replacement

/-- `interface_index`. -/
def requireLink (h : Host) (interface : Bytes) : Except PlatformError Link :=
  match h (.link interface) with
  | some link => .ok link
  | none => .error (.interfaceMissing interface)

/-- What was read, where there is something. -/
def required {α : Type} (failure : PlatformError) : Option α → Except PlatformError α
  | some value => .ok value
  | none => .error failure

/-- `read_text_bounded`. -/
def readResolvConf (h : Host) (path : Bytes) : Except PlatformError Bytes := do
  let text ← required .io (h (.resolvConf path))
  rejectIf (MAX_RESOLV_CONF_BYTES < text.length) .io
  return text

/-- The routes that the kernel holds itself, to the networks of addresses: a route to such a network is
refused as a second one. -/
abbrev Connected : Type := Host → Bytes → IpNet → Bool

variable (connected : Connected)

/-- `LinuxCommandBackend::run`, for the commands that change the host. -/
def execute (command : CommandSpec) (h : Host) : Except PlatformError Host :=
  match command with
  | .tuntapAdd _ | .tuntapDel _ => .error (.command "unsupported native network operation")
  | .addressAdd network interface => do
    let _ ← requireLink h interface
    if h (.address interface network) then .error (.command "rtnetlink")
    else .ok (h.set (.address interface network) true)
  | .addressDel network interface => do
    let _ ← requireLink h interface
    if h (.address interface network) then .ok (h.set (.address interface network) false)
    else .error (.command "rtnetlink")
  | .linkUp interface mtu => do
    let _ ← requireLink h interface
    .ok (h.set (.link interface) (some { up := true, mtu }))
  | .linkDown interface => do
    let link ← requireLink h interface
    .ok (if link.up then h.down interface link.mtu else h)
  | .routeAdd network interface => do
    let _ ← requireLink h interface
    if h (.route interface network.trunc) || connected h interface network.trunc then
      .error (.command "rtnetlink")
    else .ok (h.set (.route interface network.trunc) true)
  | .routeDel network interface => do
    let _ ← requireLink h interface
    if h (.route interface network.trunc) then .ok (h.set (.route interface network.trunc) false)
    else .error (.command "rtnetlink")
  | .nftReplace table contents => .ok (h.set (.table table) (some contents))
  | .nftDestroy table => .ok (h.set (.table table) none)
  | .resolvedReplace interface mutation => do
    let _ ← requireLink h interface
    let current ← required (.command "system D-Bus") (h (.resolved interface))
    let next ← mutation.swap current
    .ok (h.set (.resolved interface) (some next))
  | .profileReplace connection mutation => do
    rejectIf (mutation.expected.family ≠ mutation.replacement.family)
      (.command "unsupported NetworkManager D-Bus operation")
    let current ← required (.command "NetworkManager profile does not exist")
      (h (.profile connection mutation.expected.family))
    let next ← mutation.swap { current with family := mutation.expected.family }
    .ok (h.set (.profile connection mutation.expected.family) (some next.toProfileDns))
  | .recordAdd label record =>
    if h .openresolv then .ok (h.set (.record label) (some record)) else .error .io
  | .recordDel label =>
    if h .openresolv then
      match h (.record label) with
      | some _ => .ok (h.set (.record label) none)
      | none => .error (.command "resolvconf exited")
    else .error .io
  | .resolvConfReplace path mutation => do
    rejectIf (MAX_RESOLV_CONF_BYTES < mutation.expected.length
      || MAX_RESOLV_CONF_BYTES < mutation.replacement.length) (.command "resolv.conf exceeds safety limit")
    let current ← readResolvConf h path
    let next ← mutation.swap current
    .ok (h.set (.resolvConf path) (some next))
  | .forwardingReplace family mutation => do
    let next ← mutation.swap (h (.forwarding family))
    .ok (h.set (.forwarding family) next)
  | .acceptRaReplace interface mutation => do
    rejectIf (!safeName interface) .invalidName
    let current ← required .io (h (.acceptRa interface))
    let next ← mutation.swap current
    .ok (h.set (.acceptRa interface) (some next))

variable {connected}

/-- A command sets its object, or takes a link down. -/
theorem execute_eq_set {command : CommandSpec} {h h' : Host}
    (hdown : ∀ interface, command ≠ .linkDown interface) (hrun : execute connected command h = .ok h') :
    ∃ value, h' = h.set command.object value := by
  cases command <;> simp only [execute] at hrun
  case tuntapAdd | tuntapDel => cases hrun
  case nftReplace | nftDestroy => exact ⟨_, (Except.ok.inj hrun).symm⟩
  case linkUp =>
    obtain ⟨_, _, hrun⟩ := bind_eq_ok.mp hrun
    exact ⟨_, (Except.ok.inj hrun).symm⟩
  case linkDown interface => exact absurd rfl (hdown interface)
  case addressAdd | addressDel | routeAdd | routeDel =>
    obtain ⟨_, _, hrun⟩ := bind_eq_ok.mp hrun
    split at hrun
    · first | exact ⟨_, (Except.ok.inj hrun).symm⟩ | cases hrun
    · first | exact ⟨_, (Except.ok.inj hrun).symm⟩ | cases hrun
  case recordAdd =>
    split at hrun
    · exact ⟨_, (Except.ok.inj hrun).symm⟩
    · cases hrun
  case recordDel =>
    split at hrun
    · split at hrun
      · exact ⟨_, (Except.ok.inj hrun).symm⟩
      · cases hrun
    · cases hrun
  case forwardingReplace =>
    obtain ⟨_, _, hrun⟩ := bind_eq_ok.mp hrun
    exact ⟨_, (Except.ok.inj hrun).symm⟩
  case acceptRaReplace | resolvedReplace | profileReplace | resolvConfReplace =>
    obtain ⟨_, _, hrun⟩ := bind_eq_ok.mp hrun
    obtain ⟨_, _, hrun⟩ := bind_eq_ok.mp hrun
    obtain ⟨_, _, hrun⟩ := bind_eq_ok.mp hrun
    exact ⟨_, (Except.ok.inj hrun).symm⟩

theorem execute_linkDown {interface : Bytes} {h h' : Host}
    (hrun : execute connected (.linkDown interface) h = .ok h') :
    ∃ link, h (.link interface) = some link ∧ h' = if link.up then h.down interface link.mtu else h := by
  obtain ⟨link, hlink, hrun⟩ := bind_eq_ok.mp hrun
  refine ⟨link, ?_, (Except.ok.inj hrun).symm⟩
  unfold requireLink at hlink
  split at hlink
  · next held hheld => rw [hheld, Except.ok.inj hlink]
  · cases hlink

/-- A command leaves every other object. -/
theorem execute_frame {command : CommandSpec} {h h' : Host} (hrun : execute connected command h = .ok h')
    {object : Object} (hne : object ≠ command.object)
    (hunder : ∀ interface, command = .linkDown interface → object.under interface = false) :
    h' object = h object := by
  by_cases hdown : ∃ interface, command = .linkDown interface
  · obtain ⟨interface, rfl⟩ := hdown
    obtain ⟨link, -, rfl⟩ := execute_linkDown hrun
    split
    · exact Host.down_of_not_under (hunder interface rfl)
    · rfl
  · obtain ⟨value, rfl⟩ := execute_eq_set (fun interface h => hdown ⟨interface, h⟩) hrun
    exact Host.set_of_ne h value hne

end Peerward.Platform
