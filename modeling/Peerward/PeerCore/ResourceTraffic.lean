import Peerward.Dataplane.Firewall
import Peerward.Management.Configuration
import Peerward.Management.Selection

/-!
# What the runtime keeps for resource traffic

`ResourceTraffic` holds two tables of the same connections: `flows` remembers which grant a connection
was opened under, and a firewall with no rules of its own tracks its state. `GatewayHealth` follows
the gateways of the installed configuration.
-/

namespace Peerward.PeerCore

open Std Peerward.Net Peerward.Dataplane
open Peerward.Management (ResourceConfiguration GatewaySelector)
open Peerward.Types (PeerId Uuid)

inductive PlatformState where
  | unmanaged
  | pending
  | applied
  deriving DecidableEq

structure ResourceFlow where
  source : PeerId
  provider : PeerId
  resource : Uuid
  validUntil : Nat
  deriving DecidableEq

structure ResourceTraffic where
  flows : ExtTreeMap FlowKey ResourceFlow
  firewall : Firewall

namespace ResourceTraffic

def new : ResourceTraffic := { flows := ∅, firewall := Firewall.new 1 .deny [] 4096 8 }

def clear (s : ResourceTraffic) : ResourceTraffic :=
  { flows := ∅, firewall := s.firewall.invalidateState }

/-- The entry of a packet's flow, or of its reverse: an ICMP error belongs to the flow it quotes, and
always counts as reverse. -/
def locate (s : ResourceTraffic) (packet : ParsedPacket) : Option (ResourceFlow × Bool) :=
  match packet.relatedFlow with
  | some related => s.flows[related]?.map (·, true)
  | none => (FlowKey.fromPacket packet).bind fun key =>
    (s.flows[key]?.map (·, false)).or (s.flows[key.reverse]?.map (·, true))

/-- The removal of one expired flow. -/
def forget (s : ResourceTraffic) (key : FlowKey) : ResourceTraffic :=
  { flows := s.flows.erase key, firewall := s.firewall.forgetFlow key }

end ResourceTraffic

/-- A followed gateway: its approved bindings and their versions. -/
structure GatewayTrack where
  bindings : ExtTreeMap Uuid Nat

/-- The part of `GatewayHealth` that selection depends on; the path checks in flight are left out. -/
structure GatewayHealth where
  selector : GatewaySelector := {}
  version : Option Nat := none
  tracks : ExtTreeMap PeerId GatewayTrack := ∅

namespace GatewayHealth

/-- The gateways a configuration asks for. -/
def desired (resources : ResourceConfiguration) (localPeer : PeerId) :
    ExtTreeMap PeerId (ExtTreeMap Uuid Nat) :=
  (resources.bindings.filter fun binding => binding.approved && binding.peerId ≠ localPeer).foldl
    (fun found binding => found.insert binding.peerId
      ((found[binding.peerId]?.getD ∅).insert binding.id binding.version)) ∅

/-- One turn of the last loop of `sync`. -/
def follow (now : Nat) (s : GatewayHealth) (entry : PeerId × ExtTreeMap Uuid Nat) : GatewayHealth :=
  { s with
    selector := entry.2.keys.foldl (·.register · now) s.selector
    tracks := if s.tracks.contains entry.1 then s.tracks
      else s.tracks.insert entry.1 { bindings := entry.2 } }

def sync (s : GatewayHealth) (resources : ResourceConfiguration) (localPeer : PeerId)
    (version now : Nat) : GatewayHealth :=
  if s.version = some version then s
  else
    let desired := desired resources localPeer
    let tracks := s.tracks.filter fun peer track => desired[peer]? = some track.bindings
    let selector := s.selector.retain fun id =>
      (tracks.toList.map Prod.snd).any (·.bindings.contains id)
    desired.toList.foldl (follow now) { selector, version := some version, tracks }

end GatewayHealth

end Peerward.PeerCore
