import Peerward.Lib.Decoder
import Peerward.Net.Packet
import Peerward.PeerCore.Sessions

/-!
# Coordination messages

What two Peers say to each other inside the WireGuard tunnel about the paths between them, and which
endpoints may be named in it.
-/

namespace Peerward.PeerCore

open Peerward.Lib Peerward.Net
open Peerward.Types (Key)

/-- `std::net::SocketAddr`. -/
inductive SocketAddr where
  | v4 (ip : BitVec 32) (port : BitVec 16)
  | v6 (ip : BitVec 128) (port : BitVec 16) (flowinfo scopeId : BitVec 32)
  deriving DecidableEq

def SocketAddr.isIpv4 : SocketAddr → Bool
  | .v4 .. => true
  | .v6 .. => false

def MAX_CANDIDATES : Nat := 32
def MAX_PROBE_PADDING : Nat := 9000

/-- The random identifier of one exchange. -/
abbrev Transaction := BitVec 128

inductive Message where
  | candidates (endpoints : List SocketAddr)
  | candidatesAck
  | probe
  | probeAck
  /-- Authenticated path check with this many zero padding bytes. -/
  | mtuProbe (padding : Nat)
  | gatewayProbe (id : BitVec 128)
  | gatewayAck (id : BitVec 128) (ready : Bool)
  deriving DecidableEq

structure Coordination where
  generation : Nat
  transaction : Transaction
  message : Message
  deriving DecidableEq

/-- A unicast address that another host can be reached at. -/
def validEndpoint : SocketAddr → Bool
  | .v4 ip port => port ≠ 0 && ip ≠ 0 && ip >>> 24 ≠ 127#32 && ip >>> 28 ≠ 14#32
      && ip ≠ 0xffffffff#32
  | .v6 ip port _ scopeId => port ≠ 0 && ip ≠ 0 && ip ≠ 1 && ip >>> 120 ≠ 0xff#128
      && ip >>> 118 ≠ 0x3fa#128 && scopeId = 0

def validateCandidates (candidates : List SocketAddr) : Except PeerError Unit :=
  rejectIf (candidates.length > MAX_CANDIDATES || candidates.any (!validEndpoint ·)
    || !decide candidates.Nodup) .invalidPacket

end Peerward.PeerCore
