import Peerward.Lib.Bytes
import Peerward.Lib.Ordered

/-!
# Addresses, flows and parsed packets

The data model shared by the packet parser, the firewall and the identity policy. The data-plane
crate and the policy crate each declare a `FlowKey` with the same five fields; here it is one type,
so that handing a parsed packet from one crate to the other needs no conversion.

Orders are the ones `derive(Ord)` produces: constructors in declaration order, then fields in
declaration order. Ports, identifications and offsets are natural numbers; the parser only ever
produces values of the source's widths.
-/

namespace Peerward.Net

open Std Peerward.Lib

/-! ## Addresses -/

/-- `std::net::IpAddr`. The octets of an address are the big-endian digits of its number. -/
inductive IpAddr where
  | v4 (bits : BitVec 32)
  | v6 (bits : BitVec 128)
  deriving DecidableEq

namespace IpAddr

def isIpv4 : IpAddr → Bool
  | .v4 _ => true
  | .v6 _ => false

def isIpv6 : IpAddr → Bool
  | .v4 _ => false
  | .v6 _ => true

def isUnspecified : IpAddr → Bool
  | .v4 bits => bits = 0
  | .v6 bits => bits = 0

def isLoopback : IpAddr → Bool
  | .v4 bits => bits >>> 24 = 127#32
  | .v6 bits => bits = 1

def isMulticast : IpAddr → Bool
  | .v4 bits => bits >>> 28 = 14#32
  | .v6 bits => bits >>> 120 = 0xff#128

/-- `Ipv4Addr::octets` and `Ipv6Addr::octets`. -/
def octets : IpAddr → Bytes
  | .v4 bits => toBE 4 bits.toNat
  | .v6 bits => toBE 16 bits.toNat

/-- `Ipv4Addr::from([u8; 4])`. -/
def ofV4Octets (bytes : Bytes) : IpAddr := .v4 (BitVec.ofNat 32 (ofBE bytes))

/-- `Ipv6Addr::from([u8; 16])`. -/
def ofV6Octets (bytes : Bytes) : IpAddr := .v6 (BitVec.ofNat 128 (ofBE bytes))

/-- Every IPv4 address sorts before every IPv6 address. -/
def rank : IpAddr → Nat
  | .v4 bits => bits.toNat
  | .v6 bits => 2 ^ 32 + bits.toNat

theorem rank_injective : Function.Injective rank := by
  rintro (a | a) (b | b) h
  · exact congrArg _ (BitVec.eq_of_toNat_eq h)
  · have := a.isLt
    simp only [rank] at h
    omega
  · have := b.isLt
    simp only [rank] at h
    omega
  · refine congrArg _ (BitVec.eq_of_toNat_eq ?_)
    simp only [rank] at h
    omega

instance : Ord IpAddr := ⟨compareOn rank⟩

instance : TransOrd IpAddr := inferInstanceAs (TransCmp (compareOn rank))

instance : LawfulEqOrd IpAddr where
  eq_of_compare h := rank_injective (LawfulEqOrd.eq_of_compare h)

theorem octets_ofV4Octets {bytes : Bytes} (h : bytes.length = 4) :
    (ofV4Octets bytes).octets = bytes := by
  have hlt := ofBE_lt bytes
  rw [h] at hlt
  have hmod : (BitVec.ofNat 32 (ofBE bytes)).toNat = ofBE bytes := by
    rw [BitVec.toNat_ofNat, Nat.mod_eq_of_lt (by simpa using hlt)]
  rw [ofV4Octets, octets, hmod, ← h, toBE_ofBE]

theorem octets_ofV6Octets {bytes : Bytes} (h : bytes.length = 16) :
    (ofV6Octets bytes).octets = bytes := by
  have hlt := ofBE_lt bytes
  rw [h] at hlt
  have hmod : (BitVec.ofNat 128 (ofBE bytes)).toNat = ofBE bytes := by
    rw [BitVec.toNat_ofNat, Nat.mod_eq_of_lt (by simpa using hlt)]
  rw [ofV6Octets, octets, hmod, ← h, toBE_ofBE]

end IpAddr

/-! ## Flows -/

/-- Directional transport identity. -/
structure FlowKey where
  source : IpAddr
  destination : IpAddr
  /-- Final IP protocol. -/
  protocol : UInt8
  /-- Transport source port or echo identifier. -/
  sourcePort : Option Nat
  /-- Transport destination port or echo identifier. -/
  destinationPort : Option Nat
  deriving DecidableEq

namespace FlowKey

/-- Reverses both network and transport endpoints. -/
def reverse (key : FlowKey) : FlowKey :=
  { key with
    source := key.destination
    destination := key.source
    sourcePort := key.destinationPort
    destinationPort := key.sourcePort }

@[simp] theorem reverse_reverse (key : FlowKey) : key.reverse.reverse = key := rfl

@[simp] theorem reverse_protocol (key : FlowKey) : key.reverse.protocol = key.protocol := rfl

@[simp] theorem reverse_source (key : FlowKey) : key.reverse.source = key.destination := rfl

@[simp] theorem reverse_destination (key : FlowKey) : key.reverse.destination = key.source := rfl

def cmp : FlowKey → FlowKey → Ordering :=
  compareLex (compareOn source) <| compareLex (compareOn destination) <|
    compareLex (compareOn protocol) <| compareLex (compareOn sourcePort) (compareOn destinationPort)

instance : Ord FlowKey := ⟨cmp⟩

instance : TransOrd FlowKey := inferInstanceAs (TransCmp (compareLex _ _))

instance : LawfulEqOrd FlowKey where
  eq_of_compare := by
    intro a b h
    replace h : cmp a b = .eq := h
    simp only [cmp, compareLex_eq_eq, compareOn] at h
    obtain ⟨h₁, h₂, h₃, h₄, h₅⟩ := h
    cases a
    cases b
    congr
    · exact LawfulEqOrd.eq_of_compare h₁
    · exact LawfulEqOrd.eq_of_compare h₂
    · exact LawfulEqOrd.eq_of_compare h₃
    · exact LawfulEqOrd.eq_of_compare h₄
    · exact LawfulEqOrd.eq_of_compare h₅

end FlowKey

/-! ## Parsed packets -/

/-- Fragment metadata shared by IPv4 and IPv6. -/
structure Fragment where
  /-- Identification value scoped by source, destination, and protocol. -/
  identification : Nat
  /-- Eight-byte fragment offset units. -/
  offset : Nat
  /-- More-fragments bit. -/
  more : Bool
  deriving DecidableEq

/-- Parsed metadata used by policy and state tracking. -/
structure ParsedPacket where
  source : IpAddr
  destination : IpAddr
  /-- Final IP next-header value, or the Fragment header's value for a non-initial IPv6 fragment
  whose transport header is unavailable. -/
  protocol : UInt8
  sourcePort : Option Nat
  destinationPort : Option Nat
  tcpFlags : Option UInt8
  /-- ICMP type and code. -/
  icmp : Option (UInt8 × UInt8)
  fragment : Option Fragment
  /-- Complete authenticated packet length. -/
  packetLen : Nat
  /-- Quoted flow in a supported ICMP error. -/
  relatedFlow : Option FlowKey
  deriving DecidableEq

/-- Extracts a flow from an unfragmented or first-fragment packet. -/
def FlowKey.fromPacket (packet : ParsedPacket) : Option FlowKey :=
  if packet.fragment.all (fun fragment => fragment.offset = 0) then
    some {
      source := packet.source
      destination := packet.destination
      protocol := packet.protocol
      sourcePort := packet.sourcePort
      destinationPort := packet.destinationPort }
  else none

theorem FlowKey.fromPacket_protocol {packet : ParsedPacket} {flow : FlowKey}
    (h : FlowKey.fromPacket packet = some flow) : flow.protocol = packet.protocol := by
  simp only [fromPacket] at h
  split at h <;> cases h
  rfl

/-! ## Wire constants -/

def TCP : UInt8 := 6
def UDP : UInt8 := 17
def ICMP_V4 : UInt8 := 1
def ICMP_V6 : UInt8 := 58
def TCP_FIN : UInt8 := 0x01
def TCP_SYN : UInt8 := 0x02
def TCP_RST : UInt8 := 0x04
def TCP_ACK : UInt8 := 0x10

/-- `u64::MAX`, the ceiling of the saturating clock arithmetic. -/
def U64_MAX : Nat := 2 ^ 64 - 1

/-- `u64::saturating_add`. -/
def saturatingAdd (a b : Nat) : Nat := min (a + b) U64_MAX

theorem saturatingAdd_le (a b : Nat) : saturatingAdd a b ≤ a + b := min_le_left _ _

theorem saturatingAdd_eq {a b : Nat} (h : a + b ≤ U64_MAX) : saturatingAdd a b = a + b :=
  min_eq_left h

end Peerward.Net
