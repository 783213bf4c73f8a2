import Peerward.Lib.Fields
import Peerward.Net.Packet

/-!
# The packet parser

`parse_packet` accepts exactly one IPv4 or IPv6 packet: lengths must match, the IPv4 header checksum
and the checksum of every complete transport segment must be right, and an IPv6 extension chain may
have at most one Fragment header. Of a later fragment nothing but addresses, protocol and fragment
fields is read.
-/

namespace Peerward.Dataplane

open Peerward.Lib Peerward.Net

/-- Packet decoding failure. -/
inductive ParseError where
  /-- Packet is shorter than its mandatory header. -/
  | truncated
  /-- Version, lengths, checksum, or extension headers are invalid. -/
  | malformed
  /-- Network or transport protocol is outside the supported data plane. -/
  | unsupported
  deriving DecidableEq

/-! ## Checksums -/

/-- The complement of the folded sum. -/
def internetChecksum (bytes : Bytes) : Nat := 65535 - foldCarry (checksumWords 0 bytes)

def ipv4Checksum (header : Bytes) : Nat := internetChecksum header

/-- Sum of the pseudo header and the payload, for addresses of one family. -/
def transportSum (payload : Bytes) (source destination : IpAddr) (protocol : UInt8) : Option Nat :=
  match source, destination with
  | .v4 _, .v4 _ =>
    let sum := checksumWords (checksumWords 0 source.octets) destination.octets
    some (checksumWords (sum + protocol.toNat + payload.length) payload)
  | .v6 _, .v6 _ =>
    let sum := checksumWords (checksumWords 0 source.octets) destination.octets
    some (checksumWords (checksumWords sum (toBE 4 payload.length) + protocol.toNat) payload)
  | _, _ => none

def transportChecksumValid (payload : Bytes) (source destination : IpAddr) (protocol : UInt8) :
    Bool :=
  payload.length < 2 ^ 32
    && (transportSum payload source destination protocol).any (foldCarry · = 65535)

/-! ## Transport headers

A packet carries TCP, UDP or ICMP, or something that has no ports. The header is read in a first fragment
and in a whole packet; its checksum can only be checked in the latter.
-/

/-- The flow an ICMP error quotes; its own checksum and length fields are not looked at. -/
def parseQuotedFlow (bytes : Bytes) : Option FlowKey :=
  match bytes with
  | [] => none
  | first :: _ =>
    if first >>> 4 = 4 ∧ 24 ≤ bytes.length then
      let header := (first &&& 0x0f).toNat * 4
      if header + 4 ≤ bytes.length then
        some {
          source := .ofV4Octets (slice bytes 12 16)
          destination := .ofV4Octets (slice bytes 16 20)
          protocol := byteAt bytes 9
          sourcePort := some (u16At bytes header)
          destinationPort := some (u16At bytes (header + 2)) }
      else none
    else if first >>> 4 = 6 ∧ 44 ≤ bytes.length then
      some {
        source := .ofV6Octets (slice bytes 8 24)
        destination := .ofV6Octets (slice bytes 24 40)
        protocol := byteAt bytes 6
        sourcePort := some (u16At bytes 40)
        destinationPort := some (u16At bytes 42) }
    else none

/-- The five values `finish_transport` takes from the transport header. -/
structure Transport where
  sourcePort : Option Nat := none
  destinationPort : Option Nat := none
  tcpFlags : Option UInt8 := none
  icmp : Option (UInt8 × UInt8) := none
  relatedFlow : Option FlowKey := none

def parseTcp (payload : Bytes) (source destination : IpAddr) (incomplete : Bool) :
    Except ParseError Transport :=
  if payload.length < 20 then .error .truncated
  else
    let headerLen := (byteAt payload 12 >>> 4).toNat * 4
    if headerLen < 20 then .error .malformed
    else if headerLen > payload.length then .error .truncated
    else if !incomplete && !transportChecksumValid payload source destination TCP then
      .error .malformed
    else .ok {
      sourcePort := some (u16At payload 0)
      destinationPort := some (u16At payload 2)
      tcpFlags := some (byteAt payload 13 &&& 0x3f) }

def parseUdp (payload : Bytes) (source destination : IpAddr) (incomplete : Bool) :
    Except ParseError Transport :=
  if payload.length < 8 then .error .truncated
  else
    let length := u16At payload 4
    if length < 8 || (!incomplete && length ≠ payload.length)
        || (incomplete && length < payload.length) then .error .malformed
    else
      let checksum := u16At payload 6
      if !incomplete && ((source.isIpv6 && checksum = 0)
          || (checksum ≠ 0 && !transportChecksumValid payload source destination UDP)) then
        .error .malformed
      else .ok {
        sourcePort := some (u16At payload 0)
        destinationPort := some (u16At payload 2) }

/-- Echo requests and replies carry an identifier. -/
def isEcho (protocol kind : UInt8) : Bool :=
  (protocol = ICMP_V4 && (kind = 0 || kind = 8))
    || (protocol = ICMP_V6 && (kind = 128 || kind = 129))

/-- ICMP errors whose payload quotes a flow. -/
def isIcmpError (protocol kind : UInt8) : Bool :=
  (protocol = ICMP_V4 && (kind = 3 || kind = 11 || kind = 12))
    || (protocol = ICMP_V6 && (1 ≤ kind && kind ≤ 4))

/-- ICMP has no pseudo header, ICMPv6 has one. -/
def icmpChecksumValid (payload : Bytes) (source destination : IpAddr) (protocol : UInt8) : Bool :=
  if protocol = ICMP_V4 then internetChecksum payload = 0
  else transportChecksumValid payload source destination ICMP_V6

def parseIcmp (payload : Bytes) (source destination : IpAddr) (protocol : UInt8)
    (incomplete related : Bool) : Except ParseError Transport :=
  if payload.length < 8 then .error .truncated
  else if !incomplete && !icmpChecksumValid payload source destination protocol then
    .error .malformed
  else
    let kind := byteAt payload 0
    let identifier := if isEcho protocol kind then some (u16At payload 4) else none
    .ok {
      sourcePort := identifier
      destinationPort := identifier
      icmp := some (kind, byteAt payload 1)
      relatedFlow := if related && isIcmpError protocol kind then parseQuotedFlow (payload.drop 8)
        else none }

/-- The `match protocol` of `finish_transport`. -/
def parseTransport (payload : Bytes) (source destination : IpAddr) (protocol : UInt8)
    (incomplete related : Bool) : Except ParseError Transport :=
  if protocol = TCP then parseTcp payload source destination incomplete
  else if protocol = UDP then parseUdp payload source destination incomplete
  else if protocol = ICMP_V4 ∨ protocol = ICMP_V6 then
    parseIcmp payload source destination protocol incomplete related
  else .ok {}

/-- The result record of `finish_transport`. -/
def withTransport (source destination : IpAddr) (protocol : UInt8) (fragment : Option Fragment)
    (packetLen : Nat) (transport : Transport) : ParsedPacket where
  source := source
  destination := destination
  protocol := protocol
  sourcePort := transport.sourcePort
  destinationPort := transport.destinationPort
  tcpFlags := transport.tcpFlags
  icmp := transport.icmp
  fragment := fragment
  packetLen := packetLen
  relatedFlow := transport.relatedFlow

def finishTransport (payload : Bytes) (source destination : IpAddr) (protocol : UInt8)
    (fragment : Option Fragment) (packetLen : Nat) (related : Bool) :
    Except ParseError ParsedPacket :=
  if fragment.any (·.offset ≠ 0) then
    .ok (withTransport source destination protocol fragment packetLen {})
  else
    let incomplete := fragment.any fun item => item.offset ≠ 0 || item.more
    (parseTransport payload source destination protocol incomplete related).map
      (withTransport source destination protocol fragment packetLen)

/-! ## Network headers

IPv6 has a chain of extension headers in front of the transport, and one of them says that the packet is a
fragment. The loop over it is bounded.
-/

/-- The fragment fields of an IPv4 header; absent when it describes a whole datagram. -/
def ipv4Fragment (bytes : Bytes) : Option Fragment :=
  let bits := u16At bytes 6
  let offset := bits % 2 ^ 13
  let more := bits.testBit 13
  if offset ≠ 0 ∨ more then some { identification := u16At bytes 4, offset, more } else none

def ipv4HeaderLen (bytes : Bytes) : Nat := (byteAt bytes 0 &&& 0x0f).toNat * 4

def parseIpv4 (bytes : Bytes) (related : Bool) : Except ParseError ParsedPacket :=
  if bytes.length < 20 then .error .truncated
  else
    let headerLen := ipv4HeaderLen bytes
    if headerLen < 20 ∨ headerLen > bytes.length then .error .malformed
    else
      let total := u16At bytes 2
      if total ≠ bytes.length ∨ total < headerLen ∨ ipv4Checksum (bytes.take headerLen) ≠ 0 then
        .error .malformed
      else
        finishTransport (bytes.drop headerLen) (.ofV4Octets (slice bytes 12 16))
          (.ofV4Octets (slice bytes 16 20)) (byteAt bytes 9) (ipv4Fragment bytes) total related

/-- Hop-by-hop options, routing header, destination options. -/
def isExtension (next : UInt8) : Bool := next = 0 || next = 43 || next = 60

/-- Length of the extension header at `cursor`. -/
def extensionLen (bytes : Bytes) (cursor : Nat) : Nat := ((byteAt bytes (cursor + 1)).toNat + 1) * 8

/-- The Fragment header at `cursor`. -/
def ipv6Fragment (bytes : Bytes) (cursor : Nat) : Fragment where
  identification := u32At bytes (cursor + 4)
  offset := u16At bytes (cursor + 2) / 8
  more := u16At bytes (cursor + 2) % 2 = 1

/-- The loop over the extension chain, with the turns it has left. -/
def parseChain (bytes : Bytes) (source destination : IpAddr) (related : Bool) :
    (turns : Nat) → (next : UInt8) → (cursor : Nat) → Option Fragment →
      Except ParseError ParsedPacket
  | 0, _, _, _ => .error .malformed
  | turns + 1, next, cursor, fragment =>
    if isExtension next then
      if cursor + 2 > bytes.length then .error .truncated
      else if cursor + extensionLen bytes cursor > bytes.length then .error .truncated
      else parseChain bytes source destination related turns (byteAt bytes cursor)
        (cursor + extensionLen bytes cursor) fragment
    else if next = 44 then
      if cursor + 8 > bytes.length ∨ fragment.isSome then .error .malformed
      else
        let fragment := ipv6Fragment bytes cursor
        if fragment.offset ≠ 0 then
          -- The fragmentable extension chain exists only at offset zero.
          finishTransport (bytes.drop (cursor + 8)) source destination (byteAt bytes cursor)
            (some fragment) bytes.length related
        else parseChain bytes source destination related turns (byteAt bytes cursor) (cursor + 8)
          (some fragment)
    else finishTransport (bytes.drop cursor) source destination next fragment bytes.length related

def parseIpv6 (bytes : Bytes) (related : Bool) : Except ParseError ParsedPacket :=
  if bytes.length < 40 then .error .truncated
  else if u16At bytes 4 + 40 ≠ bytes.length then .error .malformed
  else parseChain bytes (.ofV6Octets (slice bytes 8 24)) (.ofV6Octets (slice bytes 24 40)) related 8
    (byteAt bytes 6) 40 none

/-- Parses exactly one IPv4 or IPv6 packet. -/
def parsePacket (bytes : Bytes) : Except ParseError ParsedPacket :=
  match bytes with
  | [] => .error .truncated
  | first :: _ =>
    if first >>> 4 = 4 then parseIpv4 bytes true
    else if first >>> 4 = 6 then parseIpv6 bytes true
    else .error .unsupported

end Peerward.Dataplane
