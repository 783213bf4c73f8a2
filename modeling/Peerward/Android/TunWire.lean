import Peerward.Lib.Fields

/-!
# The packets of the DNS interceptor

What the Android interceptor reads from a TUN packet, and the packets it writes back. The two readers
look at nothing but lengths, the protocol and the fragment bits; checksums are not theirs to check.
-/

namespace Peerward.Android

open Peerward.Lib

def UDP_PROTOCOL : UInt8 := 17
def UDP_HEADER : Nat := 8
def TCP_PROTOCOL : UInt8 := 6
def TCP_HEADER : Nat := 20
def TCP_FIN : UInt8 := 0x01
def TCP_SYN : UInt8 := 0x02
def TCP_RST : UInt8 := 0x04
def TCP_PSH : UInt8 := 0x08
def TCP_ACK : UInt8 := 0x10

/-- `u16::try_from(n).unwrap_or(u16::MAX)`. -/
def u16OrMax (n : Nat) : Nat := min n 0xffff

/-- `u32::try_from(n).unwrap_or(u32::MAX)`. -/
def u32OrMax (n : Nat) : BitVec 32 := BitVec.ofNat 32 (min n 0xffffffff)

structure UdpRequest where
  version : UInt8
  ipHeaderLength : Nat
  source : Bytes
  destination : Bytes
  sourcePort : Nat
  destinationPort : Nat
  payload : Bytes
  deriving DecidableEq

structure TcpRequest where
  version : UInt8
  source : Bytes
  destination : Bytes
  sourcePort : Nat
  destinationPort : Nat
  sequence : BitVec 32
  flags : UInt8
  payload : Bytes
  deriving DecidableEq

/-! ## Reading -/

def parseUdpPayload (packet : Bytes) (version : UInt8) (header : Nat) (source destination : Bytes) :
    Option UdpRequest :=
  let udpLength := u16At packet (header + 4)
  if udpLength < UDP_HEADER ∨ header + udpLength ≠ packet.length then none
  else some {
    version, source, destination
    ipHeaderLength := header
    sourcePort := u16At packet header
    destinationPort := u16At packet (header + 2)
    payload := packet.drop (header + UDP_HEADER) }

def headerLength (packet : Bytes) : Nat := (byteAt packet 0 &&& 0x0f).toNat * 4

def parseUdp (packet : Bytes) : Option UdpRequest :=
  if packet = [] then none
  else if byteAt packet 0 >>> 4 = 4 then
    if packet.length < 28 ∨ byteAt packet 9 ≠ UDP_PROTOCOL then none
    else
      let header := headerLength packet
      if ¬ (20 ≤ header ∧ header ≤ 60) ∨ packet.length < header + UDP_HEADER
          ∨ u16At packet 6 &&& 0x3fff ≠ 0 then none
      else parseUdpPayload packet 4 header (slice packet 12 16) (slice packet 16 20)
  else if byteAt packet 0 >>> 4 = 6 then
    if packet.length < 48 ∨ byteAt packet 6 ≠ UDP_PROTOCOL then none
    else parseUdpPayload packet 6 40 (slice packet 8 24) (slice packet 24 40)
  else none

/-- `parse_tcp` behind the addresses. -/
def parseTcpPayload (packet : Bytes) (version : UInt8) (header : Nat) (source destination : Bytes) :
    Option TcpRequest :=
  if packet.length < header + TCP_HEADER then none
  else
    let tcpHeader := (byteAt packet (header + 12) >>> 4).toNat * 4
    if ¬ (TCP_HEADER ≤ tcpHeader ∧ tcpHeader ≤ 60) ∨ packet.length < header + tcpHeader then none
    else some {
      version, source, destination
      sourcePort := u16At packet header
      destinationPort := u16At packet (header + 2)
      sequence := BitVec.ofNat 32 (u32At packet (header + 4))
      flags := byteAt packet (header + 13) &&& 0x3f
      payload := packet.drop (header + tcpHeader) }

def parseTcp (packet : Bytes) : Option TcpRequest :=
  if packet = [] then none
  else if byteAt packet 0 >>> 4 = 4 then
    if packet.length < 40 ∨ byteAt packet 9 ≠ TCP_PROTOCOL then none
    else
      let header := headerLength packet
      if ¬ (20 ≤ header ∧ header ≤ 60) ∨ u16At packet 6 &&& 0x3fff ≠ 0 then none
      else parseTcpPayload packet 4 header (slice packet 12 16) (slice packet 16 20)
  else if byteAt packet 0 >>> 4 = 6 then
    if packet.length < 60 ∨ byteAt packet 6 ≠ TCP_PROTOCOL then none
    else parseTcpPayload packet 6 40 (slice packet 8 24) (slice packet 24 40)
  else none

/-! ## Writing -/

def byteWords (bytes : Bytes) : Nat := checksumWords 0 bytes

def pseudoHeaderSum (source destination : Bytes) (protocol : UInt8) (length : Nat) : Nat :=
  byteWords source + byteWords destination + protocol.toNat + length

/-- The complement of the folded sum. -/
def checksum (bytes : Bytes) (initial : Nat) : Nat := 0xffff - foldCarry (checksumWords initial bytes)

/-- A transport checksum of zero is written as all ones. -/
def nonzero (checksum : Nat) : Nat := if checksum = 0 then 0xffff else checksum

def ipHeaderLength (version : UInt8) : Nat := if version = 4 then 20 else 40

/-- The network header in front of `length` transport bytes. -/
def ipHeader (version protocol : UInt8) (length : Nat) (source destination : Bytes) : Bytes :=
  if version = 4 then
    let blank := [0x45, 0] ++ toBE 2 (u16OrMax (20 + length)) ++ [0, 0, 0, 0, 64, protocol, 0, 0]
      ++ source ++ destination
    overwrite blank 10 (toBE 2 (checksum blank 0))
  else [0x60, 0, 0, 0] ++ toBE 2 (u16OrMax length) ++ [protocol, 64] ++ source ++ destination

def buildUdpReply (request : UdpRequest) (dns : Bytes) : Bytes :=
  let udpLength := UDP_HEADER + dns.length
  let blank := toBE 2 request.destinationPort ++ toBE 2 request.sourcePort ++ toBE 2 (u16OrMax udpLength)
    ++ [0, 0] ++ dns
  let pseudo := pseudoHeaderSum request.destination request.source UDP_PROTOCOL udpLength
  ipHeader request.version UDP_PROTOCOL udpLength request.destination request.source
    ++ overwrite blank 6 (toBE 2 (nonzero (checksum blank pseudo)))

def buildTcpReply (request : TcpRequest) (sequence acknowledgement : BitVec 32) (flags : UInt8)
    (payload : Bytes) : Bytes :=
  let tcpLength := TCP_HEADER + payload.length
  let blank := toBE 2 request.destinationPort ++ toBE 2 request.sourcePort ++ toBE 4 sequence.toNat
    ++ toBE 4 acknowledgement.toNat ++ [0x50, flags] ++ toBE 2 0xffff ++ [0, 0, 0, 0] ++ payload
  let pseudo := pseudoHeaderSum request.destination request.source TCP_PROTOCOL tcpLength
  ipHeader request.version TCP_PROTOCOL tcpLength request.destination request.source
    ++ overwrite blank 16 (toBE 2 (nonzero (checksum blank pseudo)))

def buildTcpReset (request : TcpRequest) : Bytes :=
  buildTcpReply request 0
    (request.sequence + (u32OrMax request.payload.length
      + if request.flags &&& TCP_SYN ≠ 0 then 1 else 0))
    (TCP_RST ||| TCP_ACK) []

def errorReply (query : Bytes) (code : Nat) (truncated : Bool) : Bytes :=
  if query.length < 12 then List.replicate 12 0
  else
    let flags := 0x8000 ||| (u16At query 2 &&& 0x0100) ||| code ||| (if truncated then 0x0200 else 0)
    overwrite (overwrite query 2 (toBE 2 flags)) 6 (List.replicate 6 0)

end Peerward.Android
