import Peerward.Android.TunWire
import Peerward.Dataplane.ParseSteps

/-!
# The interceptor's packets are well formed

The data plane's parser accepts what `build_udp_reply` and `build_tcp_reply` write: the lengths are exact
and every checksum is the complement of its sum.
-/

namespace Peerward.Android

open Peerward.Lib Peerward.Net

/-- An address as the data plane reads it. -/
def ipAddress (version : UInt8) (address : Bytes) : IpAddr :=
  if version = 4 then .ofV4Octets address else .ofV6Octets address

/-- A version with addresses of its family. -/
structure Family (version : UInt8) (source destination : Bytes) : Prop where
  known : version = 4 ∨ version = 6
  source : source.length = if version = 4 then 4 else 16
  destination : destination.length = if version = 4 then 4 else 16

theorem Family.swap {version : UInt8} {source destination : Bytes} (h : Family version source destination) :
    Family version destination source :=
  ⟨h.known, h.destination, h.source⟩

/-! ## Checksums

Both checksums are filled in after everything else is in place. The sum over the whole segment is then the
sum without the field plus its complement, which folds to all ones: what the data plane checks.
-/

/-- The pseudo header's share of a transport checksum. -/
theorem transportSum_eq {payload source destination : Bytes} {version protocol : UInt8}
    (h : Family version source destination) (hlength : payload.length < 2 ^ 16) :
    Dataplane.transportSum payload (ipAddress version source) (ipAddress version destination) protocol =
      some (checksumWords (pseudoHeaderSum source destination protocol payload.length) payload) := by
  obtain rfl | rfl := h.known
  · have hs : source.length = 4 := h.source
    have hd : destination.length = 4 := h.destination
    have hsource := IpAddr.octets_ofV4Octets hs
    have hdestination := IpAddr.octets_ofV4Octets hd
    unfold IpAddr.ofV4Octets at hsource hdestination
    unfold Dataplane.transportSum ipAddress IpAddr.ofV4Octets
    simp only [if_true, hsource, hdestination]
    have hadd := checksumWords_add (checksumWords 0 source) 0 destination
    rw [Nat.add_zero] at hadd
    rw [hadd]
    rfl
  · have hs : source.length = 16 := h.source
    have hd : destination.length = 16 := h.destination
    have hsource := IpAddr.octets_ofV6Octets hs
    have hdestination := IpAddr.octets_ofV6Octets hd
    unfold IpAddr.ofV6Octets at hsource hdestination
    unfold Dataplane.transportSum ipAddress IpAddr.ofV6Octets
    simp only [show ¬ ((6 : UInt8) = 4) by decide, if_false, hsource, hdestination]
    have hadd := checksumWords_add (checksumWords 0 source) 0 destination
    have hword := checksumWords_add (checksumWords 0 source + checksumWords 0 destination) 0
      (toBE 4 payload.length)
    rw [Nat.add_zero] at hadd hword
    have hlen : checksumWords 0 (toBE 4 payload.length) = payload.length := by
      show 0 + word _ _ + word _ _ = _
      simp only [word, UInt8.toNat_ofNat']
      omega
    rw [hadd, hword, hlen]
    congr 2
    unfold pseudoHeaderSum byteWords
    omega

/-- A checksum written as ones in place of zero completes its sum. -/
theorem foldCarry_add_nonzero (sum : Nat) (h : 0 < sum) :
    foldCarry (sum + nonzero (65535 - foldCarry sum)) = 65535 := by
  unfold nonzero
  split
  · next hzero =>
    have hle := foldCarry_le sum
    rw [foldCarry_eq] at hzero hle ⊢
    rw [if_neg (by omega)] at hzero hle ⊢
    omega
  · exact foldCarry_add_complement sum

theorem nonzero_lt {checksum : Nat} (h : checksum < 2 ^ 16) : nonzero checksum < 2 ^ 16 := by
  unfold nonzero
  split <;> omega

theorem nonzero_ne_zero (checksum : Nat) : nonzero checksum ≠ 0 := by
  unfold nonzero
  split <;> omega

theorem checksum_lt (bytes : Bytes) (initial : Nat) : checksum bytes initial < 2 ^ 16 := by
  unfold checksum
  omega

/-- The sum of a header whose checksum field has been filled in. -/
theorem checksumWords_filled {blank : Bytes} {place check : Nat} (heven : place % 2 = 0)
    (hroom : place + 2 ≤ blank.length) (hblank : byteAt blank place = 0 ∧ byteAt blank (place + 1) = 0)
    (hcheck : check < 2 ^ 16) (initial : Nat) :
    checksumWords initial (overwrite blank place (toBE 2 check)) = checksumWords initial blank + check := by
  have hadd : ∀ bytes, checksumWords initial bytes = initial + checksumWords 0 bytes := by
    intro bytes
    have h := checksumWords_add initial 0 bytes
    rwa [Nat.add_zero] at h
  rw [hadd, hadd blank, toBE_two, checksumWords_overwrite heven hroom, word_ofNat hcheck,
    overwrite_same hroom hblank.1 hblank.2]
  omega

/-- A transport segment with its checksum at `place`. -/
def filled (place : Nat) (protocol : UInt8) (source destination blank : Bytes) : Bytes :=
  overwrite blank place
    (toBE 2 (nonzero (checksum blank (pseudoHeaderSum source destination protocol blank.length))))

section Filled

variable {place : Nat} {protocol : UInt8} {source destination blank : Bytes}

theorem length_filled (h : place + 2 ≤ blank.length) :
    (filled place protocol source destination blank).length = blank.length :=
  length_overwrite h

theorem u16At_filled (h : place + 2 ≤ blank.length) :
    u16At (filled place protocol source destination blank) place ≠ 0 := by
  unfold filled
  rw [u16At_overwrite h (nonzero_lt (checksum_lt ..))]
  exact nonzero_ne_zero _

theorem u16At_filled_ne (h : place + 2 ≤ blank.length) {i : Nat} (hi : i + 2 ≤ place ∨ place + 2 ≤ i) :
    u16At (filled place protocol source destination blank) i = u16At blank i :=
  u16At_overwrite_ne h hi

theorem byteAt_filled_ne (h : place + 2 ≤ blank.length) {i : Nat} (hi : i < place ∨ place + 2 ≤ i) :
    byteAt (filled place protocol source destination blank) i = byteAt blank i := by
  unfold filled
  rw [byteAt_overwrite h, if_neg (by rw [length_toBE]; omega)]

/-- The checksum is valid. -/
theorem filled_valid {version : UInt8} (h : Family version source destination)
    (hlength : blank.length < 2 ^ 16) (hprotocol : 0 < protocol.toNat) (heven : place % 2 = 0)
    (hroom : place + 2 ≤ blank.length) (hblank : byteAt blank place = 0 ∧ byteAt blank (place + 1) = 0) :
    Dataplane.transportChecksumValid (filled place protocol source destination blank)
      (ipAddress version source) (ipAddress version destination) protocol = true := by
  have hlen := @length_filled _ protocol source destination _ hroom
  unfold Dataplane.transportChecksumValid
  rw [transportSum_eq h (by rw [hlen]; exact hlength), hlen, Option.any_some, Bool.and_eq_true,
    decide_eq_true_eq, decide_eq_true_eq]
  refine ⟨by omega, ?_⟩
  unfold filled
  rw [checksumWords_filled heven hroom hblank (nonzero_lt (checksum_lt ..))]
  apply foldCarry_add_nonzero
  have hadd := checksumWords_add (pseudoHeaderSum source destination protocol blank.length) 0 blank
  rw [Nat.add_zero] at hadd
  rw [hadd]
  unfold pseudoHeaderSum
  omega

end Filled

/-! ## The network header

The parser is followed through the header once for each family; transport lemmas see only what is left
behind it.
-/

theorem length_ipHeader {version : UInt8} {source destination : Bytes}
    (h : Family version source destination) (protocol : UInt8) (length : Nat) :
    (ipHeader version protocol length source destination).length = ipHeaderLength version := by
  obtain ⟨rfl | rfl, hs, hd⟩ := h
  · have hs : source.length = 4 := hs
    have hd : destination.length = 4 := hd
    unfold ipHeader
    rw [if_pos rfl]
    dsimp only
    rw [length_overwrite] <;>
      simp only [List.length_append, List.length_cons, List.length_nil, length_toBE, hs, hd] <;> decide
  · have hs : source.length = 16 := hs
    have hd : destination.length = 16 := hd
    unfold ipHeader
    rw [if_neg (by decide)]
    simp only [List.length_append, List.length_cons, List.length_nil, length_toBE, hs, hd]
    decide

/-- The fields of an IPv4 header, and its checksum. -/
theorem ipHeader_four {source destination : Bytes} (protocol : UInt8) {length : Nat}
    (hlength : 20 + length < 2 ^ 16) :
    ∃ high low, ipHeader 4 protocol length source destination =
        [0x45, 0] ++ toBE 2 (20 + length) ++ [0, 0, 0, 0, 64, protocol, high, low]
          ++ (source ++ destination) ∧
      Dataplane.internetChecksum (ipHeader 4 protocol length source destination) = 0 := by
  have htotal : u16OrMax (20 + length) = 20 + length := by
    unfold u16OrMax
    omega
  unfold ipHeader
  rw [if_pos rfl, htotal]
  dsimp only
  generalize hblank : [0x45, 0] ++ toBE 2 (20 + length) ++ [0, 0, 0, 0, 64, protocol, 0, 0] ++ source
    ++ destination = blank
  have hroom : 10 + 2 ≤ blank.length := by
    rw [← hblank]
    simp only [List.length_append, List.length_cons, List.length_nil, length_toBE]
    omega
  refine ⟨UInt8.ofNat (checksum blank 0 / 256), UInt8.ofNat (checksum blank 0), ?_, ?_⟩
  · rw [← hblank, toBE_two (checksum _ 0), List.append_assoc _ source destination]
    rfl
  · unfold Dataplane.internetChecksum
    rw [checksumWords_filled rfl hroom (by rw [← hblank]; exact ⟨rfl, rfl⟩) (checksum_lt ..)]
    unfold checksum
    rw [foldCarry_add_complement]

/-- The places of an IPv4 packet without options. -/
structure PlacesFour (bytes : Bytes) (protocol : UInt8) (source destination transport : Bytes) : Prop where
  length : bytes.length = 20 + transport.length
  first : byteAt bytes 0 = 0x45
  total : u16At bytes 2 = 20 + transport.length
  fragment : u16At bytes 6 = 0
  protocol : byteAt bytes 9 = protocol
  source : slice bytes 12 16 = source
  destination : slice bytes 16 20 = destination
  drop : bytes.drop 20 = transport

theorem places_four {protocol : UInt8} {source destination transport : Bytes} (hs : source.length = 4)
    (hd : destination.length = 4) (hlength : 20 + transport.length < 2 ^ 16) :
    PlacesFour (ipHeader 4 protocol transport.length source destination ++ transport) protocol source
      destination transport := by
  have hlen : (ipHeader 4 protocol transport.length source destination).length = 20 :=
    length_ipHeader ⟨.inl rfl, hs, hd⟩ protocol transport.length
  obtain ⟨high, low, hheader, -⟩ := @ipHeader_four source destination protocol _ hlength
  generalize ipHeader 4 protocol transport.length source destination = header at hlen hheader ⊢
  have hbytes : header ++ transport = [0x45, 0] ++ toBE 2 (20 + transport.length)
      ++ [0, 0, 0, 0, 64, protocol, high, low] ++ (source ++ (destination ++ transport)) := by
    rw [hheader]
    simp only [List.append_assoc]
  have hsource : slice (header ++ transport) 12 16 = source :=
    slice_middle hbytes rfl (by rw [hs])
  have hdestination : slice (header ++ transport) 16 20 = destination := by
    refine slice_middle (hbytes.trans (List.append_assoc ..).symm) ?_ (by rw [hd])
    rw [List.length_append, hs]
    rfl
  refine ⟨by rw [List.length_append, hlen], ?_, ?_, ?_, ?_, hsource, hdestination, List.drop_left' hlen⟩
  · rw [hbytes]
    rfl
  · rw [hbytes]
    exact word_ofNat hlength
  · have hzero : u16At (header ++ transport) 6 = word 0 0 := by
      rw [hbytes]
      rfl
    exact hzero.trans (by decide)
  · rw [hbytes]
    rfl

/-- The places of an IPv6 packet without extension headers. -/
structure PlacesSix (bytes : Bytes) (protocol : UInt8) (source destination transport : Bytes) : Prop where
  length : bytes.length = 40 + transport.length
  first : byteAt bytes 0 = 0x60
  payload : u16At bytes 4 = transport.length
  protocol : byteAt bytes 6 = protocol
  source : slice bytes 8 24 = source
  destination : slice bytes 24 40 = destination
  drop : bytes.drop 40 = transport

theorem places_six {protocol : UInt8} {source destination transport : Bytes} (hs : source.length = 16)
    (hd : destination.length = 16) (hlength : 40 + transport.length < 2 ^ 16) :
    PlacesSix (ipHeader 6 protocol transport.length source destination ++ transport) protocol source
      destination transport := by
  have hlen : (ipHeader 6 protocol transport.length source destination).length = 40 :=
    length_ipHeader ⟨.inr rfl, hs, hd⟩ protocol transport.length
  have hu16OrMax : u16OrMax transport.length = transport.length := by
    unfold u16OrMax
    omega
  have hheader : ipHeader 6 protocol transport.length source destination =
      [0x60, 0, 0, 0] ++ toBE 2 transport.length ++ [protocol, 64] ++ source ++ destination := by
    unfold ipHeader
    rw [if_neg (by decide), hu16OrMax]
  generalize ipHeader 6 protocol transport.length source destination = header at hlen hheader ⊢
  have hbytes : header ++ transport = [0x60, 0, 0, 0] ++ toBE 2 transport.length ++ [protocol, 64]
      ++ (source ++ (destination ++ transport)) := by
    rw [hheader]
    simp only [List.append_assoc]
  have hsource : slice (header ++ transport) 8 24 = source :=
    slice_middle hbytes rfl (by rw [hs])
  have hdestination : slice (header ++ transport) 24 40 = destination := by
    refine slice_middle (hbytes.trans (List.append_assoc ..).symm) ?_ (by rw [hd])
    rw [List.length_append, hs]
    rfl
  refine ⟨by rw [List.length_append, hlen], ?_, ?_, ?_, hsource, hdestination, List.drop_left' hlen⟩
  · rw [hbytes]
    rfl
  · rw [hbytes]
    exact word_ofNat (by omega)
  · rw [hbytes]
    rfl

/-- The part that the data plane reads behind an IPv4 header. -/
theorem parsePacket_ipHeader_four {protocol : UInt8} {source destination transport : Bytes}
    (hs : source.length = 4) (hd : destination.length = 4) (hlength : 20 + transport.length < 2 ^ 16) :
    Dataplane.parsePacket (ipHeader 4 protocol transport.length source destination ++ transport) =
      Dataplane.finishTransport transport (.ofV4Octets source) (.ofV4Octets destination) protocol none
        (20 + transport.length) true := by
  have hlen : (ipHeader 4 protocol transport.length source destination).length = 20 :=
    length_ipHeader ⟨.inl rfl, hs, hd⟩ protocol transport.length
  obtain ⟨-, -, -, hchecksum⟩ := @ipHeader_four source destination protocol _ hlength
  have hplaces := @places_four protocol _ _ _ hs hd hlength
  generalize ipHeader 4 protocol transport.length source destination = header at hlen hchecksum hplaces ⊢
  have hihl : Dataplane.ipv4HeaderLen (header ++ transport) = 20 := by
    unfold Dataplane.ipv4HeaderLen
    rw [hplaces.first]
    decide
  have hfragment : Dataplane.ipv4Fragment (header ++ transport) = none := by
    unfold Dataplane.ipv4Fragment
    rw [hplaces.fragment]
    exact if_neg (by decide)
  rw [Dataplane.parsePacket_v4 (by rw [hplaces.first]; decide)]
  unfold Dataplane.parseIpv4 Dataplane.ipv4Checksum
  dsimp only
  rw [hihl, hplaces.length, hplaces.total, hplaces.drop, List.take_left' hlen, hplaces.source,
    hplaces.destination, hplaces.protocol, hfragment, hchecksum, if_neg (by omega), if_neg (by omega),
    if_neg (by omega)]

/-- The part that the data plane reads behind an IPv6 header. -/
theorem parsePacket_ipHeader_six {protocol : UInt8} {source destination transport : Bytes}
    (hs : source.length = 16) (hd : destination.length = 16)
    (hprotocol : protocol = UDP_PROTOCOL ∨ protocol = TCP_PROTOCOL)
    (hlength : 40 + transport.length < 2 ^ 16) :
    Dataplane.parsePacket (ipHeader 6 protocol transport.length source destination ++ transport) =
      Dataplane.finishTransport transport (.ofV6Octets source) (.ofV6Octets destination) protocol none
        (40 + transport.length) true := by
  have hplaces := @places_six protocol _ _ _ hs hd hlength
  generalize ipHeader 6 protocol transport.length source destination ++ transport = bytes at hplaces ⊢
  -- neither protocol is an extension header or a Fragment header
  have hextension : ¬ Dataplane.isExtension protocol = true := by
    obtain rfl | rfl := hprotocol <;> decide
  have hfragment : ¬ protocol = 44 := by
    obtain rfl | rfl := hprotocol <;> decide
  rw [Dataplane.parsePacket_v6 (by rw [hplaces.first]; decide)]
  unfold Dataplane.parseIpv6
  rw [hplaces.length, hplaces.payload, hplaces.source, hplaces.destination, hplaces.protocol,
    if_neg (by omega), if_neg (by omega), Dataplane.parseChain, if_neg hextension, if_neg hfragment,
    hplaces.length, hplaces.drop]

/-- What the data plane reads behind the interceptor's network header. -/
theorem parsePacket_ipHeader {version protocol : UInt8} {source destination transport : Bytes}
    (h : Family version source destination) (hprotocol : protocol = UDP_PROTOCOL ∨ protocol = TCP_PROTOCOL)
    (hlength : ipHeaderLength version + transport.length < 2 ^ 16) :
    Dataplane.parsePacket (ipHeader version protocol transport.length source destination ++ transport) =
      Dataplane.finishTransport transport (ipAddress version source) (ipAddress version destination)
        protocol none (ipHeaderLength version + transport.length) true := by
  obtain ⟨rfl | rfl, hs, hd⟩ := h
  · exact parsePacket_ipHeader_four hs hd hlength
  · exact parsePacket_ipHeader_six hs hd hprotocol hlength

/-! ## Whole packets

A reply is a header, a transport header and a payload. `Between` is what the other modules use of it: that
the data plane parses the packet, and between which ends.
-/

/-- `reply` is a packet of the data plane between the given ends. -/
structure Between (reply : Bytes) (protocol : UInt8) (source destination : IpAddr)
    (sourcePort destinationPort : Nat) (read : ParsedPacket) : Prop where
  parsed : Dataplane.parsePacket reply = .ok read
  length : read.packetLen = reply.length
  protocol : read.protocol = protocol
  source : read.source = source
  destination : read.destination = destination
  sourcePort : read.sourcePort = some sourcePort
  destinationPort : read.destinationPort = some destinationPort

/-- A network header in front of a transport segment that the data plane accepts. -/
theorem between_of_transport {version protocol : UInt8} {source destination transport : Bytes}
    (h : Family version source destination) (hprotocol : protocol = UDP_PROTOCOL ∨ protocol = TCP_PROTOCOL)
    (hlength : ipHeaderLength version + transport.length < 2 ^ 16) {segment : Dataplane.Transport}
    (hsegment : Dataplane.parseTransport transport (ipAddress version source)
      (ipAddress version destination) protocol false true = .ok segment)
    {sourcePort destinationPort : Nat} (hsource : segment.sourcePort = some sourcePort)
    (hdestination : segment.destinationPort = some destinationPort) :
    ∃ read, Between (ipHeader version protocol transport.length source destination ++ transport) protocol
      (ipAddress version source) (ipAddress version destination) sourcePort destinationPort read := by
  have hparse := parsePacket_ipHeader h hprotocol hlength
  refine ⟨_, hparse.trans ((Dataplane.finishTransport_eq_ok fun item hitem => absurd hitem (Option.not_mem_none item)).mpr
    ⟨segment, hsegment, rfl⟩), ?_, rfl, rfl, rfl, hsource, hdestination⟩
  rw [List.length_append, length_ipHeader h]
  rfl

/-- The UDP header and payload before the checksum. -/
def udpBlank (request : UdpRequest) (dns : Bytes) : Bytes :=
  toBE 2 request.destinationPort ++ toBE 2 request.sourcePort ++ toBE 2 (UDP_HEADER + dns.length)
    ++ [0, 0] ++ dns

theorem length_udpBlank (request : UdpRequest) (dns : Bytes) :
    (udpBlank request dns).length = UDP_HEADER + dns.length := by
  simp only [udpBlank, List.length_append, List.length_cons, List.length_nil, length_toBE, UDP_HEADER]

theorem buildUdpReply_eq (request : UdpRequest) {dns : Bytes} (hlength : UDP_HEADER + dns.length < 2 ^ 16) :
    buildUdpReply request dns = ipHeader request.version UDP_PROTOCOL
      (filled 6 UDP_PROTOCOL request.destination request.source (udpBlank request dns)).length
      request.destination request.source
      ++ filled 6 UDP_PROTOCOL request.destination request.source (udpBlank request dns) := by
  have hsize : u16OrMax (UDP_HEADER + dns.length) = UDP_HEADER + dns.length := by
    unfold u16OrMax
    omega
  have hlen := length_udpBlank request dns
  have hroom : 6 + 2 ≤ (udpBlank request dns).length := by
    rw [hlen]
    unfold UDP_HEADER
    omega
  rw [length_filled hroom, filled, hlen]
  unfold buildUdpReply udpBlank
  dsimp only
  rw [hsize]

theorem length_buildUdpReply {request : UdpRequest}
    (h : Family request.version request.source request.destination) (dns : Bytes) :
    (buildUdpReply request dns).length = ipHeaderLength request.version + UDP_HEADER + dns.length := by
  unfold buildUdpReply
  dsimp only
  rw [List.length_append, length_ipHeader h.swap, length_overwrite]
  · simp only [List.length_append, List.length_cons, List.length_nil, length_toBE, UDP_HEADER]
    omega
  · simp only [List.length_append, List.length_cons, List.length_nil, length_toBE]
    omega

/-- **A UDP reply is a packet back to the requester.** -/
theorem buildUdpReply_between {request : UdpRequest}
    (h : Family request.version request.source request.destination) (hsource : request.sourcePort < 2 ^ 16)
    (hdestination : request.destinationPort < 2 ^ 16) {dns : Bytes}
    (hlength : ipHeaderLength request.version + UDP_HEADER + dns.length < 2 ^ 16) :
    ∃ read, Between (buildUdpReply request dns) UDP_PROTOCOL
      (ipAddress request.version request.destination) (ipAddress request.version request.source)
      request.destinationPort request.sourcePort read := by
  rw [buildUdpReply_eq request (by omega)]
  have hlen := length_udpBlank request dns
  have hroom : 6 + 2 ≤ (udpBlank request dns).length := by
    rw [hlen]
    unfold UDP_HEADER
    omega
  have hvalid := @filled_valid 6 UDP_PROTOCOL request.destination request.source (udpBlank request dns)
    request.version h.swap (by omega) (by decide) rfl hroom ⟨rfl, rfl⟩
  have hfilled := @length_filled 6 UDP_PROTOCOL request.destination request.source _ hroom
  refine between_of_transport h.swap (.inl rfl) (by rw [hfilled, hlen]; omega)
    (Dataplane.parseUdp_eq_ok.mpr ⟨by omega, ?_, ?_, .inr ⟨fun hzero => ?_, fun _ => hvalid⟩, rfl⟩) ?_ ?_
  · rw [u16At_filled_ne hroom (.inl (by omega))]
    have hread : u16At (udpBlank request dns) 4 = UDP_HEADER + dns.length := word_ofNat (by omega)
    rw [hread]
    exact Nat.le_add_right ..
  · rw [if_neg Bool.false_ne_true, u16At_filled_ne hroom (.inl (by omega)), hfilled, hlen]
    exact word_ofNat (by omega)
  · exact absurd hzero (u16At_filled hroom)
  · refine congrArg some ?_
    rw [u16At_filled_ne hroom (.inl (by omega))]
    exact word_ofNat hdestination
  · refine congrArg some ?_
    rw [u16At_filled_ne hroom (.inl (by omega))]
    exact word_ofNat hsource

/-- The TCP header and payload before the checksum. -/
def tcpBlank (request : TcpRequest) (sequence acknowledgement : BitVec 32) (flags : UInt8)
    (payload : Bytes) : Bytes :=
  toBE 2 request.destinationPort ++ toBE 2 request.sourcePort ++ toBE 4 sequence.toNat
    ++ toBE 4 acknowledgement.toNat ++ [0x50, flags] ++ toBE 2 0xffff ++ [0, 0, 0, 0] ++ payload

section Tcp

variable (request : TcpRequest) (sequence acknowledgement : BitVec 32) (flags : UInt8) (payload : Bytes)

theorem length_tcpBlank :
    (tcpBlank request sequence acknowledgement flags payload).length = TCP_HEADER + payload.length := by
  simp only [tcpBlank, List.length_append, List.length_cons, List.length_nil, length_toBE, TCP_HEADER]

/-- The segment with its checksum. -/
def tcpFilled : Bytes :=
  filled 16 TCP_PROTOCOL request.destination request.source
    (tcpBlank request sequence acknowledgement flags payload)

theorem tcpBlank_room : 16 + 2 ≤ (tcpBlank request sequence acknowledgement flags payload).length := by
  rw [length_tcpBlank]
  unfold TCP_HEADER
  omega

theorem length_tcpFilled :
    (tcpFilled request sequence acknowledgement flags payload).length = TCP_HEADER + payload.length :=
  (length_filled (tcpBlank_room ..)).trans (length_tcpBlank ..)

theorem buildTcpReply_eq : buildTcpReply request sequence acknowledgement flags payload =
    ipHeader request.version TCP_PROTOCOL
      (tcpFilled request sequence acknowledgement flags payload).length request.destination request.source
      ++ tcpFilled request sequence acknowledgement flags payload := by
  rw [length_tcpFilled, tcpFilled, filled, length_tcpBlank]
  rfl

variable {request payload}

theorem length_buildTcpReply (h : Family request.version request.source request.destination) :
    (buildTcpReply request sequence acknowledgement flags payload).length =
      ipHeaderLength request.version + TCP_HEADER + payload.length := by
  rw [buildTcpReply_eq, List.length_append, length_ipHeader h.swap, length_tcpFilled]
  omega

theorem u16At_tcpFilled {i : Nat} (hi : i + 2 ≤ 16) :
    u16At (tcpFilled request sequence acknowledgement flags payload) i =
      u16At (tcpBlank request sequence acknowledgement flags payload) i :=
  u16At_filled_ne (tcpBlank_room ..) (.inl hi)

theorem byteAt_tcpFilled {i : Nat} (hi : i < 16) :
    byteAt (tcpFilled request sequence acknowledgement flags payload) i =
      byteAt (tcpBlank request sequence acknowledgement flags payload) i :=
  byteAt_filled_ne (tcpBlank_room ..) (.inl hi)

/-- **A TCP reply is a packet back to the requester.** -/
theorem buildTcpReply_between (h : Family request.version request.source request.destination)
    (hsource : request.sourcePort < 2 ^ 16) (hdestination : request.destinationPort < 2 ^ 16)
    (hlength : ipHeaderLength request.version + TCP_HEADER + payload.length < 2 ^ 16) :
    ∃ read, Between (buildTcpReply request sequence acknowledgement flags payload) TCP_PROTOCOL
      (ipAddress request.version request.destination) (ipAddress request.version request.source)
      request.destinationPort request.sourcePort read := by
  have hlen := length_tcpFilled request sequence acknowledgement flags payload
  have hvalid : Dataplane.transportChecksumValid
      (tcpFilled request sequence acknowledgement flags payload)
      (ipAddress request.version request.destination) (ipAddress request.version request.source)
      TCP_PROTOCOL = true :=
    filled_valid h.swap (by rw [length_tcpBlank]; omega) (by decide) rfl (tcpBlank_room ..) ⟨rfl, rfl⟩
  have htwelve : byteAt (tcpFilled request sequence acknowledgement flags payload) 12 = 0x50 :=
    byteAt_tcpFilled _ _ _ (by omega)
  have htcpHeader : ((0x50 : UInt8) >>> 4).toNat * 4 = TCP_HEADER := by decide
  rw [buildTcpReply_eq]
  refine between_of_transport h.swap (.inr rfl) (by rw [hlen]; omega)
    (Dataplane.parseTcp_eq_ok.mpr ⟨?_, ?_, ?_, .inr hvalid, rfl⟩) ?_ ?_
  · rw [hlen]
    exact Nat.le_add_right ..
  · rw [htwelve, htcpHeader]
    exact le_rfl
  · rw [htwelve, htcpHeader, hlen]
    exact Nat.le_add_right ..
  · refine congrArg some ?_
    rw [u16At_tcpFilled _ _ _ (by omega)]
    exact word_ofNat hdestination
  · refine congrArg some ?_
    rw [u16At_tcpFilled _ _ _ (by omega)]
    exact word_ofNat hsource

/-- A TCP header is read from where the network header ends. -/
theorem parseTcpPayload_drop {packet transport : Bytes} {header : Nat} (hdrop : packet.drop header = transport)
    (hlength : packet.length = header + transport.length) (version : UInt8) (source destination : Bytes) :
    parseTcpPayload packet version header source destination =
      parseTcpPayload transport version 0 source destination := by
  have hbyte : ∀ i, byteAt packet (header + i) = byteAt transport i := by
    intro i
    rw [← hdrop, byteAt_drop]
  have hu16 : ∀ i, u16At packet (header + i) = u16At transport i := by
    intro i
    rw [u16At, hbyte, Nat.add_assoc, hbyte]
    rfl
  have hu32 : u32At packet (header + 4) = u32At transport 4 := by
    rw [u32At, hu16, Nat.add_assoc, hu16]
    rfl
  have hpayload : ∀ n, packet.drop (header + n) = transport.drop n := by
    intro n
    rw [← hdrop, List.drop_drop]
  have hzero := hu16 0
  rw [Nat.add_zero] at hzero
  unfold parseTcpPayload
  simp only [hbyte, hu16, hu32, hpayload, hlength, hzero, Nat.zero_add, Nat.add_lt_add_iff_left]

theorem drop_tcpFilled :
    (tcpFilled request sequence acknowledgement flags payload).drop TCP_HEADER = payload := by
  have hroom := tcpBlank_room request sequence acknowledgement flags payload
  unfold tcpFilled filled overwrite
  rw [List.append_assoc, List.drop_append, List.drop_eq_nil_of_le (by
      rw [List.length_take]
      unfold TCP_HEADER
      omega), List.length_take, Nat.min_eq_left (by omega)]
  rfl

theorem u32At_tcpFilled :
    u32At (tcpFilled request sequence acknowledgement flags payload) 4 = sequence.toNat := by
  have hlt := sequence.isLt
  unfold u32At
  rw [u16At_tcpFilled _ _ _ (by omega), u16At_tcpFilled _ _ _ (by omega)]
  show word (UInt8.ofNat (sequence.toNat / 256 / 256 / 256)) (UInt8.ofNat (sequence.toNat / 256 / 256))
    * 2 ^ 16 + word (UInt8.ofNat (sequence.toNat / 256)) (UInt8.ofNat sequence.toNat) = _
  simp only [word, UInt8.toNat_ofNat']
  omega

/-- The interceptor reads its own TCP replies back. -/
theorem parseTcp_buildTcpReply (h : Family request.version request.source request.destination)
    (hsource : request.sourcePort < 2 ^ 16) (hdestination : request.destinationPort < 2 ^ 16)
    (hlength : ipHeaderLength request.version + TCP_HEADER + payload.length < 2 ^ 16) :
    parseTcp (buildTcpReply request sequence acknowledgement flags payload) = some {
      version := request.version
      source := request.destination
      destination := request.source
      sourcePort := request.destinationPort
      destinationPort := request.sourcePort
      sequence
      flags := flags &&& 0x3f
      payload } := by
  have hlen := length_tcpFilled request sequence acknowledgement flags payload
  -- the TCP header, wherever the network header ends
  have htransport : ∀ version source destination,
      parseTcpPayload (tcpFilled request sequence acknowledgement flags payload) version 0 source destination =
        some { version, source, destination
               sourcePort := request.destinationPort
               destinationPort := request.sourcePort
               sequence
               flags := flags &&& 0x3f
               payload } := by
    intro version source destination
    have htwelve : byteAt (tcpFilled request sequence acknowledgement flags payload) 12 = 0x50 :=
      byteAt_tcpFilled _ _ _ (by omega)
    have hflags : byteAt (tcpFilled request sequence acknowledgement flags payload) 13 = flags :=
      byteAt_tcpFilled _ _ _ (by omega)
    have hport : u16At (tcpFilled request sequence acknowledgement flags payload) 0 =
        request.destinationPort := by
      rw [u16At_tcpFilled _ _ _ (by omega)]
      exact word_ofNat hdestination
    have hport' : u16At (tcpFilled request sequence acknowledgement flags payload) 2 =
        request.sourcePort := by
      rw [u16At_tcpFilled _ _ _ (by omega)]
      exact word_ofNat hsource
    have htcpHeader : ((0x50 : UInt8) >>> 4).toNat * 4 = TCP_HEADER := by decide
    unfold parseTcpPayload
    simp only [Nat.zero_add]
    rw [if_neg (by omega), htwelve, htcpHeader, if_neg (by rw [hlen]; unfold TCP_HEADER; omega), hport,
      hport', hflags, u32At_tcpFilled, drop_tcpFilled, BitVec.ofNat_toNat, BitVec.setWidth_eq]
  rw [buildTcpReply_eq]
  obtain ⟨hknown, hs, hd⟩ := h
  generalize request.version = version at *
  obtain rfl | rfl := hknown
  · replace hs : request.source.length = 4 := hs
    replace hd : request.destination.length = 4 := hd
    replace hlength : 20 + TCP_HEADER + payload.length < 2 ^ 16 := hlength
    have hplaces := @places_four TCP_PROTOCOL _ _ (tcpFilled request sequence acknowledgement flags payload)
      hd hs (by omega)
    generalize ipHeader 4 TCP_PROTOCOL _ _ _ ++ _ = packet at hplaces ⊢
    have hne : packet ≠ [] := by
      rintro rfl
      have := hplaces.length
      simp only [List.length_nil] at this
      omega
    have hheader : headerLength packet = 20 := by
      unfold headerLength
      rw [hplaces.first]
      decide
    have hlong : ¬ packet.length < 40 := by
      rw [hplaces.length, hlen]
      unfold TCP_HEADER
      omega
    unfold parseTcp
    rw [if_neg hne, if_pos (by rw [hplaces.first]; decide),
      if_neg (not_or.mpr ⟨hlong, not_not.mpr hplaces.protocol⟩)]
    dsimp only
    rw [hheader, hplaces.fragment, if_neg (by decide), hplaces.source, hplaces.destination,
      parseTcpPayload_drop hplaces.drop hplaces.length, htransport]
  · replace hs : request.source.length = 16 := hs
    replace hd : request.destination.length = 16 := hd
    replace hlength : 40 + TCP_HEADER + payload.length < 2 ^ 16 := hlength
    have hplaces := @places_six TCP_PROTOCOL _ _ (tcpFilled request sequence acknowledgement flags payload)
      hd hs (by omega)
    generalize ipHeader 6 TCP_PROTOCOL _ _ _ ++ _ = packet at hplaces ⊢
    have hne : packet ≠ [] := by
      rintro rfl
      have := hplaces.length
      simp only [List.length_nil] at this
      omega
    have hlong : ¬ packet.length < 60 := by
      rw [hplaces.length, hlen]
      unfold TCP_HEADER
      omega
    unfold parseTcp
    rw [if_neg hne, if_neg (by rw [hplaces.first]; decide), if_pos (by rw [hplaces.first]; decide),
      if_neg (not_or.mpr ⟨hlong, not_not.mpr hplaces.protocol⟩), hplaces.source, hplaces.destination,
      parseTcpPayload_drop hplaces.drop hplaces.length, htransport]

end Tcp

end Peerward.Android
