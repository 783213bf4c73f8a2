import Peerward.Android.TunPackets
import Peerward.PeerCore.CoordinationCodec

/-!
# Coordination inside the tunnel

A coordination message travels as one UDP datagram between the virtual addresses of two Peers. What the
sender builds is a packet that the data plane accepts, and that the receiver reads the message back from;
a packet that was cut short is refused.
-/

namespace Peerward.PeerCore

open Peerward.Lib Peerward.Net
open Peerward.Android (UDP_PROTOCOL UDP_HEADER UdpRequest Family Between ipAddress filled udpBlank ipHeader
  ipHeaderLength pseudoHeaderSum nonzero buildUdpReply)

namespace Coordination

def PORT : Nat := 51821

/-! ## Writing -/

def checksum (bytes : Bytes) : Nat := 0xffff - foldCarry (checksumWords 0 bytes)

/-- The network header in front of `udpLen` bytes, and the pseudo header that the checksum covers. -/
def networkHeader (udpLen : Nat) : IpAddr → IpAddr → Except PeerError (Bytes × Bytes)
  | .v4 source, .v4 destination =>
    let blank := [0x45, 0] ++ toBE 2 (udpLen + 20) ++ [0, 0, 0, 0, 64, 17, 0, 0] ++ toBE 4 source.toNat
      ++ toBE 4 destination.toNat
    let header := overwrite blank 10 (toBE 2 (checksum blank))
    .ok (header, slice header 12 20 ++ [0, 17] ++ toBE 2 udpLen)
  | .v6 source, .v6 destination =>
    let header := [0x60, 0, 0, 0] ++ toBE 2 udpLen ++ [17, 64] ++ toBE 16 source.toNat
      ++ toBE 16 destination.toNat
    .ok (header, slice header 8 40 ++ toBE 4 udpLen ++ [0, 0, 0, 17])
  | _, _ => .error .noRoute

def encodeIp (source destination : IpAddr) (coordination : Coordination) : Except PeerError Bytes := do
  let body ← encode coordination
  let udpLen := body.length + 8
  rejectIf (2 ^ 16 ≤ udpLen) .invalidPacket
  let (header, pseudo) ← networkHeader udpLen source destination
  let udp := toBE 2 PORT ++ toBE 2 PORT ++ toBE 2 udpLen ++ [0, 0] ++ body
  let sum := checksum (pseudo ++ udp)
  return header ++ overwrite udp 6 (toBE 2 (if sum = 0 then 0xffff else sum))

/-! ## Reading -/

/-- Where the UDP header starts: behind a header without options or extensions. -/
def plainHeader (packet : Bytes) : Except PeerError Nat :=
  if packet[0]? = some 0x45 then .ok 20
  else if packet[0]? = some 0x60 ∧ packet[6]? = some 17 then .ok 40
  else .error .invalidPacket

def decodeIp (packet : Bytes) : Except PeerError Coordination := do
  let parsed ← (Dataplane.parsePacket packet).mapError fun _ => .invalidPacket
  let header ← plainHeader packet
  rejectIf (parsed.protocol ≠ 17 || parsed.sourcePort ≠ some PORT || parsed.destinationPort ≠ some PORT
    || parsed.fragment.isSome) .invalidPacket
  rejectIf (packet.length < header + 8) .invalidPacket
  decode (packet.drop (header + 8))

end Coordination

namespace Coordination

variable {source destination : IpAddr} {coordination : Coordination} {packet body : Bytes}

/-! ## What is written

The source writes its header field by field. It comes to what the shared packet builder writes, of which
everything needed is already known.
-/

def version (ip : IpAddr) : UInt8 := if ip.isIpv4 then 4 else 6

/-- The exchange that a packet answers, in the words of the shared packet builder. -/
def request (source destination : IpAddr) : UdpRequest where
  version := version source
  ipHeaderLength := ipHeaderLength (version source)
  source := destination.octets
  destination := source.octets
  sourcePort := PORT
  destinationPort := PORT
  payload := []

theorem family_of_same (h : source.isIpv4 = destination.isIpv4) :
    Family (version source) source.octets destination.octets := by
  cases source <;> cases destination <;> cases h
  · exact ⟨.inl rfl, length_toBE .., length_toBE ..⟩
  · exact ⟨.inr rfl, length_toBE .., length_toBE ..⟩

theorem ipAddress_octets (h : version source = version destination) :
    ipAddress (version source) destination.octets = destination := by
  rw [h]
  cases destination with
  | v4 bits =>
      show IpAddr.v4 (BitVec.ofNat 32 (ofBE (toBE 4 bits.toNat))) = _
      rw [ofBE_toBE_of_lt (v4_width ▸ bits.isLt), BitVec.ofNat_toNat, BitVec.setWidth_eq]
  | v6 bits =>
      show IpAddr.v6 (BitVec.ofNat 128 (ofBE (toBE 16 bits.toNat))) = _
      rw [ofBE_toBE_of_lt (v6_width ▸ bits.isLt), BitVec.ofNat_toNat, BitVec.setWidth_eq]

theorem checksumWords_addresses {source destination tail : Bytes} (hs : source.length % 2 = 0)
    (hd : destination.length % 2 = 0) : checksumWords 0 (source ++ destination ++ tail) =
      checksumWords 0 source + checksumWords 0 destination + checksumWords 0 tail := by
  have hadd : ∀ sum bytes, checksumWords sum bytes = sum + checksumWords 0 bytes := by
    intro sum bytes
    have h := checksumWords_add sum 0 bytes
    rwa [Nat.add_zero] at h
  rw [checksumWords_append (by rw [List.length_append]; omega), checksumWords_append hs,
    hadd (checksumWords _ _), hadd (checksumWords 0 source)]

/-- The tails of both pseudo headers add the protocol and the length. -/
theorem checksumWords_tails {udpLen : Nat} (hlength : udpLen < 2 ^ 16) :
    checksumWords 0 ([0, 17] ++ toBE 2 udpLen) = 17 + udpLen ∧
      checksumWords 0 (toBE 4 udpLen ++ [0, 0, 0, 17]) = 17 + udpLen := by
  have hseventeen : (17 : UInt8).toNat = 17 := rfl
  have hzero : (0 : UInt8).toNat = 0 := rfl
  constructor
  · show 0 + word 0 17 + word _ _ = _
    simp only [word, UInt8.toNat_ofNat', hseventeen, hzero]
    omega
  · show 0 + word _ _ + word _ _ + word 0 0 + word 0 17 = _
    simp only [word, UInt8.toNat_ofNat', hseventeen, hzero]
    omega

/-- The header is the shared builder's, and the pseudo header sums up to what it adds. -/
theorem networkHeader_eq_ok {udpLen : Nat} {header pseudo : Bytes} (hlength : udpLen + 40 < 2 ^ 16)
    (h : networkHeader udpLen source destination = .ok (header, pseudo)) :
    source.isIpv4 = destination.isIpv4 ∧
      header = ipHeader (version source) UDP_PROTOCOL udpLen source.octets destination.octets ∧
      pseudo.length % 2 = 0 ∧
      checksumWords 0 pseudo = pseudoHeaderSum source.octets destination.octets UDP_PROTOCOL udpLen := by
  have htails := checksumWords_tails (show udpLen < 2 ^ 16 by omega)
  have hu16OrMax : ∀ n, n < 2 ^ 16 → Android.u16OrMax n = n := fun n hn => Nat.min_eq_left (by omega)
  cases source with
  | v4 source =>
      cases destination with
      | v6 => cases h
      | v4 destination =>
          obtain ⟨high, low, hplain, -⟩ := @Android.ipHeader_four (toBE 4 source.toNat)
            (toBE 4 destination.toNat) UDP_PROTOCOL udpLen (by omega)
          have hheader : ∀ blank, blank = [0x45, 0] ++ toBE 2 (udpLen + 20) ++ [0, 0, 0, 0, 64, 17, 0, 0]
                ++ toBE 4 source.toNat ++ toBE 4 destination.toNat →
              overwrite blank 10 (toBE 2 (checksum blank)) =
                ipHeader 4 UDP_PROTOCOL udpLen (toBE 4 source.toNat) (toBE 4 destination.toNat) := by
            rintro _ rfl
            unfold ipHeader
            rw [if_pos rfl, hu16OrMax _ (by omega), Nat.add_comm 20]
            rfl
          simp only [networkHeader, hheader _ rfl, Except.ok.injEq, Prod.mk.injEq] at h
          obtain ⟨rfl, rfl⟩ := h
          have hslice : slice (ipHeader 4 UDP_PROTOCOL udpLen (toBE 4 source.toNat)
              (toBE 4 destination.toNat)) 12 20 = toBE 4 source.toNat ++ toBE 4 destination.toNat := by
            rw [hplain]
            exact slice_last rfl (by rw [List.length_append, length_toBE, length_toBE])
          rw [hslice]
          refine ⟨rfl, rfl, by simp, ?_⟩
          rw [List.append_assoc _ [0, 17], checksumWords_addresses (by simp) (by simp), htails.1]
          exact (Nat.add_assoc ..).symm
  | v6 source =>
      cases destination with
      | v4 => cases h
      | v6 destination =>
          have hheader : [0x60, 0, 0, 0] ++ toBE 2 udpLen ++ [17, 64] ++ toBE 16 source.toNat
                ++ toBE 16 destination.toNat =
              ipHeader 6 UDP_PROTOCOL udpLen (toBE 16 source.toNat) (toBE 16 destination.toNat) := by
            unfold ipHeader
            rw [if_neg (by decide), hu16OrMax _ (by omega)]
            rfl
          have hslice : slice ([0x60, 0, 0, 0] ++ toBE 2 udpLen ++ [17, 64] ++ toBE 16 source.toNat
              ++ toBE 16 destination.toNat) 8 40 = toBE 16 source.toNat ++ toBE 16 destination.toNat := by
            rw [List.append_assoc]
            exact slice_last rfl (by rw [List.length_append, length_toBE, length_toBE])
          simp only [networkHeader, hslice, Except.ok.injEq, Prod.mk.injEq] at h
          obtain ⟨rfl, rfl⟩ := h
          refine ⟨rfl, hheader, by simp, ?_⟩
          rw [List.append_assoc _ (toBE 4 udpLen), checksumWords_addresses (by simp) (by simp), htails.2]
          exact (Nat.add_assoc ..).symm

/-- **What is sent** is the packet that the shared builder makes of the message. -/
theorem encodeIp_eq (h : encodeIp source destination coordination = .ok packet) :
    source.isIpv4 = destination.isIpv4 ∧ ∃ body, encode coordination = .ok body ∧
      body.length ≤ HEADER + MAX_PROBE_PADDING ∧
      packet = buildUdpReply (request source destination) body := by
  obtain ⟨body, hbody, h⟩ := bind_eq_ok.mp h
  obtain ⟨_, -, h⟩ := bind_eq_ok.mp h
  obtain ⟨⟨header, pseudo⟩, hheader, h⟩ := bind_eq_ok.mp h
  have hlength : body.length ≤ HEADER + MAX_PROBE_PADDING := by
    obtain ⟨rest, hrest, rfl⟩ := encode_eq_ok.mp hbody
    have hrest := length_encodeBody_le hrest
    simp only [List.length_append, length_toBE, List.length_cons, List.length_nil, HEADER]
    omega
  have hsmall : body.length ≤ 28 + 9000 := hlength
  obtain ⟨hsame, rfl, heven, hpseudo⟩ := networkHeader_eq_ok (by omega) hheader
  refine ⟨hsame, body, hbody, hlength, (Except.ok.inj h).symm.trans ?_⟩
  have hudpLen : Android.u16OrMax (UDP_HEADER + body.length) = body.length + 8 :=
    (Nat.min_eq_left (by unfold UDP_HEADER; omega)).trans (Nat.add_comm ..)
  unfold buildUdpReply checksum
  dsimp only
  rw [checksumWords_append heven, hpseudo, hudpLen, Nat.add_comm UDP_HEADER]
  rfl

/-! ## What is received

The receiver parses the packet as the data plane does and reads the message where the UDP header ends. A
packet cut short is refused by its length fields.
-/

theorem getElem?_of_byteAt {bytes : Bytes} {i : Nat} {b : UInt8} (hi : i < bytes.length)
    (h : byteAt bytes i = b) : bytes[i]? = some b := by
  rw [List.getElem?_eq_getElem hi, ← h, byteAt, List.getD_eq_getElem _ _ hi]

theorem plainHeader_built {transport : Bytes} (hsame : source.isIpv4 = destination.isIpv4)
    (hlength : 40 + transport.length < 2 ^ 16) :
    plainHeader (ipHeader (version source) UDP_PROTOCOL transport.length source.octets
      destination.octets ++ transport) = .ok (ipHeaderLength (version source)) := by
  cases source <;> cases destination <;> cases hsame
  · next source destination =>
      have hplaces := @Android.places_four UDP_PROTOCOL (IpAddr.v4 source).octets
        (IpAddr.v4 destination).octets transport (length_toBE ..) (length_toBE ..) (by omega)
      have hfirst := getElem?_of_byteAt (by rw [hplaces.length]; omega) hplaces.first
      exact if_pos hfirst
  · next source destination =>
      have hplaces := @Android.places_six UDP_PROTOCOL (IpAddr.v6 source).octets
        (IpAddr.v6 destination).octets transport (length_toBE ..) (length_toBE ..) hlength
      have hfirst := getElem?_of_byteAt (by rw [hplaces.length]; omega) hplaces.first
      have hprotocol := getElem?_of_byteAt (by rw [hplaces.length]; omega) hplaces.protocol
      refine (if_neg ?_).trans (if_pos ⟨hfirst, hprotocol⟩)
      intro h
      exact absurd (hfirst.symm.trans h) (by decide)

theorem length_udpBlank : (udpBlank (request source destination) body).length = 8 + body.length :=
  Android.length_udpBlank ..

/-- A network header in front of a UDP segment that ends with the message. -/
theorem built_segment (hlength : 8 + body.length < 2 ^ 16) :
    ∃ segment : Bytes, segment.length = 8 + body.length ∧ segment.drop 8 = body ∧
      buildUdpReply (request source destination) body = ipHeader (version source) UDP_PROTOCOL
        segment.length source.octets destination.octets ++ segment := by
  have hroom : 6 + 2 ≤ (udpBlank (request source destination) body).length := by
    rw [length_udpBlank]
    omega
  refine ⟨filled 6 UDP_PROTOCOL source.octets destination.octets
    (udpBlank (request source destination) body), (Android.length_filled hroom).trans length_udpBlank, ?_,
    Android.buildUdpReply_eq (request source destination) hlength⟩
  unfold filled overwrite
  rw [List.append_assoc, List.drop_append, List.drop_eq_nil_of_le (by
      rw [List.length_take]
      omega), List.length_take, Nat.min_eq_left (by omega)]
  rfl

/-- A whole datagram has no fragment to wait for. -/
theorem fragment_of_built {transport : Bytes} {read : ParsedPacket}
    (hsame : source.isIpv4 = destination.isIpv4)
    (hlength : ipHeaderLength (version source) + transport.length < 2 ^ 16)
    (h : Dataplane.parsePacket (ipHeader (version source) UDP_PROTOCOL transport.length source.octets
      destination.octets ++ transport) = .ok read) : read.fragment = none := by
  rw [Android.parsePacket_ipHeader (family_of_same hsame) (.inl rfl) hlength,
    Dataplane.finishTransport_eq_ok fun item hitem => absurd hitem (Option.not_mem_none item)] at h
  obtain ⟨segment, -, rfl⟩ := h
  rfl

/-- The network header says how long the packet is. -/
theorem size_of_parse {read : ParsedPacket} (h : Dataplane.parsePacket packet = .ok read) :
    (byteAt packet 0 >>> 4 = 4 ∧ 20 ≤ packet.length ∧ u16At packet 2 = packet.length) ∨
      (byteAt packet 0 >>> 4 = 6 ∧ 40 ≤ packet.length ∧ u16At packet 4 + 40 = packet.length) := by
  obtain hversion | hversion := Dataplane.version_of_parse h
  · rw [Dataplane.parsePacket_v4 hversion] at h
    obtain ⟨hmin, hmax, htotal, -⟩ := Dataplane.parseIpv4_eq_ok.mp h
    exact .inl ⟨hversion, hmin.trans hmax, htotal⟩
  · rw [Dataplane.parsePacket_v6 hversion, Dataplane.parseIpv6] at h
    split at h
    · cases h
    next hmin =>
    split at h
    · cases h
    next htotal => exact .inr ⟨hversion, not_lt.mp hmin, not_not.mp htotal⟩

/-- None of an accepted packet can be missing. -/
theorem parsePacket_take {read : ParsedPacket} (h : Dataplane.parsePacket packet = .ok read) {n : Nat}
    (hn : n < packet.length) (cut : ParsedPacket) : Dataplane.parsePacket (packet.take n) ≠ .ok cut := by
  intro hcut
  have hlength : (packet.take n).length = n := by
    rw [List.length_take]
    omega
  have hu16 : ∀ i, i + 1 < n → u16At (packet.take n) i = u16At packet i := by
    intro i hi
    rw [u16At, byteAt_take (by omega), byteAt_take hi]
    rfl
  have hsize := size_of_parse h
  obtain ⟨hversion, hmin, htotal⟩ | ⟨hversion, hmin, htotal⟩ := size_of_parse hcut <;>
    rw [hlength] at hmin htotal <;> rw [hu16 _ (by omega)] at htotal <;>
    rw [byteAt_take (by omega)] at hversion
  · obtain ⟨-, -, hwhole⟩ | ⟨hother, -⟩ := hsize
    · omega
    · exact absurd (hversion.symm.trans hother) (by decide)
  · obtain ⟨hother, -⟩ | ⟨-, -, hwhole⟩ := hsize
    · exact absurd (hversion.symm.trans hother) (by decide)
    · omega

/-- **A message survives the tunnel.** What is sent between two addresses is a packet of the data plane
between the coordination ports there, the receiver reads the message back from it, and refuses every
packet that lacks some of its end. -/
theorem decodeIp_encodeIp (h : encodeIp source destination coordination = .ok packet)
    (hgeneration : coordination.generation < 2 ^ 64) (hplain : coordination.message.plain = true) :
    (∃ read, Between packet UDP_PROTOCOL source destination PORT PORT read) ∧
      decodeIp packet = .ok coordination ∧
      ∀ n < packet.length, decodeIp (packet.take n) = .error .invalidPacket := by
  obtain ⟨hsame, body, hbody, hlength, rfl⟩ := encodeIp_eq h
  have hlength : body.length ≤ 28 + 9000 := hlength
  have hversion : version source = version destination := by
    unfold version
    rw [hsame]
  have hheader : ipHeaderLength (version source) ≤ 40 := by
    unfold ipHeaderLength
    split <;> omega
  obtain ⟨read, hread⟩ := @Android.buildUdpReply_between (request source destination)
    (family_of_same hsame).swap (show PORT < 2 ^ 16 by decide) (show PORT < 2 ^ 16 by decide) body
    (by show ipHeaderLength (version source) + 8 + body.length < 2 ^ 16; omega)
  have hends : Between (buildUdpReply (request source destination) body) UDP_PROTOCOL source destination
      PORT PORT read := by
    have hsource : ipAddress (version source) source.octets = source := ipAddress_octets rfl
    have hdestination := ipAddress_octets hversion
    simpa only [request, hsource, hdestination] using hread
  refine ⟨⟨read, hends⟩, ?_, fun n hn => ?_⟩
  · obtain ⟨segment, hsegment, hdrop, hbuilt⟩ :=
      @built_segment source destination body (by omega)
    have hparsed := hends.parsed
    rw [hbuilt] at hparsed ⊢
    have hfragment := fragment_of_built hsame (by omega) hparsed
    have hports : rejectIf (read.protocol ≠ 17 || read.sourcePort ≠ some PORT
        || read.destinationPort ≠ some PORT || read.fragment.isSome) PeerError.invalidPacket = .ok () := by
      rw [rejectIf_eq_ok, hends.protocol, hends.sourcePort, hends.destinationPort, hfragment]
      decide
    have hlong : rejectIf ((ipHeader (version source) UDP_PROTOCOL segment.length source.octets
        destination.octets ++ segment).length < ipHeaderLength (version source) + 8)
        PeerError.invalidPacket = .ok () := by
      rw [rejectIf_eq_ok, List.length_append, Android.length_ipHeader (family_of_same hsame)]
      exact decide_eq_false (by omega)
    unfold decodeIp
    rw [hparsed, plainHeader_built hsame (by omega)]
    show (rejectIf _ _ >>= fun _ => rejectIf _ _ >>= fun _ => decode _) = _
    rw [hports, ok_bind, hlong, ok_bind, ← List.drop_drop,
      List.drop_left' (Android.length_ipHeader (family_of_same hsame) ..), hdrop]
    exact decode_eq_ok.mpr ⟨hbody, hgeneration, hplain⟩
  · unfold decodeIp
    cases hcut : Dataplane.parsePacket ((buildUdpReply (request source destination) body).take n) with
    | error failure => rfl
    | ok cut => exact absurd hcut (parsePacket_take hends.parsed hn cut)

/-- A path check between two virtual addresses. -/
theorem decodeIp_encodeIp_probe : ∃ packet,
    encodeIp (.v4 0x0a000001#32) (.v4 0x0a000002#32) ⟨7, 9, .mtuProbe 3⟩ = .ok packet ∧
      decodeIp packet = .ok ⟨7, 9, .mtuProbe 3⟩ ∧
      ∀ n < packet.length, decodeIp (packet.take n) = .error .invalidPacket :=
  have hencode : encodeIp (.v4 0x0a000001#32) (.v4 0x0a000002#32) ⟨7, 9, .mtuProbe 3⟩ = .ok _ := rfl
  ⟨_, hencode, (decodeIp_encodeIp hencode (by decide) rfl).2⟩

end Coordination

end Peerward.PeerCore
