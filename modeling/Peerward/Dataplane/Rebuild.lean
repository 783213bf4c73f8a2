import Peerward.Dataplane.ReassemblySteps

/-!
# Rebuilt packets

A rebuilt packet has the header of the fragment at offset zero, without the fragment fields, in front
of the collected payload. The parser therefore sees in it what it saw in that fragment: for IPv4
because the header fields are the same, for IPv6 because unlinking the Fragment header leaves the
rest of the extension chain where the walk finds it.
-/

namespace Peerward.Dataplane

open Peerward.Lib Peerward.Net

/-- A packet that `push` takes as a fragment, with what it reads from it. -/
structure FragmentPacket where
  bytes : Bytes
  parsed : ParsedPacket
  fragment : Fragment
  decoded : DecodedFragment
  parses : parsePacket bytes = .ok parsed
  fragment_eq : parsed.fragment = some fragment
  decodes : decodeFragment bytes fragment = .ok decoded

namespace FragmentPacket

def key (part : FragmentPacket) : ReassemblyKey := .ofParsed part.parsed part.fragment

def payload (part : FragmentPacket) : Bytes := part.decoded.payload

/-- Where the payload belongs in the datagram. -/
def start (part : FragmentPacket) : Nat := part.fragment.offset * 8

end FragmentPacket

/-- Everything policy reads from a packet, fragment fields and quoted flows apart. -/
structure SameHeaders (a b : ParsedPacket) : Prop where
  source : a.source = b.source
  destination : a.destination = b.destination
  protocol : a.protocol = b.protocol
  sourcePort : a.sourcePort = b.sourcePort
  destinationPort : a.destinationPort = b.destinationPort
  tcpFlags : a.tcpFlags = b.tcpFlags
  icmp : a.icmp = b.icmp

/-- Bytes in front of the payload of a rebuilt packet. -/
def HeaderTemplate.length : HeaderTemplate → Nat
  | .ipv4 header => header.length
  | .ipv6 lead _ _ => lead.length

/-! ## The rebuilt IPv4 header

The header is written field by field and its checksum last. These lemmas read the fields back.
-/

/-- The flags a rebuilt header keeps: "don't fragment" alone. -/
def keptFlags (header : Bytes) : Nat := if (u16At header 6).testBit 14 then 2 ^ 14 else 0

/-- A header with other flags, a length for `size` bytes behind it, and a checksum of zero. -/
def unsummedHeader (header : Bytes) (flags size : Nat) : Bytes :=
  overwrite (overwrite (overwrite header 6 (toBE 2 flags)) 2
    (toBE 2 (header.length + size))) 10 [0, 0]

/-- The same header with its checksum. -/
def summedHeader (header : Bytes) (flags size : Nat) : Bytes :=
  overwrite (unsummedHeader header flags size) 10
    (toBE 2 (ipv4Checksum (unsummedHeader header flags size)))

section SummedHeader

variable {header : Bytes} (hlen : 20 ≤ header.length) (flags size : Nat)

include hlen

theorem length_flags : (overwrite header 6 (toBE 2 flags)).length = header.length :=
  length_overwrite (by rw [length_toBE]; omega)

theorem length_total : (overwrite (overwrite header 6 (toBE 2 flags)) 2
    (toBE 2 (header.length + size))).length = header.length := by
  rw [length_overwrite (by rw [length_toBE, length_flags hlen]; omega), length_flags hlen]

theorem length_unsummedHeader : (unsummedHeader header flags size).length = header.length := by
  unfold unsummedHeader
  rw [length_overwrite, length_total hlen]
  rw [length_total hlen]
  simp only [List.length_cons, List.length_nil]
  omega

theorem length_summedHeader : (summedHeader header flags size).length = header.length := by
  unfold summedHeader
  rw [length_overwrite, length_unsummedHeader hlen]
  rw [length_unsummedHeader hlen, length_toBE]
  omega

theorem rebuildIpv4_eq (payload : Bytes) : rebuildIpv4 header payload =
    summedHeader header (keptFlags header) payload.length ++ payload := by
  unfold rebuildIpv4 summedHeader unsummedHeader
  simp only
  rw [← keptFlags, length_flags hlen]

theorem byteAt_unsummedHeader (i : Nat) : byteAt (unsummedHeader header flags size) i =
    if i = 10 ∨ i = 11 then 0
    else if i = 2 ∨ i = 3 then byteAt (toBE 2 (header.length + size)) (i - 2)
    else if i = 6 ∨ i = 7 then byteAt (toBE 2 flags) (i - 6)
    else byteAt header i := by
  unfold unsummedHeader
  rw [byteAt_overwrite (by rw [length_total hlen]; simp only [List.length_cons, List.length_nil]; omega),
    byteAt_overwrite (by rw [length_toBE, length_flags hlen]; omega),
    byteAt_overwrite (by rw [length_toBE]; omega)]
  simp only [length_toBE, List.length_cons, List.length_nil]
  by_cases h₁₀ : i = 10 ∨ i = 11
  · rw [if_pos h₁₀, if_pos (by omega)]
    rcases h₁₀ with rfl | rfl <;> rfl
  rw [if_neg h₁₀, if_neg (show ¬ (10 ≤ i ∧ i < 10 + (0 + 1 + 1)) by omega)]
  by_cases h₂ : i = 2 ∨ i = 3
  · rw [if_pos h₂, if_pos (by omega)]
  rw [if_neg h₂, if_neg (show ¬ (2 ≤ i ∧ i < 2 + 2) by omega)]
  by_cases h₆ : i = 6 ∨ i = 7
  · rw [if_pos h₆, if_pos (by omega)]
  · rw [if_neg h₆, if_neg (show ¬ (6 ≤ i ∧ i < 6 + 2) by omega)]

theorem byteAt_summedHeader {i : Nat} (hi : i ≠ 10 ∧ i ≠ 11) :
    byteAt (summedHeader header flags size) i = byteAt (unsummedHeader header flags size) i := by
  unfold summedHeader
  rw [byteAt_overwrite (by rw [length_unsummedHeader hlen, length_toBE]; omega), if_neg]
  rw [length_toBE]
  omega

/-- The fields such a header takes over. -/
theorem byteAt_summedHeader_kept {i : Nat}
    (hi : i ≠ 2 ∧ i ≠ 3 ∧ i ≠ 6 ∧ i ≠ 7 ∧ i ≠ 10 ∧ i ≠ 11) :
    byteAt (summedHeader header flags size) i = byteAt header i := by
  rw [byteAt_summedHeader hlen flags size (by omega), byteAt_unsummedHeader hlen, if_neg (by omega),
    if_neg (by omega), if_neg (by omega)]

variable {flags} in
theorem u16At_summedHeader_flags (hflags : flags < 2 ^ 16) :
    u16At (summedHeader header flags size) 6 = flags := by
  rw [u16At, byteAt_summedHeader hlen flags size (by omega),
    byteAt_summedHeader hlen flags size (by omega), byteAt_unsummedHeader hlen,
    byteAt_unsummedHeader hlen, if_neg (by omega), if_neg (by omega), if_pos (by omega),
    if_neg (by omega), if_neg (by omega), if_pos (by omega)]
  exact word_ofNat hflags

end SummedHeader

theorem keptFlags_lt (header : Bytes) : keptFlags header < 2 ^ 16 := by
  unfold keptFlags
  split <;> decide

/-- A rebuilt header describes a whole datagram. -/
theorem ipv4Fragment_of_flags {bytes header : Bytes} (h : u16At bytes 6 = keptFlags header) :
    ipv4Fragment bytes = none := by
  unfold ipv4Fragment
  rw [h]
  unfold keptFlags
  split <;> rfl

/-- Two IPv4 packets with the same version, length, protocol and address fields. -/
structure SameIpv4 (a b : Bytes) : Prop where
  headerLen : ipv4HeaderLen a = ipv4HeaderLen b
  protocol : byteAt a 9 = byteAt b 9
  source : ipv4Source a = ipv4Source b
  destination : ipv4Destination a = ipv4Destination b

theorem SameIpv4.of_bytes {a b : Bytes} (ha : 20 ≤ a.length) (hb : 20 ≤ b.length)
    (h : ∀ i, i < 20 → i ≠ 2 → i ≠ 3 → i ≠ 6 → i ≠ 7 → i ≠ 10 → i ≠ 11 → byteAt a i = byteAt b i) :
    SameIpv4 a b where
  headerLen := by
    unfold ipv4HeaderLen
    rw [h 0 (by omega) (by omega) (by omega) (by omega) (by omega) (by omega) (by omega)]
  protocol := h 9 (by omega) (by omega) (by omega) (by omega) (by omega) (by omega) (by omega)
  source := by
    unfold ipv4Source
    rw [slice_congr (a := a) (b := b) (by omega) (by omega)]
    intro i hlow hhigh
    apply h <;> omega
  destination := by
    unfold ipv4Destination
    rw [slice_congr (a := a) (b := b) (by omega) (by omega)]
    intro i hlow hhigh
    apply h <;> omega

theorem finishTransport_fragment {payload : Bytes} {source destination : IpAddr} {protocol : UInt8}
    {fragment : Option Fragment} {packetLen : Nat} {related : Bool} {p : ParsedPacket}
    (h : finishTransport payload source destination protocol fragment packetLen related = .ok p) :
    p.fragment = fragment := by
  unfold finishTransport at h
  split at h
  · cases h
    rfl
  · simp only at h
    cases hparse : parseTransport payload source destination protocol
        (fragment.any fun item => item.offset ≠ 0 || item.more) related with
    | error err =>
        rw [hparse] at h
        cases h
    | ok t =>
        rw [hparse] at h
        cases h
        rfl

/-- A longer payload behind the same addresses and protocol parses to the same headers. -/
theorem finishTransport_same {payload rest : Bytes} {source destination : IpAddr} {protocol : UInt8}
    {fragment : Fragment} {packetLen packetLen' : Nat} {p p' : ParsedPacket}
    (hzero : fragment.offset = 0)
    (h : finishTransport payload source destination protocol (some fragment) packetLen true = .ok p)
    (h' : finishTransport (payload ++ rest) source destination protocol none packetLen' true =
      .ok p') : p'.fragment = none ∧ SameHeaders p' p := by
  rw [finishTransport_eq_ok (by simpa using hzero)] at h
  rw [finishTransport_eq_ok (by simp)] at h'
  obtain ⟨t, ht, rfl⟩ := h
  obtain ⟨t', ht', rfl⟩ := h'
  have hsame := parseTransport_extend ht ht'
  exact ⟨rfl, rfl, rfl, rfl, hsame.sourcePort, hsame.destinationPort, hsame.tcpFlags, hsame.icmp⟩

/-! ## Taking fragments apart -/

theorem decodeFragment_v4 {bytes : Bytes} {fragment : Fragment} (h : byteAt bytes 0 >>> 4 = 4) :
    decodeFragment bytes fragment =
      if ipv4HeaderLen bytes > bytes.length then .error .malformed
      else .ok
        { template := .ipv4 (if fragment.offset = 0 then bytes.take (ipv4HeaderLen bytes) else [])
          payload := bytes.drop (ipv4HeaderLen bytes) } := by
  cases bytes with
  | nil => exact absurd h (by decide)
  | cons first rest =>
      unfold decodeFragment
      simp only
      rw [if_pos (show first >>> 4 = 4 from h)]

theorem decodeFragment_v6 {bytes : Bytes} {fragment : Fragment} {decoded : DecodedFragment}
    (h : byteAt bytes 0 >>> 4 = 6) : decodeFragment bytes fragment = .ok decoded ↔
      ∃ cursor previous, ipv6FragmentHeader bytes = .ok (cursor, previous) ∧
        cursor + 8 ≤ bytes.length ∧
        { template :=
            if fragment.offset = 0 then .ipv6 (bytes.take cursor) previous (byteAt bytes cursor)
            else .ipv6 [] 0 0
          payload := bytes.drop (cursor + 8) : DecodedFragment } = decoded := by
  cases bytes with
  | nil => exact absurd h (by decide)
  | cons first rest =>
      have hfirst : first >>> 4 = 6 := h
      unfold decodeFragment
      simp only
      rw [if_neg (by rw [hfirst]; decide), if_pos hfirst]
      cases hheader : ipv6FragmentHeader (first :: rest) with
      | error err => simp
      | ok found =>
          obtain ⟨cursor, previous⟩ := found
          simp only
          constructor
          · intro hok
            split at hok
            · cases hok
            next hlen =>
            exact ⟨cursor, previous, rfl, by omega, Except.ok.inj hok⟩
          · rintro ⟨cursor', previous', hsame, hlen, rfl⟩
            cases hsame
            rw [if_neg (by omega)]

/-! ## Parsing what was rebuilt

A rebuilt packet has the addresses, the protocol and the transport header of its first fragment, and so is
read as that, but for being whole.
-/

/-- IPv4: the rebuilt header has the fields of the first fragment's. -/
theorem rebuilt_v4 {first : FragmentPacket} (hzero : first.fragment.offset = 0)
    (hv : byteAt first.bytes 0 >>> 4 = 4) {rest packet : Bytes} {whole : ParsedPacket}
    (hrebuild : rebuild first.decoded.template (first.payload ++ rest) = .ok packet)
    (hwhole : parsePacket packet = .ok whole) :
    whole.fragment = none ∧ SameHeaders whole first.parsed := by
  have hdecodes := first.decodes
  rw [decodeFragment_v4 hv, if_pos hzero] at hdecodes
  split at hdecodes
  · cases hdecodes
  next hlen =>
  have hdecoded := (Except.ok.inj hdecodes).symm
  have hparses := first.parses
  rw [parsePacket_v4 hv, parseIpv4_eq_ok] at hparses
  obtain ⟨hmin, hmax, -, -, hfinish⟩ := hparses
  have hfragment : ipv4Fragment first.bytes = some first.fragment := by
    rw [← first.fragment_eq, finishTransport_fragment hfinish]
  rw [hfragment] at hfinish
  -- the packet is the rebuilt header in front of the longer payload
  have hheader : (first.bytes.take (ipv4HeaderLen first.bytes)).length =
      ipv4HeaderLen first.bytes := by
    rw [List.length_take]
    omega
  have hheader' : 20 ≤ (first.bytes.take (ipv4HeaderLen first.bytes)).length := by omega
  rw [FragmentPacket.payload, hdecoded, rebuild] at hrebuild
  simp only at hrebuild
  split at hrebuild
  · cases hrebuild
  have hpacket := (Except.ok.inj hrebuild).symm
  rw [rebuildIpv4_eq hheader'] at hpacket
  generalize hsize : (first.bytes.drop (ipv4HeaderLen first.bytes) ++ rest).length = size at hpacket
  have hlead := length_summedHeader hheader' (keptFlags (first.bytes.take (ipv4HeaderLen first.bytes)))
    size
  have hbyte : ∀ i, i < 20 → i ≠ 2 → i ≠ 3 → i ≠ 6 → i ≠ 7 → i ≠ 10 → i ≠ 11 →
      byteAt packet i = byteAt first.bytes i := by
    intro i hi h₂ h₃ h₆ h₇ h₁₀ h₁₁
    rw [hpacket, byteAt_append_left (by omega),
      byteAt_summedHeader_kept hheader' _ size ⟨h₂, h₃, h₆, h₇, h₁₀, h₁₁⟩, byteAt_take (by omega)]
  have hlong : 20 ≤ packet.length := by
    rw [hpacket, List.length_append]
    omega
  have hsame := SameIpv4.of_bytes hlong (by omega) hbyte
  have hflags : u16At packet 6 = keptFlags (first.bytes.take (ipv4HeaderLen first.bytes)) := by
    rw [hpacket, u16At_append_left (by omega), u16At_summedHeader_flags hheader' _ (keptFlags_lt _)]
  have hv' : byteAt packet 0 >>> 4 = 4 := by
    rw [hbyte 0 (by omega) (by omega) (by omega) (by omega) (by omega) (by omega) (by omega), hv]
  rw [parsePacket_v4 hv', parseIpv4_eq_ok] at hwhole
  obtain ⟨-, -, -, -, hfinish'⟩ := hwhole
  have hdrop : packet.drop (ipv4HeaderLen first.bytes) =
      first.bytes.drop (ipv4HeaderLen first.bytes) ++ rest := by
    rw [hpacket, List.drop_left' (by omega)]
  rw [hsame.headerLen, hsame.source, hsame.destination, hsame.protocol,
    ipv4Fragment_of_flags hflags, hdrop] at hfinish'
  exact finishTransport_same hzero hfinish hfinish'

/-- The addresses in an IPv6 header. -/
def ipv6Source (bytes : Bytes) : IpAddr := .ofV6Octets (slice bytes 8 24)
def ipv6Destination (bytes : Bytes) : IpAddr := .ofV6Octets (slice bytes 24 40)

theorem parseIpv6_eq_ok {bytes : Bytes} {p : ParsedPacket} : parseIpv6 bytes true = .ok p ↔
    40 ≤ bytes.length ∧ u16At bytes 4 + 40 = bytes.length ∧
      parseChain bytes (ipv6Source bytes) (ipv6Destination bytes) true 8 (byteAt bytes 6) 40 none =
        .ok p := by
  unfold parseIpv6
  constructor
  · intro h
    split at h
    · cases h
    next hlen =>
    split at h
    · cases h
    next htotal =>
    push Not at htotal
    exact ⟨by omega, htotal, h⟩
  · rintro ⟨hlen, htotal, hchain⟩
    rw [if_neg (by omega), if_neg (by omega)]
    exact hchain

/-- A chain that has passed its Fragment header meets no other one. -/
theorem parseChain_some {bytes : Bytes} {source destination : IpAddr} {turns : Nat} {next : UInt8}
    {cursor : Nat} {fragment : Fragment} {p : ParsedPacket} (hext : isExtension next = false)
    (h : parseChain bytes source destination true turns next cursor (some fragment) = .ok p) :
    next ≠ 44 ∧ finishTransport (bytes.drop cursor) source destination next (some fragment)
      bytes.length true = .ok p := by
  cases turns with
  | zero => cases h
  | succ turns =>
      rw [parseChain, if_neg (by simp [hext])] at h
      split at h
      · rw [if_pos (by simp)] at h
        cases h
      · next hne => exact ⟨hne, h⟩

/-- At the Fragment header of a first fragment the chain goes on behind it. -/
theorem parseChain_fragment {bytes : Bytes} {source destination : IpAddr} {turns cursor : Nat}
    {p : ParsedPacket} {fragment : Fragment} (hfragment : p.fragment = some fragment)
    (hzero : fragment.offset = 0)
    (h : parseChain bytes source destination true (turns + 1) 44 cursor none = .ok p) :
    cursor + 8 ≤ bytes.length ∧ ipv6Fragment bytes cursor = fragment ∧
      parseChain bytes source destination true turns (byteAt bytes cursor) (cursor + 8)
        (some fragment) = .ok p := by
  rw [parseChain, if_neg (by decide), if_pos rfl] at h
  split at h
  · cases h
  next hlen =>
  push Not at hlen
  simp only at h
  split at h
  · next hoffset =>
    rw [finishTransport_fragment h] at hfragment
    cases hfragment
    exact absurd hzero hoffset
  next hoffset =>
  obtain ⟨n, w, hskips, -, hlast, hp⟩ :=
    parseChain_walk (w := ⟨byteAt bytes cursor, cursor + 8, cursor⟩) h
  obtain ⟨-, hfinish⟩ := parseChain_some hlast hp
  rw [finishTransport_fragment hfinish] at hfragment
  cases hfragment
  exact ⟨hlen.1, rfl, h⟩

/-- The unfragmentable part of a rebuilt IPv6 packet with a payload of `size` bytes. -/
def rebuiltLead (lead : Bytes) (previous : Nat) (next : UInt8) (size : Nat) : Bytes :=
  overwrite (overwrite lead previous [next]) 4 (toBE 2 (lead.length + size - 40))

section RebuiltLead

variable {lead : Bytes} (hlen : 40 ≤ lead.length) {previous : Nat} (hprevious : previous < lead.length)
  (next : UInt8) (size : Nat)

include hlen hprevious

omit hlen in
theorem length_linked : (overwrite lead previous [next]).length = lead.length := by
  apply length_overwrite
  simp only [List.length_cons, List.length_nil]
  omega

theorem length_rebuiltLead : (rebuiltLead lead previous next size).length = lead.length := by
  unfold rebuiltLead
  rw [length_overwrite, length_linked hprevious]
  rw [length_linked hprevious, length_toBE]
  omega

omit hlen in
theorem rebuildIpv6_eq (payload : Bytes) : rebuildIpv6 lead previous next payload =
    rebuiltLead lead previous next payload.length ++ payload := by
  unfold rebuildIpv6 rebuiltLead
  simp only
  rw [length_linked hprevious]

theorem byteAt_rebuiltLead (i : Nat) (hi : i ≠ 4 ∧ i ≠ 5) :
    byteAt (rebuiltLead lead previous next size) i = if i = previous then next else byteAt lead i := by
  unfold rebuiltLead
  rw [byteAt_overwrite (by rw [length_linked hprevious, length_toBE]; omega), length_toBE,
    if_neg (by omega), byteAt_overwrite (by simp only [List.length_cons, List.length_nil]; omega)]
  simp only [List.length_cons, List.length_nil]
  by_cases h : i = previous
  · subst h
    rw [if_pos (by omega), if_pos rfl, Nat.sub_self]
    rfl
  · rw [if_neg (by omega), if_neg h]

theorem byteAt_rebuiltLead_size (i : Nat) (hi : i = 4 ∨ i = 5) :
    byteAt (rebuiltLead lead previous next size) i =
      byteAt (toBE 2 (lead.length + size - 40)) (i - 4) := by
  unfold rebuiltLead
  rw [byteAt_overwrite (by rw [length_linked hprevious, length_toBE]; omega), length_toBE,
    if_pos (by omega)]

end RebuiltLead

theorem ipv6Source_congr {a b : Bytes} (ha : 40 ≤ a.length) (hb : 40 ≤ b.length)
    (h : ∀ i, 8 ≤ i → i < 40 → byteAt a i = byteAt b i) :
    ipv6Source a = ipv6Source b ∧ ipv6Destination a = ipv6Destination b := by
  unfold ipv6Source ipv6Destination
  constructor
  · rw [slice_congr (a := a) (b := b) (by omega) (by omega)]
    intro i hlow hhigh
    apply h <;> omega
  · rw [slice_congr (a := a) (b := b) (by omega) (by omega)]
    intro i hlow hhigh
    apply h <;> omega

/-- IPv6: without the Fragment header the chain leads to the same transport header. -/
theorem rebuilt_v6 {first : FragmentPacket} (hzero : first.fragment.offset = 0)
    (hv : byteAt first.bytes 0 >>> 4 = 6) {rest packet : Bytes} {whole : ParsedPacket}
    (hrebuild : rebuild first.decoded.template (first.payload ++ rest) = .ok packet)
    (hwhole : parsePacket packet = .ok whole) :
    whole.fragment = none ∧ SameHeaders whole first.parsed := by
  obtain ⟨cursor, previous, hheader, hroom, hdecoded⟩ := (decodeFragment_v6 hv).mp first.decodes
  rw [if_pos hzero] at hdecoded
  unfold ipv6FragmentHeader at hheader
  split at hheader
  · cases hheader
  obtain ⟨n, hskips, hturns⟩ := fragmentHeaderFrom_walk (w := .start first.bytes) hheader
  obtain ⟨hprevious, hbefore, hforty⟩ := hskips.previous_start
  simp only at hprevious hbefore hforty
  -- the walk over the first fragment: up to the Fragment header, then behind it
  have hparses := first.parses
  rw [parsePacket_v6 hv, parseIpv6_eq_ok] at hparses
  obtain ⟨hlong, -, hchain⟩ := hparses
  obtain ⟨turns, height⟩ : ∃ turns, 8 = n + (turns + 1) := ⟨7 - n, by omega⟩
  rw [height] at hchain
  have hchain' := (hskips.parseChain (ipv6Source first.bytes) (ipv6Destination first.bytes) true
    (turns + 1) none).symm.trans hchain
  obtain ⟨-, -, hbehind⟩ := parseChain_fragment first.fragment_eq hzero hchain'
  obtain ⟨m, w, hskips', hturns', hlast, hend⟩ :=
    parseChain_walk (w := ⟨byteAt first.bytes cursor, cursor + 8, cursor⟩) hbehind
  obtain ⟨hne, hfinish⟩ := parseChain_some hlast hend
  have hle := hskips'.cursor_le
  have hw := hskips'.cursor_le_length hroom
  simp only at hle
  -- the packet is the relinked lead in front of the longer payload
  have hlead : (first.bytes.take cursor).length = cursor := by
    rw [List.length_take]
    omega
  rw [FragmentPacket.payload, ← hdecoded, rebuild] at hrebuild
  simp only at hrebuild
  split at hrebuild
  · cases hrebuild
  have hpacket := (Except.ok.inj hrebuild).symm
  rw [rebuildIpv6_eq (by omega)] at hpacket
  generalize hsize : (first.bytes.drop (cursor + 8) ++ rest).length = size at hpacket
  have hlength : (rebuiltLead (first.bytes.take cursor) previous (byteAt first.bytes cursor)
      size).length = _ := length_rebuiltLead (by omega) (by omega) _ _
  have hbyte : ∀ i, i < cursor → i ≠ 4 → i ≠ 5 →
      byteAt packet i = if i = previous then byteAt first.bytes cursor else byteAt first.bytes i := by
    intro i hi h₄ h₅
    rw [hpacket, byteAt_append_left (by omega), byteAt_rebuiltLead (by omega) (by omega) _ _ _
      ⟨h₄, h₅⟩, byteAt_take hi]
  have htail : packet.drop cursor = first.bytes.drop (cursor + 8) ++ rest := by
    rw [hpacket, List.drop_left' (by omega)]
  have hlonger : packet.length = cursor + ((first.bytes.length - (cursor + 8)) + rest.length) := by
    rw [hpacket, List.length_append, hlength, hlead, List.length_append, List.length_drop]
  -- and the walk over it
  have hstart := hskips.relink_start packet (fun i hi hlt hne => by
    rw [hbyte i hlt (by omega) (by omega), if_neg hne]) (by simp only; omega)
  simp only [hbyte previous hbefore (by omega) (by omega), if_true] at hstart
  obtain ⟨previous', hrest⟩ := hskips'.shift packet cursor
    (fun i hi => by
      simp only at hi ⊢
      rw [← byteAt_drop, htail, byteAt_append_left (by rw [List.length_drop]; omega), byteAt_drop])
    (by simp only; omega) previous
  simp only at hrest
  obtain ⟨hsource, hdestination⟩ := @ipv6Source_congr packet first.bytes (by omega) (by omega)
    (fun i hlow hhigh => by rw [hbyte i (by omega) (by omega) (by omega), if_neg (by omega)])
  have hv' : byteAt packet 0 >>> 4 = 6 := by
    rw [hbyte 0 (by omega) (by omega) (by omega), if_neg (by omega), hv]
  rw [parsePacket_v6 hv', parseIpv6_eq_ok, hsource, hdestination] at hwhole
  obtain ⟨-, -, hwhole⟩ := hwhole
  obtain ⟨left, hleft⟩ : ∃ left, turns + 1 = m + (left + 1) := ⟨turns - m, by omega⟩
  rw [height] at hwhole
  replace hwhole := (hstart.parseChain (ipv6Source first.bytes) (ipv6Destination first.bytes) true
    (turns + 1) none).symm.trans hwhole
  rw [hleft, hrest.parseChain, parseChain, if_neg (by simp [hlast]), if_neg hne] at hwhole
  have hdrop : packet.drop (cursor + (w.cursor - (cursor + 8))) =
      first.bytes.drop w.cursor ++ rest := by
    rw [← List.drop_drop, htail, List.drop_append_of_le_length (by rw [List.length_drop]; omega),
      List.drop_drop]
    congr 2
    omega
  rw [hdrop] at hwhole
  exact finishTransport_same hzero hfinish hwhole

/-- **A rebuilt packet is read like its first fragment.** -/
theorem rebuilt_same {first : FragmentPacket} (hzero : first.fragment.offset = 0)
    {rest packet : Bytes} {whole : ParsedPacket}
    (hrebuild : rebuild first.decoded.template (first.payload ++ rest) = .ok packet)
    (hwhole : parsePacket packet = .ok whole) :
    whole.fragment = none ∧ SameHeaders whole first.parsed := by
  rcases version_of_parse first.parses with hv | hv
  · exact rebuilt_v4 hzero hv hrebuild hwhole
  · exact rebuilt_v6 hzero hv hrebuild hwhole

/-- The payload follows a header of the template's length. -/
theorem rebuild_shape {template : HeaderTemplate} {payload packet : Bytes}
    (h : rebuild template payload = .ok packet) :
    ∃ header, packet = header ++ payload ∧ header.length = template.length := by
  unfold rebuild at h
  split at h
  · next header =>
    split at h
    · cases h
    next hlen =>
    push Not at hlen
    cases h
    exact ⟨_, rebuildIpv4_eq hlen.1 payload, length_summedHeader hlen.1 _ _⟩
  · next lead previous next =>
    split at h
    · cases h
    next hlen =>
    push Not at hlen
    cases h
    exact ⟨_, rebuildIpv6_eq hlen.2.1 next payload, length_rebuiltLead hlen.1 hlen.2.1 _ _⟩

end Peerward.Dataplane
