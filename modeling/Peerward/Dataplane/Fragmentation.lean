import Peerward.Dataplane.Rebuild

/-!
# Taking datagrams apart

The inverse of reassembly, as an IP sender does it: the fragmentable part of a datagram is cut into
pieces, and each piece travels behind a copy of the datagram's header with the fragment fields filled
in. For IPv4 everything behind the header can be cut; for IPv6 the Fragment header is linked into the
extension chain at some place, and everything behind that place can be cut.

`Layout.fragment_packet` says that `parse_packet` and `decode_fragment` read from a fragment what was
put into it, and `Layout.rebuild_first` that the template of the first fragment gives the datagram back.
-/

namespace Peerward.Dataplane

open Peerward.Lib Peerward.Net

/-- An IPv4 fragment: the datagram's header with its own length, offset and checksum. -/
def ipv4FragmentOf (datagram : Bytes) (offset : Nat) (more : Bool) (piece : Bytes) : Bytes :=
  summedHeader (datagram.take (ipv4HeaderLen datagram))
    (u16At datagram 6 + more.toNat * 2 ^ 13 + offset / 8) piece.length ++ piece

/-- The IPv6 Fragment header. -/
def fragmentHeader (next : UInt8) (identification offset : Nat) (more : Bool) : Bytes :=
  [next, 0] ++ (toBE 2 (offset + more.toNat) ++ toBE 4 identification)

/-- An IPv6 fragment: the headers in front of `place`, a Fragment header, and a piece of the rest. -/
def ipv6FragmentOf (datagram : Bytes) (place : Walk) (identification offset : Nat) (more : Bool)
    (piece : Bytes) : Bytes :=
  rebuiltLead (datagram.take place.cursor) place.previous 44 (8 + piece.length) ++
    (fragmentHeader place.next identification offset more ++ piece)

/-- Where a datagram is taken apart. -/
inductive Layout (datagram : Bytes) where
  /-- IPv4: behind the header. -/
  | ipv4 (version : byteAt datagram 0 >>> 4 = 4)
  /-- IPv6: at `place`, after `n` extension headers; `m` more lead to the transport header at `last`.
  With the Fragment header linked in, the parser still reaches the end of the chain. -/
  | ipv6 (identification : Nat) (place last : Walk) (n m : Nat)
      (version : byteAt datagram 0 >>> 4 = 6)
      (lead : Skips datagram (.start datagram) n place)
      (rest : Skips datagram place m last)
      (ends : isExtension last.next = false)
      (turns : n + m ≤ 6)
      (encodable : identification < 2 ^ 32)

namespace Layout

variable {datagram : Bytes}

/-- Length of the unfragmentable part. -/
def lead : Layout datagram → Nat
  | .ipv4 _ => ipv4HeaderLen datagram
  | .ipv6 _ place _ _ _ _ _ _ _ _ _ => place.cursor

/-- How much of the fragmentable part the rest of the extension chain and the transport header take. -/
def headers : Layout datagram → Nat
  | .ipv4 _ => transportHeaderLen (byteAt datagram 9) (datagram.drop (ipv4HeaderLen datagram))
  | .ipv6 _ place last _ _ _ _ _ _ _ _ =>
    last.cursor - place.cursor + transportHeaderLen last.next (datagram.drop last.cursor)

/-- The fragment with one piece of the fragmentable part. -/
def fragment : Layout datagram → (offset : Nat) → (more : Bool) → (piece : Bytes) → Bytes
  | .ipv4 _ => ipv4FragmentOf datagram
  | .ipv6 identification place _ _ _ _ _ _ _ _ _ => ipv6FragmentOf datagram place identification

/-- The fragments for the pieces of the fragmentable part from `offset` on. -/
def fragments (l : Layout datagram) : (offset : Nat) → List Bytes → List Bytes
  | _, [] => []
  | offset, piece :: rest =>
    l.fragment offset (!rest.isEmpty) piece :: l.fragments (offset + piece.length) rest

/-- The key under which the fragments are collected. -/
def key : Layout datagram → ReassemblyKey
  | .ipv4 _ =>
    { source := ipv4Source datagram
      destination := ipv4Destination datagram
      protocol := byteAt datagram 9
      identification := u16At datagram 4 }
  | .ipv6 identification _ _ _ _ _ _ _ _ _ _ =>
    { source := .ofV6Octets (slice datagram 8 24)
      destination := .ofV6Octets (slice datagram 24 40)
      protocol := 0
      identification := identification }

/-- The payload length field of an IPv6 fragment can hold the piece and the Fragment header. -/
def Fits (l : Layout datagram) (piece : Bytes) : Prop :=
  match l with
  | .ipv4 _ => True
  | .ipv6 _ place _ _ _ _ _ _ _ _ _ => place.cursor - 40 + 8 + piece.length ≤ 65535

/-- What is rebuilt: an IPv4 datagram with its reserved flag cleared and its checksum computed anew. -/
def rebuilt : Layout datagram → Bytes
  | .ipv4 _ =>
    summedHeader (datagram.take (ipv4HeaderLen datagram)) (keptFlags datagram)
      (datagram.length - ipv4HeaderLen datagram) ++ datagram.drop (ipv4HeaderLen datagram)
  | .ipv6 _ _ _ _ _ _ _ _ _ _ _ => datagram

end Layout

/-- The packet is a fragment with this key, offset, flag and payload. -/
structure FragmentPacket.Carries (part : FragmentPacket) (key : ReassemblyKey) (offset : Nat)
    (more : Bool) (piece : Bytes) : Prop where
  key : part.key = key
  start : part.start = offset
  more : part.fragment.more = more
  payload : part.payload = piece

/-! ## Header checksums

A header with other fields gets a checksum of its own. Putting the old fields back gives the old header,
up to the two spellings of a checksum of zero.
-/

theorem ipv4Checksum_eq_zero {header : Bytes} :
    ipv4Checksum header = 0 ↔ foldCarry (checksumWords 0 header) = 65535 := by
  have hle := foldCarry_le (checksumWords 0 header)
  unfold ipv4Checksum internetChecksum
  omega

/-- The checksum of a header is right once it is filled in. -/
theorem ipv4Checksum_summedHeader {header : Bytes} (hlen : 20 ≤ header.length) (flags size : Nat) :
    ipv4Checksum (summedHeader header flags size) = 0 := by
  have hlength := length_unsummedHeader hlen flags size
  have hzero : overwrite (unsummedHeader header flags size) 10 [0, 0] =
      unsummedHeader header flags size := by
    apply overwrite_same (by omega)
    · rw [byteAt_unsummedHeader hlen, if_pos (.inl rfl)]
    · rw [byteAt_unsummedHeader hlen, if_pos (.inr rfl)]
  have hcheck : ipv4Checksum (unsummedHeader header flags size) < 2 ^ 16 := by
    unfold ipv4Checksum internetChecksum
    omega
  rw [ipv4Checksum_eq_zero, summedHeader, toBE_two, checksumWords_overwrite (by omega) (by omega),
    hzero, word_ofNat hcheck, Nat.add_comm]
  exact foldCarry_add_complement _

/-- A right checksum is the one that would be filled in, except for the second spelling of zero. -/
theorem u16At_checksum {header : Bytes} (hlen : 20 ≤ header.length) (hfirst : byteAt header 0 ≠ 0)
    (hsum : ipv4Checksum header = 0) (hcheck : u16At header 10 ≠ 0xffff) :
    u16At header 10 = ipv4Checksum (overwrite header 10 [0, 0]) := by
  have hsame : overwrite header 10 [byteAt header 10, byteAt header 11] = header :=
    overwrite_same (by omega) rfl rfl
  have hlt := u16At_lt header 10
  have hpos : 0 < checksumWords 0 (overwrite header 10 [0, 0]) := by
    have hroom : 10 + [(0 : UInt8), 0].length ≤ header.length := by
      simp only [List.length_cons, List.length_nil]
      omega
    have hbyte : byteAt (overwrite header 10 [0, 0]) 0 = byteAt header 0 := by
      rw [byteAt_overwrite hroom, if_neg (by omega)]
    have hlong := length_overwrite hroom
    match hbytes : overwrite header 10 [0, 0] with
    | [] =>
        rw [hbytes] at hlong
        simp only [List.length_nil] at hlong
        omega
    | [_] =>
        rw [hbytes] at hlong
        simp only [List.length_cons, List.length_nil] at hlong
        omega
    | high :: low :: rest =>
        rw [hbytes] at hbyte
        have hhigh : high ≠ 0 := by
          intro h
          apply hfirst
          rw [← hbyte, h]
          rfl
        have hnat : high.toNat ≠ 0 := by
          intro h
          exact hhigh (UInt8.toNat.inj h)
        have hadd := checksumWords_add (0 + word high low) 0 rest
        rw [Nat.add_zero] at hadd
        rw [checksumWords, hadd, word]
        omega
  rw [ipv4Checksum_eq_zero, ← hsame, checksumWords_overwrite (by omega) (by omega), Nat.add_comm]
    at hsum
  exact eq_complement_of_foldCarry hpos (by omega) hsum

/-- Of a header that was made so, the fields can be replaced once more. -/
theorem summedHeader_summedHeader {header : Bytes} (hlen : 20 ≤ header.length)
    (flags size flags' size' : Nat) :
    summedHeader (summedHeader header flags size) flags' size' =
      summedHeader header flags' size' := by
  have hlength := length_summedHeader hlen flags size
  have hsame : unsummedHeader (summedHeader header flags size) flags' size' =
      unsummedHeader header flags' size' := by
    apply ext_byteAt
    · rw [length_unsummedHeader (by omega), length_unsummedHeader hlen, hlength]
    intro i _
    rw [byteAt_unsummedHeader (by omega), byteAt_unsummedHeader hlen, hlength]
    split
    · rfl
    split
    · rfl
    split
    · rfl
    · rw [byteAt_summedHeader_kept hlen _ _ (by omega)]
  unfold summedHeader at hsame ⊢
  rw [hsame]

/-! ## IPv4 fragments

A fragment has the header of the datagram with other flags, length and checksum. What the parser reads of
it, and what it is rebuilt to, both come down to that.
-/

/-- The flags of a whole datagram, as the fields of a fragment are put into them. -/
theorem ipv4Fragment_eq_none {bytes : Bytes} (h : ipv4Fragment bytes = none) :
    u16At bytes 6 % 2 ^ 14 = 0 := by
  unfold ipv4Fragment at h
  simp only at h
  split at h
  · cases h
  next hwhole =>
  push Not at hwhole
  obtain ⟨hoffset, hmore⟩ := hwhole
  rw [ne_eq, Bool.not_eq_true, Nat.testBit_eq_decide_div_mod_eq, decide_eq_false_iff_not] at hmore
  omega

theorem ipv4Fragment_eq_some {bytes : Bytes} {flags offset : Nat} {more : Bool}
    (hflags : flags % 2 ^ 14 = 0) (hoffset : offset < 2 ^ 13) (hpart : offset ≠ 0 ∨ more = true)
    (h : u16At bytes 6 = flags + more.toNat * 2 ^ 13 + offset) :
    ipv4Fragment bytes = some { identification := u16At bytes 4, offset, more } := by
  have hmod : u16At bytes 6 % 2 ^ 13 = offset := by
    rw [h]
    omega
  have hbit : (u16At bytes 6).testBit 13 = more := by
    rw [h, Nat.testBit_eq_decide_div_mod_eq]
    cases more with
    | false =>
        simp only [Bool.toNat_false, decide_eq_false_iff_not]
        omega
    | true =>
        simp only [Bool.toNat_true, decide_eq_true_eq]
        omega
  unfold ipv4Fragment
  simp only [hmod, hbit]
  rw [if_pos hpart]

/-- A fragment whose transport header is not looked at, or is complete, is accepted. -/
theorem finishTransport_part {payload : Bytes} {source destination : IpAddr} {protocol : UInt8}
    {fragment : Fragment} {packetLen : Nat}
    (h : fragment.offset = 0 → fragment.more = true ∧
      ∃ t, parseTransport payload source destination protocol true true = .ok t) :
    ∃ p, finishTransport payload source destination protocol (some fragment) packetLen true = .ok p ∧
      p.source = source ∧ p.destination = destination ∧ p.protocol = protocol ∧
      p.fragment = some fragment := by
  by_cases hzero : fragment.offset = 0
  · obtain ⟨hmore, t, ht⟩ := h hzero
    refine ⟨_, (finishTransport_eq_ok (by simpa using hzero)).mpr ⟨t, ?_, rfl⟩, rfl, rfl, rfl, rfl⟩
    rw [Option.any_some, hmore]
    exact ht
  · unfold finishTransport
    rw [if_pos (by simpa using hzero)]
    exact ⟨_, rfl, rfl, rfl, rfl, rfl⟩

theorem length_ipv4Header {bytes : Bytes} (h : ipv4HeaderLen bytes ≤ bytes.length) :
    (bytes.take (ipv4HeaderLen bytes)).length = ipv4HeaderLen bytes := by
  rw [List.length_take]
  omega

section Ipv4

variable {datagram : Bytes} {whole : ParsedPacket} (hv : byteAt datagram 0 >>> 4 = 4)
  (hparse : parsePacket datagram = .ok whole) (hwhole : whole.fragment = none)

include hv hparse hwhole

/-- What is known about a whole IPv4 datagram. -/
theorem ipv4_whole : 20 ≤ ipv4HeaderLen datagram ∧ ipv4HeaderLen datagram ≤ datagram.length ∧
    u16At datagram 2 = datagram.length ∧ u16At datagram 6 % 2 ^ 14 = 0 ∧
    ipv4Checksum (datagram.take (ipv4HeaderLen datagram)) = 0 ∧
    finishTransport (datagram.drop (ipv4HeaderLen datagram)) (ipv4Source datagram)
      (ipv4Destination datagram) (byteAt datagram 9) none datagram.length true = .ok whole := by
  rw [parsePacket_v4 hv, parseIpv4_eq_ok] at hparse
  obtain ⟨hmin, hmax, htotal, hsum, hfinish⟩ := hparse
  have hnone : ipv4Fragment datagram = none := by
    rw [← finishTransport_fragment hfinish, hwhole]
  rw [hnone] at hfinish
  exact ⟨hmin, hmax, htotal, ipv4Fragment_eq_none hnone, hsum, hfinish⟩

/-- A packet made of a changed header of the datagram and some payload. -/
theorem parse_summedHeader {flags : Nat} (hflags : flags < 2 ^ 16) {payload : Bytes}
    (hsize : ipv4HeaderLen datagram + payload.length < 2 ^ 16) {fragment : Option Fragment}
    (hfragment : ∀ bytes : Bytes, u16At bytes 6 = flags → u16At bytes 4 = u16At datagram 4 →
      ipv4Fragment bytes = fragment) {p : ParsedPacket}
    (hfinish : finishTransport payload (ipv4Source datagram) (ipv4Destination datagram)
      (byteAt datagram 9) fragment (ipv4HeaderLen datagram + payload.length) true = .ok p) :
    parsePacket (summedHeader (datagram.take (ipv4HeaderLen datagram)) flags payload.length ++
      payload) = .ok p := by
  obtain ⟨hmin, hmax, -, -, -, -⟩ := ipv4_whole hv hparse hwhole
  have htake := length_ipv4Header hmax
  have hlen : 20 ≤ (datagram.take (ipv4HeaderLen datagram)).length := by omega
  have hlength := length_summedHeader hlen flags payload.length
  have hunsummed := length_unsummedHeader hlen flags payload.length
  generalize hheader : summedHeader (datagram.take (ipv4HeaderLen datagram)) flags payload.length =
    header at hlength
  have hkept : ∀ i, i < 20 → i ≠ 2 → i ≠ 3 → i ≠ 6 → i ≠ 7 → i ≠ 10 → i ≠ 11 →
      byteAt (header ++ payload) i = byteAt datagram i := by
    intro i hi h₂ h₃ h₆ h₇ h₁₀ h₁₁
    rw [byteAt_append_left (by omega), ← hheader,
      byteAt_summedHeader_kept hlen _ _ ⟨h₂, h₃, h₆, h₇, h₁₀, h₁₁⟩, byteAt_take (by omega)]
  have hbits : u16At (header ++ payload) 6 = flags := by
    rw [u16At_append_left (by omega), ← hheader, u16At_summedHeader_flags hlen _ hflags]
  have hid : u16At (header ++ payload) 4 = u16At datagram 4 := by
    rw [u16At, hkept 4 (by omega) (by omega) (by omega) (by omega) (by omega) (by omega) (by omega),
      hkept 5 (by omega) (by omega) (by omega) (by omega) (by omega) (by omega) (by omega), u16At]
  have htotal : u16At (header ++ payload) 2 = ipv4HeaderLen datagram + payload.length := by
    rw [u16At_append_left (by omega), ← hheader, u16At, byteAt_summedHeader hlen _ _ (by omega),
      byteAt_summedHeader hlen _ _ (by omega), byteAt_unsummedHeader hlen,
      byteAt_unsummedHeader hlen, if_neg (by omega), if_pos (by omega), if_neg (by omega),
      if_pos (by omega), htake]
    exact word_ofNat hsize
  have hlong : (header ++ payload).length = ipv4HeaderLen datagram + payload.length := by
    rw [List.length_append, hlength, htake]
  have hsame := SameIpv4.of_bytes (by omega) (by omega) hkept
  have hv' : byteAt (header ++ payload) 0 >>> 4 = 4 := by
    rw [hkept 0 (by omega) (by omega) (by omega) (by omega) (by omega) (by omega) (by omega), hv]
  rw [parsePacket_v4 hv', parseIpv4_eq_ok, hsame.headerLen, hsame.source, hsame.destination,
    hsame.protocol, hfragment _ hbits hid, List.drop_left' (by omega), List.take_left' (by omega),
    hlong, htotal, ← hheader]
  exact ⟨hmin, by omega, rfl, ipv4Checksum_summedHeader hlen _ _, hfinish⟩

/-- An IPv4 fragment is read as what it was made from. -/
theorem ipv4_fragment_packet {offset : Nat} {more : Bool} {piece : Bytes} (haligned : offset % 8 = 0)
    (hpart : offset ≠ 0 ∨ more = true)
    (hfits : ipv4HeaderLen datagram + offset + piece.length ≤ datagram.length)
    (hfirst : offset = 0 → piece = (datagram.drop (ipv4HeaderLen datagram)).take piece.length ∧
      transportHeaderLen (byteAt datagram 9) (datagram.drop (ipv4HeaderLen datagram)) ≤
        piece.length) :
    ∃ part : FragmentPacket, part.bytes = ipv4FragmentOf datagram offset more piece ∧
      part.Carries (Layout.ipv4 hv).key offset more piece ∧
      (offset = 0 → ∃ flags, flags < 2 ^ 16 ∧ flags.testBit 14 = (u16At datagram 6).testBit 14 ∧
        part.decoded.template =
          .ipv4 (summedHeader (datagram.take (ipv4HeaderLen datagram)) flags piece.length)) := by
  obtain ⟨hmin, hmax, htotal, hbits, -, hfinish⟩ := ipv4_whole hv hparse hwhole
  have hshort := u16At_lt datagram 2
  have hflags := u16At_lt datagram 6
  have hmore : more.toNat ≤ 1 := Bool.toNat_le more
  have htake := length_ipv4Header hmax
  have hlen : 20 ≤ (datagram.take (ipv4HeaderLen datagram)).length := by omega
  let fragment : Fragment := { identification := u16At datagram 4, offset := offset / 8, more }
  let flags : Nat := u16At datagram 6 + more.toNat * 2 ^ 13 + offset / 8
  have hlt : flags < 2 ^ 16 := by
    simp only [flags]
    omega
  have hbit : flags.testBit 14 = (u16At datagram 6).testBit 14 := by
    have hquotient : flags / 2 ^ 14 = u16At datagram 6 / 2 ^ 14 := by
      simp only [flags]
      omega
    rw [Nat.testBit_eq_decide_div_mod_eq, Nat.testBit_eq_decide_div_mod_eq, hquotient]
  -- the parser reads the fields back, and accepts the cut transport header at offset zero
  obtain ⟨p, hfinish', hsource, hdestination, hprotocol, hfragment⟩ :=
    @finishTransport_part piece (ipv4Source datagram) (ipv4Destination datagram)
      (byteAt datagram 9) fragment (ipv4HeaderLen datagram + piece.length) (by
        intro hzero
        have hoffset : offset = 0 := by
          simp only [fragment] at hzero
          omega
        obtain ⟨hpiece, hheader⟩ := hfirst hoffset
        rw [finishTransport_eq_ok (by simp)] at hfinish
        obtain ⟨t, ht, -⟩ := hfinish
        refine ⟨by simpa [hoffset] using hpart, ?_⟩
        rw [hpiece]
        exact parseTransport_cut ht hheader)
  have hparses : parsePacket (ipv4FragmentOf datagram offset more piece) = .ok p := by
    refine parse_summedHeader hv hparse hwhole hlt (by omega) ?_ hfinish'
    intro bytes hsix hfour
    have hpart' : offset / 8 ≠ 0 ∨ more = true := hpart.imp_left fun hne => by omega
    rw [ipv4Fragment_eq_some hbits (by omega) hpart' hsix, hfour]
  have hlength := length_summedHeader hlen flags piece.length
  have hbyte : byteAt (ipv4FragmentOf datagram offset more piece) 0 = byteAt datagram 0 := by
    show byteAt (summedHeader _ flags _ ++ piece) 0 = _
    rw [byteAt_append_left (by omega), byteAt_summedHeader_kept hlen _ _ (by omega),
      byteAt_take (by omega)]
  have hheader : ipv4HeaderLen (ipv4FragmentOf datagram offset more piece) =
      ipv4HeaderLen datagram := by
    unfold ipv4HeaderLen
    rw [hbyte]
  have hdecodes := @decodeFragment_v4 (ipv4FragmentOf datagram offset more piece) fragment
    (by rw [hbyte, hv])
  rw [hheader, if_neg] at hdecodes
  · refine ⟨⟨_, p, fragment, _, hparses, hfragment, hdecodes⟩, rfl, ⟨?_, ?_, rfl, ?_⟩, ?_⟩
    · show ReassemblyKey.ofParsed p fragment = _
      unfold ReassemblyKey.ofParsed
      rw [hsource, hdestination, hprotocol]
      rfl
    · show offset / 8 * 8 = offset
      omega
    · show (summedHeader _ flags _ ++ piece).drop (ipv4HeaderLen datagram) = piece
      rw [List.drop_left' (by omega)]
    · intro hzero
      refine ⟨flags, hlt, hbit, ?_⟩
      show HeaderTemplate.ipv4 (if offset / 8 = 0 then _ else _) = _
      rw [if_pos (by omega)]
      show HeaderTemplate.ipv4 ((summedHeader _ flags _ ++ piece).take (ipv4HeaderLen datagram)) = _
      rw [List.take_left' (by omega)]
  · show ¬ _ > (summedHeader _ flags _ ++ piece).length
    rw [List.length_append]
    omega

/-- The header of a fragment gives that of the datagram back. -/
theorem ipv4_rebuild {flags size : Nat} (hflags : flags < 2 ^ 16)
    (hbit : flags.testBit 14 = (u16At datagram 6).testBit 14) :
    rebuild (.ipv4 (summedHeader (datagram.take (ipv4HeaderLen datagram)) flags size))
      (datagram.drop (ipv4HeaderLen datagram)) = .ok (Layout.ipv4 hv).rebuilt := by
  obtain ⟨hmin, hmax, htotal, -, -, -⟩ := ipv4_whole hv hparse hwhole
  have hshort := u16At_lt datagram 2
  have htake := length_ipv4Header hmax
  have hlen : 20 ≤ (datagram.take (ipv4HeaderLen datagram)).length := by omega
  have hlength := length_summedHeader hlen flags size
  have hkept : keptFlags (summedHeader (datagram.take (ipv4HeaderLen datagram)) flags size) =
      keptFlags datagram := by
    unfold keptFlags
    rw [u16At_summedHeader_flags hlen _ hflags, hbit]
  unfold rebuild
  simp only
  rw [if_neg, rebuildIpv4_eq (by omega), hkept, summedHeader_summedHeader hlen, List.length_drop]
  · rfl
  · rw [List.length_drop]
    omega

/-- The rebuilt datagram is read like the original one. -/
theorem ipv4_rebuilt_parses : parsePacket (Layout.ipv4 hv).rebuilt = .ok whole := by
  obtain ⟨hmin, hmax, htotal, -, -, hfinish⟩ := ipv4_whole hv hparse hwhole
  have hshort := u16At_lt datagram 2
  have hsize : ipv4HeaderLen datagram + (datagram.drop (ipv4HeaderLen datagram)).length =
      datagram.length := by
    rw [List.length_drop]
    omega
  unfold Layout.rebuilt
  rw [← List.length_drop]
  refine parse_summedHeader hv hparse hwhole (keptFlags_lt datagram) (by omega) ?_
    (by rw [hsize]; exact hfinish)
  intro bytes hsix _
  exact ipv4Fragment_of_flags hsix

/-- It is the original one, unless that has the reserved flag or the other spelling of a zero
checksum. -/
theorem ipv4_rebuilt_eq (hreserved : (u16At datagram 6).testBit 15 = false)
    (hcheck : u16At datagram 10 ≠ 0xffff) : (Layout.ipv4 hv).rebuilt = datagram := by
  obtain ⟨hmin, hmax, htotal, hbits, hsum, -⟩ := ipv4_whole hv hparse hwhole
  have hflags := u16At_lt datagram 6
  have htake := length_ipv4Header hmax
  have hread : ∀ i, i + 1 < ipv4HeaderLen datagram →
      u16At (datagram.take (ipv4HeaderLen datagram)) i = u16At datagram i := by
    intro i hi
    rw [u16At, byteAt_take (by omega), byteAt_take (by omega), u16At]
  have hkept : keptFlags datagram = u16At datagram 6 := by
    rw [Nat.testBit_eq_decide_div_mod_eq, decide_eq_false_iff_not] at hreserved
    unfold keptFlags
    rw [Nat.testBit_eq_decide_div_mod_eq]
    split
    · next hbit =>
      rw [decide_eq_true_eq] at hbit
      omega
    · next hbit =>
      rw [decide_eq_true_eq] at hbit
      omega
  have hfirst : byteAt (datagram.take (ipv4HeaderLen datagram)) 0 ≠ 0 := by
    rw [byteAt_take (by omega)]
    intro hzero
    rw [hzero] at hv
    exact absurd hv (by decide)
  show summedHeader _ (keptFlags datagram) (datagram.length - ipv4HeaderLen datagram) ++ _ = _
  conv_rhs => rw [← List.take_append_drop (ipv4HeaderLen datagram) datagram]
  congr 1
  generalize hheader : datagram.take (ipv4HeaderLen datagram) = header at *
  -- length and flags are the ones that are there already, and then so is the checksum
  have hsix : overwrite header 6 (toBE 2 (keptFlags datagram)) = header := by
    rw [hkept, toBE_u16At]
    apply overwrite_same (by omega)
    · rw [← hheader, byteAt_take (by omega)]
    · rw [← hheader, byteAt_take (by omega)]
  have htwo : overwrite header 2
      (toBE 2 (header.length + (datagram.length - ipv4HeaderLen datagram))) = header := by
    rw [htake, show ipv4HeaderLen datagram + (datagram.length - ipv4HeaderLen datagram) =
      u16At datagram 2 by omega, toBE_u16At]
    apply overwrite_same (by omega)
    · rw [← hheader, byteAt_take (by omega)]
    · rw [← hheader, byteAt_take (by omega)]
  have hten := u16At_checksum (by omega) hfirst hsum (by rw [hread 10 (by omega)]; exact hcheck)
  unfold summedHeader unsummedHeader
  rw [hsix, htwo, ← hten, toBE_u16At]
  refine (overwrite_overwrite ?_ ?_).trans (overwrite_same (by omega) rfl rfl)
  · simp only [List.length_cons, List.length_nil]
    omega
  · rfl

end Ipv4

/-! ## IPv6 fragments

A Fragment header is linked into the extension chain. The walk up to it is that of the datagram, and after
it goes on in the first fragment only.
-/

/-- The header at a place of a chain is the one its announcing byte names. -/
theorem Skips.next_eq {bytes : Bytes} {w w' : Walk} {n : Nat} (h : Skips bytes w n w')
    (hw : w.next = byteAt bytes w.previous) : w'.next = byteAt bytes w'.previous := by
  induction h with
  | done w => exact hw
  | skip _ _ _ _ ih => exact ih rfl

theorem length_fragmentHeader (next : UInt8) (identification offset : Nat) (more : Bool) :
    (fragmentHeader next identification offset more).length = 8 := rfl

/-- The parser reads the Fragment header back. -/
theorem ipv6Fragment_fragmentHeader {bytes rest : Bytes} {cursor identification offset : Nat}
    {next : UInt8} {more : Bool}
    (hdrop : bytes.drop cursor = fragmentHeader next identification offset more ++ rest)
    (haligned : offset % 8 = 0) (hoffset : offset < 2 ^ 16) (hid : identification < 2 ^ 32) :
    byteAt bytes cursor = next ∧ ipv6Fragment bytes cursor =
      { identification, offset := offset / 8, more } := by
  have hbyte : ∀ i, i < 8 →
      byteAt bytes (cursor + i) = byteAt (fragmentHeader next identification offset more) i := by
    intro i hi
    rw [← byteAt_drop, hdrop, byteAt_append_left (by rw [length_fragmentHeader]; exact hi)]
  have hmore : more.toNat ≤ 1 := Bool.toNat_le more
  have hfield : u16At bytes (cursor + 2) = offset + more.toNat := by
    rw [u16At, hbyte 2 (by omega), Nat.add_assoc, hbyte 3 (by omega)]
    exact word_ofNat (by omega)
  have hhigh : u16At bytes (cursor + 4) = identification / 2 ^ 16 := by
    rw [u16At, hbyte 4 (by omega), Nat.add_assoc, hbyte 5 (by omega)]
    show word (UInt8.ofNat (identification / 256 / 256 / 256))
      (UInt8.ofNat (identification / 256 / 256)) = _
    rw [show identification / 256 / 256 = identification / 2 ^ 16 by omega]
    exact word_ofNat (by omega)
  have hlow : u16At bytes (cursor + 6) = identification % 2 ^ 16 := by
    rw [u16At, hbyte 6 (by omega), Nat.add_assoc, hbyte 7 (by omega)]
    show word (UInt8.ofNat (identification / 256)) (UInt8.ofNat identification) = _
    simp only [word, UInt8.toNat_ofNat']
    omega
  refine ⟨hbyte 0 (by omega), ?_⟩
  unfold ipv6Fragment
  rw [hfield, u32At, hhigh, Nat.add_assoc, hlow, Fragment.mk.injEq]
  refine ⟨by omega, by omega, ?_⟩
  cases more with
  | false =>
      simp only [Bool.toNat_false, decide_eq_false_iff_not]
      omega
  | true =>
      simp only [Bool.toNat_true, decide_eq_true_eq]
      omega

section Ipv6

variable {datagram : Bytes} {whole : ParsedPacket} {identification : Nat} {place last : Walk}
  {n m : Nat} (hv : byteAt datagram 0 >>> 4 = 6) (hlead : Skips datagram (.start datagram) n place)
  (hrest : Skips datagram place m last) (hends : isExtension last.next = false) (hturns : n + m ≤ 6)
  (hid : identification < 2 ^ 32) (hparse : parsePacket datagram = .ok whole)
  (hwhole : whole.fragment = none)

include hv hlead hrest hends hturns hparse hwhole

/-- What is known about a whole IPv6 datagram. -/
theorem ipv6_whole : 40 ≤ datagram.length ∧ u16At datagram 4 + 40 = datagram.length ∧
    last.cursor ≤ datagram.length ∧ last.next ≠ 44 ∧
    ∃ t, parseTransport (datagram.drop last.cursor) (ipv6Source datagram) (ipv6Destination datagram)
      last.next false true = .ok t := by
  rw [parsePacket_v6 hv, parseIpv6_eq_ok] at hparse
  obtain ⟨hlong, htotal, hchain⟩ := hparse
  have hplace := hlead.cursor_le_length hlong
  have hlast := hrest.cursor_le_length hplace
  obtain ⟨left, hleft⟩ : ∃ left, 8 = n + (m + (left + 1)) := ⟨7 - n - m, by omega⟩
  rw [hleft] at hchain
  have hchain' := (hlead.parseChain (ipv6Source datagram) (ipv6Destination datagram) true
    (m + (left + 1)) none).symm.trans hchain
  rw [hrest.parseChain, parseChain, if_neg (by simp [hends])] at hchain'
  -- a Fragment header at the end of the chain would have been reported
  have hne : last.next ≠ 44 := by
    intro heq
    rw [if_pos heq] at hchain'
    split at hchain'
    · cases hchain'
    simp only at hchain'
    split at hchain'
    · rw [finishTransport_fragment hchain'] at hwhole
      cases hwhole
    · obtain ⟨_, w, -, -, hw, hp⟩ :=
        parseChain_walk (w := ⟨byteAt datagram last.cursor, last.cursor + 8, last.cursor⟩) hchain'
      obtain ⟨-, hfinish⟩ := parseChain_some hw hp
      rw [finishTransport_fragment hfinish] at hwhole
      cases hwhole
  rw [if_neg hne, finishTransport_eq_ok (by simp)] at hchain'
  obtain ⟨t, ht, -⟩ := hchain'
  exact ⟨hlong, htotal, hlast, hne, t, ht⟩

/-- The bytes of an IPv6 fragment. -/
theorem ipv6FragmentOf_bytes (offset : Nat) (more : Bool) (piece : Bytes) :
    (ipv6FragmentOf datagram place identification offset more piece).length =
        place.cursor + 8 + piece.length ∧
      (ipv6FragmentOf datagram place identification offset more piece).take place.cursor =
        rebuiltLead (datagram.take place.cursor) place.previous 44 (8 + piece.length) ∧
      (ipv6FragmentOf datagram place identification offset more piece).drop place.cursor =
        fragmentHeader place.next identification offset more ++ piece ∧
      ∀ i, i < place.cursor → i ≠ 4 → i ≠ 5 →
        byteAt (ipv6FragmentOf datagram place identification offset more piece) i =
          if i = place.previous then 44 else byteAt datagram i := by
  obtain ⟨hlong, -⟩ := ipv6_whole hv hlead hrest hends hturns hparse hwhole
  obtain ⟨-, hbefore, hforty⟩ := hlead.previous_start
  have hplace := hlead.cursor_le_length hlong
  have htake : (datagram.take place.cursor).length = place.cursor := by
    rw [List.length_take]
    omega
  have hlength : (rebuiltLead (datagram.take place.cursor) place.previous 44
      (8 + piece.length)).length = place.cursor := by
    rw [length_rebuiltLead (by omega) (by omega), htake]
  unfold ipv6FragmentOf
  refine ⟨?_, ?_, ?_, ?_⟩
  · rw [List.length_append, List.length_append, length_fragmentHeader, hlength, Nat.add_assoc]
  · rw [List.take_left' hlength]
  · rw [List.drop_left' hlength]
  · intro i hi h₄ h₅
    rw [byteAt_append_left (by omega), byteAt_rebuiltLead (by omega) (by omega) _ _ _ ⟨h₄, h₅⟩,
      byteAt_take hi]

include hid

/-- An IPv6 fragment is read as what it was made from. -/
theorem ipv6_fragment_packet {offset : Nat} {more : Bool} {piece : Bytes} (haligned : offset % 8 = 0)
    (hpart : offset ≠ 0 ∨ more = true)
    (hroom : place.cursor + offset + piece.length ≤ datagram.length)
    (hfits : place.cursor - 40 + 8 + piece.length ≤ 65535)
    (hfirst : offset = 0 → piece = (datagram.drop place.cursor).take piece.length ∧
      last.cursor - place.cursor + transportHeaderLen last.next (datagram.drop last.cursor) ≤
        piece.length) :
    ∃ part : FragmentPacket,
      part.bytes = ipv6FragmentOf datagram place identification offset more piece ∧
      part.Carries (Layout.ipv6 identification place last n m hv hlead hrest hends hturns hid).key
        offset more piece ∧
      (offset = 0 → part.decoded.template =
        .ipv6 (rebuiltLead (datagram.take place.cursor) place.previous 44 (8 + piece.length))
          place.previous place.next) := by
  obtain ⟨hlong, htotal, hlast, hne, t, ht⟩ :=
    ipv6_whole hv hlead hrest hends hturns hparse hwhole
  obtain ⟨hprevious, hbefore, hforty⟩ := hlead.previous_start
  have hplace := hlead.cursor_le_length hlong
  have hle := hrest.cursor_le
  have hsize := u16At_lt datagram 4
  obtain ⟨hlength, htake, hdrop, hbyte⟩ := @ipv6FragmentOf_bytes datagram whole identification place
    last n m hv hlead hrest hends hturns hparse hwhole offset more piece
  have hlink : u16At (ipv6FragmentOf datagram place identification offset more piece) 4 + 40 =
      place.cursor + 8 + piece.length := by
    have hroom' : (datagram.take place.cursor).length = place.cursor := by
      rw [List.length_take]
      omega
    unfold ipv6FragmentOf
    rw [u16At_append_left (by rw [length_rebuiltLead (by omega) (by omega)]; omega)]
    unfold rebuiltLead
    rw [u16At_overwrite (by rw [length_linked (by omega)]; omega) (by omega)]
    omega
  generalize hbytes : ipv6FragmentOf datagram place identification offset more piece = bytes at *
  obtain ⟨hnext, hfragment⟩ := ipv6Fragment_fragmentHeader hdrop haligned (by omega) hid
  have hpiece : bytes.drop (place.cursor + 8) = piece := by
    rw [← List.drop_drop, hdrop, List.drop_left' (length_fragmentHeader _ _ _ _)]
  -- the Fragment header is linked in at `place`
  have hlinked := hlead.relink_start bytes (fun i hi hlt hne' => by
    rw [hbyte i hlt (by omega) (by omega), if_neg hne']) (by omega)
  rw [hbyte place.previous hbefore (by omega) (by omega), if_pos rfl] at hlinked
  obtain ⟨hsource, hdestination⟩ := @ipv6Source_congr bytes datagram (by omega) (by omega)
    (fun i hlow hhigh => by rw [hbyte i (by omega) (by omega) (by omega), if_neg (by omega)])
  have hv' : byteAt bytes 0 >>> 4 = 6 := by
    rw [hbyte 0 (by omega) (by omega) (by omega), if_neg (by omega), hv]
  let fragment : Fragment := { identification, offset := offset / 8, more }
  obtain ⟨p, hparses, hpsource, hpdestination, hpfragment⟩ : ∃ p, parsePacket bytes = .ok p ∧
      p.source = ipv6Source datagram ∧ p.destination = ipv6Destination datagram ∧
      p.fragment = some fragment := by
    obtain ⟨left, hleft⟩ : ∃ left, 8 = n + (m + (left + 1) + 1) := ⟨6 - n - m, by omega⟩
    simp only [parsePacket_v6 hv', parseIpv6_eq_ok, hsource, hdestination]
    have hwalk := hlinked.parseChain (ipv6Source datagram) (ipv6Destination datagram) true
      (m + (left + 1) + 1) none
    rw [← hleft] at hwalk
    simp only [Walk.start] at hwalk
    rw [hwalk, parseChain, if_neg (by decide), if_pos rfl, if_neg (by simp; omega), hfragment, hnext,
      hpiece]
    simp only
    by_cases hzero : offset = 0
    · rw [if_neg (by omega)]
      obtain ⟨hcut, hheader⟩ := hfirst hzero
      -- behind the Fragment header the chain goes on as in the datagram
      obtain ⟨previous', hmoved⟩ := hrest.shift bytes (place.cursor + 8)
        (fun i hi => by
          rw [← byteAt_drop, hpiece, hcut, byteAt_take (by omega), byteAt_drop])
        (by omega) place.cursor
      have hwalk' := hmoved.parseChain (ipv6Source datagram) (ipv6Destination datagram) true
        (left + 1) (some fragment)
      simp only at hwalk'
      obtain ⟨p, hfinish, h₁, h₂, -, h₄⟩ :=
        @finishTransport_part (piece.drop (last.cursor - place.cursor)) (ipv6Source datagram)
          (ipv6Destination datagram) last.next fragment bytes.length (by
            intro _
            refine ⟨by simpa [hzero] using hpart, ?_⟩
            have hdropped : piece.drop (last.cursor - place.cursor) =
                (datagram.drop last.cursor).take
                  (piece.length - (last.cursor - place.cursor)) := by
              conv_lhs => rw [hcut]
              rw [List.drop_take, List.drop_drop]
              congr 2
              omega
            rw [hdropped]
            exact parseTransport_cut ht (by omega))
      refine ⟨p, ⟨by omega, by omega, ?_⟩, h₁, h₂, h₄⟩
      rw [hwalk', parseChain, if_neg (by simp [hends]), if_neg hne]
      rw [← hfinish, ← hpiece, List.drop_drop]
    · rw [if_pos (by omega)]
      obtain ⟨p, hfinish, h₁, h₂, -, h₄⟩ :=
        @finishTransport_part piece (ipv6Source datagram) (ipv6Destination datagram) place.next
          fragment bytes.length (by
            intro hoffset
            simp only [fragment] at hoffset
            omega)
      exact ⟨p, ⟨by omega, by omega, hfinish⟩, h₁, h₂, h₄⟩
  have hheader : ipv6FragmentHeader bytes = .ok (place.cursor, place.previous) := by
    unfold ipv6FragmentHeader
    rw [if_neg (by omega)]
    exact hlinked.fragmentHeaderFrom rfl (by omega)
  have hdecodes := (@decodeFragment_v6 bytes fragment _ hv').mpr
    ⟨place.cursor, place.previous, hheader, by omega, rfl⟩
  refine ⟨⟨bytes, p, fragment, _, hparses, hpfragment, hdecodes⟩, rfl, ⟨?_, ?_, rfl, hpiece⟩, ?_⟩
  · show ReassemblyKey.ofParsed p fragment = _
    unfold ReassemblyKey.ofParsed
    rw [hpsource, hpdestination]
    rfl
  · show offset / 8 * 8 = offset
    omega
  · intro hzero
    show (if offset / 8 = 0 then _ else _) = _
    rw [if_pos (by omega), htake, hnext]

omit hid in
/-- Unlinking the Fragment header gives the datagram back. -/
theorem ipv6_rebuild (size : Nat) :
    rebuild (.ipv6 (rebuiltLead (datagram.take place.cursor) place.previous 44 size) place.previous
      place.next) (datagram.drop place.cursor) = .ok datagram := by
  obtain ⟨hlong, htotal, -⟩ := ipv6_whole hv hlead hrest hends hturns hparse hwhole
  obtain ⟨-, hbefore, hforty⟩ := hlead.previous_start
  have hplace := hlead.cursor_le_length hlong
  have hsize := u16At_lt datagram 4
  have htake : (datagram.take place.cursor).length = place.cursor := by
    rw [List.length_take]
    omega
  have hlength : (rebuiltLead (datagram.take place.cursor) place.previous 44 size).length =
      place.cursor := by
    rw [length_rebuiltLead (by omega) (by omega), htake]
  have hnext : place.next = byteAt datagram place.previous := hlead.next_eq rfl
  unfold rebuild
  simp only
  rw [if_neg (by rw [List.length_drop]; omega), rebuildIpv6_eq (by omega), List.length_drop]
  congr 1
  conv_rhs => rw [← List.take_append_drop place.cursor datagram]
  congr 1
  apply ext_byteAt
  · rw [length_rebuiltLead (by omega) (by omega), hlength, htake]
  intro i hi
  rw [length_rebuiltLead (by omega) (by omega), hlength] at hi
  rw [byteAt_take hi]
  by_cases hfield : i = 4 ∨ i = 5
  · -- the payload length field
    rw [byteAt_rebuiltLead_size (by omega) (by omega) _ _ _ hfield, hlength,
      show place.cursor + (datagram.length - place.cursor) - 40 = u16At datagram 4 by omega,
      toBE_u16At]
    rcases hfield with h | h
    · subst h
      rfl
    · subst h
      rfl
  · rw [byteAt_rebuiltLead (by omega) (by omega) _ _ _ (by omega)]
    split
    · next heq => rw [hnext, heq]
    · next hother =>
      rw [byteAt_rebuiltLead (by omega) (by omega) _ _ _ (by omega), if_neg hother, byteAt_take hi]

end Ipv6

/-! ## Both families -/

namespace Layout

variable {datagram : Bytes} {whole : ParsedPacket} (l : Layout datagram)
  (hparse : parsePacket datagram = .ok whole) (hwhole : whole.fragment = none)

include hparse hwhole

theorem lead_le : l.lead ≤ datagram.length ∧ datagram.length ≤ l.lead + 65535 := by
  cases l with
  | ipv4 version =>
      obtain ⟨-, hmax, htotal, -⟩ := ipv4_whole version hparse hwhole
      have := u16At_lt datagram 2
      simp only [lead]
      omega
  | ipv6 _ place last n m version hlead hrest hends hturns _ =>
      obtain ⟨hlong, htotal, -⟩ := ipv6_whole version hlead hrest hends hturns hparse hwhole
      have hplace := hlead.cursor_le_length hlong
      have := hlead.previous_start
      have := u16At_lt datagram 4
      simp only [lead]
      omega

/-- **A fragment is read as what it was made from**, and the first one gives the datagram back. -/
theorem fragment_packet {offset : Nat} {more : Bool} {piece : Bytes} (haligned : offset % 8 = 0)
    (hpart : offset ≠ 0 ∨ more = true) (hroom : l.lead + offset + piece.length ≤ datagram.length)
    (hfits : l.Fits piece)
    (hfirst : offset = 0 → piece = (datagram.drop l.lead).take piece.length ∧
      l.headers ≤ piece.length) :
    ∃ part : FragmentPacket, part.bytes = l.fragment offset more piece ∧
      part.Carries l.key offset more piece ∧
      (offset = 0 →
        rebuild part.decoded.template (datagram.drop l.lead) = .ok l.rebuilt) := by
  cases l with
  | ipv4 version =>
      obtain ⟨part, hbytes, hcarries, htemplate⟩ :=
        ipv4_fragment_packet version hparse hwhole haligned hpart hroom hfirst
      refine ⟨part, hbytes, hcarries, fun hzero => ?_⟩
      obtain ⟨flags, hflags, hbit, heq⟩ := htemplate hzero
      rw [heq]
      exact ipv4_rebuild version hparse hwhole hflags hbit
  | ipv6 identification place last n m version hlead hrest hends hturns hid =>
      obtain ⟨part, hbytes, hcarries, htemplate⟩ :=
        ipv6_fragment_packet version hlead hrest hends hturns hid hparse hwhole haligned hpart hroom
          hfits hfirst
      refine ⟨part, hbytes, hcarries, fun hzero => ?_⟩
      rw [htemplate hzero]
      exact ipv6_rebuild version hlead hrest hends hturns hparse hwhole _

theorem rebuilt_parses : parsePacket l.rebuilt = .ok whole := by
  cases l with
  | ipv4 version => exact ipv4_rebuilt_parses version hparse hwhole
  | ipv6 => exact hparse

/-- The datagram survives being rebuilt byte for byte. -/
def Exact : Layout datagram → Prop
  | .ipv4 _ => (u16At datagram 6).testBit 15 = false ∧ u16At datagram 10 ≠ 0xffff
  | .ipv6 .. => True

theorem rebuilt_eq (hexact : l.Exact) : l.rebuilt = datagram := by
  cases l with
  | ipv4 version => exact ipv4_rebuilt_eq version hparse hwhole hexact.1 hexact.2
  | ipv6 => rfl

end Layout

end Peerward.Dataplane
