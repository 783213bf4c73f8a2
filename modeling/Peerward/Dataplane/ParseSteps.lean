import Peerward.Dataplane.Reassembly
import Peerward.Lib.Decoder

/-!
# What the parser reads

Three facts about `parse_packet` carry every argument about rebuilt packets:

* a transport header is read from the bytes of the header alone, so a longer payload gives the same
  ports, flags and ICMP fields (`parseTransport_extend`, `parseTransport_cut`);
* an IPv4 packet is determined by its header fields (`parseIpv4_eq_ok`);
* walking an IPv6 extension chain (`Skips`) only depends on the bytes of the chain, so a header can be
  unlinked from it or linked into it (`Skips.relink`, `Skips.shift`).
-/

namespace Peerward.Dataplane

open Peerward.Lib Peerward.Net

/-! ## Transport headers

The transport reader looks at a few bytes at the front. Bytes behind them may be cut off or added without
changing what it reads.
-/

/-- The same ports, flags and ICMP fields. -/
structure Transport.Same (a b : Transport) : Prop where
  sourcePort : a.sourcePort = b.sourcePort
  destinationPort : a.destinationPort = b.destinationPort
  tcpFlags : a.tcpFlags = b.tcpFlags
  icmp : a.icmp = b.icmp

theorem Transport.Same.refl (a : Transport) : a.Same a := ⟨rfl, rfl, rfl, rfl⟩

theorem u16At_append_left {front : Bytes} {i : Nat} (h : i + 2 ≤ front.length) (back : Bytes) :
    u16At (front ++ back) i = u16At front i := by
  rw [u16At, byteAt_append_left (by omega), byteAt_append_left (by omega), u16At]

theorem parseTcp_eq_ok {payload : Bytes} {source destination : IpAddr} {incomplete : Bool}
    {t : Transport} : parseTcp payload source destination incomplete = .ok t ↔
      20 ≤ payload.length ∧ 20 ≤ (byteAt payload 12 >>> 4).toNat * 4 ∧
        (byteAt payload 12 >>> 4).toNat * 4 ≤ payload.length ∧
        (incomplete = true ∨ transportChecksumValid payload source destination TCP = true) ∧
        { sourcePort := some (u16At payload 0)
          destinationPort := some (u16At payload 2)
          tcpFlags := some (byteAt payload 13 &&& 0x3f) : Transport } = t := by
  unfold parseTcp
  simp only
  split_ifs <;> grind

theorem parseUdp_eq_ok {payload : Bytes} {source destination : IpAddr} {incomplete : Bool}
    {t : Transport} : parseUdp payload source destination incomplete = .ok t ↔
      8 ≤ payload.length ∧ 8 ≤ u16At payload 4 ∧
        (if incomplete then payload.length ≤ u16At payload 4 else u16At payload 4 = payload.length) ∧
        (incomplete = true ∨ ((u16At payload 6 = 0 → source.isIpv6 = false) ∧
          (u16At payload 6 ≠ 0 → transportChecksumValid payload source destination UDP = true))) ∧
        { sourcePort := some (u16At payload 0)
          destinationPort := some (u16At payload 2) : Transport } = t := by
  unfold parseUdp
  simp only
  cases incomplete <;> simp <;> split_ifs <;> grind

theorem parseIcmp_same {payload rest : Bytes} {source destination : IpAddr} {protocol : UInt8}
    {incomplete incomplete' related : Bool} {t t' : Transport}
    (h : parseIcmp payload source destination protocol incomplete related = .ok t)
    (h' : parseIcmp (payload ++ rest) source destination protocol incomplete' related = .ok t') :
    t'.Same t := by
  unfold parseIcmp at h h'
  split at h
  · cases h
  next hlen =>
  split at h
  · cases h
  split at h'
  · cases h'
  split at h'
  · cases h'
  cases h
  cases h'
  have h₀ : byteAt (payload ++ rest) 0 = byteAt payload 0 := byteAt_append_left (by omega) rest
  have h₁ : byteAt (payload ++ rest) 1 = byteAt payload 1 := byteAt_append_left (by omega) rest
  have h₄ : u16At (payload ++ rest) 4 = u16At payload 4 := u16At_append_left (by omega) rest
  constructor <;> simp only [h₀, h₁, h₄]

/-- Bytes after the header do not change what is read from it. -/
theorem parseTransport_extend {payload rest : Bytes} {source destination : IpAddr} {protocol : UInt8}
    {incomplete incomplete' related : Bool} {t t' : Transport}
    (h : parseTransport payload source destination protocol incomplete related = .ok t)
    (h' : parseTransport (payload ++ rest) source destination protocol incomplete' related =
      .ok t') : t'.Same t := by
  unfold parseTransport at h h'
  split at h
  · next hp =>
    rw [if_pos hp] at h'
    obtain ⟨hlen, -, -, -, rfl⟩ := parseTcp_eq_ok.mp h
    obtain ⟨-, -, -, -, rfl⟩ := parseTcp_eq_ok.mp h'
    constructor <;> simp only [u16At_append_left (show 0 + 2 ≤ payload.length by omega),
      u16At_append_left (show 2 + 2 ≤ payload.length by omega),
      byteAt_append_left (show 13 < payload.length by omega)]
  next hp =>
  rw [if_neg hp] at h'
  split at h
  · next hp =>
    rw [if_pos hp] at h'
    obtain ⟨hlen, -, -, -, rfl⟩ := parseUdp_eq_ok.mp h
    obtain ⟨-, -, -, -, rfl⟩ := parseUdp_eq_ok.mp h'
    constructor <;> simp only [u16At_append_left (show 0 + 2 ≤ payload.length by omega),
      u16At_append_left (show 2 + 2 ≤ payload.length by omega)]
  next hp =>
  rw [if_neg hp] at h'
  split at h
  · next hp =>
    rw [if_pos hp] at h'
    exact parseIcmp_same h h'
  · next hp =>
    rw [if_neg hp] at h'
    cases h
    cases h'
    exact .refl _

/-- Length of the transport header, as far as the parser looks. -/
def transportHeaderLen (protocol : UInt8) (payload : Bytes) : Nat :=
  if protocol = TCP then (byteAt payload 12 >>> 4).toNat * 4
  else if protocol = UDP ∨ protocol = ICMP_V4 ∨ protocol = ICMP_V6 then 8
  else 0

/-- A payload cut anywhere after its transport header is accepted as a first fragment. -/
theorem parseTransport_cut {payload : Bytes} {source destination : IpAddr} {protocol : UInt8}
    {related : Bool} {t : Transport} {n : Nat}
    (h : parseTransport payload source destination protocol false related = .ok t)
    (hn : transportHeaderLen protocol payload ≤ n) :
    ∃ t', parseTransport (payload.take n) source destination protocol true related = .ok t' := by
  unfold parseTransport at h ⊢
  unfold transportHeaderLen at hn
  split at h
  · next hp =>
    rw [if_pos hp] at hn ⊢
    obtain ⟨hlen, hmin, hmax, -, -⟩ := parseTcp_eq_ok.mp h
    refine ⟨_, parseTcp_eq_ok.mpr ⟨?_, ?_, ?_, .inl rfl, rfl⟩⟩
    · rw [List.length_take]
      omega
    · rwa [byteAt_take (by omega)]
    · rw [byteAt_take (by omega), List.length_take]
      omega
  next hp =>
  rw [if_neg hp] at hn ⊢
  split at h
  · next hp =>
    rw [if_pos (.inl hp)] at hn
    rw [if_pos hp]
    obtain ⟨hlen, hmin, hmax, -, -⟩ := parseUdp_eq_ok.mp h
    have h₄ : u16At (payload.take n) 4 = u16At payload 4 := by
      rw [u16At, byteAt_take (by omega), byteAt_take (by omega), u16At]
    refine ⟨_, parseUdp_eq_ok.mpr ⟨?_, ?_, ?_, .inl rfl, rfl⟩⟩
    · rw [List.length_take]
      omega
    · rwa [h₄]
    · rw [if_pos rfl, h₄, List.length_take]
      simp only [Bool.false_eq_true, if_false] at hmax
      omega
  next hp =>
  rw [if_neg hp]
  split at h
  · next hp' =>
    rw [if_pos (.inr hp')] at hn
    rw [if_pos hp']
    unfold parseIcmp at h ⊢
    split at h
    · cases h
    next hlen =>
    rw [if_neg (by rw [List.length_take]; omega)]
    exact ⟨_, rfl⟩
  · next hp' =>
    rw [if_neg hp']
    exact ⟨_, rfl⟩

/-- Of a packet that is not a later fragment, the transport header is read. -/
theorem finishTransport_eq_ok {payload : Bytes} {source destination : IpAddr} {protocol : UInt8}
    {fragment : Option Fragment} {packetLen : Nat} {related : Bool} {p : ParsedPacket}
    (hfirst : ∀ item ∈ fragment, item.offset = 0) :
    finishTransport payload source destination protocol fragment packetLen related = .ok p ↔
      ∃ t, parseTransport payload source destination protocol (fragment.any (·.more)) related =
          .ok t ∧ withTransport source destination protocol fragment packetLen t = p := by
  have hoffset : (fragment.any (·.offset ≠ 0)) = false := by
    cases fragment with
    | none => rfl
    | some item => simp [hfirst item rfl]
  have hincomplete : (fragment.any fun item => item.offset ≠ 0 || item.more) =
      fragment.any (·.more) := by
    cases fragment with
    | none => rfl
    | some item => simp [hfirst item rfl]
  unfold finishTransport
  simp only [hoffset, hincomplete, Bool.false_eq_true, if_false]
  cases hparse : parseTransport payload source destination protocol (fragment.any (·.more)) related <;>
    simp [Except.map]

/-! ## IPv4 -/

theorem parsePacket_eq (bytes : Bytes) : parsePacket bytes =
    if bytes = [] then .error .truncated
    else if byteAt bytes 0 >>> 4 = 4 then parseIpv4 bytes true
    else if byteAt bytes 0 >>> 4 = 6 then parseIpv6 bytes true
    else .error .unsupported := by
  cases bytes with
  | nil => rfl
  | cons first rest => rfl

theorem parsePacket_v4 {bytes : Bytes} (h : byteAt bytes 0 >>> 4 = 4) :
    parsePacket bytes = parseIpv4 bytes true := by
  have hne : bytes ≠ [] := by
    intro hnil
    subst hnil
    exact absurd h (by decide)
  rw [parsePacket_eq, if_neg hne, if_pos h]

theorem parsePacket_v6 {bytes : Bytes} (h : byteAt bytes 0 >>> 4 = 6) :
    parsePacket bytes = parseIpv6 bytes true := by
  have hne : bytes ≠ [] := by
    intro hnil
    subst hnil
    exact absurd h (by decide)
  rw [parsePacket_eq, if_neg hne, if_neg (by rw [h]; decide), if_pos h]

theorem version_of_parse {bytes : Bytes} {p : ParsedPacket} (h : parsePacket bytes = .ok p) :
    byteAt bytes 0 >>> 4 = 4 ∨ byteAt bytes 0 >>> 4 = 6 := by
  rw [parsePacket_eq] at h
  split at h
  · cases h
  split at h
  · next hv => exact .inl hv
  split at h
  · next hv => exact .inr hv
  · cases h

/-- The addresses in an IPv4 header. -/
def ipv4Source (bytes : Bytes) : IpAddr := .ofV4Octets (slice bytes 12 16)
def ipv4Destination (bytes : Bytes) : IpAddr := .ofV4Octets (slice bytes 16 20)

theorem parseIpv4_eq_ok {bytes : Bytes} {p : ParsedPacket} : parseIpv4 bytes true = .ok p ↔
    20 ≤ ipv4HeaderLen bytes ∧ ipv4HeaderLen bytes ≤ bytes.length ∧ u16At bytes 2 = bytes.length ∧
      ipv4Checksum (bytes.take (ipv4HeaderLen bytes)) = 0 ∧
      finishTransport (bytes.drop (ipv4HeaderLen bytes)) (ipv4Source bytes) (ipv4Destination bytes)
        (byteAt bytes 9) (ipv4Fragment bytes) bytes.length true = .ok p := by
  unfold parseIpv4
  constructor
  · intro h
    split at h
    · cases h
    next hlen =>
    simp only at h
    split at h
    · cases h
    next hheader =>
    split at h
    · cases h
    next htotal =>
    push Not at hheader htotal
    rw [htotal.1] at h
    exact ⟨hheader.1, hheader.2, htotal.1, htotal.2.2, h⟩
  · rintro ⟨hmin, hmax, htotal, hsum, hfinish⟩
    simp only
    rw [if_neg (by omega), if_neg (by omega), if_neg (by omega), htotal]
    exact hfinish

/-! ## IPv6 extension chains

`Walk` is a place in a chain. A walk is determined by the bytes it goes over, so it is the same in another
byte string, or at another place of one, that has those bytes.
-/

/-- A place in an extension chain: the header that comes next, where it starts, and where the byte
stands that announced it. -/
structure Walk where
  next : UInt8
  cursor : Nat
  previous : Nat

/-- The place after the extension header at `w`. -/
def Walk.after (bytes : Bytes) (w : Walk) : Walk where
  next := byteAt bytes w.cursor
  cursor := w.cursor + extensionLen bytes w.cursor
  previous := w.cursor

/-- Where every chain starts. -/
def Walk.start (bytes : Bytes) : Walk := ⟨byteAt bytes 6, 40, 6⟩

/-- `Skips bytes w n w'`: from `w`, exactly `n` complete extension headers lead to `w'`. -/
inductive Skips (bytes : Bytes) : Walk → Nat → Walk → Prop
  | done (w : Walk) : Skips bytes w 0 w
  | skip {w w' : Walk} {n : Nat} :
      isExtension w.next = true →
      w.cursor + 2 ≤ bytes.length →
      w.cursor + extensionLen bytes w.cursor ≤ bytes.length →
      Skips bytes (w.after bytes) n w' →
      Skips bytes w (n + 1) w'

theorem eight_le_extensionLen (bytes : Bytes) (cursor : Nat) : 8 ≤ extensionLen bytes cursor := by
  unfold extensionLen
  omega

section Skips

variable {bytes : Bytes} {w w' : Walk} {n : Nat}

theorem Skips.cursor_le (h : Skips bytes w n w') : w.cursor ≤ w'.cursor := by
  induction h with
  | done w => exact le_rfl
  | skip _ _ _ _ ih =>
      simp only [Walk.after] at ih
      omega

theorem Skips.cursor_le_length (h : Skips bytes w n w') (hw : w.cursor ≤ bytes.length) :
    w'.cursor ≤ bytes.length := by
  induction h with
  | done w => exact hw
  | skip _ _ hlen _ ih => exact ih hlen

/-- The announcing byte of a place further on is the first byte of the header before it. -/
theorem Skips.previous_bounds (h : Skips bytes w n w') (hn : 0 < n) :
    w.cursor ≤ w'.previous ∧ w'.previous + 8 ≤ w'.cursor := by
  induction h with
  | done w => omega
  | @skip w w' n _ _ _ hrest ih =>
      have hlen := eight_le_extensionLen bytes w.cursor
      cases hrest with
      | done => exact ⟨le_rfl, by simp only [Walk.after]; omega⟩
      | skip h₁ h₂ h₃ h₄ =>
          have := ih (by omega)
          simp only [Walk.after] at this
          omega

theorem Skips.parseChain (h : Skips bytes w n w') (source destination : IpAddr) (related : Bool)
    (turns : Nat) (fragment : Option Fragment) :
    parseChain bytes source destination related (n + turns) w.next w.cursor fragment =
      parseChain bytes source destination related turns w'.next w'.cursor fragment := by
  induction h with
  | done w => rw [Nat.zero_add]
  | @skip w w' n hext htwo hlen hrest ih =>
      rw [← ih, Nat.add_right_comm, Dataplane.parseChain, if_pos hext, if_neg (by omega),
        if_neg (by omega)]
      rfl

theorem Skips.fragmentHeaderFrom (h : Skips bytes w n w') (hnext : w'.next = 44) {turns : Nat}
    (hturns : n < turns) :
    fragmentHeaderFrom bytes turns w.next w.previous w.cursor = .ok (w'.cursor, w'.previous) := by
  induction h generalizing turns with
  | done w =>
      obtain ⟨turns, rfl⟩ : ∃ k, turns = k + 1 := ⟨turns - 1, by omega⟩
      rw [Dataplane.fragmentHeaderFrom, if_pos hnext]
  | @skip w w' n hext htwo hlen hrest ih =>
      obtain ⟨turns, rfl⟩ : ∃ k, turns = k + 1 := ⟨turns - 1, by omega⟩
      have hne : w.next ≠ 44 := by
        intro heq
        rw [heq] at hext
        exact absurd hext (by decide)
      rw [Dataplane.fragmentHeaderFrom, if_neg hne, if_pos hext, if_neg (by omega), if_neg (by omega)]
      exact ih hnext (by omega)

/-- **Linking.** Over bytes that agree with those of the chain, except for the announcing byte of the
last place, the same headers lead to the same place, with whatever that byte announces. -/
theorem Skips.relink {other : Bytes} (h : Skips bytes w n w') (hn : 0 < n)
    (hagree : ∀ i, w.cursor ≤ i → i < w'.cursor → i ≠ w'.previous → byteAt other i = byteAt bytes i)
    (hlen : w'.cursor ≤ other.length) :
    Skips other w n { w' with next := byteAt other w'.previous } := by
  induction h with
  | done w => omega
  | @skip w w' n hext htwo hfits hrest ih =>
      have height := eight_le_extensionLen bytes w.cursor
      have hle := hrest.cursor_le
      simp only [Walk.after] at hle
      have hsize : extensionLen other w.cursor = extensionLen bytes w.cursor := by
        unfold extensionLen
        rw [hagree (w.cursor + 1) (by omega) (by omega)]
        -- the announcing byte is the first of its header, never the second
        intro heq
        cases hrest with
        | done => simp only [Walk.after] at heq; omega
        | skip h₁ h₂ h₃ h₄ =>
            have := (Skips.skip h₁ h₂ h₃ h₄).previous_bounds (by omega)
            simp only [Walk.after] at this
            omega
      refine .skip hext (by omega) (by omega) ?_
      cases hrest with
      | done =>
          have hafter : w.after other =
              { w.after bytes with next := byteAt other (w.after bytes).previous } := by
            simp only [Walk.after, hsize]
          rw [hafter]
          exact .done _
      | @skip _ _ m h₁ h₂ h₃ h₄ =>
          have hbounds := (Skips.skip h₁ h₂ h₃ h₄).previous_bounds (by omega)
          simp only [Walk.after] at hbounds
          have hnext : byteAt other w.cursor = byteAt bytes w.cursor :=
            hagree _ le_rfl (by omega) (by omega)
          have hafter : w.after other = w.after bytes := by
            simp only [Walk.after, hsize, hnext]
          rw [hafter]
          refine ih (by omega) (fun i hlow hhigh hne => hagree i ?_ hhigh hne) hlen
          simp only [Walk.after] at hlow
          omega

/-- The announcing byte of any place of a chain. -/
theorem Skips.previous_start (h : Skips bytes (.start bytes) n w') :
    (w'.previous = 6 ∨ 40 ≤ w'.previous) ∧ w'.previous < w'.cursor ∧ 40 ≤ w'.cursor := by
  cases n with
  | zero =>
      cases h
      exact ⟨.inl rfl, show 6 < 40 by omega, le_rfl⟩
  | succ n =>
      have hbounds := h.previous_bounds (by omega)
      have hle := h.cursor_le
      simp only [Walk.start] at hbounds hle
      omega

/-- Linking, from the start of the chain. -/
theorem Skips.relink_start (h : Skips bytes (.start bytes) n w') (other : Bytes)
    (hagree : ∀ i, i = 6 ∨ 40 ≤ i → i < w'.cursor → i ≠ w'.previous →
      byteAt other i = byteAt bytes i)
    (hlen : w'.cursor ≤ other.length) :
    Skips other (.start other) n { w' with next := byteAt other w'.previous } := by
  cases n with
  | zero =>
      cases h
      exact .done _
  | succ n =>
      have hbounds := h.previous_bounds (by omega)
      simp only [Walk.start] at hbounds
      have hstart : Walk.start other = Walk.start bytes := by
        simp only [Walk.start]
        rw [hagree 6 (.inl rfl) (by omega) (by omega)]
      rw [hstart]
      refine h.relink (by omega) (fun i hlow hhigh hne => hagree i (.inr ?_) hhigh hne) hlen
      exact hlow

/-- **Moving.** The same headers at another place of another byte string. -/
theorem Skips.shift (h : Skips bytes w n w') (other : Bytes) (cursor : Nat)
    (hagree : ∀ i, w.cursor + i < w'.cursor → byteAt other (cursor + i) = byteAt bytes (w.cursor + i))
    (hlen : cursor + (w'.cursor - w.cursor) ≤ other.length) (previous : Nat) :
    ∃ previous', Skips other ⟨w.next, cursor, previous⟩ n
      ⟨w'.next, cursor + (w'.cursor - w.cursor), previous'⟩ := by
  induction h generalizing cursor previous with
  | done w =>
      rw [Nat.sub_self]
      exact ⟨previous, .done _⟩
  | @skip w w' n hext htwo hfits hrest ih =>
      have height := eight_le_extensionLen bytes w.cursor
      have hle := hrest.cursor_le
      simp only [Walk.after] at hle
      have hnext : byteAt other cursor = byteAt bytes w.cursor := hagree 0 (by omega)
      have hsize : extensionLen other cursor = extensionLen bytes w.cursor := by
        unfold extensionLen
        rw [hagree 1 (by omega)]
      have hmoved : ∀ i, (w.after bytes).cursor + i < w'.cursor →
          byteAt other (cursor + extensionLen bytes w.cursor + i) =
            byteAt bytes ((w.after bytes).cursor + i) := by
        intro i hi
        simp only [Walk.after, Nat.add_assoc] at hi ⊢
        exact hagree _ hi
      have hend : cursor + extensionLen bytes w.cursor + (w'.cursor - (w.after bytes).cursor) =
          cursor + (w'.cursor - w.cursor) := by
        simp only [Walk.after]
        omega
      obtain ⟨previous', hskips⟩ := ih _ hmoved (by omega) cursor
      rw [hend] at hskips
      refine ⟨previous', .skip hext (by simp only; omega) ?_ ?_⟩
      · simp only [hsize]
        omega
      · simpa only [Walk.after, hsize, hnext] using hskips

end Skips

/-- An accepted chain is a walk over extension headers to something else. -/
theorem parseChain_walk {bytes : Bytes} {source destination : IpAddr} {related : Bool} {turns : Nat}
    {w : Walk} {fragment : Option Fragment} {p : ParsedPacket}
    (h : parseChain bytes source destination related turns w.next w.cursor fragment = .ok p) :
    ∃ n w', Skips bytes w n w' ∧ n < turns ∧ isExtension w'.next = false ∧
      parseChain bytes source destination related (turns - n) w'.next w'.cursor fragment = .ok p := by
  induction turns generalizing w with
  | zero => cases h
  | succ turns ih =>
      cases hext : isExtension w.next with
      | false => exact ⟨0, w, .done w, by omega, hext, h⟩
      | true =>
          rw [parseChain, if_pos hext] at h
          split at h
          · cases h
          next htwo =>
          split at h
          · cases h
          next hfits =>
          obtain ⟨n, w', hskips, hturns, hlast, hp⟩ := ih (w := w.after bytes) h
          refine ⟨n + 1, w', .skip hext (by omega) (by omega) hskips, by omega, hlast, ?_⟩
          rwa [Nat.add_sub_add_right]

/-- What `ipv6_fragment_header` finds lies at the end of such a walk. -/
theorem fragmentHeaderFrom_walk {bytes : Bytes} {turns : Nat} {w : Walk} {cursor previous : Nat}
    (h : fragmentHeaderFrom bytes turns w.next w.previous w.cursor = .ok (cursor, previous)) :
    ∃ n, Skips bytes w n ⟨44, cursor, previous⟩ ∧ n < turns := by
  induction turns generalizing w with
  | zero => cases h
  | succ turns ih =>
      rw [fragmentHeaderFrom] at h
      split at h
      · next hnext =>
        obtain ⟨next, cursor', previous'⟩ := w
        cases h
        simp only at hnext
        subst hnext
        exact ⟨0, .done _, by omega⟩
      split at h
      · next hext =>
        split at h
        · cases h
        next htwo =>
        split at h
        · cases h
        next hfits =>
        obtain ⟨n, hskips, hturns⟩ := ih (w := w.after bytes) h
        exact ⟨n + 1, .skip hext (by omega) (by omega) hskips, by omega⟩
      · cases h

end Peerward.Dataplane
