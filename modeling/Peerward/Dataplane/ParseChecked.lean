import Peerward.Dataplane.ParseSteps

/-!
# The packet parser, with what would stop it

The functions of the parser once more; here `none` is an index or a range outside the bytes, a `u32` sum
that overflows, a fold that does not end, or an `expect` or `unreachable!` that is reached.
-/

namespace Peerward.Dataplane.Checked

open Peerward.Lib Peerward.Net

/-! ## Reads and sums

Each operation that could stop the program is one that may fail here: a read outside the bytes and a sum
that overflows. The functions are written with them once more.
-/

/-- `u16::from_be_bytes([bytes[i], bytes[i + 1]])`. -/
def u16Of (bytes : Bytes) (i : Nat) : Option Nat := do
  return word (← bytes[i]?) (← bytes[i + 1]?)

/-- `bytes[start..stop]`. -/
def rangeOf (bytes : Bytes) (start stop : Nat) : Option Bytes :=
  if start ≤ stop ∧ stop ≤ bytes.length then some (slice bytes start stop) else none

/-- `bytes[start..]`. -/
def restOf (bytes : Bytes) (start : Nat) : Option Bytes :=
  if start ≤ bytes.length then some (bytes.drop start) else none

/-- `a + b` on a `u32`. -/
def add (a b : Nat) : Option Nat := if a + b < 2 ^ 32 then some (a + b) else none

def checksumWords (sum : Nat) : Bytes → Option Nat
  | [] => some sum
  | [last] => add sum (last.toNat * 256)
  | high :: low :: rest => do checksumWords (← add sum (word high low)) rest

/-- The `while` loop of the fold, with the turns it may take. -/
def foldRounds : (fuel : Nat) → (sum : Nat) → Option Nat
  | 0, sum => if sum > 0xffff then none else some sum
  | fuel + 1, sum => if sum > 0xffff then do foldRounds fuel (← add (sum % 2 ^ 16) (sum / 2 ^ 16))
    else some sum

def internetChecksum (bytes : Bytes) : Option Nat := do
  let folded ← foldRounds 2 (← checksumWords 0 bytes)
  -- `u16::try_from(sum).expect(..)`
  if folded ≤ 0xffff then some (65535 - folded) else none

def transportChecksumValid (payload : Bytes) (source destination : IpAddr) (protocol : UInt8) :
    Option Bool :=
  if 2 ^ 32 ≤ payload.length then some false
  else match source, destination with
    | .v4 _, .v4 _ => do
      let sum ← checksumWords (← checksumWords 0 source.octets) destination.octets
      let sum ← add (← add sum protocol.toNat) payload.length
      return (← foldRounds 2 (← checksumWords sum payload)) = 65535
    | .v6 _, .v6 _ => do
      let sum ← checksumWords (← checksumWords 0 source.octets) destination.octets
      let sum ← add (← checksumWords sum (toBE 4 payload.length)) protocol.toNat
      return (← foldRounds 2 (← checksumWords sum payload)) = 65535
    | _, _ => some false

/-! ## Transport headers -/

def parseQuotedFlow (bytes : Bytes) : Option (Option FlowKey) :=
  match (bytes[0]? : Option UInt8) with
  | none => some none
  | some first =>
    if first >>> 4 = 4 ∧ 24 ≤ bytes.length then do
      let header := ((← bytes[0]?) &&& 0x0f).toNat * 4
      -- `bytes.get(header..header + 4)?`
      match rangeOf bytes header (header + 4) with
      | none => return none
      | some transport => return some {
          source := .ofV4Octets (← rangeOf bytes 12 16)
          destination := .ofV4Octets (← rangeOf bytes 16 20)
          protocol := ← bytes[9]?
          sourcePort := some (← u16Of transport 0)
          destinationPort := some (← u16Of transport 2) }
    else if first >>> 4 = 6 ∧ 44 ≤ bytes.length then do
      let transport ← rangeOf bytes 40 44
      return some {
        source := .ofV6Octets (← rangeOf bytes 8 24)
        destination := .ofV6Octets (← rangeOf bytes 24 40)
        protocol := ← bytes[6]?
        sourcePort := some (← u16Of transport 0)
        destinationPort := some (← u16Of transport 2) }
    else some none

def parseTcp (payload : Bytes) (source destination : IpAddr) (incomplete : Bool) :
    Option (Except ParseError Transport) :=
  if payload.length < 20 then some (.error .truncated)
  else do
    let headerLen := ((← payload[12]?) >>> 4).toNat * 4
    if headerLen < 20 then return .error .malformed
    if headerLen > payload.length then return .error .truncated
    let valid ← (if incomplete then some true else transportChecksumValid payload source destination TCP)
    if !valid then return .error .malformed
    return .ok {
      sourcePort := some (← u16Of payload 0)
      destinationPort := some (← u16Of payload 2)
      tcpFlags := some ((← payload[13]?) &&& 0x3f) }

def parseUdp (payload : Bytes) (source destination : IpAddr) (incomplete : Bool) :
    Option (Except ParseError Transport) :=
  if payload.length < 8 then some (.error .truncated)
  else do
    let length ← u16Of payload 4
    if length < 8 || (!incomplete && length ≠ payload.length) || (incomplete && length < payload.length) then
      return .error .malformed
    let checksum ← u16Of payload 6
    let valid ← (if incomplete then some true
      else if checksum = 0 then some (!source.isIpv6)
      else transportChecksumValid payload source destination UDP)
    if !valid then return .error .malformed
    return .ok {
      sourcePort := some (← u16Of payload 0)
      destinationPort := some (← u16Of payload 2) }

def parseIcmp (payload : Bytes) (source destination : IpAddr) (protocol : UInt8)
    (incomplete related : Bool) : Option (Except ParseError Transport) :=
  if payload.length < 8 then some (.error .truncated)
  else do
    let valid ← (if incomplete then some true
      else if protocol = ICMP_V4 then (internetChecksum payload).map (decide <| · = 0)
      else if protocol = ICMP_V6 then transportChecksumValid payload source destination ICMP_V6
      else none)
    if !valid then return .error .malformed
    let kind ← payload[0]?
    let code ← payload[1]?
    let identifier ← (if isEcho protocol kind then (u16Of payload 4).map some else some none)
    let relatedFlow ← (if related && isIcmpError protocol kind then (restOf payload 8).bind parseQuotedFlow
      else some none)
    return .ok {
      sourcePort := identifier
      destinationPort := identifier
      icmp := some (kind, code)
      relatedFlow }

def parseTransport (payload : Bytes) (source destination : IpAddr) (protocol : UInt8)
    (incomplete related : Bool) : Option (Except ParseError Transport) :=
  if protocol = TCP then parseTcp payload source destination incomplete
  else if protocol = UDP then parseUdp payload source destination incomplete
  else if protocol = ICMP_V4 ∨ protocol = ICMP_V6 then
    parseIcmp payload source destination protocol incomplete related
  else some (.ok {})

def finishTransport (payload : Bytes) (source destination : IpAddr) (protocol : UInt8)
    (fragment : Option Fragment) (packetLen : Nat) (related : Bool) :
    Option (Except ParseError ParsedPacket) :=
  if fragment.any (·.offset ≠ 0) then
    some (.ok (withTransport source destination protocol fragment packetLen {}))
  else do
    let incomplete := fragment.any fun item => item.offset ≠ 0 || item.more
    let transport ← parseTransport payload source destination protocol incomplete related
    return transport.map (withTransport source destination protocol fragment packetLen)

/-! ## Network headers -/

def parseIpv4 (bytes : Bytes) (related : Bool) : Option (Except ParseError ParsedPacket) :=
  if bytes.length < 20 then some (.error .truncated)
  else do
    let headerLen := ((← bytes[0]?) &&& 0x0f).toNat * 4
    if headerLen < 20 ∨ headerLen > bytes.length then return .error .malformed
    let total ← u16Of bytes 2
    if total ≠ bytes.length ∨ total < headerLen then return .error .malformed
    if (← internetChecksum (← rangeOf bytes 0 headerLen)) ≠ 0 then return .error .malformed
    let source := IpAddr.ofV4Octets (← rangeOf bytes 12 16)
    let destination := IpAddr.ofV4Octets (← rangeOf bytes 16 20)
    let bits ← u16Of bytes 6
    let offset := bits % 2 ^ 13
    let more := bits.testBit 13
    let identification ← u16Of bytes 4
    finishTransport (← restOf bytes headerLen) source destination (← bytes[9]?)
      (if offset ≠ 0 ∨ more then some { identification, offset, more } else none) total related

def parseChain (bytes : Bytes) (source destination : IpAddr) (related : Bool) :
    (turns : Nat) → (next : UInt8) → (cursor : Nat) → Option Fragment →
      Option (Except ParseError ParsedPacket)
  | 0, _, _, _ => some (.error .malformed)
  | turns + 1, next, cursor, fragment =>
    if isExtension next then
      if cursor + 2 > bytes.length then some (.error .truncated)
      else do
        let extensionLen := ((← bytes[cursor + 1]?).toNat + 1) * 8
        if cursor + extensionLen > bytes.length then return .error .truncated
        parseChain bytes source destination related turns (← bytes[cursor]?) (cursor + extensionLen) fragment
    else if next = 44 then
      if cursor + 8 > bytes.length ∨ fragment.isSome then some (.error .malformed)
      else do
        let bits ← u16Of bytes (cursor + 2)
        let identification ← rangeOf bytes (cursor + 4) (cursor + 8)
        let fragment : Fragment :=
          { identification := ofBE identification, offset := bits / 8, more := bits % 2 = 1 }
        let next ← bytes[cursor]?
        if bits / 8 ≠ 0 then
          finishTransport (← restOf bytes (cursor + 8)) source destination next (some fragment)
            bytes.length related
        else parseChain bytes source destination related turns next (cursor + 8) (some fragment)
    else do
      finishTransport (← restOf bytes cursor) source destination next fragment bytes.length related

def parseIpv6 (bytes : Bytes) (related : Bool) : Option (Except ParseError ParsedPacket) :=
  if bytes.length < 40 then some (.error .truncated)
  else do
    if (← u16Of bytes 4) + 40 ≠ bytes.length then return .error .malformed
    let source := IpAddr.ofV6Octets (← rangeOf bytes 8 24)
    let destination := IpAddr.ofV6Octets (← rangeOf bytes 24 40)
    parseChain bytes source destination related 8 (← bytes[6]?) 40 none

def parsePacket (bytes : Bytes) : Option (Except ParseError ParsedPacket) :=
  match (bytes[0]? : Option UInt8) with
  | none => some (.error .truncated)
  | some first =>
    if first >>> 4 = 4 then parseIpv4 bytes true
    else if first >>> 4 = 6 then parseIpv6 bytes true
    else some (.error .unsupported)

/-! ## Reads that are inside -/

theorem some_bind {A B : Type} (a : A) (next : A → Option B) : (some a >>= next) = next a := rfl

theorem byte_of_lt {bytes : Bytes} {i : Nat} (h : i < bytes.length) : bytes[i]? = some (byteAt bytes i) := by
  rw [byteAt, List.getD_eq_getElem?_getD, List.getElem?_eq_getElem h]
  rfl

theorem u16Of_of_lt {bytes : Bytes} {i : Nat} (h : i + 1 < bytes.length) :
    u16Of bytes i = some (u16At bytes i) := by
  unfold u16Of
  rw [byte_of_lt (by omega), byte_of_lt h]
  rfl

theorem rangeOf_of_le {bytes : Bytes} {start stop : Nat} (h : start ≤ stop) (hstop : stop ≤ bytes.length) :
    rangeOf bytes start stop = some (slice bytes start stop) := if_pos ⟨h, hstop⟩

theorem restOf_of_le {bytes : Bytes} {start : Nat} (h : start ≤ bytes.length) :
    restOf bytes start = some (bytes.drop start) := if_pos h

/-! ## Sums that fit

A packet is shorter than 65,576 bytes, so no sum of its words reaches the width of its accumulator, and
two turns of the fold are enough.
-/

theorem add_of_lt {a b : Nat} (h : a + b < 2 ^ 32) : add a b = some (a + b) := if_pos h

theorem le_checksumWords (sum : Nat) (bytes : Bytes) : sum ≤ Lib.checksumWords sum bytes := by
  have h := checksumWords_add sum 0 bytes
  rw [Nat.add_zero] at h
  omega

/-- What a byte string adds to a sum. -/
theorem checksumWords_le (sum : Nat) (bytes : Bytes) :
    Lib.checksumWords sum bytes ≤ sum + 65535 * ((bytes.length + 1) / 2) := by
  induction sum, bytes using Lib.checksumWords.induct with
  | case1 sum => exact Nat.le_add_right ..
  | case2 sum last =>
      have := last.toNat_lt
      simp only [Lib.checksumWords, List.length_cons, List.length_nil]
      omega
  | case3 sum high low rest ih =>
      have := word_lt high low
      rw [Lib.checksumWords, List.length_cons, List.length_cons,
        show (rest.length + 1 + 1 + 1) / 2 = (rest.length + 1) / 2 + 1 by omega]
      omega

theorem checksumWords_eq {sum : Nat} {bytes : Bytes} (h : Lib.checksumWords sum bytes < 2 ^ 32) :
    checksumWords sum bytes = some (Lib.checksumWords sum bytes) := by
  induction sum, bytes using Lib.checksumWords.induct with
  | case1 sum => rfl
  | case2 sum last => exact add_of_lt h
  | case3 sum high low rest ih =>
      rw [Lib.checksumWords] at h ⊢
      have hle := le_checksumWords (sum + word high low) rest
      rw [checksumWords, add_of_lt (by omega)]
      exact ih h

/-- The fold of a `u32` ends after at most two turns. -/
theorem foldRounds_eq {sum : Nat} (h : sum < 2 ^ 32) : foldRounds 2 sum = some (foldCarry sum) := by
  -- a turn keeps the fold
  have hturn : ∀ sum, 0xffff < sum → foldCarry (sum % 2 ^ 16 + sum / 2 ^ 16) = foldCarry sum := by
    intro sum hbig
    rw [foldCarry_eq, foldCarry_eq, if_neg (by omega), if_neg (by omega)]
    omega
  have hsmall : ∀ sum, sum ≤ 0xffff → foldCarry sum = sum := by
    intro sum hle
    rw [foldCarry_eq]
    split <;> omega
  rw [foldRounds]
  split
  · next hbig =>
    rw [add_of_lt (by omega), Option.bind_eq_bind, Option.bind_some, foldRounds, ← hturn sum hbig]
    split
    · next hbig' =>
      rw [add_of_lt (by omega), Option.bind_eq_bind, Option.bind_some, foldRounds, if_neg (by omega),
        ← hturn _ hbig', hsmall _ (by omega)]
    · rw [hsmall _ (by omega)]
  · rw [hsmall _ (by omega)]

/-- The longest packet. -/
def MAX_PACKET : Nat := 65575

theorem internetChecksum_eq {bytes : Bytes} (h : bytes.length ≤ MAX_PACKET) :
    internetChecksum bytes = some (Dataplane.internetChecksum bytes) := by
  have hle := checksumWords_le 0 bytes
  unfold MAX_PACKET at h
  have hlt : Lib.checksumWords 0 bytes < 2 ^ 32 := by omega
  unfold internetChecksum Dataplane.internetChecksum
  rw [checksumWords_eq hlt, Option.bind_eq_bind, Option.bind_some, foldRounds_eq hlt, Option.bind_some,
    if_pos (foldCarry_le _)]

/-- Neither the pseudo header nor the payload of a packet makes the sum overflow. -/
theorem transportChecksumValid_eq {payload : Bytes} (h : payload.length ≤ MAX_PACKET)
    (source destination : IpAddr) (protocol : UInt8) :
    transportChecksumValid payload source destination protocol =
      some (Dataplane.transportChecksumValid payload source destination protocol) := by
  unfold MAX_PACKET at h
  unfold transportChecksumValid Dataplane.transportChecksumValid transportSum
  have hprotocol := protocol.toNat_lt
  rw [if_neg (by omega), decide_eq_true (show payload.length < 2 ^ 32 by omega), Bool.true_and]
  have hpayload := fun sum => checksumWords_le sum payload
  cases source with
  | v4 source =>
      cases destination with
      | v6 destination => rfl
      | v4 destination =>
          have hs := checksumWords_le 0 (IpAddr.v4 source).octets
          have hd := checksumWords_le (Lib.checksumWords 0 (IpAddr.v4 source).octets)
            (IpAddr.v4 destination).octets
          have hsource : (IpAddr.v4 source).octets.length = 4 := length_toBE ..
          have hdestination : (IpAddr.v4 destination).octets.length = 4 := length_toBE ..
          rw [hsource] at hs
          rw [hdestination] at hd
          dsimp only
          rw [checksumWords_eq (by omega), Option.bind_eq_bind, Option.bind_some,
            checksumWords_eq (by omega), Option.bind_some, add_of_lt (by omega), Option.bind_some,
            add_of_lt (by omega), Option.bind_some]
          generalize Lib.checksumWords (Lib.checksumWords 0 (IpAddr.v4 source).octets)
            (IpAddr.v4 destination).octets = sum at hd ⊢
          have hsum := hpayload (sum + protocol.toNat + payload.length)
          rw [checksumWords_eq (by omega), Option.bind_some, foldRounds_eq (by omega)]
          rfl
  | v6 source =>
      cases destination with
      | v4 destination => rfl
      | v6 destination =>
          have hs := checksumWords_le 0 (IpAddr.v6 source).octets
          have hd := checksumWords_le (Lib.checksumWords 0 (IpAddr.v6 source).octets)
            (IpAddr.v6 destination).octets
          have hsource : (IpAddr.v6 source).octets.length = 16 := length_toBE ..
          have hdestination : (IpAddr.v6 destination).octets.length = 16 := length_toBE ..
          rw [hsource] at hs
          rw [hdestination] at hd
          dsimp only
          rw [checksumWords_eq (by omega), Option.bind_eq_bind, Option.bind_some,
            checksumWords_eq (by omega), Option.bind_some]
          generalize Lib.checksumWords (Lib.checksumWords 0 (IpAddr.v6 source).octets)
            (IpAddr.v6 destination).octets = sum at hd ⊢
          have hl := checksumWords_le sum (toBE 4 payload.length)
          rw [length_toBE] at hl
          rw [checksumWords_eq (by omega), Option.bind_some, add_of_lt (by omega), Option.bind_some]
          generalize Lib.checksumWords sum (toBE 4 payload.length) = sum' at hl ⊢
          have hsum := hpayload (sum' + protocol.toNat)
          rw [checksumWords_eq (by omega), Option.bind_some, foldRounds_eq (by omega)]
          rfl

/-! ## Transport headers -/

/-- A read of a part is a read of the whole. -/
theorem u16Of_range {bytes : Bytes} {start stop i : Nat} (h : stop ≤ bytes.length)
    (hi : start + i + 1 < stop) : u16Of (slice bytes start stop) i = some (u16At bytes (start + i)) := by
  have hbyte : ∀ j, start + j < stop → (slice bytes start stop)[j]? = some (byteAt bytes (start + j)) := by
    intro j hj
    rw [getElem?_slice, if_pos hj]
    exact byte_of_lt (by omega)
  unfold u16Of
  rw [hbyte i (by omega), hbyte (i + 1) (by omega)]
  rfl

theorem parseQuotedFlow_eq (bytes : Bytes) :
    parseQuotedFlow bytes = some (Dataplane.parseQuotedFlow bytes) := by
  cases bytes with
  | nil => rfl
  | cons first rest =>
      unfold parseQuotedFlow Dataplane.parseQuotedFlow
      have hfirst : (first :: rest)[0]? = some first := rfl
      generalize hbytes : first :: rest = bytes at hfirst ⊢
      rw [← hbytes] at hfirst
      subst hbytes
      rw [hfirst]
      dsimp only
      split
      · next h =>
        rw [some_bind]
        by_cases hheader : (first &&& 0x0f).toNat * 4 + 4 ≤ (first :: rest).length
        · rw [rangeOf_of_le (by omega) hheader, if_pos hheader]
          dsimp only
          rw [rangeOf_of_le (by omega) (by omega), some_bind, rangeOf_of_le (by omega) (by omega),
            some_bind, byte_of_lt (by omega), some_bind, u16Of_range hheader (by omega),
            some_bind, u16Of_range hheader (by omega)]
          rfl
        · rw [if_neg hheader]
          unfold rangeOf
          rw [if_neg (by omega)]
          rfl
      split
      · next h =>
        rw [rangeOf_of_le (by omega) h.2, some_bind,
          rangeOf_of_le (by omega) (by omega), some_bind, rangeOf_of_le (by omega) (by omega),
          some_bind, byte_of_lt (by omega), some_bind, u16Of_range h.2 (by omega),
          some_bind, u16Of_range h.2 (by omega)]
        rfl
      · rfl

theorem parseTcp_eq {payload : Bytes} (h : payload.length ≤ MAX_PACKET) (source destination : IpAddr)
    (incomplete : Bool) : parseTcp payload source destination incomplete =
      some (Dataplane.parseTcp payload source destination incomplete) := by
  unfold parseTcp Dataplane.parseTcp
  split
  · rfl
  next hlong =>
  rw [byte_of_lt (by omega), some_bind]
  dsimp only
  split
  · rfl
  split
  · rfl
  rw [transportChecksumValid_eq h, byte_of_lt (by omega), u16Of_of_lt (by omega), u16Of_of_lt (by omega)]
  cases incomplete with
  | true => rfl
  | false =>
      cases Dataplane.transportChecksumValid payload source destination TCP <;> rfl

theorem parseUdp_eq {payload : Bytes} (h : payload.length ≤ MAX_PACKET) (source destination : IpAddr)
    (incomplete : Bool) : parseUdp payload source destination incomplete =
      some (Dataplane.parseUdp payload source destination incomplete) := by
  unfold parseUdp Dataplane.parseUdp
  split
  · rfl
  next hlong =>
  rw [u16Of_of_lt (by omega), some_bind]
  dsimp only
  split
  · rfl
  rw [transportChecksumValid_eq h, u16Of_of_lt (by omega), u16Of_of_lt (by omega), u16Of_of_lt (by omega),
    some_bind]
  cases incomplete with
  | true => rfl
  | false =>
      by_cases hzero : u16At payload 6 = 0
      · rw [if_neg Bool.false_ne_true, if_pos hzero, hzero]
        cases source.isIpv6 <;> rfl
      · rw [if_neg Bool.false_ne_true, if_neg hzero, decide_eq_false hzero,
          decide_eq_true (show u16At payload 6 ≠ 0 from hzero)]
        cases Dataplane.transportChecksumValid payload source destination UDP <;>
          simp

theorem parseIcmp_eq {payload : Bytes} (h : payload.length ≤ MAX_PACKET) (source destination : IpAddr)
    {protocol : UInt8} (hprotocol : protocol = ICMP_V4 ∨ protocol = ICMP_V6) (incomplete related : Bool) :
    parseIcmp payload source destination protocol incomplete related =
      some (Dataplane.parseIcmp payload source destination protocol incomplete related) := by
  unfold parseIcmp Dataplane.parseIcmp
  split
  · rfl
  next hlong =>
  have hvalid : (if incomplete then some true
      else if protocol = ICMP_V4 then (internetChecksum payload).map (decide <| · = 0)
      else if protocol = ICMP_V6 then transportChecksumValid payload source destination ICMP_V6
      else none) = some (incomplete || icmpChecksumValid payload source destination protocol) := by
    cases incomplete with
    | true => rfl
    | false =>
        unfold icmpChecksumValid
        rw [if_neg Bool.false_ne_true, Bool.false_or]
        split
        · rw [internetChecksum_eq h]
          rfl
        · next hother => rw [if_pos (hprotocol.resolve_left hother), transportChecksumValid_eq h]
  have hflow : (Option.bind (some (payload.drop 8)) parseQuotedFlow) =
      some (Dataplane.parseQuotedFlow (payload.drop 8)) := parseQuotedFlow_eq _
  rw [hvalid, byte_of_lt (by omega), byte_of_lt (by omega), restOf_of_le (by omega), u16Of_of_lt (by omega),
    hflow]
  simp only [some_bind, Bool.not_or]
  split
  · rfl
  · cases isEcho protocol (byteAt payload 0) <;>
      cases related && isIcmpError protocol (byteAt payload 0) <;> rfl

theorem parseTransport_eq {payload : Bytes} (h : payload.length ≤ MAX_PACKET) (source destination : IpAddr)
    (protocol : UInt8) (incomplete related : Bool) :
    parseTransport payload source destination protocol incomplete related =
      some (Dataplane.parseTransport payload source destination protocol incomplete related) := by
  unfold parseTransport Dataplane.parseTransport
  split
  · exact parseTcp_eq h ..
  split
  · exact parseUdp_eq h ..
  split
  · next hprotocol => exact parseIcmp_eq h _ _ hprotocol ..
  · rfl

theorem finishTransport_eq {payload : Bytes} (h : payload.length ≤ MAX_PACKET) (source destination : IpAddr)
    (protocol : UInt8) (fragment : Option Fragment) (packetLen : Nat) (related : Bool) :
    finishTransport payload source destination protocol fragment packetLen related =
      some (Dataplane.finishTransport payload source destination protocol fragment packetLen related) := by
  unfold finishTransport Dataplane.finishTransport
  split
  · rfl
  · dsimp only
    rw [parseTransport_eq h]
    rfl

/-! ## Network headers -/

theorem parseIpv4_eq {bytes : Bytes} (related : Bool) :
    parseIpv4 bytes related = some (Dataplane.parseIpv4 bytes related) := by
  unfold parseIpv4 Dataplane.parseIpv4
  split
  · rfl
  next hlong =>
  rw [byte_of_lt (by omega), some_bind]
  dsimp only
  unfold ipv4HeaderLen
  split
  · rfl
  next hheader =>
  rw [u16Of_of_lt (by omega), some_bind]
  have htotal := u16At_lt bytes 2
  by_cases hlen : u16At bytes 2 ≠ bytes.length ∨ u16At bytes 2 < (byteAt bytes 0 &&& 0x0f).toNat * 4
  · rw [if_pos hlen, if_pos (by tauto)]
    rfl
  rw [not_or, not_not] at hlen
  rw [if_neg (by tauto), rangeOf_of_le (by omega) (by omega), some_bind]
  have hslice : slice bytes 0 ((byteAt bytes 0 &&& 0x0f).toNat * 4) =
      bytes.take ((byteAt bytes 0 &&& 0x0f).toNat * 4) := rfl
  rw [hslice, internetChecksum_eq (by rw [List.length_take]; unfold MAX_PACKET; omega), some_bind]
  unfold ipv4Checksum
  split
  · next hsum =>
    rw [if_pos (.inr (.inr hsum))]
    rfl
  · next hsum =>
    rw [if_neg (by tauto), rangeOf_of_le (by omega) (by omega), some_bind,
      rangeOf_of_le (by omega) (by omega), some_bind, u16Of_of_lt (by omega), some_bind,
      u16Of_of_lt (by omega), some_bind, restOf_of_le (by omega), some_bind,
      byte_of_lt (by omega), some_bind,
      finishTransport_eq (by rw [List.length_drop]; unfold MAX_PACKET; omega)]
    rfl

/-- Four bytes are read as one number. -/
theorem ofBE_slice_four {bytes : Bytes} {start : Nat} (h : start + 4 ≤ bytes.length) :
    ofBE (slice bytes start (start + 4)) = u32At bytes start := by
  have hslice : slice bytes start (start + 4) = [byteAt bytes start, byteAt bytes (start + 1),
      byteAt bytes (start + 2), byteAt bytes (start + 3)] := by
    unfold slice byteAt
    rw [Nat.add_sub_cancel_left, drop_eq_getD_cons bytes (by omega), drop_eq_getD_cons bytes (by omega),
      drop_eq_getD_cons bytes (by omega), drop_eq_getD_cons bytes (by omega)]
    rfl
  rw [hslice, u32At, u16At, u16At, word, word, show start + 2 + 1 = start + 3 from rfl]
  simp only [ofBE, List.foldl_cons, List.foldl_nil]
  omega

theorem parseChain_eq {bytes : Bytes} (h : bytes.length ≤ MAX_PACKET) (source destination : IpAddr)
    (related : Bool) (turns : Nat) (next : UInt8) {cursor : Nat} (hcursor : cursor ≤ bytes.length)
    (fragment : Option Fragment) :
    parseChain bytes source destination related turns next cursor fragment =
      some (Dataplane.parseChain bytes source destination related turns next cursor fragment) := by
  have hrest : ∀ n, (bytes.drop n).length ≤ MAX_PACKET := by
    intro n
    rw [List.length_drop]
    omega
  induction turns generalizing next cursor fragment with
  | zero => rfl
  | succ turns ih =>
      unfold parseChain Dataplane.parseChain
      split
      · split
        · rfl
        next htwo =>
        rw [byte_of_lt (by omega), some_bind]
        dsimp only
        unfold extensionLen
        split
        · rfl
        next hfits =>
        rw [byte_of_lt (by omega), some_bind]
        exact ih _ (by omega) _
      split
      · split
        · rfl
        next height =>
        rw [u16Of_of_lt (by omega), some_bind,
          rangeOf_of_le (by omega) (by omega), some_bind, byte_of_lt (by omega), some_bind]
        rw [ofBE_slice_four (show cursor + 4 + 4 ≤ bytes.length by omega)]
        unfold ipv6Fragment
        dsimp only
        split
        · rw [restOf_of_le (by omega), some_bind, finishTransport_eq (hrest _)]
        · exact ih _ (by omega) _
      · rw [restOf_of_le hcursor, some_bind, finishTransport_eq (hrest _)]

theorem parseIpv6_eq (bytes : Bytes) (related : Bool) :
    parseIpv6 bytes related = some (Dataplane.parseIpv6 bytes related) := by
  unfold parseIpv6 Dataplane.parseIpv6
  split
  · rfl
  next hlong =>
  rw [u16Of_of_lt (by omega), some_bind]
  have hpayload := u16At_lt bytes 4
  split
  · rfl
  next hlen =>
  rw [rangeOf_of_le (by omega) (by omega), some_bind, rangeOf_of_le (by omega) (by omega),
    some_bind, byte_of_lt (by omega), some_bind]
  exact parseChain_eq (by unfold MAX_PACKET; omega) _ _ _ _ _ (by omega) _

/-- **Nothing stops the parser.** -/
theorem parsePacket_eq (bytes : Bytes) : parsePacket bytes = some (Dataplane.parsePacket bytes) := by
  cases bytes with
  | nil => rfl
  | cons first rest =>
      unfold parsePacket Dataplane.parsePacket
      have hfirst : (first :: rest)[0]? = some first := rfl
      rw [hfirst]
      dsimp only
      split
      · exact parseIpv4_eq true
      split
      · exact parseIpv6_eq _ true
      · rfl

end Peerward.Dataplane.Checked
