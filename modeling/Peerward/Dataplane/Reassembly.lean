import Peerward.Dataplane.Parse
import Peerward.Lib.Run

/-!
# Fragment reassembly

`FragmentReassembler` collects the fragments of a datagram under a key of addresses, protocol and
identification until they cover it, then rebuilds the datagram from the header of the fragment at
offset zero and hands it to the parser once more. Sets are bounded in age and in retained bytes; any
inconsistency discards the whole set.
-/

namespace Peerward.Dataplane

open Std Peerward.Lib Peerward.Net

/-- A fragment was invalid before it could be presented to policy evaluation. -/
inductive ReassemblyError where
  /-- The packet header or fragment alignment is invalid. -/
  | malformed
  /-- Two fragments cover any of the same bytes. -/
  | overlap
  /-- A final length conflicts with another fragment. -/
  | contradictory
  /-- Per-source or global retained-memory limit was reached. -/
  | quotaExceeded
  deriving DecidableEq

/-- A complete datagram and the original packets that formed it. -/
structure ReassembledDatagram where
  /-- Canonical packet with the fragment header/flags removed. -/
  packet : Bytes
  /-- Original packets ordered by fragment offset. -/
  originalFragments : List Bytes
  deriving DecidableEq

inductive ReassemblyStatus where
  /-- More non-overlapping fragments are required. -/
  | pending
  /-- A non-fragmented packet or a fully reassembled datagram is ready for policy. -/
  | complete (datagram : ReassembledDatagram)
  deriving DecidableEq

structure ReassemblyKey where
  source : IpAddr
  destination : IpAddr
  protocol : UInt8
  identification : Nat
  deriving DecidableEq

namespace ReassemblyKey

def cmp : ReassemblyKey → ReassemblyKey → Ordering :=
  compareLex (compareOn source) <| compareLex (compareOn destination) <|
    compareLex (compareOn protocol) (compareOn identification)

instance : Ord ReassemblyKey := ⟨cmp⟩

instance : TransOrd ReassemblyKey := inferInstanceAs (TransCmp (compareLex _ _))

instance : LawfulEqOrd ReassemblyKey where
  eq_of_compare := by
    intro a b h
    replace h : cmp a b = .eq := h
    simp only [cmp, compareLex_eq_eq, compareOn] at h
    obtain ⟨h₁, h₂, h₃, h₄⟩ := h
    cases a
    cases b
    congr
    · exact LawfulEqOrd.eq_of_compare h₁
    · exact LawfulEqOrd.eq_of_compare h₂
    · exact LawfulEqOrd.eq_of_compare h₃
    · exact LawfulEqOrd.eq_of_compare h₄

/-- IPv6 reassembly is scoped by source, destination and identification alone. -/
def ofParsed (parsed : ParsedPacket) (fragment : Fragment) : ReassemblyKey where
  source := parsed.source
  destination := parsed.destination
  protocol := if parsed.source.isIpv6 then 0 else parsed.protocol
  identification := fragment.identification

end ReassemblyKey

/-- What a rebuilt packet begins with. -/
inductive HeaderTemplate where
  | ipv4 (header : Bytes)
  | ipv6 (lead : Bytes) (previousNextHeader : Nat) (fragmentNextHeader : UInt8)
  deriving DecidableEq

structure DecodedFragment where
  template : HeaderTemplate
  payload : Bytes

structure StoredFragment where
  payload : Bytes
  original : Bytes
  deriving DecidableEq

structure FragmentSet where
  source : IpAddr
  expiresAt : Nat
  retainedBytes : Nat := 0
  payloadBytes : Nat := 0
  template : Option HeaderTemplate := none
  finalLength : Option Nat := none
  fragments : ExtTreeMap Nat StoredFragment := ∅

/-! ## Taking fragments apart

An IPv6 fragment is cut at its Fragment header, which is found by walking the chain once more.
-/

/-- The loop of `ipv6_fragment_header`: the place of the Fragment header and of the byte that
announces it. -/
def fragmentHeaderFrom (packet : Bytes) :
    (turns : Nat) → (next : UInt8) → (previousNextHeader cursor : Nat) →
      Except ReassemblyError (Nat × Nat)
  | 0, _, _, _ => .error .malformed
  | turns + 1, next, previousNextHeader, cursor =>
    if next = 44 then .ok (cursor, previousNextHeader)
    else if isExtension next then
      if cursor + 1 ≥ packet.length then .error .malformed
      else if cursor + extensionLen packet cursor > packet.length then .error .malformed
      else fragmentHeaderFrom packet turns (byteAt packet cursor) cursor
        (cursor + extensionLen packet cursor)
    else .error .malformed

def ipv6FragmentHeader (packet : Bytes) : Except ReassemblyError (Nat × Nat) :=
  if packet.length < 48 then .error .malformed
  else fragmentHeaderFrom packet 8 (byteAt packet 6) 6 40

def decodeFragment (packet : Bytes) (fragment : Fragment) :
    Except ReassemblyError DecodedFragment :=
  match packet with
  | [] => .error .malformed
  | first :: _ =>
    if first >>> 4 = 4 then
      let headerLength := ipv4HeaderLen packet
      if headerLength > packet.length then .error .malformed
      else .ok
        { template := .ipv4 (if fragment.offset = 0 then packet.take headerLength else [])
          payload := packet.drop headerLength }
    else if first >>> 4 = 6 then
      match ipv6FragmentHeader packet with
      | .error err => .error err
      | .ok (cursor, previousNextHeader) =>
        if cursor + 8 > packet.length then .error .malformed
        else .ok
          { template :=
              if fragment.offset = 0 then
                .ipv6 (packet.take cursor) previousNextHeader (byteAt packet cursor)
              else .ipv6 [] 0 0
            payload := packet.drop (cursor + 8) }
    else .error .malformed

/-! ## Putting a datagram together

Complete means that the intervals, which do not overlap, add up to the final length. The header of the
datagram is the first fragment's, without what makes it a fragment.
-/

/-- The intervals do not overlap and end at `finalLength`, so their total tells whether bytes are
missing. -/
def isComplete (set : FragmentSet) : Bool :=
  set.template.isSome && set.finalLength = some set.payloadBytes

/-- The IPv4 header of the rebuilt datagram: no fragment fields, a new length and checksum. -/
def rebuildIpv4 (header payload : Bytes) : Bytes :=
  let flags := if (u16At header 6).testBit 14 then 2 ^ 14 else 0
  let header := overwrite header 6 (toBE 2 flags)
  let header := overwrite header 2 (toBE 2 (header.length + payload.length))
  let header := overwrite header 10 [0, 0]
  overwrite header 10 (toBE 2 (ipv4Checksum header)) ++ payload

/-- The IPv6 datagram without its Fragment header. -/
def rebuildIpv6 (lead : Bytes) (previousNextHeader : Nat) (fragmentNextHeader : UInt8)
    (payload : Bytes) : Bytes :=
  let lead := overwrite lead previousNextHeader [fragmentNextHeader]
  overwrite lead 4 (toBE 2 (lead.length + payload.length - 40)) ++ payload

def rebuild (template : HeaderTemplate) (payload : Bytes) : Except ReassemblyError Bytes :=
  match template with
  | .ipv4 header =>
    if header.length < 20 ∨ header.length + payload.length > 65535 then .error .malformed
    else .ok (rebuildIpv4 header payload)
  | .ipv6 lead previousNextHeader fragmentNextHeader =>
    if lead.length < 40 ∨ previousNextHeader ≥ lead.length
        ∨ lead.length + payload.length - 40 > 65535 then .error .malformed
    else .ok (rebuildIpv6 lead previousNextHeader fragmentNextHeader payload)

def assemble (set : FragmentSet) : Except ReassemblyError ReassembledDatagram := do
  let stored := set.fragments.toList.map Prod.snd
  let template ← set.template.elim (.error .malformed) .ok
  let packet ← rebuild template (stored.flatMap StoredFragment.payload)
  return { packet, originalFragments := stored.map StoredFragment.original }

/-! ## The reassembler

Sets of fragments under their keys, an index by deadline, and counters of what is retained in all and for
each source. A fragment is charged before it is stored, and a rejected one takes its set with it.
-/

/-- Bounded IPv4/IPv6 fragment reassembly keyed by authenticated source address. -/
structure FragmentReassembler where
  sets : ExtTreeMap ReassemblyKey FragmentSet := ∅
  expirations : Deadlines ReassemblyKey := ∅
  sourceBytes : ExtTreeMap IpAddr Nat := ∅
  retainedBytes : Nat := 0
  perSourceBytes : Nat
  globalBytes : Nat
  timeoutSeconds : Nat

namespace FragmentReassembler

/-- Creates a reassembler with exact retained-memory and timeout limits. -/
def new (perSourceBytes globalBytes timeoutSeconds : Nat) :
    Except ReassemblyError FragmentReassembler :=
  if perSourceBytes = 0 ∨ globalBytes < perSourceBytes ∨ timeoutSeconds = 0 then .error .malformed
  else .ok { perSourceBytes, globalBytes, timeoutSeconds }

def releaseUsage (r : FragmentReassembler) (set : FragmentSet) : FragmentReassembler :=
  { r with
    retainedBytes := r.retainedBytes - set.retainedBytes
    sourceBytes :=
      match r.sourceBytes[set.source]? with
      | none => r.sourceBytes
      | some bytes =>
        if bytes - set.retainedBytes = 0 then r.sourceBytes.erase set.source
        else r.sourceBytes.insert set.source (bytes - set.retainedBytes) }

def removeSet (r : FragmentReassembler) (key : ReassemblyKey) : FragmentReassembler :=
  match r.sets[key]? with
  | none => r
  | some set =>
    releaseUsage
      { r with
        sets := r.sets.erase key
        expirations := r.expirations.erase (set.expiresAt, key) } set

/-- The loop of `expire`. Every turn takes an element out of the index, so it has at most as many
turns as the index has elements. -/
def expireLoop (r : FragmentReassembler) (now : Nat) : (turns : Nat) → FragmentReassembler
  | 0 => r
  | turns + 1 =>
    match r.expirations.first? with
    | none => r
    | some (deadline, key) =>
      if deadline > now then r else expireLoop (r.removeSet key) now turns

/-- Expires old incomplete sets. -/
def expire (r : FragmentReassembler) (now : Nat) : FragmentReassembler :=
  r.expireLoop now r.expirations.size

/-- `sets.entry(key).or_insert_with(..)`. -/
def openSet (r : FragmentReassembler) (key : ReassemblyKey) (now : Nat) :
    FragmentSet × FragmentReassembler :=
  match r.sets[key]? with
  | some set => (set, r)
  | none =>
    let set : FragmentSet :=
      { source := key.source, expiresAt := saturatingAdd now r.timeoutSeconds }
    (set,
      { r with
        sets := r.sets.insert key set
        expirations := r.expirations.insert (set.expiresAt, key) })

/-- Accepted fragments never overlap, so only the two neighbours can intersect an interval. -/
def overlapsNeighbor (fragments : ExtTreeMap Nat StoredFragment) (offset stop : Nat) : Bool :=
  (fragments.toList.filter (·.1 ≤ offset)).getLast?.any
      (fun entry => entry.1 + entry.2.payload.length > offset)
    || (fragments.toList.filter (offset ≤ ·.1)).head?.any (fun entry => entry.1 < stop)

/-- The checks and updates `insert_fragment` makes on the set itself. -/
def accept (set : FragmentSet) (fragment : Fragment) (offset stop : Nat)
    (decoded : DecodedFragment) (packet : Bytes) (charge : Nat) :
    Except ReassemblyError FragmentSet :=
  if overlapsNeighbor set.fragments offset stop then .error .overlap
  else if set.finalLength.any (stop > ·) then .error .contradictory
  else if !fragment.more && (set.finalLength.any (· ≠ stop)
      || set.fragments.toList.getLast?.any fun entry =>
        entry.1 + entry.2.payload.length > stop) then .error .contradictory
  else if offset = 0 ∧ set.template.isSome then .error .overlap
  else .ok
    { set with
      finalLength := if fragment.more then set.finalLength else some stop
      template := if offset = 0 then some decoded.template else set.template
      retainedBytes := set.retainedBytes + charge
      payloadBytes := set.payloadBytes + decoded.payload.length
      fragments := set.fragments.insert offset { payload := decoded.payload, original := packet } }

/-- Stores an updated set and its charge. -/
def storeSet (r : FragmentReassembler) (key : ReassemblyKey) (set : FragmentSet) (charge : Nat) :
    FragmentReassembler :=
  { r with
    sets := r.sets.insert key set
    sourceBytes := r.sourceBytes.insert key.source (r.sourceBytes[key.source]?.getD 0 + charge)
    retainedBytes := r.retainedBytes + charge }

/-- `insert_fragment`. A rejected fragment may leave its set half updated there; `push` removes that
set at once. -/
def insertFragment (r : FragmentReassembler) (key : ReassemblyKey) (fragment : Fragment)
    (offset stop : Nat) (decoded : DecodedFragment) (packet : Bytes) (charge now : Nat) :
    Except ReassemblyError ReassemblyStatus × FragmentReassembler :=
  if r.sourceBytes[key.source]?.getD 0 + charge > r.perSourceBytes
      ∨ r.retainedBytes + charge > r.globalBytes then (.error .quotaExceeded, r)
  else
    let (set, r) := r.openSet key now
    match accept set fragment offset stop decoded packet charge with
    | .error err => (.error err, r)
    | .ok set =>
      let r := r.storeSet key set charge
      if !isComplete set then (.ok .pending, r)
      else
        let r := r.removeSet key
        match assemble set with
        | .error err => (.error err, r)
        | .ok datagram =>
          match parsePacket datagram.packet with
          | .error _ => (.error .malformed, r)
          | .ok _ => (.ok (.complete datagram), r)

/-- The closure `prepared` of `push`: the decoded fragment and the end of its interval. -/
def prepare (packet : Bytes) (fragment : Fragment) :
    Except ReassemblyError (DecodedFragment × Nat) := do
  let decoded ← decodeFragment packet fragment
  let stop := fragment.offset * 8 + decoded.payload.length
  if stop > 65535 then .error .malformed
  else if decoded.payload = [] ∨ (fragment.more ∧ decoded.payload.length % 8 ≠ 0) then
    .error .malformed
  else .ok (decoded, stop)

/-- A packet that is passed on as it came. -/
def whole (packet : Bytes) : ReassemblyStatus :=
  .complete { packet, originalFragments := [packet] }

/-- `push` for a packet that is part of a larger datagram. -/
def pushFragment (r : FragmentReassembler) (packet : Bytes) (now : Nat) (parsed : ParsedPacket)
    (fragment : Fragment) : Except ReassemblyError ReassemblyStatus × FragmentReassembler :=
  let key := ReassemblyKey.ofParsed parsed fragment
  match prepare packet fragment with
  | .error err => (.error err, r.removeSet key)
  | .ok (decoded, stop) =>
    match r.insertFragment key fragment (fragment.offset * 8) stop decoded packet
        (decoded.payload.length + packet.length) now with
    | (.error err, r) => (.error err, r.removeSet key)
    | (.ok status, r) => (.ok status, r)

/-- Submits one exact IP packet. Errors discard the affected fragment set. -/
def push (r : FragmentReassembler) (packet : Bytes) (now : Nat) :
    Except ReassemblyError ReassemblyStatus × FragmentReassembler :=
  let r := r.expire now
  match parsePacket packet with
  | .error _ => (.error .malformed, r)
  | .ok parsed =>
    match parsed.fragment with
    | none => (.ok (whole packet), r)
    | some fragment =>
      if fragment.offset = 0 ∧ !fragment.more then (.ok (whole packet), r)
      else r.pushFragment packet now parsed fragment

/-! ## Runs -/

inductive Op where
  | push (packet : Bytes) (now : Nat)
  | expire (now : Nat)

def step (r : FragmentReassembler) : Op → FragmentReassembler
  | .push packet now => (r.push packet now).2
  | .expire now => r.expire now

/-- The reassembler after a run of operations, oldest first. -/
def run (r : FragmentReassembler) (ops : List Op) : FragmentReassembler := exec step r ops

end FragmentReassembler

end Peerward.Dataplane
