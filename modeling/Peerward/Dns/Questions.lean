import Peerward.Lib.Bounded

/-!
# The two question parsers

The Linux resolver and the Android resolver each read a query with a parser of their own. The messages
come from anybody, so the reads are the bounded ones. A name is its labels in lower case, joined with dots.
-/

namespace Peerward.Dns

open Peerward.Lib Peerward.Lib.Bounded

inductive DnsError where
  | invalid
  deriving DecidableEq

abbrev Stop : Type := Bounded.Stop DnsError

def DNS_HEADER : Nat := 12
def MAX_DNS_MESSAGE : Nat := 4096

def isAsciiAlphanumeric (byte : UInt8) : Bool :=
  (48 ≤ byte && byte ≤ 57) || (65 ≤ byte && byte ≤ 90) || (97 ≤ byte && byte ≤ 122)

def toAsciiLowercase (byte : UInt8) : UInt8 := if 65 ≤ byte && byte ≤ 90 then byte + 32 else byte

/-- `labels.join(".")`. -/
def joined (labels : List Bytes) : Bytes := [46].intercalate labels

/-- `read_u16`, the same on both platforms. -/
def readU16 (message : Bytes) (offset : Nat) : Except Stop Nat :=
  if offset + 2 ≤ message.length then .ok (ofBE (slice message offset (offset + 2)))
  else .error (.refused .invalid)

/-! ## Linux -/

namespace Linux

structure Question where
  id : Nat
  flags : Nat
  name : Bytes
  qtype : Nat
  wireEnd : Nat
  udpLimit : Nat
  deriving DecidableEq

/-- Letters, digits and hyphens; other bytes, valid UTF-8 or not, are refused alike. -/
def isLabelByte (byte : UInt8) : Bool := isAsciiAlphanumeric byte || byte = 45

/-- The loop of `decode_name`. -/
def decodeNameFrom (message : Bytes) (cursor : Nat) (labels : List Bytes) (stop : Option Nat)
    (jumps expanded : Nat) : Except Stop (Bytes × Nat) :=
  match _h : message[cursor]? with
  | none => .error (.refused .invalid)
  | some length =>
    if length &&& 0xc0 = 0xc0 then
      match message[cursor + 1]? with
      | none => .error (.refused .invalid)
      | some second =>
        let target := (length &&& 0x3f).toNat * 256 + second.toNat
        if _hjump : message.length ≤ target ∨ 16 ≤ jumps then .error (.refused .invalid)
        else decodeNameFrom message target labels (some (stop.getD (cursor + 2))) (jumps + 1) expanded
    else if length &&& 0xc0 ≠ 0 ∨ 63 < length then .error (.refused .invalid)
    else if length = 0 then .ok (joined labels, stop.getD (cursor + 1))
    else
      let labelEnd := cursor + 1 + length.toNat
      if message.length < labelEnd then .error (.refused .invalid)
      else
        sliceAt message (cursor + 1) labelEnd >>= fun label =>
          if !label.all isLabelByte then .error (.refused .invalid)
          else if 254 < expanded + (length.toNat + 1) then .error (.refused .invalid)
          else decodeNameFrom message labelEnd (labels ++ [label.map toAsciiLowercase]) stop jumps
            (expanded + (length.toNat + 1))
termination_by (16 - jumps, message.length - cursor)
decreasing_by
  · exact .left _ _ (by omega)
  · have hcursor := (List.getElem?_eq_some_iff.mp _h).1
    exact .right _ (by omega)

def decodeName (message : Bytes) (start : Nat) : Except Stop (Bytes × Nat) :=
  decodeNameFrom message start [] none 0 0

/-- The loop over the additional records. -/
def readAdditional (message : Bytes) : (count cursor udpLimit : Nat) → (seenOpt : Bool) →
    Except Stop (Nat × Nat)
  | 0, cursor, udpLimit, _ => .ok (cursor, udpLimit)
  | count + 1, cursor, _, seenOpt => do
    let (owner, next) ← decodeName message cursor
    checked (rejectIf (message.length < next + 10) .invalid)
    let rrType ← readU16 message next
    let class' ← readU16 message (next + 2)
    let ttl := ofBE (← sliceAt message (next + 4) (next + 8))
    let dataLen ← readU16 message (next + 8)
    let cursor := next + 10 + dataLen
    checked (rejectIf (message.length < cursor) .invalid)
    checked (rejectIf (rrType ≠ 41 || owner ≠ [] || seenOpt || ttl &&& 0x00ff0000 ≠ 0) .invalid)
    readAdditional message count cursor (max 512 (min class' 1232)) true

def parseQuestion (message : Bytes) : Except Stop Question := do
  checked (rejectIf (message.length < DNS_HEADER || MAX_DNS_MESSAGE < message.length) .invalid)
  let flags ← readU16 message 2
  checked (rejectIf (flags &&& 0x8000 ≠ 0 || flags &&& 0x7800 ≠ 0) .invalid)
  checked (rejectIf ((← readU16 message 4) ≠ 1) .invalid)
  checked (rejectIf ((← readU16 message 6) ≠ 0) .invalid)
  checked (rejectIf ((← readU16 message 8) ≠ 0) .invalid)
  let (name, nameEnd) ← decodeName message DNS_HEADER
  let wireEnd := nameEnd + 4
  checked (rejectIf (message.length < wireEnd) .invalid)
  let qtype ← readU16 message nameEnd
  checked (rejectIf ((← readU16 message (nameEnd + 2)) ≠ 1) .invalid)
  let additional ← readU16 message 10
  let (cursor, udpLimit) ← readAdditional message additional wireEnd 512 false
  checked (rejectIf (cursor ≠ message.length) .invalid)
  return { id := ← readU16 message 0, flags, name, qtype, wireEnd, udpLimit }

end Linux

/-! ## Android -/

namespace Android

structure MobileQuestion where
  flags : Nat
  name : Bytes
  qtype : Nat
  «end» : Nat
  deriving DecidableEq

/-- Letters, digits, hyphens and underscores. -/
def isLabelByte (byte : UInt8) : Bool := isAsciiAlphanumeric byte || byte = 45 || byte = 95

/-- The loop of `decode_name`; pointers are lengths above 63 here. -/
def decodeNameFrom (message : Bytes) (cursor : Nat) (labels : List Bytes) (expanded : Nat) :
    Except Stop (Bytes × Nat) :=
  match _h : message[cursor]? with
  | none => .error (.refused .invalid)
  | some length =>
    if length = 0 then .ok (joined labels, cursor + 1)
    else if 63 < length then .error (.refused .invalid)
    else
      let stop := cursor + 1 + length.toNat
      -- `message.get(cursor..end)`
      if message.length < stop then .error (.refused .invalid)
      else
        let label := slice message (cursor + 1) stop
        if !label.all isLabelByte then .error (.refused .invalid)
        else if 254 < expanded + (length.toNat + 1) then .error (.refused .invalid)
        else decodeNameFrom message stop (labels ++ [label.map toAsciiLowercase])
          (expanded + (length.toNat + 1))
termination_by message.length - cursor
decreasing_by
  have hcursor := (List.getElem?_eq_some_iff.mp _h).1
  omega

def decodeName (message : Bytes) (start : Nat) : Except Stop (Bytes × Nat) :=
  decodeNameFrom message start [] 0

def parseQuestion (query : Bytes) : Except Stop MobileQuestion := do
  checked (rejectIf (query.length < DNS_HEADER || MAX_DNS_MESSAGE < query.length) .invalid)
  let flags ← readU16 query 2
  checked (rejectIf (flags &&& 0xf800 ≠ 0) .invalid)
  checked (rejectIf ((← readU16 query 4) ≠ 1) .invalid)
  checked (rejectIf ((← readU16 query 6) ≠ 0) .invalid)
  checked (rejectIf ((← readU16 query 8) ≠ 0) .invalid)
  checked (rejectIf (1 < (← readU16 query 10)) .invalid)
  let (name, nameEnd) ← decodeName query DNS_HEADER
  checked (rejectIf (query.length < nameEnd + 4) .invalid)
  checked (rejectIf ((← readU16 query (nameEnd + 2)) ≠ 1) .invalid)
  return { flags, name, qtype := ← readU16 query nameEnd, «end» := nameEnd + 4 }

end Android

end Peerward.Dns
