import Peerward.Lib.Bytes
import Peerward.Net.IpNet

/-!
# Printed addresses

`Display` of the standard library's addresses, as bytes.
-/

namespace Peerward.Net

open Peerward.Lib

def digits (base n : Nat) : Bytes := (Nat.toDigits base n).map fun c => c.toNat.toUInt8

def dotted (bits : BitVec 32) : Bytes :=
  [46].intercalate
    ([24, 16, 8, 0].map fun shift => digits 10 ((bits >>> shift).toNat % 256))

/-- `Ipv6Addr::segments`. -/
def segments (bits : BitVec 128) : List Nat :=
  [112, 96, 80, 64, 48, 32, 16, 0].map fun shift => (bits >>> shift).toNat % 65536

/-- A run of zero segments: where it starts, and its length. -/
structure Span where
  start : Nat := 0
  len : Nat := 0

/-- The first of the longest runs of zeros, from segment `i` on. -/
def longestZeros : List Nat → Nat → Span → Span → Span
  | [], _, longest, _ => longest
  | segment :: rest, i, longest, current =>
    if segment = 0 then
      let current : Span := { start := if current.len = 0 then i else current.start,
                              len := current.len + 1 }
      longestZeros rest (i + 1) (if longest.len < current.len then current else longest) current
    else longestZeros rest (i + 1) longest {}

def colons (parts : List Nat) : Bytes := [58].intercalate (parts.map (digits 16))

def displayV6 (bits : BitVec 128) : Bytes :=
  if bits >>> 32 = 0xffff#128 then
    [58, 58, 102, 102, 102, 102, 58] ++ dotted (bits.setWidth 32)
  else
    let parts := segments bits
    let longest := longestZeros parts 0 {} {}
    if 1 < longest.len then
      colons (parts.take longest.start) ++ [58, 58] ++ colons (parts.drop (longest.start + longest.len))
    else colons parts

/-- `to_string`. -/
def IpAddr.display : IpAddr → Bytes
  | .v4 bits => dotted bits
  | .v6 bits => displayV6 bits

example : (IpAddr.v4 0x0A070001#32).display = "10.7.0.1".toUTF8.toList := by decide +kernel

example : (IpAddr.v6 0xfd420000000000000000000000000002#128).display = "fd42::2".toUTF8.toList := by
  decide +kernel

end Peerward.Net
