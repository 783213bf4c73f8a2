import Peerward.Dataplane.ParseChecked
import Peerward.Dataplane.Rebuild

/-!
# One boundary for parsing and reassembly

The parser and `ipv6_fragment_header` walk the extension chain each on their own. The parser is written
out once more with the place of the Fragment header it reads and of the byte that named it; that is the
place the other walk returns, so fragments are taken apart where the parser saw the header.
-/

namespace Peerward.Dataplane

open Peerward.Lib Peerward.Net

/-- A Fragment header with its place and the place of the byte that named it. -/
structure Placed where
  fragment : Fragment
  cursor : Nat
  named : Nat

/-- `parse_ipv6`'s loop; `named` is where `next` was read. -/
def parseChainAt (bytes : Bytes) (source destination : IpAddr) (related : Bool) :
    (turns : Nat) → (next : UInt8) → (named cursor : Nat) → Option Placed →
      Except ParseError (ParsedPacket × Option Placed)
  | 0, _, _, _, _ => .error .malformed
  | turns + 1, next, named, cursor, placed =>
    if isExtension next then
      if cursor + 2 > bytes.length then .error .truncated
      else if cursor + extensionLen bytes cursor > bytes.length then .error .truncated
      else parseChainAt bytes source destination related turns (byteAt bytes cursor) cursor
        (cursor + extensionLen bytes cursor) placed
    else if next = 44 then
      if cursor + 8 > bytes.length ∨ placed.isSome then .error .malformed
      else
        let found : Placed := { fragment := ipv6Fragment bytes cursor, cursor, named }
        if found.fragment.offset ≠ 0 then
          (finishTransport (bytes.drop (cursor + 8)) source destination (byteAt bytes cursor)
            (some found.fragment) bytes.length related).map (·, some found)
        else parseChainAt bytes source destination related turns (byteAt bytes cursor) cursor (cursor + 8)
          (some found)
    else (finishTransport (bytes.drop cursor) source destination next (placed.map Placed.fragment)
      bytes.length related).map (·, placed)

def parseIpv6At (bytes : Bytes) (related : Bool) : Except ParseError (ParsedPacket × Option Placed) :=
  if bytes.length < 40 then .error .truncated
  else if u16At bytes 4 + 40 ≠ bytes.length then .error .malformed
  else parseChainAt bytes (.ofV6Octets (slice bytes 8 24)) (.ofV6Octets (slice bytes 24 40)) related 8
    (byteAt bytes 6) 6 40 none

/-! ## The places change nothing -/

section Chain

variable {bytes : Bytes} {source destination : IpAddr} {related : Bool}

theorem map_fst_map {A : Type} (result : Except ParseError ParsedPacket) (a : A) :
    (result.map (·, a)).map Prod.fst = result := by
  cases result <;> rfl

theorem parseChainAt_fst (turns : Nat) (next : UInt8) (named cursor : Nat) (placed : Option Placed) :
    (parseChainAt bytes source destination related turns next named cursor placed).map Prod.fst =
      parseChain bytes source destination related turns next cursor (placed.map Placed.fragment) := by
  induction turns generalizing next named cursor placed with
  | zero => rfl
  | succ turns ih =>
      unfold parseChainAt parseChain
      split
      · split
        · rfl
        split
        · rfl
        · exact ih ..
      split
      · rw [Option.isSome_map]
        split
        · rfl
        dsimp only
        split
        · exact map_fst_map ..
        · exact ih ..
      · exact map_fst_map ..

theorem parseIpv6At_fst (bytes : Bytes) (related : Bool) :
    (parseIpv6At bytes related).map Prod.fst = parseIpv6 bytes related := by
  unfold parseIpv6At parseIpv6
  split
  · rfl
  split
  · rfl
  · exact parseChainAt_fst ..

/-! ## The place of the header -/

theorem fragment_of_finish {payload : Bytes} {protocol : UInt8} {fragment : Option Fragment}
    {packetLen : Nat} {p : ParsedPacket}
    (h : finishTransport payload source destination protocol fragment packetLen related = .ok p) :
    p.fragment = fragment := by
  unfold finishTransport at h
  split at h
  · cases h
    rfl
  · obtain ⟨t, -, rfl⟩ := map_eq_ok.mp h
    rfl

/-- A header that was read stays the one that is reported. -/
theorem placed_stays {turns : Nat} {next : UInt8} {named cursor : Nat} {found : Placed} {p : ParsedPacket}
    {placed : Option Placed}
    (h : parseChainAt bytes source destination related turns next named cursor (some found) = .ok (p, placed)) :
    placed = some found ∧ p.fragment = some found.fragment := by
  induction turns generalizing next named cursor with
  | zero => cases h
  | succ turns ih =>
      rw [parseChainAt] at h
      split at h
      · split at h
        · cases h
        split at h
        · cases h
        · exact ih h
      split at h
      · rw [if_pos (.inr rfl)] at h
        cases h
      · obtain ⟨p', hp, heq⟩ := map_eq_ok.mp h
        cases heq
        exact ⟨rfl, fragment_of_finish hp⟩

/-- **The two walks agree.** -/
theorem placed_found {turns : Nat} {next : UInt8} {named cursor : Nat} {p : ParsedPacket}
    {placed : Option Placed} {f : Fragment}
    (h : parseChainAt bytes source destination related turns next named cursor none = .ok (p, placed))
    (hfragment : p.fragment = some f) (hnamed : byteAt bytes named = next) (hbefore : named < cursor)
    (hcursor : 40 ≤ cursor) :
    ∃ found, placed = some found ∧ found.fragment = f ∧
      fragmentHeaderFrom bytes turns next named cursor = .ok (found.cursor, found.named) ∧
      ipv6Fragment bytes found.cursor = f ∧ byteAt bytes found.named = 44 ∧ found.named < found.cursor ∧
      40 ≤ found.cursor ∧ found.cursor + 8 ≤ bytes.length := by
  induction turns generalizing next named cursor with
  | zero => cases h
  | succ turns ih =>
      rw [parseChainAt] at h
      rw [fragmentHeaderFrom]
      split at h
      · next hext =>
        split at h
        · cases h
        next htwo =>
        split at h
        · cases h
        next hfits =>
        have hother : next ≠ 44 := by
          rintro rfl
          exact absurd hext (by decide)
        have hlen := eight_le_extensionLen bytes cursor
        rw [if_neg hother, if_pos hext, if_neg (by omega), if_neg hfits]
        exact ih h rfl (by omega) (by omega)
      split at h
      · next hext hnext =>
        split at h
        · cases h
        next hroom =>
        rw [not_or] at hroom
        rw [if_pos hnext]
        dsimp only at h
        -- the header the parser has just read
        obtain ⟨rfl, hread⟩ : placed = some ⟨ipv6Fragment bytes cursor, cursor, named⟩ ∧
            p.fragment = some (ipv6Fragment bytes cursor) := by
          split at h
          · obtain ⟨p', hp, heq⟩ := map_eq_ok.mp h
            cases heq
            exact ⟨rfl, fragment_of_finish hp⟩
          · exact placed_stays h
        have hsame := Option.some.inj (hread.symm.trans hfragment)
        exact ⟨_, rfl, hsame, rfl, hsame, hnamed.trans hnext, hbefore, hcursor,
          show cursor + 8 ≤ bytes.length by omega⟩
      · obtain ⟨p', hp, heq⟩ := map_eq_ok.mp h
        cases heq
        cases (fragment_of_finish hp).symm.trans hfragment

end Chain

/-- **Safe, and one boundary.** No byte string stops the parser; and where it reports a fragment of an IPv6
packet, `ipv6_fragment_header` returns the place of the header it read and of the byte that named it, and
the fragment is taken apart there. -/
theorem parsePacket_safe (bytes : Bytes) :
    Checked.parsePacket bytes = some (parsePacket bytes) ∧
    (byteAt bytes 0 >>> 4 = 6 → (parseIpv6At bytes true).map Prod.fst = parsePacket bytes) ∧
    ∀ p placed f, byteAt bytes 0 >>> 4 = 6 → parseIpv6At bytes true = .ok (p, placed) →
      p.fragment = some f → ∃ found, placed = some found ∧ found.fragment = f ∧
        ipv6FragmentHeader bytes = .ok (found.cursor, found.named) ∧
        ipv6Fragment bytes found.cursor = f ∧ byteAt bytes found.named = 44 ∧ found.named < found.cursor ∧
        decodeFragment bytes f = .ok {
          template := if f.offset = 0 then
              .ipv6 (bytes.take found.cursor) found.named (byteAt bytes found.cursor)
            else .ipv6 [] 0 0
          payload := bytes.drop (found.cursor + 8) } := by
  refine ⟨Checked.parsePacket_eq bytes, fun hsix => ?_, fun p placed f hsix h hfragment => ?_⟩
  · rw [parsePacket_v6 hsix]
    exact parseIpv6At_fst bytes true
  · unfold parseIpv6At at h
    split at h
    · cases h
    split at h
    · cases h
    obtain ⟨found, hplaced, hsame, hwalk, hread, hnamed, hbefore, hforty, hroom⟩ :=
      placed_found h hfragment rfl (by omega) le_rfl
    have hheader : ipv6FragmentHeader bytes = .ok (found.cursor, found.named) := by
      unfold ipv6FragmentHeader
      rw [if_neg (by omega)]
      exact hwalk
    exact ⟨found, hplaced, hsame, hheader, hread, hnamed, hbefore,
      (decodeFragment_v6 hsix).mpr ⟨_, _, hheader, hroom, rfl⟩⟩

end Peerward.Dataplane
