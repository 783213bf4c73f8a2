import Peerward.Lib.Bytes

/-!
# Identifiers and text

`peerward_types` wraps every identifier in its own newtype around a version 4 UUID. The newtypes
differ in name only, so they are abbreviations of one structure here; the check of `from_uuid` is
its field.

A Rust `String` is a byte string that is valid UTF-8, compared and measured by its bytes.
-/

namespace Peerward.Types

open Std Peerward.Lib

/-- Version 4 (random) and RFC 4122 variant. -/
def isRandom (value : BitVec 128) : Bool :=
  value.extractLsb' 76 4 = 4#4 && value.extractLsb' 62 2 = 2#2

/-- `uuid::Uuid`. -/
abbrev Uuid := BitVec 128

instance : TransOrd Uuid := inferInstanceAs (TransOrd (BitVec 128))

instance : LawfulEqOrd Uuid := inferInstanceAs (LawfulEqOrd (BitVec 128))

/-- `get_version_num`. -/
def versionNum (id : Uuid) : Nat := (id.extractLsb' 76 4).toNat

/-- A UUID that `from_uuid` accepts. -/
structure Id where
  value : BitVec 128
  random : isRandom value = true
  deriving DecidableEq

namespace Id

/-- `from_uuid`. -/
def fromUuid (value : BitVec 128) : Option Id :=
  if h : isRandom value = true then some ⟨value, h⟩ else none

/-- `Uuid::from_slice` and `from_uuid`. -/
def fromSlice (bytes : Bytes) : Option Id :=
  if bytes.length = 16 then fromUuid (BitVec.ofNat 128 (ofBE bytes)) else none

/-- `as_bytes`. -/
def asBytes (id : Id) : Bytes := toBE 16 id.value.toNat

instance : Ord Id := ⟨compareOn value⟩

instance : TransOrd Id := inferInstanceAs (TransCmp (compareOn value))

instance : LawfulEqOrd Id where
  eq_of_compare := by
    rintro ⟨a, _⟩ ⟨b, _⟩ h
    have hval : a = b := LawfulEqOrd.eq_of_compare (show compare a b = .eq from h)
    cases hval
    rfl

@[simp] theorem length_asBytes (id : Id) : id.asBytes.length = 16 := length_toBE _ _

/-- Reading an identifier back from its bytes. -/
theorem fromUuid_asBytes (id : Id) : fromUuid (BitVec.ofNat 128 (ofBE id.asBytes)) = some id := by
  have hlt : id.value.toNat < 256 ^ 16 := by
    have := id.value.isLt
    omega
  rw [asBytes, ofBE_toBE_of_lt hlt, BitVec.ofNat_toNat, BitVec.setWidth_eq, fromUuid,
    dif_pos id.random]

theorem fromSlice_asBytes (id : Id) : fromSlice id.asBytes = some id := by
  rw [fromSlice, if_pos (length_asBytes id), fromUuid_asBytes]

/-- What was read is what was written. -/
theorem asBytes_of_fromSlice {bytes : Bytes} {id : Id} (h : fromSlice bytes = some id) :
    id.asBytes = bytes := by
  unfold fromSlice fromUuid at h
  split at h
  · next hlength =>
      split at h
      · have hlt : ofBE bytes < 2 ^ 128 := by
          have := ofBE_lt bytes
          rw [hlength] at this
          omega
        rw [← Option.some.inj h]
        show toBE 16 (BitVec.ofNat 128 (ofBE bytes)).toNat = bytes
        rw [BitVec.toNat_ofNat, Nat.mod_eq_of_lt hlt, ← hlength, toBE_ofBE]
      · cases h
  · cases h

end Id

/-! ## Small identifiers -/

theorem random_one : isRandom 0x00000000000040008000000000000001#128 = true := by decide
theorem random_two : isRandom 0x00000000000040008000000000000002#128 = true := by decide
theorem random_three : isRandom 0x00000000000040008000000000000003#128 = true := by decide
theorem random_four : isRandom 0x00000000000040008000000000000004#128 = true := by decide
theorem random_five : isRandom 0x00000000000040008000000000000005#128 = true := by decide
theorem random_ten : isRandom 0x0000000000004000800000000000000a#128 = true := by decide

abbrev PeerId := Id
abbrev RuleId := Id
abbrev MeshId := Id
abbrev RelayId := Id
abbrev AttachmentId := Id
abbrev CredentialSerial := Id

/-- A 32-byte public key; arrays compare like big-endian numbers. -/
abbrev Key := BitVec 256

instance : TransOrd Key := inferInstanceAs (TransOrd (BitVec 256))

instance : LawfulEqOrd Key := inferInstanceAs (LawfulEqOrd (BitVec 256))

/-- `std::str::from_utf8` accepts the bytes. -/
def isUtf8 (bytes : Bytes) : Bool := ByteArray.validateUTF8 ⟨bytes.toArray⟩

/-- A Rust `String`. -/
structure Text where
  bytes : Bytes
  utf8 : isUtf8 bytes = true
  deriving DecidableEq

namespace Text

/-- `std::str::from_utf8`. -/
def fromUtf8 (bytes : Bytes) : Option Text :=
  if h : isUtf8 bytes = true then some ⟨bytes, h⟩ else none

instance : Ord Text := ⟨compareOn bytes⟩

instance : TransOrd Text := inferInstanceAs (TransCmp (compareOn bytes))

instance : LawfulEqOrd Text where
  eq_of_compare := by
    rintro ⟨a, _⟩ ⟨b, _⟩ h
    have hval : a = b := LawfulEqOrd.eq_of_compare (show compare a b = .eq from h)
    cases hval
    rfl

/-- `chars`. -/
def chars (text : Text) : List Char := ((String.fromUTF8? ⟨text.bytes.toArray⟩).getD "").toList

@[simp] theorem fromUtf8_bytes (text : Text) : fromUtf8 text.bytes = some text := by
  rw [fromUtf8, dif_pos text.utf8]

end Text

end Peerward.Types
