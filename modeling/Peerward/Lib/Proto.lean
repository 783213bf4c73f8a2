import Peerward.Lib.Bytes

/-!
# Protocol Buffers

The encoding of messages: base-128 varints, field keys, and the kinds of fields. A scalar field at its
default is left out, and the default of an enumeration is its first variant, whatever number that has;
a message that is present is written even when it is empty.
-/

namespace Peerward.Lib

/-- Seven bits a byte, low ones first, for a value that needs at most `fuel + 1` bytes. -/
def varintFrom : (fuel : Nat) → (n : Nat) → Bytes
  | 0, n => [UInt8.ofNat n]
  | fuel + 1, n =>
    if n < 128 then [UInt8.ofNat n] else UInt8.ofNat (n % 128 + 128) :: varintFrom fuel (n / 128)

/-- A 64-bit value needs at most ten bytes. -/
def varint (n : Nat) : Bytes := varintFrom 9 n

/-- The key of a field: its tag and wire type. -/
def fieldKey (tag wireType : Nat) : Bytes := varint (tag * 8 + wireType)

def uintField (tag n : Nat) : Bytes := if n = 0 then [] else fieldKey tag 0 ++ varint n

/-- A field of an enumeration whose first variant is `first`. -/
def enumField (tag first n : Nat) : Bytes := if n = first then [] else fieldKey tag 0 ++ varint n

/-- A field that is present, of a type written with its length. -/
def messageField (tag : Nat) (body : Bytes) : Bytes := fieldKey tag 2 ++ varint body.length ++ body

def bytesField (tag : Nat) (value : Bytes) : Bytes :=
  if value.isEmpty then [] else messageField tag value

theorem varint_ne_nil (n : Nat) : varint n ≠ [] := by
  unfold varint varintFrom
  split <;> exact List.cons_ne_nil _ _

theorem messageField_ne_nil (tag : Nat) (body : Bytes) : messageField tag body ≠ [] := by
  unfold messageField fieldKey
  rw [List.append_assoc]
  exact List.append_ne_nil_of_left_ne_nil (varint_ne_nil _) _

theorem length_varint_one {n : Nat} (h : n < 128) : (varint n).length = 1 := by
  simp [varint, varintFrom, h]

theorem length_varint_two {n : Nat} (hlow : 128 ≤ n) (h : n < 16384) : (varint n).length = 2 := by
  have hnext : n / 128 < 128 := by omega
  simp [varint, varintFrom, hnext, Nat.not_lt.mpr hlow]

theorem length_varint_three {n : Nat} (hlow : 16384 ≤ n) (h : n < 2097152) :
    (varint n).length = 3 := by
  have hfirst : ¬ n < 128 := by omega
  have hsecond : ¬ n / 128 < 128 := by omega
  have hthird : n / 128 / 128 < 128 := by omega
  simp only [varint, varintFrom, if_neg hfirst, if_neg hsecond, if_pos hthird, List.length_cons,
    List.length_nil]

/-- The length of a varint below 2^21. -/
theorem length_varint {n : Nat} (h : n < 2097152) :
    (varint n).length = if n < 128 then 1 else if n < 16384 then 2 else 3 := by
  split
  · exact length_varint_one ‹_›
  · split
    · exact length_varint_two (by omega) ‹_›
    · exact length_varint_three (by omega) h

theorem length_varint_le {n : Nat} (h : n < 2097152) : (varint n).length ≤ 3 := by
  rw [length_varint h]
  split
  · omega
  · split <;> omega

theorem length_fieldKey_one {tag wireType : Nat} (h : tag * 8 + wireType < 128) :
    (fieldKey tag wireType).length = 1 := length_varint_one h

@[simp] theorem length_messageField (tag : Nat) (body : Bytes) :
    (messageField tag body).length
      = (fieldKey tag 2).length + (varint body.length).length + body.length := by
  simp [messageField, Nat.add_assoc]

theorem length_bytesField {value : Bytes} (tag : Nat) (h : value ≠ []) :
    (bytesField tag value).length
      = (fieldKey tag 2).length + (varint value.length).length + value.length := by
  rw [bytesField, if_neg (by simpa using h), length_messageField]

/-- The length of a field depends on the length of its value only. -/
theorem length_bytesField_congr (tag : Nat) {a b : Bytes} (h : a.length = b.length) :
    (bytesField tag a).length = (bytesField tag b).length := by
  have hempty : a = [] ↔ b = [] := by
    rw [← List.length_eq_zero_iff, ← List.length_eq_zero_iff, h]
  by_cases ha : a = []
  · rw [ha, hempty.mp ha]
  · rw [length_bytesField tag ha, length_bytesField tag (mt hempty.mpr ha), h]

end Peerward.Lib
