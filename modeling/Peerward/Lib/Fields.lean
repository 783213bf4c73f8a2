import Peerward.Lib.Checksum

/-!
# Fields at fixed places

Reading and writing the fields of a packet header by position. Reads past the end return zero; every
caller checks lengths first, as the indexing it models would otherwise panic.
-/

namespace Peerward.Lib

/-- `bytes[i]`. -/
def byteAt (bytes : Bytes) (i : Nat) : UInt8 := bytes.getD i 0

/-- `u16::from_be_bytes([bytes[i], bytes[i + 1]])`. -/
def u16At (bytes : Bytes) (i : Nat) : Nat := word (byteAt bytes i) (byteAt bytes (i + 1))

/-- `u32::from_be_bytes` of the four bytes at `i`. -/
def u32At (bytes : Bytes) (i : Nat) : Nat := u16At bytes i * 2 ^ 16 + u16At bytes (i + 2)

theorem word_lt (high low : UInt8) : word high low < 2 ^ 16 := by
  have := high.toNat_lt
  have := low.toNat_lt
  unfold word
  omega

theorem u16At_lt (bytes : Bytes) (i : Nat) : u16At bytes i < 2 ^ 16 := word_lt _ _

/-! ## Reading -/

theorem byteAt_append_left {front : Bytes} {i : Nat} (h : i < front.length) (back : Bytes) :
    byteAt (front ++ back) i = byteAt front i := by
  simp [byteAt, List.getD, List.getElem?_append_left h]

theorem byteAt_drop (bytes : Bytes) (n i : Nat) : byteAt (bytes.drop n) i = byteAt bytes (n + i) := by
  simp [byteAt, List.getD]

theorem byteAt_take {bytes : Bytes} {n i : Nat} (h : i < n) :
    byteAt (bytes.take n) i = byteAt bytes i := by
  simp [byteAt, List.getD, h]

/-- Two byte strings that agree on a range have the same slice there. -/
theorem slice_congr {a b : Bytes} {start stop : Nat} (ha : stop ≤ a.length) (hb : stop ≤ b.length)
    (h : ∀ i, start ≤ i → i < stop → byteAt a i = byteAt b i) : slice a start stop = slice b start stop := by
  apply List.ext_getElem?
  intro j
  rw [getElem?_slice, getElem?_slice]
  split
  · next hj =>
    have hbyte := h (start + j) (by omega) hj
    simp only [byteAt, List.getD] at hbyte
    rw [List.getElem?_eq_getElem (show start + j < a.length by omega),
      List.getElem?_eq_getElem (show start + j < b.length by omega)] at hbyte ⊢
    exact congrArg some hbyte
  · rfl

/-! ## Writing

A packet is built by writing fields at fixed places of a byte string. The lemmas say what a field reads
after a write: the value written, or what was there, when the places do not meet.
-/

theorem byteAt_overwrite {bytes body : Bytes} {start : Nat}
    (h : start + body.length ≤ bytes.length) (i : Nat) :
    byteAt (overwrite bytes start body) i =
      if start ≤ i ∧ i < start + body.length then byteAt body (i - start) else byteAt bytes i := by
  unfold byteAt
  rw [List.getD, getElem?_overwrite h]
  split <;> rfl

theorem toBE_two (n : Nat) : toBE 2 n = [UInt8.ofNat (n / 256), UInt8.ofNat n] := rfl

/-- Reading a 16-bit field back. -/
theorem word_ofNat {n : Nat} (h : n < 2 ^ 16) :
    word (UInt8.ofNat (n / 256)) (UInt8.ofNat n) = n := by
  simp only [word, UInt8.toNat_ofNat']
  omega

theorem u16At_overwrite {bytes : Bytes} {start n : Nat} (h : start + 2 ≤ bytes.length)
    (hn : n < 2 ^ 16) : u16At (overwrite bytes start (toBE 2 n)) start = n := by
  have hlen : start + (toBE 2 n).length ≤ bytes.length := by simpa using h
  rw [u16At, byteAt_overwrite hlen, byteAt_overwrite hlen, if_pos (by simp), if_pos (by simp),
    Nat.sub_self, Nat.add_sub_cancel_left]
  exact word_ofNat hn

/-- A write leaves other fields alone. -/
theorem u16At_overwrite_ne {bytes body : Bytes} {start i : Nat}
    (h : start + body.length ≤ bytes.length) (hi : i + 2 ≤ start ∨ start + body.length ≤ i) :
    u16At (overwrite bytes start body) i = u16At bytes i := by
  rw [u16At, byteAt_overwrite h, byteAt_overwrite h, if_neg (by omega), if_neg (by omega), u16At]

/-- Byte strings are equal when they agree at every position. -/
theorem ext_byteAt {a b : Bytes} (hlen : a.length = b.length)
    (h : ∀ i, i < a.length → byteAt a i = byteAt b i) : a = b := by
  apply List.ext_getElem hlen
  intro i ha hb
  have hbyte := h i ha
  simpa only [byteAt, List.getD, List.getElem?_eq_getElem ha, List.getElem?_eq_getElem hb,
    Option.getD_some] using hbyte

/-- A 16-bit field is the encoding of what is read from it. -/
theorem toBE_u16At (bytes : Bytes) (i : Nat) :
    toBE 2 (u16At bytes i) = [byteAt bytes i, byteAt bytes (i + 1)] := by
  have hlow := (byteAt bytes (i + 1)).toNat_lt
  rw [toBE_two, u16At, word]
  congr 1
  · rw [show ((byteAt bytes i).toNat * 256 + (byteAt bytes (i + 1)).toNat) / 256 =
      (byteAt bytes i).toNat by omega, UInt8.ofNat_toNat]
  · congr 1
    apply UInt8.toNat.inj
    rw [UInt8.toNat_ofNat']
    omega

/-- Replacing a word at an even position replaces its part of the sum. -/
theorem checksumWords_overwrite {bytes : Bytes} {start : Nat} (heven : start % 2 = 0)
    (h : start + 2 ≤ bytes.length) (high low : UInt8) :
    checksumWords 0 (overwrite bytes start [high, low]) =
      word high low + checksumWords 0 (overwrite bytes start [0, 0]) := by
  have hfront : (bytes.take start).length % 2 = 0 := by
    rw [List.length_take]
    omega
  have hsum : ∀ a b : UInt8, checksumWords 0 (overwrite bytes start [a, b]) =
      word a b + (checksumWords 0 (bytes.take start) +
        checksumWords 0 (bytes.drop (start + 2))) := by
    intro a b
    show checksumWords 0 (bytes.take start ++ [a, b] ++ bytes.drop (start + 2)) = _
    rw [List.append_assoc, checksumWords_append hfront]
    show checksumWords (checksumWords 0 (bytes.take start) + word a b) (bytes.drop (start + 2)) = _
    have hadd := checksumWords_add (checksumWords 0 (bytes.take start) + word a b) 0
      (bytes.drop (start + 2))
    rw [Nat.add_zero] at hadd
    rw [hadd]
    omega
  rw [hsum high low, hsum 0 0]
  show _ = word high low + (0 + _)
  omega

/-- Writing what is there already changes nothing. -/
theorem overwrite_same {bytes : Bytes} {start : Nat} (h : start + 2 ≤ bytes.length)
    {high low : UInt8} (hhigh : byteAt bytes start = high) (hlow : byteAt bytes (start + 1) = low) :
    overwrite bytes start [high, low] = bytes := by
  have hroom : start + [high, low].length ≤ bytes.length := h
  apply ext_byteAt (length_overwrite hroom)
  intro i _
  rw [byteAt_overwrite hroom]
  split
  · next hi =>
    simp only [List.length_cons, List.length_nil] at hi
    obtain heq | heq : i = start ∨ i = start + 1 := by omega
    · rw [heq, Nat.sub_self, hhigh]
      rfl
    · rw [heq, Nat.add_sub_cancel_left, hlow]
      rfl
  · rfl

/-- The second of two writes to one place counts. -/
theorem overwrite_overwrite {bytes x y : Bytes} {start : Nat} (h : start + x.length ≤ bytes.length)
    (hxy : x.length = y.length) :
    overwrite (overwrite bytes start x) start y = overwrite bytes start y := by
  have hy : start + y.length ≤ bytes.length := by omega
  have hx : start + y.length ≤ (overwrite bytes start x).length := by rwa [length_overwrite h]
  apply ext_byteAt
  · rw [length_overwrite hx, length_overwrite hy, length_overwrite h]
  intro i _
  rw [byteAt_overwrite hx, byteAt_overwrite hy, byteAt_overwrite h, hxy]
  split <;> rfl

end Peerward.Lib
