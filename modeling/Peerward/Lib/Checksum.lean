import Peerward.Lib.Bytes

/-!
# The Internet checksum

Sums of big-endian 16-bit words with the carries folded back in. Folding keeps the sum modulo
`2 ^ 16 - 1` and never turns a positive sum into zero; that gives it the closed form `foldCarry_eq`,
and the closed form is all that checksum arguments need.
-/

namespace Peerward.Lib

/-- `u16::from_be_bytes` of two bytes. -/
def word (high low : UInt8) : Nat := high.toNat * 256 + low.toNat

/-- The words of a byte string added to `sum`; an odd last byte counts as the high half of a word.
The source's `u32` cannot overflow on strings of up to 65,575 bytes. -/
def checksumWords (sum : Nat) : Bytes → Nat
  | [] => sum
  | [last] => sum + last.toNat * 256
  | high :: low :: rest => checksumWords (sum + word high low) rest

/-- At most `fuel` rounds of `while sum > 0xffff`. -/
def foldRounds : (fuel : Nat) → (sum : Nat) → Nat
  | 0, sum => sum
  | fuel + 1, sum => if sum > 0xffff then foldRounds fuel (sum % 2 ^ 16 + sum / 2 ^ 16) else sum

/-- The `while` loop; every round makes the sum smaller, so `sum` rounds are enough. -/
def foldCarry (sum : Nat) : Nat := foldRounds sum sum

/-! ## Folding

The fold of a sum is the sum modulo 65535, in the representative between 1 and 65535 if the sum is
positive. Everything about checksums is about that remainder.
-/

theorem foldRounds_eq {fuel sum : Nat} (h : sum ≤ fuel) :
    foldRounds fuel sum = if sum = 0 then 0 else (sum - 1) % 65535 + 1 := by
  induction fuel generalizing sum with
  | zero =>
      have hzero : sum = 0 := by omega
      simp [hzero, foldRounds]
  | succ fuel ih =>
      unfold foldRounds
      split
      · next hbig =>
        rw [ih (by omega), if_neg (by omega), if_neg (by omega)]
        omega
      · next hsmall =>
        split
        · omega
        · rw [Nat.mod_eq_of_lt (by omega)]
          omega

/-- The fold of a positive sum is its remainder between 1 and 65535. -/
theorem foldCarry_eq (sum : Nat) : foldCarry sum = if sum = 0 then 0 else (sum - 1) % 65535 + 1 :=
  foldRounds_eq le_rfl

theorem foldCarry_le (sum : Nat) : foldCarry sum ≤ 65535 := by
  rw [foldCarry_eq]
  split <;> omega

/-- **The complement of a fold is a checksum.** -/
theorem foldCarry_add_complement (sum : Nat) :
    foldCarry (sum + (65535 - foldCarry sum)) = 65535 := by
  rw [foldCarry_eq, foldCarry_eq]
  split <;> split <;> omega

/-- A word that completes a positive sum is its complement, up to the two spellings of zero. -/
theorem eq_complement_of_foldCarry {sum check : Nat} (hsum : 0 < sum) (hcheck : check < 65535)
    (h : foldCarry (sum + check) = 65535) : check = 65535 - foldCarry sum := by
  rw [foldCarry_eq] at h ⊢
  split at h
  · omega
  · rw [if_neg (by omega)]
    omega

/-! ## Summing -/

theorem checksumWords_add (a b : Nat) (bytes : Bytes) :
    checksumWords (a + b) bytes = a + checksumWords b bytes := by
  induction b, bytes using checksumWords.induct with
  | case1 sum => rfl
  | case2 sum last => simp [checksumWords, Nat.add_assoc]
  | case3 sum high low rest ih => rw [checksumWords, checksumWords, Nat.add_assoc, ih]

/-- Sums split at even positions. -/
theorem checksumWords_append {front : Bytes} (h : front.length % 2 = 0) (sum : Nat) (back : Bytes) :
    checksumWords sum (front ++ back) = checksumWords (checksumWords sum front) back := by
  induction sum, front using checksumWords.induct with
  | case1 sum => rfl
  | case2 sum last => simp at h
  | case3 sum high low rest ih =>
      apply ih
      simp only [List.length_cons] at h
      omega

end Peerward.Lib
