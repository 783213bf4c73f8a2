import Mathlib

/-!
# The retired-id window

`Retired` remembers which frame ids are finished: a bitmap over the 1024 ids up to the highest one
seen, and everything older counts as retired. Inserting a larger id shifts the whole bitmap, word by
word. `contains_insert` says that the shifting is invisible: one insertion adds its id and whatever
falls behind the new horizon, and forgets nothing.
-/

namespace Peerward.Carrier

/-- A fixed horizon of 1024 ids in sixteen 64-bit words. -/
structure Retired where
  highest : Nat := 0
  bits : Fin 16 → BitVec 64 := fun _ => 0

namespace Retired

/-- The word an age falls into. -/
def word (age : Nat) (h : age < 1024) : Fin 16 := ⟨age / 64, by omega⟩

def contains (retired : Retired) (id : Nat) : Bool :=
  if id > retired.highest then false
  else
    let age := retired.highest - id
    if h : age < 1024 then retired.bits (word age h) &&& (1#64 <<< (age % 64)) ≠ 0 else true

/-- The loop of `insert` over the words: the bitmap moved up by `shift` places. -/
def shiftBits (old : Fin 16 → BitVec 64) (shift : Nat) : Fin 16 → BitVec 64 := fun index =>
  let words := shift / 64
  let bits := shift % 64
  if words ≤ index then
    let moved := old ⟨index - words, by omega⟩ <<< bits
    if bits ≠ 0 ∧ words < index then moved ||| old ⟨index - words - 1, by omega⟩ >>> (64 - bits)
    else moved
  else 0

/-- The first half of `insert`: move the horizon up to a new highest id. -/
def advance (retired : Retired) (id : Nat) : Retired :=
  if id > retired.highest then
    { highest := id, bits := shiftBits retired.bits (min (id - retired.highest) 1024) }
  else retired

/-- The second half of `insert`: set the bit of an id within the horizon. -/
def mark (retired : Retired) (id : Nat) : Retired :=
  let age := retired.highest - id
  if h : age < 1024 then
    { retired with
      bits := Function.update retired.bits (word age h)
        (retired.bits (word age h) ||| (1#64 <<< (age % 64))) }
  else retired

def insert (retired : Retired) (id : Nat) : Retired := (retired.advance id).mark id

/-! ## Single bits

The window is sixteen words. One lemma says what shifting does to the bit of an age, and everything after
it is about ages.
-/

/-- The bit of an age; ages outside the window have none. -/
def bit (bits : Fin 16 → BitVec 64) (age : Nat) : Bool :=
  if h : age < 1024 then (bits (word age h)).getLsbD (age % 64) else false

theorem getLsbD_one_shiftLeft {k i : Nat} (hi : i < 64) :
    (1#64 <<< k).getLsbD i = decide (i = k) := by
  rw [BitVec.getLsbD_shiftLeft, BitVec.getLsbD_one, Bool.eq_iff_iff]
  simp only [Bool.and_eq_true, decide_eq_true_eq, Bool.not_eq_true', decide_eq_false_iff_not]
  omega

theorem and_one_shiftLeft_ne_zero (x : BitVec 64) {k : Nat} (hk : k < 64) :
    x &&& (1#64 <<< k) ≠ 0 ↔ x.getLsbD k = true := by
  constructor
  · intro h
    by_contra hbit
    refine h (BitVec.eq_of_getLsbD_eq fun i hi => ?_)
    rw [BitVec.getLsbD_and, getLsbD_one_shiftLeft hi]
    by_cases hik : i = k
    · simpa [hik] using hbit
    · simp [hik]
  · intro hbit hzero
    have hk' : (x &&& (1#64 <<< k)).getLsbD k = true := by
      rw [BitVec.getLsbD_and, getLsbD_one_shiftLeft hk, hbit]
      simp
    rw [hzero] at hk'
    simp at hk'

theorem contains_eq (retired : Retired) (id : Nat) :
    retired.contains id = true ↔ id ≤ retired.highest ∧
      (1024 ≤ retired.highest - id ∨ bit retired.bits (retired.highest - id) = true) := by
  unfold contains bit
  by_cases hid : id > retired.highest
  · simp only [hid, if_true]
    constructor
    · simp
    · omega
  · simp only [hid, if_false]
    by_cases hage : retired.highest - id < 1024
    · simp only [hage, dif_pos, decide_eq_true_eq,
        and_one_shiftLeft_ne_zero _ (Nat.mod_lt _ (by omega : 64 > 0))]
      constructor
      · intro h
        exact ⟨by omega, .inr h⟩
      · rintro ⟨-, h | h⟩
        · omega
        · exact h
    · simp only [hage, dif_neg, not_false_eq_true, true_iff]
      exact ⟨by omega, .inl (by omega)⟩

theorem bit_eq {bits : Fin 16 → BitVec 64} {age : Nat} (index : Fin 16) (offset : Nat)
    (hoffset : offset < 64) (hage : age = 64 * index + offset) :
    bit bits age = (bits index).getLsbD offset := by
  have hlt : age < 1024 := by omega
  have hword : word age hlt = index := Fin.ext (by simp only [word]; omega)
  rw [bit, dif_pos hlt, hword, show age % 64 = offset by omega]

/-- Shifting by words and by bits moves every single bit by the whole distance. -/
theorem bit_shiftBits (old : Fin 16 → BitVec 64) (shift age : Nat) (hage : age < 1024) :
    bit (shiftBits old shift) age = (decide (shift ≤ age) && bit old (age - shift)) := by
  have hoffset : age % 64 < 64 := Nat.mod_lt _ (by omega)
  have hindex : age / 64 < 16 := by omega
  rw [bit_eq ⟨age / 64, hindex⟩ (age % 64) hoffset (by simp only []; omega)]
  simp only [shiftBits]
  by_cases hwords : shift / 64 ≤ age / 64
  · rw [if_pos hwords]
    -- what the word itself contributes
    have hmoved : (old ⟨age / 64 - shift / 64, by omega⟩ <<< (shift % 64)).getLsbD (age % 64) =
        (decide (shift % 64 ≤ age % 64) && bit old (age - shift)) := by
      rw [BitVec.getLsbD_shiftLeft]
      by_cases hbits : shift % 64 ≤ age % 64
      · rw [bit_eq ⟨age / 64 - shift / 64, by omega⟩ (age % 64 - shift % 64) (by omega)
          (by simp only []; omega)]
        simp [hbits, hoffset]
      · simp [hbits]
    split
    · next hcarry =>
      -- the bits carried over from the word below
      rw [BitVec.getLsbD_or, hmoved, BitVec.getLsbD_ushiftRight]
      by_cases hbits : shift % 64 ≤ age % 64
      · have hnone : (old ⟨age / 64 - shift / 64 - 1, by omega⟩).getLsbD
            (64 - shift % 64 + age % 64) = false := BitVec.getLsbD_of_ge _ _ (by omega)
        simp [hnone, hbits, show shift ≤ age by omega]
      · rw [bit_eq ⟨age / 64 - shift / 64 - 1, by omega⟩ (64 - shift % 64 + age % 64) (by omega)
          (by simp only []; omega)]
        simp [hbits, show shift ≤ age by omega]
    · next hcarry =>
      rw [hmoved, show decide (shift % 64 ≤ age % 64) = decide (shift ≤ age) from
        decide_eq_decide.mpr (by omega)]
  · rw [if_neg hwords]
    simp [show ¬ shift ≤ age by omega]

/-! ## Insertion -/

theorem bit_mark (retired : Retired) (id age : Nat) :
    bit (retired.mark id).bits age =
      (bit retired.bits age || decide (age < 1024 ∧ age = retired.highest - id)) := by
  unfold mark
  by_cases hid : retired.highest - id < 1024
  · simp only [hid, dif_pos]
    by_cases hage : age < 1024
    · simp only [bit, hage, dif_pos, true_and]
      by_cases hword : word age hage = word (retired.highest - id) hid
      · have hoffset : age % 64 < 64 := Nat.mod_lt _ (by omega)
        rw [hword, Function.update_self, BitVec.getLsbD_or, getLsbD_one_shiftLeft hoffset]
        have hdiv : age / 64 = (retired.highest - id) / 64 := congrArg Fin.val hword
        congr 1
        exact decide_eq_decide.mpr (by omega)
      · rw [Function.update_of_ne hword]
        have hne : age ≠ retired.highest - id := by
          rintro rfl
          exact hword rfl
        simp [hne]
    · simp [bit, hage]
  · simp only [hid, dif_neg, not_false_eq_true]
    have hne : ¬ (age < 1024 ∧ age = retired.highest - id) := by omega
    simp [hne]

theorem mark_highest (retired : Retired) (id : Nat) : (retired.mark id).highest = retired.highest := by
  unfold mark
  simp only
  split <;> rfl

theorem advance_highest (retired : Retired) (id : Nat) :
    (retired.advance id).highest = max retired.highest id := by
  unfold advance
  split
  · simp only
    omega
  · omega

theorem insert_highest (retired : Retired) (id : Nat) :
    (retired.insert id).highest = max retired.highest id := by
  rw [insert, mark_highest, advance_highest]

/-- Moving the horizon only retires what falls behind it. -/
theorem contains_advance (retired : Retired) (id q : Nat) :
    (retired.advance id).contains q = true ↔ retired.contains q = true ∨ q + 1024 ≤ id := by
  rw [contains_eq, contains_eq, advance_highest]
  by_cases hid : id > retired.highest
  · have hbits : (retired.advance id).bits =
        shiftBits retired.bits (min (id - retired.highest) 1024) := by simp [advance, hid]
    rw [hbits]
    by_cases hage : max retired.highest id - q < 1024
    · rw [bit_shiftBits _ _ _ hage, Bool.and_eq_true, decide_eq_true_eq]
      by_cases hq : q ≤ retired.highest
      · by_cases hshift : min (id - retired.highest) 1024 ≤ max retired.highest id - q
        · rw [show max retired.highest id - q - min (id - retired.highest) 1024 =
            retired.highest - q by omega]
          constructor
          · rintro ⟨-, h | h⟩
            · omega
            · exact .inl ⟨hq, .inr h.2⟩
          · rintro (⟨-, h | h⟩ | h)
            · omega
            · exact ⟨by omega, .inr ⟨hshift, h⟩⟩
            · omega
        · omega
      · constructor
        · rintro ⟨-, h | h⟩ <;> omega
        · rintro (⟨h, -⟩ | h) <;> omega
    · constructor
      · rintro ⟨-, -⟩
        exact .inr (by omega)
      · rintro -
        exact ⟨by omega, .inl (by omega)⟩
  · rw [show retired.advance id = retired by simp [advance, hid],
      show max retired.highest id = retired.highest by omega]
    constructor
    · exact .inl
    · rintro (h | h)
      · exact h
      · exact ⟨by omega, .inl (by omega)⟩

/-- **One insertion.** It adds its id and what falls behind the horizon, and forgets nothing. -/
theorem contains_insert (retired : Retired) (id q : Nat) :
    (retired.insert id).contains q = true ↔
      q = id ∨ retired.contains q = true ∨ q + 1024 ≤ id := by
  rw [← contains_advance, insert, contains_eq, contains_eq, mark_highest, bit_mark, Bool.or_eq_true,
    decide_eq_true_eq]
  have hhighest := advance_highest retired id
  by_cases hq : q ≤ (retired.advance id).highest
  · by_cases hage : 1024 ≤ (retired.advance id).highest - q
    · simp [hq, hage]
    · simp only [hq, hage, true_and, false_or]
      rw [or_comm]
      refine or_congr_left ?_
      omega
  · simp only [hq, false_and, or_false, false_iff]
    omega

theorem contains_insert_self (retired : Retired) (id : Nat) :
    (retired.insert id).contains id = true := (contains_insert retired id id).mpr (.inl rfl)

theorem contains_insert_of_contains {retired : Retired} {q : Nat} (h : retired.contains q = true)
    (id : Nat) : (retired.insert id).contains q = true :=
  (contains_insert retired id q).mpr (.inr (.inl h))

end Retired

end Peerward.Carrier
