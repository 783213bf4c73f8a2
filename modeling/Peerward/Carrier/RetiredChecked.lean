import Peerward.Carrier.Retired

/-!
# The retired-id window, with its checks

`contains` and `insert` once more, with everything that would stop the program: a difference below zero,
a word outside the sixteen, a shift by the width of a word or more. None of it happens, and a run of
insertions refines the set of the ids inserted.
-/

namespace Peerward.Carrier.Retired

/-- `a - b` on a `u64`. -/
def difference (a b : Nat) : Option Nat := if b ≤ a then some (a - b) else none

/-- `x << distance` on a `u64`. -/
def shiftUp (x : BitVec 64) (distance : Nat) : Option (BitVec 64) :=
  if distance < 64 then some (x <<< distance) else none

/-- `x >> distance` on a `u64`. -/
def shiftDown (x : BitVec 64) (distance : Nat) : Option (BitVec 64) :=
  if distance < 64 then some (x >>> distance) else none

/-- `bits[index]`. -/
def wordAt (bits : Fin 16 → BitVec 64) (index : Nat) : Option (BitVec 64) :=
  if h : index < 16 then some (bits ⟨index, h⟩) else none

/-- `bits[index] = word`. -/
def setWord (bits : Fin 16 → BitVec 64) (index : Nat) (word : BitVec 64) : Option (Fin 16 → BitVec 64) :=
  if h : index < 16 then some (Function.update bits ⟨index, h⟩ word) else none

def containsChecked (retired : Retired) (id : Nat) : Option Bool :=
  if id > retired.highest then some false
  else do
    let age ← difference retired.highest id
    if age ≥ 1024 then return true
    let held ← wordAt retired.bits (age / 64)
    let mask ← shiftUp 1 (age % 64)
    return held &&& mask ≠ 0

/-- One turn of the loop of `insert`. -/
def moveWord (old : Fin 16 → BitVec 64) (words places : Nat) (bits : Fin 16 → BitVec 64) (index : Nat) :
    Option (Fin 16 → BitVec 64) := do
  let below ← difference index words
  let moved ← shiftUp (← wordAt old below) places
  let bits ← setWord bits index moved
  if places ≠ 0 ∧ index > words then
    let carried ← shiftDown (← wordAt old (← difference below 1)) (← difference 64 places)
    setWord bits index ((← wordAt bits index) ||| carried)
  else return bits

def advanceChecked (retired : Retired) (id : Nat) : Option Retired :=
  if id > retired.highest then do
    let shift := min (← difference id retired.highest) 1024
    let words := shift / 64
    let bits ← (List.range' words (16 - words)).foldlM (moveWord retired.bits words (shift % 64))
      (fun _ => 0)
    return { highest := id, bits }
  else some retired

def markChecked (retired : Retired) (id : Nat) : Option Retired := do
  let age ← difference retired.highest id
  if age < 1024 then
    let held ← wordAt retired.bits (age / 64)
    let mask ← shiftUp 1 (age % 64)
    return { retired with bits := ← setWord retired.bits (age / 64) (held ||| mask) }
  else return retired

def insertChecked (retired : Retired) (id : Nat) : Option Retired := do
  (← retired.advanceChecked id).markChecked id

/-! ## The checks pass

A check that would stop the program is an error here. Each operation with its checks returns what the plain
one computes.
-/

theorem difference_of_le {a b : Nat} (h : b ≤ a) : difference a b = some (a - b) := if_pos h

theorem shiftUp_of_lt {x : BitVec 64} {distance : Nat} (h : distance < 64) :
    shiftUp x distance = some (x <<< distance) := if_pos h

theorem shiftDown_of_lt {x : BitVec 64} {distance : Nat} (h : distance < 64) :
    shiftDown x distance = some (x >>> distance) := if_pos h

theorem wordAt_of_lt {bits : Fin 16 → BitVec 64} {index : Nat} (h : index < 16) :
    wordAt bits index = some (bits ⟨index, h⟩) := dif_pos h

theorem setWord_of_lt {bits : Fin 16 → BitVec 64} {index : Nat} {word : BitVec 64} (h : index < 16) :
    setWord bits index word = some (Function.update bits ⟨index, h⟩ word) := dif_pos h

theorem containsChecked_eq (retired : Retired) (id : Nat) :
    retired.containsChecked id = some (retired.contains id) := by
  unfold containsChecked contains
  split
  · rfl
  next hid =>
  rw [difference_of_le (by omega)]
  dsimp only [Option.bind_eq_bind, Option.bind_some]
  split
  · next hage =>
    rw [dif_neg (by omega)]
    rfl
  · next hage =>
    rw [dif_pos (by omega), wordAt_of_lt (by omega), shiftUp_of_lt (by omega)]
    rfl

/-- A turn of the loop fills in its word. -/
theorem moveWord_eq {old : Fin 16 → BitVec 64} {shift index : Nat} (hwords : shift / 64 ≤ index)
    (hindex : index < 16) (bits : Fin 16 → BitVec 64) :
    moveWord old (shift / 64) (shift % 64) bits index =
      some (Function.update bits ⟨index, hindex⟩ (shiftBits old shift ⟨index, hindex⟩)) := by
  unfold moveWord shiftBits
  rw [difference_of_le hwords]
  dsimp only [Option.bind_eq_bind, Option.bind_some]
  rw [wordAt_of_lt (by omega), Option.bind_some, shiftUp_of_lt (by omega), Option.bind_some,
    setWord_of_lt hindex, Option.bind_some, if_pos hwords]
  split
  · next hcarry =>
    rw [difference_of_le (by omega), Option.bind_some, wordAt_of_lt (by omega), Option.bind_some,
      difference_of_le (by omega), Option.bind_some, shiftDown_of_lt (by omega), Option.bind_some,
      wordAt_of_lt hindex, Option.bind_some, setWord_of_lt hindex, Function.update_self,
      Function.update_idem]
  · rfl

/-- The words behind `words` are filled in, from the first on. -/
theorem moveWords_eq (old : Fin 16 → BitVec 64) {shift count : Nat} (hcount : shift / 64 + count ≤ 16) :
    (List.range' (shift / 64) count).foldlM (moveWord old (shift / 64) (shift % 64)) (fun _ => 0) =
      some (fun index : Fin 16 => if index.val < shift / 64 + count then shiftBits old shift index else 0) := by
  induction count with
  | zero =>
      refine congrArg some (funext fun index => ?_)
      split
      · next hbelow =>
        unfold shiftBits
        rw [if_neg (by omega)]
      · rfl
  | succ count ih =>
      rw [List.range'_1_concat, List.foldlM_append, ih (by omega)]
      rw [Option.bind_eq_bind, Option.bind_some, List.foldlM_cons,
        moveWord_eq (show shift / 64 ≤ shift / 64 + count by omega) (by omega)]
      refine congrArg some (funext fun index => ?_)
      rw [Function.update_apply]
      by_cases heq : index = ⟨shift / 64 + count, by omega⟩
      · rw [if_pos heq, if_pos (by rw [heq]; simp only []; omega), heq]
      · have hne : index.val ≠ shift / 64 + count := fun h => heq (Fin.ext h)
        rw [if_neg heq]
        exact if_congr (by omega) rfl rfl

theorem advanceChecked_eq (retired : Retired) (id : Nat) :
    retired.advanceChecked id = some (retired.advance id) := by
  unfold advanceChecked advance
  split
  · next hid =>
    rw [difference_of_le (by omega)]
    dsimp only [Option.bind_eq_bind, Option.bind_some]
    rw [moveWords_eq retired.bits (show min (id - retired.highest) 1024 / 64 +
      (16 - min (id - retired.highest) 1024 / 64) ≤ 16 by omega), Option.bind_some]
    refine congrArg (fun bits => some ({ highest := id, bits } : Retired)) (funext fun index => ?_)
    exact if_pos (by omega)
  · rfl

theorem markChecked_eq {retired : Retired} {id : Nat} (hid : id ≤ retired.highest) :
    retired.markChecked id = some (retired.mark id) := by
  unfold markChecked mark
  rw [difference_of_le hid]
  dsimp only [Option.bind_eq_bind, Option.bind_some]
  split
  · next hage =>
    rw [wordAt_of_lt (by omega), shiftUp_of_lt (by omega)]
    dsimp only [Option.bind_some]
    rw [setWord_of_lt (by omega)]
    rfl
  · rfl

theorem insertChecked_eq (retired : Retired) (id : Nat) :
    retired.insertChecked id = some (retired.insert id) := by
  unfold insertChecked insert
  rw [advanceChecked_eq]
  exact markChecked_eq (by rw [advance_highest]; omega)

/-! ## Runs of insertions -/

/-- The window behind a sequence of insertions. -/
def insertAll (ids : List Nat) : Retired := ids.foldl insert {}

/-- The largest id of a sequence. -/
def largest (ids : List Nat) : Nat := ids.foldl max 0

theorem insertAll_concat (ids : List Nat) (id : Nat) : insertAll (ids ++ [id]) = (insertAll ids).insert id := by
  simp [insertAll]

theorem largest_concat (ids : List Nat) (id : Nat) : largest (ids ++ [id]) = max (largest ids) id := by
  simp [largest]

/-- The window holds what was inserted and what lies behind the horizon. -/
theorem contains_insertAll (ids : List Nat) (q : Nat) :
    (insertAll ids).contains q = true ↔ q ∈ ids ∨ q + 1024 ≤ largest ids := by
  induction ids using List.reverseRecOn with
  | nil =>
      have hempty : (insertAll []).contains q = false := by
        rw [Bool.eq_false_iff]
        intro h
        obtain ⟨hle, hage | hbit⟩ := (contains_eq _ _).mp h
        · exact absurd hage (by show ¬ 1024 ≤ 0 - q; omega)
        · replace hbit : bit (fun _ => 0) (0 - q) = true := hbit
          simp [bit] at hbit
      rw [hempty]
      simp [largest]
  | append_singleton ids id ih =>
      rw [insertAll_concat, contains_insert, ih, largest_concat, List.mem_append, List.mem_singleton,
        le_max_iff]
      tauto

/-- After any sequence of insertions, whose checks all pass, an id is contained exactly when it was inserted
or lies 1024 or more behind the largest one; asking passes its checks as well. -/
theorem insert_refines_set (ids : List Nat) :
    ids.foldlM insertChecked {} = some (insertAll ids) ∧
    ∀ q, (insertAll ids).containsChecked q = some ((insertAll ids).contains q) ∧
      ((insertAll ids).contains q = true ↔ q ∈ ids ∨ q + 1024 ≤ largest ids) := by
  refine ⟨?_, fun q => ⟨containsChecked_eq _ q, contains_insertAll ids q⟩⟩
  induction ids using List.reverseRecOn with
  | nil => rfl
  | append_singleton ids id ih =>
      rw [List.foldlM_append, ih, insertAll_concat]
      rw [Option.bind_eq_bind, Option.bind_some, List.foldlM_cons, insertChecked_eq]
      rfl

/-- Ids near the end of the `u64`s, as the source's test has them. -/
example : (insertAll [1, 3, 2, 1025, 2 ^ 64 - 1]).contains 1026 = true ∧
    (insertAll [1, 3, 2, 1025, 2 ^ 64 - 1]).contains (2 ^ 64 - 2) = false := by decide +kernel

end Peerward.Carrier.Retired
