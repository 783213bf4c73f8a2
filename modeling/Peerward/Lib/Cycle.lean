import Mathlib.Data.Nat.ModEq
import Mathlib.Data.Set.Basic

/-!
# Searching once around a cycle

A search that starts anywhere on a cycle, asks each element once, and stops when it comes back to its
start. Elements are numbered along the cycle; what is found is the first free element from the start on,
and nothing is found only when nothing is free.
-/

namespace Peerward.Lib

variable {A : Type}

/-- The search, one element for each unit of fuel: `none` when the fuel is spent, `some none` when it is
back at its start. -/
def Cycle.search [DecidableEq A] (next : A → A) (free : A → Bool) (start : A) : Nat → A → Option (Option A)
  | 0, _ => none
  | fuel + 1, a =>
    if free a then some (some a)
    else if next a = start then some none
    else Cycle.search next free start fuel (next a)

/-- `next` goes once around the elements of `U`, which `index` numbers. -/
structure Cycle (U : Set A) (next : A → A) (index : A → Nat) (size : Nat) : Prop where
  index_lt : ∀ a ∈ U, index a < size
  injective : ∀ a ∈ U, ∀ b ∈ U, index a = index b → a = b
  next_mem : ∀ a ∈ U, next a ∈ U
  index_next : ∀ a ∈ U, index (next a) = (index a + 1) % size

/-- How far `b` is from `a` in the order of the cycle. -/
def Cycle.distance (index : A → Nat) (size : Nat) (a b : A) : Nat := (index b + size - index a) % size

namespace Cycle

variable {U : Set A} {next : A → A} {index : A → Nat} {size : Nat} {free : A → Bool} {start : A}

theorem distance_eq (h : Cycle U next index size) (hstart : start ∈ U) {a : A} {i : Nat} (hi : i < size)
    (ha : index a = (index start + i) % size) : distance index size start a = i := by
  have hlt := h.index_lt start hstart
  unfold distance
  rw [ha]
  by_cases hwrap : index start + i < size
  · rw [Nat.mod_eq_of_lt hwrap]
    have hsum : index start + i + size - index start = i + size := by omega
    rw [hsum, Nat.add_mod_right, Nat.mod_eq_of_lt hi]
  · have hmod : (index start + i) % size = index start + i - size := by
      rw [Nat.mod_eq_sub_mod (by omega), Nat.mod_eq_of_lt (by omega)]
    rw [hmod]
    have hsum : index start + i - size + size - index start = i := by omega
    rw [hsum, Nat.mod_eq_of_lt hi]

theorem index_eq (h : Cycle U next index size) (hstart : start ∈ U) {a : A} (ha : a ∈ U) :
    index a = (index start + distance index size start a) % size := by
  have hlt := h.index_lt start hstart
  have halt := h.index_lt a ha
  unfold distance
  rw [Nat.add_mod_mod]
  have hsum : index start + (index a + size - index start) = index a + size := by omega
  rw [hsum, Nat.add_mod_right, Nat.mod_eq_of_lt halt]

theorem distance_lt (h : Cycle U next index size) (hstart : start ∈ U) (a : A) :
    distance index size start a < size := by
  have := h.index_lt start hstart
  exact Nat.mod_lt _ (by omega)

/-- What the search has come to after `i` elements: none of them was free. -/
theorem search_from [DecidableEq A] (h : Cycle U next index size) (hstart : start ∈ U) (fuel : Nat) :
    ∀ i a, i < size → size ≤ i + fuel → a ∈ U → index a = (index start + i) % size →
      (∀ b ∈ U, distance index size start b < i → free b = false) →
      (∃ b ∈ U, search next free start fuel a = some (some b) ∧ free b = true ∧
        ∀ c ∈ U, free c = true → distance index size start b ≤ distance index size start c) ∨
      (search next free start fuel a = some none ∧ ∀ b ∈ U, free b = false) := by
  induction fuel with
  | zero =>
      intro i a hi hfuel
      omega
  | succ fuel ih =>
      intro i a hi hfuel ha hindex hbefore
      have hdistance := h.distance_eq hstart hi hindex
      unfold search
      by_cases hfree : free a = true
      · rw [if_pos hfree]
        refine .inl ⟨a, ha, rfl, hfree, fun c hc hcfree => ?_⟩
        rw [hdistance]
        by_contra hlt
        rw [hbefore c hc (by omega)] at hcfree
        cases hcfree
      · rw [if_neg hfree]
        -- `a` is the only element at its distance
        have hupto : ∀ b ∈ U, distance index size start b < i + 1 → free b = false := by
          intro b hb hlt
          by_cases heq : distance index size start b = i
          · have hab : b = a := by
              refine h.injective b hb a ha ?_
              rw [hindex, ← heq]
              exact h.index_eq hstart hb
            rw [hab]
            exact Bool.not_eq_true _ ▸ hfree
          · exact hbefore b hb (by omega)
        have hnext : index (next a) = (index start + (i + 1)) % size := by
          rw [h.index_next a ha, hindex, Nat.mod_add_mod, Nat.add_assoc]
        by_cases hback : next a = start
        · rw [if_pos hback]
          refine .inr ⟨rfl, fun b hb => hupto b hb ?_⟩
          have hlast : i + 1 = size := by
            by_contra hne
            have hzero := h.distance_eq hstart (show i + 1 < size by omega) hnext
            rw [hback, h.distance_eq hstart (show 0 < size by omega)
              (by rw [Nat.add_zero, Nat.mod_eq_of_lt (h.index_lt start hstart)])] at hzero
            omega
          rw [hlast]
          exact h.distance_lt hstart b
        · rw [if_neg hback]
          have hmore : i + 1 < size := by
            by_contra hge
            refine hback (h.injective _ (h.next_mem a ha) start hstart ?_)
            have hsize : i + 1 = size := by omega
            rw [hnext, hsize, Nat.add_mod_right, Nat.mod_eq_of_lt (h.index_lt start hstart)]
          exact ih (i + 1) (next a) hmore (by omega) (h.next_mem a ha) hnext hupto

/-- More fuel does not change what was found. -/
theorem search_mono [DecidableEq A] {fuel more : Nat} {a : A} {found : Option A} (hfuel : fuel ≤ more)
    (h : search next free start fuel a = some found) : search next free start more a = some found := by
  induction fuel generalizing more a with
  | zero => cases h
  | succ fuel ih =>
      obtain ⟨rest, rfl⟩ := Nat.exists_eq_add_of_le' (Nat.lt_of_lt_of_le (Nat.succ_pos fuel) hfuel)
      unfold search at h ⊢
      by_cases hfree : free a = true
      · rwa [if_pos hfree] at h ⊢
      · rw [if_neg hfree] at h ⊢
        by_cases hback : next a = start
        · rwa [if_pos hback] at h ⊢
        · rw [if_neg hback] at h ⊢
          exact ih (Nat.le_of_succ_le_succ hfuel) h

/-- **One round is enough**, and finds the first free element from the start on. -/
theorem search_spec [DecidableEq A] (h : Cycle U next index size) (hstart : start ∈ U) {fuel : Nat} (hfuel : size ≤ fuel) :
    (∃ b ∈ U, search next free start fuel start = some (some b) ∧ free b = true ∧
      ∀ c ∈ U, free c = true → distance index size start b ≤ distance index size start c) ∨
    (search next free start fuel start = some none ∧ ∀ b ∈ U, free b = false) :=
  h.search_from hstart fuel 0 start (Nat.zero_lt_of_lt (h.index_lt start hstart)) (by omega) hstart
    (by rw [Nat.add_zero, Nat.mod_eq_of_lt (h.index_lt start hstart)]) (by omega)

end Cycle

end Peerward.Lib
