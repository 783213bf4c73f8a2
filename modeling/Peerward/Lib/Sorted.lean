import Mathlib

/-!
# Sorting and deduplication

`sort_unstable` followed by `dedup`, over any total order: the result lists the same elements in
strictly ascending order, and a list that is already strictly ascending is left alone. Since a
strictly ascending list is determined by its members, two lists with the same members have the same
canonical form.
-/

namespace Peerward.Lib

open Std

variable {α : Type}

/-- `Vec::dedup`: drops an element that equals the one after it. -/
def dedupAdjacent [DecidableEq α] : List α → List α
  | [] => []
  | [a] => [a]
  | a :: b :: rest => if a = b then dedupAdjacent (b :: rest) else a :: dedupAdjacent (b :: rest)

/-- `Vec::sort_by`: a stable sort. -/
def sortBy (cmp : α → α → Ordering) (l : List α) : List α :=
  l.insertionSort fun a b => (cmp a b).isLE

/-- `sort_unstable` and `dedup`. -/
def sortDedup [Ord α] [DecidableEq α] (l : List α) : List α := dedupAdjacent (sortBy compare l)

/-- Strictly ascending. -/
def Ascending [Ord α] (l : List α) : Prop := l.Pairwise fun a b => compare a b = .lt

instance [Ord α] (l : List α) : Decidable (Ascending l) := inferInstanceAs (Decidable (l.Pairwise _))

theorem sortBy_perm (cmp : α → α → Ordering) (l : List α) : (sortBy cmp l).Perm l :=
  List.perm_insertionSort _ l

theorem sortBy_pairwise (cmp : α → α → Ordering) [TransCmp cmp] (l : List α) :
    (sortBy cmp l).Pairwise fun a b => (cmp a b).isLE := by
  have : Std.Total fun a b : α => (cmp a b).isLE :=
    ⟨fun a b => by
      rw [@OrientedCmp.eq_swap _ cmp _ b a]
      cases cmp a b <;> simp⟩
  have : IsTrans α fun a b => (cmp a b).isLE := ⟨fun a b c => TransCmp.isLE_trans⟩
  exact List.pairwise_insertionSort _ l

/-- A sorted list is left alone, ties included. -/
theorem sortBy_eq_self {cmp : α → α → Ordering} {l : List α}
    (h : l.Pairwise fun a b => (cmp a b).isLE) : sortBy cmp l = l :=
  List.Pairwise.insertionSort_eq h

/-- Where only equal elements of the list tie, its order does not show. -/
theorem sortBy_eq_of_perm_of_eq {cmp : α → α → Ordering} [TransCmp cmp] {l l' : List α}
    (heq : ∀ a ∈ l, ∀ b ∈ l, cmp a b = .eq → a = b) (h : l.Perm l') : sortBy cmp l = sortBy cmp l' := by
  have hsorted := (sortBy_perm cmp l).trans (h.trans (sortBy_perm cmp l').symm)
  refine List.Perm.eq_of_pairwise (fun a b ha hb hab hba => ?_) (sortBy_pairwise cmp l)
    (sortBy_pairwise cmp l') hsorted
  exact heq a ((sortBy_perm cmp l).mem_iff.mp ha) b
    ((sortBy_perm cmp l).mem_iff.mp (hsorted.mem_iff.mpr hb)) (OrientedCmp.isLE_antisymm hab hba)

theorem sortBy_eq_of_perm {cmp : α → α → Ordering} [TransCmp cmp] [LawfulEqCmp cmp] {l l' : List α}
    (h : l.Perm l') : sortBy cmp l = sortBy cmp l' :=
  sortBy_eq_of_perm_of_eq (fun _ _ _ _ => LawfulEqCmp.eq_of_compare) h

/-- The first hit of a search comes before every other hit. -/
theorem rel_of_find? {r : α → α → Prop} {p : α → Bool} {l : List α} {first other : α}
    (hsorted : l.Pairwise r) (hfind : l.find? p = some first) (hother : other ∈ l)
    (hp : p other = true) : other = first ∨ r first other := by
  obtain ⟨-, before, after, rfl, hbefore⟩ := List.find?_eq_some_iff_append.mp hfind
  rcases List.mem_append.mp hother with hmem | hmem
  · have := hbefore other hmem
    simp [hp] at this
  · rcases List.mem_cons.mp hmem with rfl | hmem
    · exact .inl rfl
    · rw [List.pairwise_append, List.pairwise_cons] at hsorted
      exact .inr (hsorted.2.1.1 other hmem)

section Dedup

variable [DecidableEq α]

@[simp] theorem mem_dedupAdjacent {a : α} {l : List α} : a ∈ dedupAdjacent l ↔ a ∈ l := by
  fun_induction dedupAdjacent l with
  | case1 => rfl
  | case2 b => rfl
  | case3 b rest ih =>
      rw [ih]
      simp
  | case4 b c rest hne ih => rw [List.mem_cons, ih, List.mem_cons (l := c :: rest)]

theorem dedupAdjacent_eq_self {l : List α} (h : l.Pairwise (· ≠ ·)) : dedupAdjacent l = l := by
  fun_induction dedupAdjacent l with
  | case1 => rfl
  | case2 b => rfl
  | case3 b rest ih =>
      rw [List.pairwise_cons] at h
      exact absurd rfl (h.1 b (by simp))
  | case4 b c rest hne ih => rw [ih (List.pairwise_cons.mp h).2]

variable [Ord α] [TransOrd α] [LawfulEqOrd α]

theorem dedupAdjacent_ascending {l : List α} (h : l.Pairwise fun a b => (compare a b).isLE) :
    Ascending (dedupAdjacent l) := by
  fun_induction dedupAdjacent l with
  | case1 => exact List.Pairwise.nil
  | case2 b => exact List.pairwise_singleton _ _
  | case3 b rest ih => exact ih (List.pairwise_cons.mp h).2
  | case4 b c rest hne ih =>
      rw [List.pairwise_cons] at h
      refine List.pairwise_cons.mpr ⟨?_, ih h.2⟩
      intro d hd
      have hle := h.1 d (mem_dedupAdjacent.mp hd)
      -- equality with a later element would force equality with the next one
      have hne' : compare b d ≠ .eq := by
        intro heq
        have hbd : b = d := LawfulEqOrd.eq_of_compare heq
        have hcd : (compare c d).isLE := by
          rcases List.mem_cons.mp (mem_dedupAdjacent.mp hd) with rfl | hmem
          · simp
          · exact (List.pairwise_cons.mp h.2).1 d hmem
        have hbc := h.1 c (by simp)
        rw [← hbd] at hcd
        exact hne (LawfulEqOrd.eq_of_compare (OrientedCmp.isLE_antisymm hbc hcd))
      revert hle hne'
      cases compare b d <;> simp

theorem sortDedup_ascending (l : List α) : Ascending (sortDedup l) :=
  dedupAdjacent_ascending (sortBy_pairwise compare l)

omit [TransOrd α] [LawfulEqOrd α] in
@[simp] theorem mem_sortDedup {a : α} {l : List α} : a ∈ sortDedup l ↔ a ∈ l := by
  rw [sortDedup, mem_dedupAdjacent, (sortBy_perm _ _).mem_iff]

omit [TransOrd α] in
theorem sortDedup_eq_self {l : List α} (h : Ascending l) : sortDedup l = l := by
  have hle : l.Pairwise fun a b => (compare a b).isLE := h.imp fun hlt => by simp [hlt]
  rw [sortDedup, sortBy_eq_self hle, dedupAdjacent_eq_self]
  refine h.imp ?_
  rintro a b hlt rfl
  simp at hlt

omit [DecidableEq α] in
/-- A strictly ascending list is determined by its members. -/
theorem Ascending.eq_of_mem_iff {l l' : List α} (h : Ascending l) (h' : Ascending l')
    (hmem : ∀ a, a ∈ l ↔ a ∈ l') : l = l' := by
  have hirrefl : ∀ {l : List α}, Ascending l → l.Nodup := fun h =>
    h.imp fun hlt heq => by simp [heq] at hlt
  refine List.Perm.eq_of_pairwise (fun a b _ _ hab hba => ?_) h h'
    ((List.perm_ext_iff_of_nodup (hirrefl h) (hirrefl h')).mpr hmem)
  exact LawfulEqOrd.eq_of_compare (OrientedCmp.isLE_antisymm (by simp [hab]) (by simp [hba]))

/-- The canonical form depends on the members alone. -/
theorem sortDedup_eq_of_mem_iff {l l' : List α} (h : ∀ a, a ∈ l ↔ a ∈ l') :
    sortDedup l = sortDedup l' :=
  (sortDedup_ascending l).eq_of_mem_iff (sortDedup_ascending l') (by simpa using h)

theorem ascending_iff_sortDedup_eq {l : List α} : Ascending l ↔ sortDedup l = l :=
  ⟨sortDedup_eq_self, fun h => h ▸ sortDedup_ascending l⟩

end Dedup

end Peerward.Lib
