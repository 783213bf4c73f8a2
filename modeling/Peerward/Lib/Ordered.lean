import Mathlib

/-!
# Ordered maps with a deadline index

Rust's `BTreeMap`, `BTreeSet` and (where iteration order is never observed) `HashMap` are modelled
by the extensional tree maps of the standard library. Nothing here knows about packets: the file
adds what the standard library leaves out.

* `first?` reads the least element through `toList`, so that it computes in the kernel.
* `Deadlines K` is the secondary index `BTreeSet<(u64, K)>` that several tables keep next to their
  primary map, and `Indexed` says that the two describe the same entries.
* Inserting what `toList` lists gives a collection back.
-/

namespace Peerward.Lib

open Std

variable {K V : Type}

/-! ## Derived orders -/

/-- The lexicographic order `derive(Ord)` gives a pair. -/
def byDeadline [Ord K] : Nat × K → Nat × K → Ordering :=
  compareLex (compareOn Prod.fst) (compareOn Prod.snd)

instance [Ord K] [TransOrd K] : TransCmp (byDeadline (K := K)) :=
  inferInstanceAs (TransCmp (compareLex _ _))

instance [Ord K] [TransOrd K] [LawfulEqOrd K] : LawfulEqCmp (byDeadline (K := K)) where
  eq_of_compare := by
    rintro ⟨t, k⟩ ⟨t', k'⟩ h
    simp only [byDeadline, compareLex_eq_eq, compareOn] at h
    rw [LawfulEqOrd.compare_eq_iff_eq, LawfulEqOrd.compare_eq_iff_eq] at h
    exact Prod.ext h.1 h.2

/-- The order compares deadlines before keys. -/
theorem fst_le_of_byDeadline_isLE [Ord K] {a b : Nat × K} (h : (byDeadline a b).isLE) :
    a.1 ≤ b.1 := by
  by_contra hlt
  have hgt : compare a.1 b.1 = .gt := Nat.compare_eq_gt.mpr (by omega)
  simp [byDeadline, compareLex, compareOn, hgt] at h

/-! ## The deadline index

A table whose entries have deadlines is kept with a sorted set of its keys by deadline. `Indexed` says that
the two agree, which is what makes the first element of the set the first entry that is due.
-/

/-- `BTreeSet<(u64, K)>`: keys in the order of their deadlines. -/
abbrev Deadlines (K : Type) [Ord K] := ExtTreeSet (Nat × K) byDeadline

variable [Ord K] [TransOrd K]

/-- `BTreeSet::first`. -/
def Deadlines.first? (d : Deadlines K) : Option (Nat × K) := d.toList.head?

theorem Deadlines.first?_mem [LawfulEqOrd K] {d : Deadlines K} {e : Nat × K}
    (h : d.first? = some e) : e ∈ d := by
  have hm : d.min? = some e := by rw [ExtTreeSet.min?_eq_head?_toList]; exact h
  exact ExtTreeSet.min?_mem hm

/-- Nothing in the index is due before its first element. -/
theorem Deadlines.first?_le [LawfulEqOrd K] {d : Deadlines K} {e e' : Nat × K}
    (h : d.first? = some e) (hmem : e' ∈ d) : e.1 ≤ e'.1 := by
  have hm : d.min? = some e := by rw [ExtTreeSet.min?_eq_head?_toList]; exact h
  exact fst_le_of_byDeadline_isLE (ExtTreeSet.min?_le_of_mem hmem (Option.get_of_eq_some _ hm))

/-- The first element is the least one, by deadline and then by key. -/
theorem Deadlines.first?_isLE [LawfulEqOrd K] {d : Deadlines K} {e e' : Nat × K}
    (h : d.first? = some e) (hmem : e' ∈ d) : (byDeadline e e').isLE := by
  have hm : d.min? = some e := by rw [ExtTreeSet.min?_eq_head?_toList]; exact h
  exact ExtTreeSet.min?_le_of_mem hmem (Option.get_of_eq_some _ hm)

theorem Deadlines.first?_eq_none {d : Deadlines K} (h : d.first? = none) (e : Nat × K) :
    e ∉ d := by
  have hm : d.min? = none := by rw [ExtTreeSet.min?_eq_head?_toList]; exact h
  rw [ExtTreeSet.min?_eq_none_iff] at hm
  simp [hm]

/-- The index lists exactly the entries of the table, each under its own deadline. -/
def Indexed (m : ExtTreeMap K V) (due : V → Nat) (d : Deadlines K) : Prop :=
  ∀ t k, (t, k) ∈ d ↔ ∃ v, m[k]? = some v ∧ due v = t

namespace Indexed

variable [LawfulEqOrd K] {m : ExtTreeMap K V} {due : V → Nat} {d : Deadlines K}

omit [LawfulEqOrd K] in
theorem empty : Indexed (∅ : ExtTreeMap K V) due ∅ := by
  intro t k
  simp

theorem erase (h : Indexed m due d) {k : K} {v : V} (hk : m[k]? = some v) :
    Indexed (m.erase k) due (d.erase (due v, k)) := by
  intro t k'
  rw [ExtTreeSet.mem_erase, h t k', ExtTreeMap.getElem?_erase]
  by_cases hkk : k = k'
  · subst hkk
    simp only [hk, LawfulEqCmp.compare_eq_iff_eq, Option.some.injEq]
    constructor
    · rintro ⟨hne, v', rfl, rfl⟩
      exact absurd ReflCmp.compare_self hne
    · simp
  · simp only [LawfulEqCmp.compare_eq_iff_eq, Prod.mk.injEq, hkk, and_false, not_false_eq_true,
      true_and, if_false, ne_eq]

theorem insert_fresh (h : Indexed m due d) {k : K} (v : V) (hk : m[k]? = none) :
    Indexed (m.insert k v) due (d.insert (due v, k)) := by
  intro t k'
  rw [ExtTreeSet.mem_insert, h t k', ExtTreeMap.getElem?_insert]
  by_cases hkk : k = k'
  · subst hkk
    simp [hk, LawfulEqCmp.compare_eq_iff_eq]
  · simp [hkk, LawfulEqCmp.compare_eq_iff_eq]

theorem insert_over (h : Indexed m due d) {k : K} {v : V} (v' : V) (hk : m[k]? = some v) :
    Indexed (m.insert k v') due ((d.erase (due v, k)).insert (due v', k)) := by
  have hins := (h.erase hk).insert_fresh v' (k := k) (by simp)
  have hmap : (m.erase k).insert k v' = m.insert k v' := by
    apply ExtTreeMap.ext_getElem?
    intro k'
    rw [ExtTreeMap.getElem?_insert, ExtTreeMap.getElem?_insert, ExtTreeMap.getElem?_erase]
    by_cases hkk : compare k k' = .eq <;> simp [hkk]
  rwa [hmap] at hins

theorem insert_same (h : Indexed m due d) {k : K} {v v' : V} (hk : m[k]? = some v)
    (hdue : due v = due v') : Indexed (m.insert k v') due d := by
  intro t k'
  rw [h t k', ExtTreeMap.getElem?_insert]
  by_cases hkk : k = k'
  · subst hkk
    simp [hk, hdue]
  · simp [hkk, LawfulEqCmp.compare_eq_iff_eq]

/-- The entry behind the first element of the index. -/
theorem first? (h : Indexed m due d) {t : Nat} {k : K} (hf : d.first? = some (t, k)) :
    ∃ v, m[k]? = some v ∧ due v = t :=
  (h t k).mp (Deadlines.first?_mem hf)

/-- The index of a table with entries has a first element. -/
theorem exists_first? (h : Indexed m due d) (hpos : 0 < m.size) : ∃ e, d.first? = some e := by
  have hlist : 0 < m.toList.length := by rwa [ExtTreeMap.length_toList]
  obtain ⟨⟨k, v⟩, hmem⟩ := List.exists_mem_of_length_pos hlist
  have hv : m[k]? = some v := ExtTreeMap.mem_toList_iff_getElem?_eq_some.mp hmem
  cases hf : d.first? with
  | some e => exact ⟨e, rfl⟩
  | none => exact absurd ((h _ _).mpr ⟨v, hv, rfl⟩) (Deadlines.first?_eq_none hf _)

end Indexed

/-! ## Sizes -/

section Sizes

variable {m : ExtTreeMap K V} {k : K} {v : V}

theorem size_erase_of_some (h : m[k]? = some v) : (m.erase k).size + 1 = m.size := by
  have hk : k ∈ m := ExtTreeMap.mem_iff_isSome_getElem?.mpr (by rw [h]; rfl)
  have hpos : m.size ≠ 0 := fun hzero => by
    rw [ExtTreeMap.eq_empty_iff_size_eq_zero.mpr hzero] at hk
    simp at hk
  rw [ExtTreeMap.size_erase, ExtTreeMap.contains_iff_mem.mpr hk]
  simp only [if_true]
  omega

theorem size_insert_of_none (h : m[k]? = none) : (m.insert k v).size = m.size + 1 := by
  have hk : m.contains k = false := by
    rw [ExtTreeMap.contains_eq_isSome_getElem?, h]
    rfl
  rw [ExtTreeMap.size_insert, hk, if_neg Bool.false_ne_true]

theorem size_insert_of_some {v' : V} (h : m[k]? = some v) : (m.insert k v').size = m.size := by
  have hk : m.contains k = true := by
    rw [ExtTreeMap.contains_eq_isSome_getElem?, h]
    rfl
  rw [ExtTreeMap.size_insert, if_pos hk]

/-- A table has room for all of its keys. -/
theorem length_le_size [LawfulEqOrd K] {l : List K} (hnodup : l.Nodup) (hmem : ∀ k ∈ l, k ∈ m) :
    l.length ≤ m.size := by
  have hsub : l ⊆ m.keys := fun k hk => ExtTreeMap.mem_keys.mpr (hmem k hk)
  rw [← ExtTreeMap.length_keys]
  exact (List.subperm_of_subset hnodup hsub).length_le

/-- A table whose entries all occur in another one is no larger. -/
theorem size_le_of_sub [LawfulEqOrd K] {m m' : ExtTreeMap K V}
    (h : ∀ {k : K} {v}, m[k]? = some v → m'[k]? = some v) : m.size ≤ m'.size := by
  rw [← ExtTreeMap.length_keys]
  refine length_le_size ExtTreeMap.nodup_keys fun k hk => ?_
  obtain ⟨v, hv⟩ := Option.isSome_iff_exists.mp
    (ExtTreeMap.mem_iff_isSome_getElem?.mp (ExtTreeMap.mem_keys.mp hk))
  exact ExtTreeMap.mem_iff_isSome_getElem?.mpr (by rw [h hv]; rfl)

end Sizes

/-! ## Rebuilding a collection from its listing

A collection that is written out in order and read back by insertion is the same collection.
-/

section Rebuild

variable [LawfulEqOrd K]

theorem mem_foldl_insert {k : K} (l : List K) (s : ExtTreeSet K) :
    k ∈ l.foldl (·.insert ·) s ↔ k ∈ s ∨ k ∈ l := by
  induction l generalizing s with
  | nil => simp
  | cons a l ih =>
      rw [List.foldl_cons, ih, ExtTreeSet.mem_insert, LawfulEqOrd.compare_eq_iff_eq, List.mem_cons]
      tauto

/-- Inserting the elements of a set one by one gives the set back. -/
theorem foldl_insert_toList (s : ExtTreeSet K) : s.toList.foldl (·.insert ·) ∅ = s := by
  refine ExtTreeSet.ext_mem fun k => ?_
  rw [mem_foldl_insert, ExtTreeSet.mem_toList]
  simp

/-- Inserting a list of entries, oldest first. -/
def insertEntries (m : ExtTreeMap K V) (l : List (K × V)) : ExtTreeMap K V :=
  l.foldl (fun m entry => m.insert entry.1 entry.2) m

theorem mem_insertEntries {k : K} (l : List (K × V)) (m : ExtTreeMap K V) :
    k ∈ insertEntries m l ↔ k ∈ m ∨ k ∈ l.map Prod.fst := by
  induction l generalizing m with
  | nil => simp [insertEntries]
  | cons entry l ih =>
      have hstep := ih (m.insert entry.1 entry.2)
      rw [ExtTreeMap.mem_insert, LawfulEqOrd.compare_eq_iff_eq] at hstep
      rw [insertEntries, List.foldl_cons, ← insertEntries, hstep, List.map_cons, List.mem_cons]
      tauto

theorem getElem?_insertEntries {k : K} {v : V} {l : List (K × V)} (m : ExtTreeMap K V)
    (hdistinct : l.Pairwise fun a b => ¬ compare a.1 b.1 = .eq) (h : (k, v) ∈ l) :
    (insertEntries m l)[k]? = some v := by
  induction l using List.reverseRecOn with
  | nil => cases h
  | append_singleton l entry ih =>
      rw [List.pairwise_append] at hdistinct
      rw [insertEntries, List.foldl_append, List.foldl_cons, List.foldl_nil, ← insertEntries,
        ExtTreeMap.getElem?_insert]
      rcases List.mem_append.mp h with h | h
      · have hne := hdistinct.2.2 (k, v) h entry (by simp)
        rw [if_neg fun heq => hne (OrientedCmp.eq_symm heq), ih hdistinct.1 h]
      · cases List.mem_singleton.mp h
        rw [if_pos ReflCmp.compare_self]

/-- Inserting the entries of a map one by one gives the map back. -/
theorem insertEntries_toList (m : ExtTreeMap K V) : insertEntries ∅ m.toList = m := by
  refine ExtTreeMap.ext_getElem? fun k => ?_
  cases hk : m[k]? with
  | some v =>
      exact getElem?_insertEntries ∅ ExtTreeMap.distinct_keys_toList
        (ExtTreeMap.mem_toList_iff_getElem?_eq_some.mpr hk)
  | none =>
      refine ExtTreeMap.getElem?_eq_none ?_
      rw [mem_insertEntries]
      rintro (h | h)
      · simp at h
      · obtain ⟨entry, hentry, rfl⟩ := List.mem_map.mp h
        rw [ExtTreeMap.mem_toList_iff_getElem?_eq_some.mp hentry] at hk
        cases hk

end Rebuild
end Peerward.Lib
