import Peerward.Lib.Ordered

/-!
# Intervals in an ordered map

A map from starts to values with a length is a set of intervals. When the intervals lie apart from
each other, only the two neighbours of a new interval can overlap it (`clear_iff`), and intervals
inside `[0, stop)` whose lengths add up to `stop` leave no gap (`start_eq_of_total`).
-/

namespace Peerward.Lib

open Std

/-! ## Totals over a map

A counter kept beside a map is the sum of a measure over it. Insertion and removal change the sum by one
entry.
-/

section Total

variable {K V : Type} [Ord K] [TransOrd K] [LawfulEqOrd K]

/-- Sum of a measure over the entries of a map. -/
def total (f : V → Nat) (m : ExtTreeMap K V) : Nat := (m.toList.map fun entry => f entry.2).sum

omit [LawfulEqOrd K] in
@[simp] theorem total_empty (f : V → Nat) : total f (∅ : ExtTreeMap K V) = 0 := rfl

theorem toList_nodup (m : ExtTreeMap K V) : m.toList.Nodup := by
  apply m.distinct_keys_toList.imp
  intro a b hne heq
  rw [heq] at hne
  exact hne ReflCmp.compare_self

theorem toList_insert_perm {m : ExtTreeMap K V} {k : K} (v : V) (h : m[k]? = none) :
    (m.insert k v).toList.Perm ((k, v) :: m.toList) := by
  rw [List.perm_ext_iff_of_nodup (toList_nodup _)]
  · intro ⟨k', v'⟩
    rw [List.mem_cons, ExtTreeMap.mem_toList_iff_getElem?_eq_some,
      ExtTreeMap.mem_toList_iff_getElem?_eq_some, ExtTreeMap.getElem?_insert]
    by_cases hk : k = k'
    · subst hk
      simp [h, eq_comm]
    · simp [hk, LawfulEqCmp.compare_eq_iff_eq, Ne.symm hk]
  · rw [List.nodup_cons, ExtTreeMap.mem_toList_iff_getElem?_eq_some, h]
    exact ⟨nofun, toList_nodup m⟩

theorem total_insert_fresh (f : V → Nat) {m : ExtTreeMap K V} {k : K} (v : V) (h : m[k]? = none) :
    total f (m.insert k v) = f v + total f m := by
  unfold total
  rw [((toList_insert_perm v h).map _).sum_eq, List.map_cons, List.sum_cons]

theorem total_erase (f : V → Nat) {m : ExtTreeMap K V} {k : K} {v : V} (h : m[k]? = some v) :
    f v + total f (m.erase k) = total f m := by
  have hback : (m.erase k).insert k v = m := by
    apply ExtTreeMap.ext_getElem?
    intro k'
    rw [ExtTreeMap.getElem?_insert, ExtTreeMap.getElem?_erase]
    by_cases hk : k = k'
    · subst hk
      simp [h]
    · simp [hk, LawfulEqCmp.compare_eq_iff_eq]
  have hfree : (m.erase k)[k]? = none := by simp
  rw [← total_insert_fresh f v hfree, hback]

theorem total_erase_none (f : V → Nat) {m : ExtTreeMap K V} {k : K} (h : m[k]? = none) :
    total f (m.erase k) = total f m := by
  have hsame : m.erase k = m := by
    apply ExtTreeMap.ext_getElem?
    intro k'
    rw [ExtTreeMap.getElem?_erase]
    by_cases hk : k = k'
    · subst hk
      simp [h]
    · simp [hk, LawfulEqCmp.compare_eq_iff_eq]
  rw [hsame]

theorem insert_erase (m : ExtTreeMap K V) (k : K) (v : V) : (m.erase k).insert k v = m.insert k v := by
  apply ExtTreeMap.ext_getElem?
  intro k'
  rw [ExtTreeMap.getElem?_insert, ExtTreeMap.getElem?_insert, ExtTreeMap.getElem?_erase]
  split <;> rfl

/-- Any insertion, in terms of what is left without its key. -/
theorem total_insert (f : V → Nat) (m : ExtTreeMap K V) (k : K) (v : V) :
    total f (m.insert k v) = f v + total f (m.erase k) := by
  have hfree : (m.erase k)[k]? = none := by simp
  rw [← insert_erase, total_insert_fresh f v hfree]

end Total

/-! ## Intervals

Non-empty intervals that lie apart are sorted by where they start, and so their total length decides
whether they leave a gap.
-/

section Intervals

variable {V : Type} {len : V → Nat}

/-- The intervals of the map do not overlap. -/
def Apart (len : V → Nat) (m : ExtTreeMap Nat V) : Prop :=
  ∀ ⦃o o' : Nat⦄ ⦃v v' : V⦄, m[o]? = some v → m[o']? = some v' → o < o' → o + len v ≤ o'

theorem Apart.empty : Apart len (∅ : ExtTreeMap Nat V) := by
  intro o o' v v' h
  simp at h

theorem Apart.insert {m : ExtTreeMap Nat V} {start : Nat} {v : V} (h : Apart len m)
    (hclear : ∀ o w, m[o]? = some w → o + len w ≤ start ∨ start + len v ≤ o) :
    Apart len (m.insert start v) := by
  intro o o' w w' ho ho' hlt
  simp only [ExtTreeMap.getElem?_insert, LawfulEqOrd.compare_eq_iff_eq] at ho ho'
  split at ho
  · next heq =>
    subst heq
    cases ho
    rw [if_neg (by omega)] at ho'
    rcases hclear o' w' ho' with hc | hc
    · omega
    · exact hc
  · split at ho'
    · next heq =>
      subst heq
      rcases hclear o w ho with hc | hc
      · exact hc
      · cases ho'
        omega
    · exact h ho ho' hlt

theorem Apart.pairwise {m : ExtTreeMap Nat V} (h : Apart len m) :
    m.toList.Pairwise fun a b => a.1 < b.1 ∧ a.1 + len a.2 ≤ b.1 := by
  apply m.ordered_keys_toList.imp_of_mem
  intro a b ha hb hlt
  have hlt' : a.1 < b.1 := by simpa [Nat.compare_eq_lt] using hlt
  have ha' : m[a.1]? = some a.2 := ExtTreeMap.mem_toList_iff_getElem?_eq_some.mp ha
  have hb' : m[b.1]? = some b.2 := ExtTreeMap.mem_toList_iff_getElem?_eq_some.mp hb
  exact ⟨hlt', h ha' hb' hlt'⟩

/-- A map with numbered entries is listed in their order. -/
theorem toList_eq_of_mem {m : ExtTreeMap Nat V} {l : List (Nat × V)}
    (hl : l.Pairwise fun a b => a.1 < b.1) (hmem : ∀ o v, m[o]? = some v ↔ (o, v) ∈ l) :
    m.toList = l := by
  have hm : m.toList.Pairwise fun a b => a.1 < b.1 := by
    apply m.ordered_keys_toList.imp
    intro a b hlt
    simpa [Nat.compare_eq_lt] using hlt
  have hnodup : l.Nodup := by
    apply hl.imp
    intro a b hlt heq
    rw [heq] at hlt
    exact absurd hlt (Nat.lt_irrefl _)
  apply List.Perm.eq_of_pairwise _ hm hl
  · rw [List.perm_ext_iff_of_nodup (toList_nodup m) hnodup]
    intro e
    rw [ExtTreeMap.mem_toList_iff_getElem?_eq_some, hmem]
  · intro a b _ _ hab hba
    omega

/-- A map with as many entries as its keys could be has all of them. -/
theorem keys_eq_range {m : ExtTreeMap Nat V} {count : Nat}
    (hlt : ∀ o v, m[o]? = some v → o < count) (hsize : m.size = count) :
    m.toList.map Prod.fst = List.range count := by
  have hkeys : m.toList.map Prod.fst = m.keys := ExtTreeMap.map_fst_toList_eq_keys
  have hsub : m.keys ⊆ List.range count := by
    intro o ho
    obtain ⟨v, hv⟩ := Option.isSome_iff_exists.mp
      (ExtTreeMap.mem_iff_isSome_getElem?.mp (ExtTreeMap.mem_keys.mp ho))
    exact List.mem_range.mpr (hlt o v hv)
  have hperm : m.keys.Perm (List.range count) := by
    refine (List.subperm_of_subset ExtTreeMap.nodup_keys hsub).perm_of_length_le ?_
    rw [List.length_range, ExtTreeMap.length_keys, hsize]
  have hsorted : m.keys.Pairwise (· < ·) := by
    apply m.ordered_keys.imp
    intro a b hab
    simpa [Nat.compare_eq_lt] using hab
  rw [hkeys]
  refine List.Perm.eq_of_pairwise ?_ hsorted List.pairwise_lt_range hperm
  intro a b _ _ hab hba
  omega

/-- Entries that are numbered values measure at most what all the values do. -/
theorem total_le_sum {m : ExtTreeMap Nat V} {count : Nat} {value : Nat → V} (f : V → Nat)
    (h : ∀ o v, m[o]? = some v → o < count ∧ v = value o) :
    total f m ≤ ((List.range count).map fun o => f (value o)).sum := by
  have hsub : m.toList ⊆ (List.range count).map fun o => (o, value o) := by
    rintro ⟨o, v⟩ hmem
    obtain ⟨hlt, rfl⟩ := h o v (ExtTreeMap.mem_toList_iff_getElem?_eq_some.mp hmem)
    exact List.mem_map.mpr ⟨o, List.mem_range.mpr hlt, rfl⟩
  obtain ⟨l, hperm, hsublist⟩ := List.subperm_of_subset (toList_nodup m) hsub
  have hsum := (hsublist.map fun entry => f entry.2).sum_le_sum (fun _ _ => Nat.zero_le _)
  rw [List.map_map] at hsum
  unfold total
  rw [← (hperm.map fun entry => f entry.2).sum_eq]
  exact hsum

/-- Intervals that lie apart between `low` and `high` fit there. -/
theorem sum_len_le {l : List (Nat × V)} (h : l.Pairwise fun a b => a.1 + len a.2 ≤ b.1)
    {low high : Nat} (hlow : ∀ e ∈ l, low ≤ e.1) (hhigh : ∀ e ∈ l, e.1 + len e.2 ≤ high)
    (hle : low ≤ high) : low + (l.map fun e => len e.2).sum ≤ high := by
  induction l generalizing low with
  | nil => simpa using hle
  | cons e l ih =>
      rw [List.pairwise_cons] at h
      have hfirst := hlow e (by simp)
      have hrest := ih h.2 h.1 (fun e' he' => hhigh e' (by simp [he'])) (hhigh e (by simp))
      simp only [List.map_cons, List.sum_cons]
      omega

/-- **No gaps.** Intervals in `[0, stop)` that lie apart and add up to `stop` follow each other. -/
theorem start_eq_of_total {m : ExtTreeMap Nat V} {stop : Nat} (h : Apart len m)
    (hwithin : ∀ o v, m[o]? = some v → o + len v ≤ stop) (htotal : total len m = stop)
    {before after : List (Nat × V)} {e : Nat × V} (heq : m.toList = before ++ e :: after) :
    e.1 = (before.map fun entry => len entry.2).sum := by
  have hpairs := h.pairwise.imp fun {a b} hab => hab.2
  have hbound : ∀ entry ∈ m.toList, entry.1 + len entry.2 ≤ stop := by
    intro entry hentry
    exact hwithin _ _ (ExtTreeMap.mem_toList_iff_getElem?_eq_some.mp hentry)
  unfold total at htotal
  rw [heq] at hpairs hbound htotal
  rw [List.pairwise_append] at hpairs
  obtain ⟨hbefore, hafter, hcross⟩ := hpairs
  have hfront := @sum_len_le _ len _ hbefore 0 e.1 (by simp)
    (fun entry hentry => hcross entry hentry e (by simp)) (by omega)
  have hback := @sum_len_le _ len _ hafter e.1 stop
    (fun entry hentry => by
      rcases List.mem_cons.mp hentry with rfl | hentry
      · exact le_rfl
      · have := (List.pairwise_cons.mp hafter).1 entry hentry
        omega)
    (fun entry hentry => hbound entry (by simp [hentry]))
    (by have := hbound e (by simp); omega)
  simp only [List.map_append, List.map_cons, List.sum_append, List.sum_cons] at htotal hback
  omega

/-- **Only neighbours matter.** In a sorted list of non-empty intervals that lie apart, the last one
that starts at or before `start` and the first one that starts at or after it decide whether
`[start, stop)` is free. -/
theorem clear_iff {l : List (Nat × V)} (h : l.Pairwise fun a b => a.1 < b.1 ∧ a.1 + len a.2 ≤ b.1)
    (hpos : ∀ e ∈ l, 0 < len e.2) {start stop : Nat} (hlt : start < stop) :
    ((l.filter (·.1 ≤ start)).getLast?.any (fun e => e.1 + len e.2 > start)
      || (l.filter (start ≤ ·.1)).head?.any (fun e => e.1 < stop)) = false ↔
      ∀ e ∈ l, e.1 + len e.2 ≤ start ∨ stop ≤ e.1 := by
  rw [Bool.or_eq_false_iff]
  constructor
  · intro ⟨hleft, hright⟩ e he
    by_cases hstart : e.1 ≤ start
    · left
      have hmem : e ∈ l.filter (·.1 ≤ start) := by simp [he, hstart]
      have hne : l.filter (·.1 ≤ start) ≠ [] := List.ne_nil_of_mem hmem
      have hpw := h.filter (·.1 ≤ start)
      rw [List.getLast?_eq_getLast_of_ne_nil hne] at hleft
      have hlast := List.dropLast_append_getLast hne
      have hlastMem := List.getLast_mem hne
      generalize (l.filter (·.1 ≤ start)).getLast hne = last at hleft hlast hlastMem
      simp only [Option.any_some, decide_eq_false_iff_not, Nat.not_lt, gt_iff_lt] at hleft
      rw [← hlast] at hmem hpw
      rcases List.mem_append.mp hmem with hfront | hfront
      · have := (List.pairwise_append.mp hpw).2.2 e hfront last (by simp)
        simp only [List.mem_filter, decide_eq_true_eq] at hlastMem
        omega
      · cases List.mem_singleton.mp hfront
        exact hleft
    · right
      have hmem : e ∈ l.filter (start ≤ ·.1) := by
        simp only [List.mem_filter, decide_eq_true_eq]
        exact ⟨he, by omega⟩
      have hpw := h.filter (start ≤ ·.1)
      cases hl : l.filter (start ≤ ·.1) with
      | nil =>
          rw [hl] at hmem
          cases hmem
      | cons first rest =>
          rw [hl] at hmem hright hpw
          simp only [List.head?_cons, Option.any_some, decide_eq_false_iff_not, Nat.not_lt] at hright
          rcases List.mem_cons.mp hmem with rfl | hrest
          · exact hright
          · have := (List.pairwise_cons.mp hpw).1 e hrest
            omega
  · intro hclear
    constructor
    · cases hl : (l.filter (·.1 ≤ start)).getLast? with
      | none => rfl
      | some last =>
          have hmem := List.mem_of_getLast? hl
          simp only [List.mem_filter, decide_eq_true_eq] at hmem
          have := hclear last hmem.1
          simp only [Option.any_some, decide_eq_false_iff_not]
          omega
    · cases hl : (l.filter (start ≤ ·.1)).head? with
      | none => rfl
      | some first =>
          have hmem := List.mem_of_head? hl
          simp only [List.mem_filter, decide_eq_true_eq] at hmem
          have hpos' := hpos first hmem.1
          have := hclear first hmem.1
          simp only [Option.any_some, decide_eq_false_iff_not]
          omega

/-- The last interval ends last. -/
theorem getLast_end {l : List (Nat × V)} (h : l.Pairwise fun a b => a.1 < b.1 ∧ a.1 + len a.2 ≤ b.1)
    {stop : Nat} : l.getLast?.any (fun e => e.1 + len e.2 > stop) = false ↔
      ∀ e ∈ l, e.1 + len e.2 ≤ stop := by
  constructor
  · intro hlast e he
    have hne : l ≠ [] := List.ne_nil_of_mem he
    rw [List.getLast?_eq_getLast_of_ne_nil hne] at hlast
    have hsplit := List.dropLast_append_getLast hne
    generalize l.getLast hne = last at hlast hsplit
    simp only [Option.any_some, decide_eq_false_iff_not, Nat.not_lt, gt_iff_lt] at hlast
    rw [← hsplit] at he h
    rcases List.mem_append.mp he with hfront | hfront
    · have := (List.pairwise_append.mp h).2.2 e hfront last (by simp)
      omega
    · cases List.mem_singleton.mp hfront
      exact hlast
  · intro hall
    cases hl : l.getLast? with
    | none => rfl
    | some last =>
        have := hall last (List.mem_of_getLast? hl)
        simp only [Option.any_some, decide_eq_false_iff_not]
        omega

end Intervals

end Peerward.Lib
