import Mathlib

/-!
# Routes and their costs

`Route edge a p b c`: a walk from `a` to `b` of cost `c`, where `p` lists what it visits after `a`.
Cutting the cycles out of a route makes it no longer and no dearer (`exists_path`), and a table of
tentative costs that is closed but for a frontier is below every route or shows it a cheaper label of
that frontier (`settled`), which is what a label-setting search rests on.
-/

namespace Peerward.Lib

variable {V : Type}

inductive Route (edge : V → V → Nat → Prop) : V → List V → V → Nat → Prop
  | nil (a : V) : Route edge a [] a 0
  | cons {a x b : V} {c d : Nat} {p : List V} :
      edge a x c → Route edge x p b d → Route edge a (x :: p) b (c + d)

namespace Route

variable {edge : V → V → Nat → Prop} {a b x : V} {c d : Nat} {p : List V}

theorem concat (h : Route edge a p b c) (hx : edge b x d) : Route edge a (p ++ [x]) x (c + d) := by
  induction h with
  | nil a =>
      rw [Nat.zero_add]
      exact .cons hx (.nil x)
  | cons hstep _ ih =>
      rw [List.cons_append, Nat.add_assoc]
      exact .cons hstep (ih hx)

theorem mono {edge' : V → V → Nat → Prop} (hedge : ∀ a b c, edge a b c → edge' a b c)
    (h : Route edge a p b c) : Route edge' a p b c := by
  induction h with
  | nil a => exact .nil a
  | cons hstep _ ih => exact .cons (hedge _ _ _ hstep) ih

/-- What is left of a route from a vertex it visits. -/
theorem rest (h : Route edge a p b c) (hx : x ∈ a :: p) :
    ∃ q d, Route edge x q b d ∧ (x :: q) <:+ (a :: p) ∧ d ≤ c := by
  induction h with
  | nil a =>
      rw [List.mem_singleton] at hx
      subst hx
      exact ⟨[], 0, .nil x, List.suffix_refl _, le_rfl⟩
  | @cons a y b c d p hstep htail ih =>
      rcases List.mem_cons.mp hx with rfl | hx
      · exact ⟨y :: p, c + d, .cons hstep htail, List.suffix_refl _, le_rfl⟩
      · obtain ⟨q, e, hq, hsuffix, hle⟩ := ih hx
        exact ⟨q, e, hq, hsuffix.trans (List.suffix_cons _ _), by omega⟩

/-- Cycles can be cut out. -/
theorem cut (h : Route edge a p b c) :
    ∃ q d, Route edge a q b d ∧ (a :: q).Nodup ∧ q ⊆ p ∧ q.length ≤ p.length ∧ d ≤ c := by
  classical
  induction h with
  | nil a => exact ⟨[], 0, .nil a, List.nodup_singleton a, List.Subset.refl _, le_rfl, le_rfl⟩
  | @cons a y b c d p hstep htail ih =>
      obtain ⟨q, e, hq, hnodup, hsub, hlength, hle⟩ := ih
      have hq' : q ⊆ y :: p := List.Subset.trans hsub (List.subset_cons_self _ _)
      by_cases ha : a ∈ y :: q
      · obtain ⟨r, f, hr, hsuffix, hle'⟩ := hq.rest ha
        have hr' : r ⊆ y :: q := List.Subset.trans (List.subset_cons_self a r) hsuffix.subset
        refine ⟨r, f, hr, hnodup.sublist hsuffix.sublist, ?_, ?_, by omega⟩
        · exact List.Subset.trans hr' (List.cons_subset.mpr ⟨List.mem_cons_self, hq'⟩)
        · have := hsuffix.length_le
          simp only [List.length_cons] at this ⊢
          omega
      · exact ⟨y :: q, c + e, .cons hstep hq, List.nodup_cons.mpr ⟨ha, hnodup⟩,
          List.cons_subset_cons y hsub, by simpa using hlength, by omega⟩

/-- A route that does not come back to its start can be made a path with the same first step. -/
theorem exists_path (h : Route edge a (x :: p) b c) (ha : a ∉ x :: p) :
    ∃ q d, Route edge a (x :: q) b d ∧ (a :: x :: q).Nodup ∧ q.length ≤ p.length ∧ d ≤ c := by
  cases h with
  | cons hstep htail =>
      obtain ⟨q, e, hq, hnodup, hsub, hlength, hle⟩ := htail.cut
      refine ⟨q, _, .cons hstep hq, List.nodup_cons.mpr ⟨?_, hnodup⟩, hlength, by omega⟩
      exact fun hmem => ha (List.cons_subset_cons x hsub hmem)

/-- **Label setting.** `best v n` is the tentative cost of reaching `v` in `n` steps. Where an entry
is not on the frontier its neighbours are accounted for; then a route of at most `limit` steps ends at
an entry that costs no more, or the frontier has a label that costs no more. -/
theorem settled {source : V} {limit : Nat} {best : V → Nat → Option Nat} {frontier : Nat → Prop}
    (hclosed : ∀ v n k, best v n = some k → frontier k ∨ n = limit ∨
      ∀ x e, edge v x e → x ≠ source → ∃ k', best x (n + 1) = some k' ∧ k' ≤ k + e)
    (h : Route edge a p b c) (hsource : source ∉ p) {n k : Nat} (hbest : best a n = some k)
    (hlength : n + p.length ≤ limit) :
    (∃ k', frontier k' ∧ k' ≤ k + c) ∨
      ∃ k', best b (n + p.length) = some k' ∧ k' ≤ k + c := by
  induction h generalizing n k with
  | nil a => exact .inr ⟨k, hbest, by omega⟩
  | @cons a y b c d p hstep _ ih =>
      rw [List.mem_cons, not_or] at hsource
      rw [List.length_cons] at hlength ⊢
      rcases hclosed a n k hbest with hfrontier | hlimit | hnext
      · exact .inl ⟨k, hfrontier, by omega⟩
      · omega
      · obtain ⟨k', hk', hle⟩ := hnext y c hstep (Ne.symm hsource.1)
        rcases ih hsource.2 hk' (by omega) with ⟨e, he, hle'⟩ | ⟨e, he, hle'⟩
        · exact .inl ⟨e, he, by omega⟩
        · exact .inr ⟨e, by rwa [Nat.add_comm p.length, ← Nat.add_assoc], by omega⟩

end Route

end Peerward.Lib
