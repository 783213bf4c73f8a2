import Mathlib

/-!
# Short walks around a vertex

`Detour G x n a b`: the graph has a walk from `a` to `b` of at most `n` edges that does not visit
`x`. Walks are put together from single steps, each of which may also stay where it is; a
construction that sometimes picks the same vertex twice then needs no case split.
-/

namespace Peerward.Lib

variable {V : Type} {G : SimpleGraph V}

/-- A walk of at most `n` edges that avoids `x`. -/
def Detour (G : SimpleGraph V) (x : V) (n : Nat) (a b : V) : Prop :=
  ∃ walk : G.Walk a b, walk.length ≤ n ∧ x ∉ walk.support

namespace Detour

variable {x a b c : V} {n : Nat}

theorem refl (ha : a ≠ x) : Detour G x 0 a a :=
  ⟨.nil, le_rfl, by simpa using ha.symm⟩

theorem step (hab : a = b ∨ G.Adj a b) (ha : a ≠ x) (h : Detour G x n b c) :
    Detour G x (n + 1) a c := by
  obtain ⟨walk, hlength, hx⟩ := h
  rcases hab with rfl | hadj
  · exact ⟨walk, by omega, hx⟩
  · refine ⟨.cons hadj walk, by simpa using hlength, ?_⟩
    rw [SimpleGraph.Walk.support_cons, List.mem_cons, not_or]
    exact ⟨ha.symm, hx⟩

theorem mono {m : Nat} (h : Detour G x n a b) (hnm : n ≤ m) : Detour G x m a b := by
  obtain ⟨walk, hlength, hx⟩ := h
  exact ⟨walk, hlength.trans hnm, hx⟩

end Detour

/-- Of the first two elements of a list without repetitions, one differs from `x`, if any element of
the list does. -/
theorem exists_mem_take_two_ne {l : List V} (hl : l.Nodup) {s x : V} (hs : s ∈ l) (hsx : s ≠ x) :
    ∃ g ∈ l.take 2, g ≠ x := by
  match l with
  | [] => cases hs
  | [a] =>
      rw [List.mem_singleton] at hs
      exact ⟨a, by simp, hs ▸ hsx⟩
  | a :: b :: rest =>
      have hab : a ≠ b := by
        rintro rfl
        simp at hl
      by_cases hax : a = x
      · exact ⟨b, by simp, fun hbx => hab (hax.trans hbx.symm)⟩
      · exact ⟨a, by simp, hax⟩

end Peerward.Lib
