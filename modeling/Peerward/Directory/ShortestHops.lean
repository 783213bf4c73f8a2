import Peerward.Directory.NextHops
import Peerward.Directory.SparseGraph
import Peerward.Lib.Decoder

/-!
# Next hops are exact

The loop keeps two facts. `Sound`: every pending label stands for a route with its first hop, its
number of edges and its cost. `Settled`: every entry of `best` either has its label pending or has
all of its neighbours accounted for. The popped label is then as cheap as any route at all, because a
cheaper one would have to leave the settled entries through a cheaper pending label.
-/

namespace Peerward.Directory.RelayTopology

open Std Peerward.Lib
open Peerward.Net (saturatingAdd saturatingAdd_eq U64_MAX)

/-! ## The heap -/

theorem Label.cost_le_of_le {a b : Label} (h : a.le b) : a.cost ≤ b.cost := by
  simp only [Label.le, Label.cmp, compareLex, compareOn, Ordering.isLE_then_iff_or] at h
  rcases h with h | ⟨h, -⟩
  · exact (Nat.compare_eq_lt.mp h).le
  · exact (Nat.compare_eq_eq.mp h).le

namespace Search

variable {s : Search} {label l : Label} {key : RelayId × Nat} {k : Nat}

@[simp] theorem mem_push : l ∈ (s.push label).pending ↔ l = label ∨ l ∈ s.pending := by
  simp [push, List.mem_orderedInsert]

@[simp] theorem push_best : (s.push label).best[key]? =
    if (label.node, label.hops) = key then some label.cost else s.best[key]? := by
  simp [push, ExtTreeMap.getElem?_insert]

/-- The first pending label is a cheapest one. -/
def Ordered (s : Search) : Prop := s.pending.Pairwise Label.le

theorem Ordered.push (h : s.Ordered) (label : Label) : (s.push label).Ordered :=
  List.Pairwise.orderedInsert label s.pending h

theorem Ordered.relax (h : s.Ordered) {source : RelayId} (hhops : label.hops < 4)
    (neighbor : RelayId × Nat) : (s.relax source label hhops neighbor).Ordered := by
  unfold Search.relax
  split
  · exact h
  · dsimp only
    split
    · exact h
    · exact h.push _

/-- The pending labels say what `best` says of the entries in which `s'` differs from `s`. -/
structure Extends (s s' : Search) : Prop where
  pending : ∀ l ∈ s.pending, l ∈ s'.pending
  best : ∀ ⦃key : RelayId × Nat⦄ ⦃k : Nat⦄,
    s.best[key]? = some k → ∃ k', s'.best[key]? = some k' ∧ k' ≤ k
  fresh : ∀ ⦃v : RelayId⦄ ⦃n k : Nat⦄, s'.best[(v, n)]? = some k →
    s.best[(v, n)]? = some k ∨ ∃ l ∈ s'.pending, l.node = v ∧ l.hops = n ∧ l.cost = k

theorem Extends.refl (s : Search) : Extends s s where
  pending _ h := h
  best _ k h := ⟨k, h, le_rfl⟩
  fresh _ _ _ h := .inl h

theorem Extends.trans {s s' s'' : Search} (h : Extends s s') (h' : Extends s' s'') :
    Extends s s'' where
  pending l hl := h'.pending l (h.pending l hl)
  best key k hk := by
    obtain ⟨k', hk', hle⟩ := h.best hk
    obtain ⟨k'', hk'', hle'⟩ := h'.best hk'
    exact ⟨k'', hk'', hle'.trans hle⟩
  fresh v n k hk := by
    rcases h'.fresh hk with hk | hpending
    · rcases h.fresh hk with hk | ⟨l, hl, hlabel⟩
      · exact .inl hk
      · exact .inr ⟨l, h'.pending l hl, hlabel⟩
    · exact .inr hpending

/-- A push that does not raise its entry. -/
theorem extends_push (h : ∀ k, s.best[(label.node, label.hops)]? = some k → label.cost ≤ k) :
    Extends s (s.push label) where
  pending l hl := mem_push.mpr (.inr hl)
  best key k hk := by
    rw [push_best]
    by_cases hkey : (label.node, label.hops) = key
    · subst hkey
      exact ⟨label.cost, by simp, h k hk⟩
    · exact ⟨k, by rwa [if_neg hkey], le_rfl⟩
  fresh v n k hk := by
    rw [push_best] at hk
    split at hk
    · next hkey =>
      cases hkey
      cases hk
      exact .inr ⟨label, mem_push.mpr (.inl rfl), rfl, rfl, rfl⟩
    · exact .inl hk

/-- The ways relaxing an edge can go. -/
inductive Relaxed (source : RelayId) (label : Label) (hhops : label.hops < 4) (s : Search)
    (neighbor : RelayId × Nat) : Search → Prop
  | returns : neighbor.1 = source → Relaxed source label hhops s neighbor s
  | known {k : Nat} : s.best[(neighbor.1, label.hops + 1)]? = some k → k ≤ label.cost + neighbor.2 →
      Relaxed source label hhops s neighbor s
  | pushed : neighbor.1 ≠ source →
      (∀ k, s.best[(neighbor.1, label.hops + 1)]? = some k → label.cost + neighbor.2 ≤ k) →
      Relaxed source label hhops s neighbor (s.push { label with
        cost := label.cost + neighbor.2, hops := label.hops + 1, node := neighbor.1
        hops_le := hhops })

theorem relaxed {source : RelayId} (hhops : label.hops < 4) (s : Search)
    {neighbor : RelayId × Nat} (hcost : label.cost + neighbor.2 ≤ U64_MAX) :
    Relaxed source label hhops s neighbor (s.relax source label hhops neighbor) := by
  unfold relax
  split
  · next hsource => exact .returns hsource
  · next hsource =>
    simp only [saturatingAdd_eq hcost]
    split
    · next hknown =>
      rw [Option.any_eq_true] at hknown
      obtain ⟨k, hk, hle⟩ := hknown
      exact .known hk (by simpa using hle)
    · next hknown =>
      refine .pushed hsource fun k hk => ?_
      rw [hk] at hknown
      simp only [Option.any_some, decide_eq_true_eq] at hknown
      omega

/-! ## What pending labels and settled entries say

`Stands` ties a label to a route, so that no answer is cheaper than the routes. `Settled` says that an entry
still has its label pending or has told its neighbours, so that no route is missed.
-/

/-- No edge of a valid topology costs more. -/
def ceiling : Nat := defaultBackboneRttMillis + 10 * defaultBackboneLossPermyriad

section Invariant

variable {edge : RelayId → RelayId → Nat → Prop} {source destination : RelayId}
  {excluded : Option RelayId}

/-- A route of at most four edges that does not return to the source and does not start with the
excluded hop. -/
structure Allowed (edge : RelayId → RelayId → Nat → Prop) (source : RelayId)
    (excluded : Option RelayId) (p : List RelayId) (destination : RelayId) (cost : Nat) : Prop where
  route : Route edge source p destination cost
  length_le : p.length ≤ 4
  leaves : source ∉ p
  first_ne : ∀ first ∈ p.head?, excluded ≠ some first

/-- The label stands for such a route. -/
structure Stands (edge : RelayId → RelayId → Nat → Prop) (source : RelayId)
    (excluded : Option RelayId) (l : Label) : Prop where
  cost_le : l.cost ≤ l.hops * ceiling
  route : ∃ p, Allowed edge source excluded (l.firstHop :: p) l.node l.cost ∧
    p.length + 1 = l.hops

/-- The entry `k` for `v` after `n` edges has its label pending, or all its neighbours know it. -/
def Settled (edge : RelayId → RelayId → Nat → Prop) (source destination : RelayId) (s : Search)
    (v : RelayId) (n k : Nat) : Prop :=
  (∃ l ∈ s.pending, l.node = v ∧ l.hops = n ∧ l.cost = k) ∨
    v ≠ destination ∧ (n = 4 ∨ ∀ x e, edge v x e → x ≠ source →
      ∃ k', s.best[(x, n + 1)]? = some k' ∧ k' ≤ k + e)

theorem Settled.extend {s' : Search} {v : RelayId} {n : Nat}
    (h : Settled edge source destination s v n k) (hext : Extends s s') :
    Settled edge source destination s' v n k := by
  rcases h with ⟨l, hl, hlabel⟩ | ⟨hne, hlimit | hnext⟩
  · exact .inl ⟨l, hext.pending l hl, hlabel⟩
  · exact .inr ⟨hne, .inl hlimit⟩
  · refine .inr ⟨hne, .inr fun x e hedge hx => ?_⟩
    obtain ⟨k', hk', hle⟩ := hnext x e hedge hx
    obtain ⟨k'', hk'', hle'⟩ := hext.best hk'
    exact ⟨k'', hk'', hle'.trans hle⟩

/-- Popping a label unsettles no entry but its own. -/
theorem Settled.pop {best : Best} {pending : List Label} {v : RelayId} {n : Nat}
    (h : Settled edge source destination { best, pending := l :: pending } v n k) :
    Settled edge source destination { best, pending } v n k ∨
      l.node = v ∧ l.hops = n ∧ l.cost = k := by
  rcases h with ⟨l', hl', hlabel⟩ | hnext
  · rcases List.mem_cons.mp hl' with rfl | hl'
    · exact .inr hlabel
    · exact .inl (.inl ⟨l', hl', hlabel⟩)
  · exact .inl (.inr hnext)

/-- The invariant of the loop. -/
structure Inv (edge : RelayId → RelayId → Nat → Prop) (source destination : RelayId)
    (excluded : Option RelayId) (s : Search) : Prop where
  ordered : s.Ordered
  stands : ∀ l ∈ s.pending, Stands edge source excluded l
  started : ∀ x e, edge source x e → excluded ≠ some x →
    ∃ k, s.best[(x, 1)]? = some k ∧ k ≤ e
  settled : ∀ ⦃v : RelayId⦄ ⦃n k : Nat⦄, s.best[(v, n)]? = some k →
    Settled edge source destination s v n k

/-- **The frontier.** Some pending label is no dearer than any given route. -/
theorem Inv.frontier (h : Inv edge source destination excluded s) (hne : source ≠ destination)
    {p : List RelayId} {cost : Nat} (hp : Allowed edge source excluded p destination cost) :
    ∃ l ∈ s.pending, l.cost ≤ cost := by
  obtain ⟨hroute, hlength, hleaves, hfirst⟩ := hp
  cases hroute with
  | nil _ => exact absurd rfl hne
  | @cons _ x _ c d p hstep htail =>
      obtain ⟨k, hk, hle⟩ := h.started x c hstep (hfirst x rfl)
      rw [List.mem_cons, not_or] at hleaves
      rw [List.length_cons] at hlength
      have hclosed : ∀ v n k, s.best[(v, n)]? = some k →
          (∃ l ∈ s.pending, l.cost = k) ∨ n = 4 ∨ ∀ x e, edge v x e → x ≠ source →
            ∃ k', s.best[(x, n + 1)]? = some k' ∧ k' ≤ k + e := by
        intro v n k hk
        rcases h.settled hk with ⟨l, hl, -, -, hcost⟩ | ⟨-, hnext⟩
        · exact .inl ⟨l, hl, hcost⟩
        · exact .inr hnext
      rcases Route.settled hclosed htail hleaves.2 hk (by omega) with
        ⟨_, ⟨l, hl, rfl⟩, hle'⟩ | ⟨k', hk', hle'⟩
      · exact ⟨l, hl, by omega⟩
      · rcases h.settled hk' with ⟨l, hl, -, -, rfl⟩ | ⟨hend, -⟩
        · exact ⟨l, hl, by omega⟩
        · exact absurd rfl hend

/-! ## Keeping the invariant

A turn pops a label. It is stale, or at the hop limit, or expanded; in each case what is left pending
covers the routes that the label stood for.
-/

theorem Stands.next (h : Stands edge source excluded label) (hhops : label.hops < 4)
    {x : RelayId} {e : Nat} (hedge : edge label.node x e) (hceiling : e ≤ ceiling)
    (hx : x ≠ source) :
    Stands edge source excluded { label with
      cost := label.cost + e, hops := label.hops + 1, node := x, hops_le := hhops } := by
  obtain ⟨hcost, p, ⟨hroute, -, hleaves, hfirst⟩, hlength⟩ := h
  refine ⟨?_, p ++ [x], ⟨?_, ?_, ?_, hfirst⟩, ?_⟩
  · simp only [Nat.add_mul, Nat.one_mul]
    omega
  · exact hroute.concat hedge
  · simp only [List.length_cons, List.length_append, List.length_nil]
    omega
  · rw [← List.cons_append, List.mem_append, List.mem_singleton, not_or]
    exact ⟨hleaves, hx.symm⟩
  · simp only [List.length_append, List.length_cons, List.length_nil]
    omega

/-- Costs stay far from the ceiling of the counter. -/
theorem Stands.add_le (h : Stands edge source excluded label) (hhops : label.hops < 4) {e : Nat}
    (he : e ≤ ceiling) : label.cost + e ≤ U64_MAX := by
  have hmul : label.hops * ceiling ≤ 3 * ceiling := Nat.mul_le_mul_right _ (by omega)
  have hcost := h.cost_le
  have hmax : 4 * ceiling ≤ U64_MAX := by decide
  omega

/-- Everything that expanding a label keeps and adds. -/
theorem expand_spec (hedge : ∀ a x e, edge a x e → e ≤ ceiling)
    (hl : Stands edge source excluded label) (hhops : label.hops < 4)
    {neighbors : List (RelayId × Nat)}
    (hneighbors : ∀ neighbor ∈ neighbors, edge label.node neighbor.1 neighbor.2)
    (hordered : s.Ordered) (hstands : ∀ l ∈ s.pending, Stands edge source excluded l) :
    Extends s (s.expand source label hhops neighbors) ∧
      (s.expand source label hhops neighbors).Ordered ∧
      (∀ l ∈ (s.expand source label hhops neighbors).pending, Stands edge source excluded l) ∧
      ∀ neighbor ∈ neighbors, neighbor.1 ≠ source →
        ∃ k, (s.expand source label hhops neighbors).best[(neighbor.1, label.hops + 1)]? = some k ∧
          k ≤ label.cost + neighbor.2 := by
  induction neighbors generalizing s with
  | nil => exact ⟨.refl s, hordered, hstands, by simp⟩
  | cons neighbor neighbors ih =>
      have hfirst := hneighbors neighbor List.mem_cons_self
      have hceiling := hedge _ _ _ hfirst
      have hrest := fun n hn => hneighbors n (List.mem_cons_of_mem _ hn)
      rw [expand, List.foldl_cons, ← expand]
      generalize hs' : s.relax source label hhops neighbor = s'
      have hcases := hs' ▸ relaxed hhops s (hl.add_le hhops hceiling)
      -- One edge: what it adds to the state, and what it promises of its own entry.
      have hstep : Extends s s' ∧ (∀ l ∈ s'.pending, Stands edge source excluded l) ∧
          (neighbor.1 ≠ source → ∃ k, s'.best[(neighbor.1, label.hops + 1)]? = some k ∧
            k ≤ label.cost + neighbor.2) := by
        cases hcases with
        | returns hsource => exact ⟨.refl s, hstands, fun hne => absurd hsource hne⟩
        | known hk hle => exact ⟨.refl s, hstands, fun _ => ⟨_, hk, hle⟩⟩
        | pushed hne hlower =>
            refine ⟨extends_push hlower, ?_, fun _ => ⟨_, by simp, le_rfl⟩⟩
            intro l hmem
            rcases mem_push.mp hmem with rfl | hmem
            · exact hl.next hhops hfirst hceiling hne
            · exact hstands l hmem
      obtain ⟨hext, hstands', hentry⟩ := hstep
      have hordered' : s'.Ordered := hs' ▸ hordered.relax hhops neighbor
      obtain ⟨hext', hordered'', hstands'', hentries⟩ := ih hrest hordered' hstands'
      refine ⟨hext.trans hext', hordered'', hstands'', ?_⟩
      intro other hother hne
      rcases List.mem_cons.mp hother with rfl | hother
      · obtain ⟨k, hk, hle⟩ := hentry hne
        obtain ⟨k', hk', hle'⟩ := hext'.best hk
        exact ⟨k', hk', hle'.trans hle⟩
      · exact hentries other hother hne

section Step

variable {best : Best} {pending : List Label}

/-- A stale label can go. -/
theorem Inv.stale (h : Inv edge source destination excluded { best, pending := l :: pending })
    (hstale : (best[(l.node, l.hops)]?).getD U64_MAX < l.cost) :
    Inv edge source destination excluded { best, pending } where
  ordered := (List.pairwise_cons.mp h.ordered).2
  stands l' hl' := h.stands l' (List.mem_cons_of_mem _ hl')
  started := h.started
  settled v n k hk := by
    rcases (h.settled hk).pop with hsettled | ⟨rfl, rfl, rfl⟩
    · exact hsettled
    · replace hk : best[(l.node, l.hops)]? = some l.cost := hk
      rw [hk, Option.getD_some] at hstale
      omega

/-- A label at the hop limit elsewhere than the destination can go. -/
theorem Inv.limit (h : Inv edge source destination excluded { best, pending := l :: pending })
    (hnode : l.node ≠ destination) (hhops : l.hops = 4) :
    Inv edge source destination excluded { best, pending } where
  ordered := (List.pairwise_cons.mp h.ordered).2
  stands l' hl' := h.stands l' (List.mem_cons_of_mem _ hl')
  started := h.started
  settled v n k hk := by
    rcases (h.settled hk).pop with hsettled | ⟨rfl, rfl, rfl⟩
    · exact hsettled
    · exact .inr ⟨hnode, .inl hhops⟩

/-- A label elsewhere than the destination is replaced by those of its neighbours. -/
theorem Inv.expand (hedge : ∀ a x e, edge a x e → e ≤ ceiling)
    (h : Inv edge source destination excluded { best, pending := l :: pending })
    (hnode : l.node ≠ destination) (hhops : l.hops < 4) {neighbors : List (RelayId × Nat)}
    (hneighbors : ∀ x e, edge l.node x e ↔ (x, e) ∈ neighbors) :
    Inv edge source destination excluded
      (Search.expand source l hhops { best, pending } neighbors) := by
  obtain ⟨hext, hordered, hstands, hentries⟩ := expand_spec (s := { best, pending }) hedge
    (h.stands l List.mem_cons_self) hhops (fun n hn => (hneighbors n.1 n.2).mpr hn)
    (List.pairwise_cons.mp h.ordered).2 (fun l' hl' => h.stands l' (List.mem_cons_of_mem _ hl'))
  refine ⟨hordered, hstands, ?_, ?_⟩
  · intro x e hx hfirst
    obtain ⟨k, hk, hle⟩ := h.started x e hx hfirst
    obtain ⟨k', hk', hle'⟩ := hext.best hk
    exact ⟨k', hk', hle'.trans hle⟩
  · intro v n k hk
    rcases hext.fresh hk with hk | hpending
    · rcases (h.settled hk).pop with hsettled | ⟨rfl, rfl, rfl⟩
      · exact hsettled.extend hext
      · refine .inr ⟨hnode, .inr fun x e hx hne => ?_⟩
        exact hentries (x, e) ((hneighbors x e).mp hx) hne
    · exact .inl hpending

end Step

end Invariant

end Search

/-! ## The search -/

/-- What an answer says of the routes it was to choose from. -/
def Answers (routes : List RelayId → Nat → Prop) : Option (Nat × RelayId) → Prop
  | none => ∀ p cost, ¬ routes p cost
  | some (cost, first) => (∃ p, routes (first :: p) cost) ∧ ∀ p cost', routes p cost' → cost ≤ cost'

theorem search_answers {adjacency : Adjacency} {source destination : RelayId}
    {excluded : Option RelayId} (hne : source ≠ destination)
    {edge : RelayId → RelayId → Nat → Prop} (hedge : ∀ a x e, edge a x e → e ≤ Search.ceiling)
    (hadjacency : ∀ a x e, edge a x e ↔ (x, e) ∈ adjacency.neighbors a) (best : Best)
    (pending : List Label)
    (h : Search.Inv edge source destination excluded { best, pending }) :
    Answers (fun p cost => Search.Allowed edge source excluded p destination cost)
      (search adjacency source destination best pending) := by
  fun_induction search adjacency source destination best pending with
  | case1 best =>
      intro p cost hp
      obtain ⟨l, hl, -⟩ := h.frontier hne hp
      cases hl
  | case2 best label pending hstale ih => exact ih (h.stale hstale)
  | case3 best label pending _ hnode =>
      obtain ⟨-, p, hp, -⟩ := h.stands label List.mem_cons_self
      refine ⟨⟨p, hnode ▸ hp⟩, fun q cost' hq => ?_⟩
      obtain ⟨l, hl, hle⟩ := h.frontier hne hq
      rcases List.mem_cons.mp hl with rfl | hl
      · exact hle
      · exact (Label.cost_le_of_le ((List.pairwise_cons.mp h.ordered).1 l hl)).trans hle
  | case4 best label pending _ hnode hhops ih => exact ih (h.limit hnode hhops)
  | case5 best label pending _ hnode hhops s ih =>
      exact ih (h.expand hedge hnode _ (hadjacency label.node))

/-! ## The first labels -/

/-- A neighbour of the source at its own cost. -/
theorem Search.stands_first {edge : RelayId → RelayId → Nat → Prop} {source : RelayId}
    {excluded : Option RelayId} {neighbor : RelayId × Nat}
    (hedge : edge source neighbor.1 neighbor.2) (hceiling : neighbor.2 ≤ Search.ceiling)
    (hne : neighbor.1 ≠ source) (hfirst : excluded ≠ some neighbor.1) :
    Search.Stands edge source excluded {
      cost := neighbor.2, hops := 1, node := neighbor.1, firstHop := neighbor.1
      hops_le := by decide } where
  cost_le := by simpa using hceiling
  route := by
    refine ⟨[], ⟨.cons hedge (.nil _), by simp, by simpa using hne.symm, ?_⟩, rfl⟩
    rintro first ⟨⟩
    exact hfirst

theorem Search.start_inv {edge : RelayId → RelayId → Nat → Prop} {source destination : RelayId}
    (hedge : ∀ a x e, edge a x e → e ≤ Search.ceiling) (hloop : ∀ x e, edge source x e → x ≠ source)
    (honce : ∀ x e e', edge source x e → edge source x e' → e = e')
    {neighbors : List (RelayId × Nat)} (hneighbors : ∀ x e, edge source x e ↔ (x, e) ∈ neighbors)
    (excluded : Option RelayId) :
    Search.Inv edge source destination excluded (Search.start neighbors excluded) := by
  -- Along the list every entry is that of an edge, so no entry is ever changed.
  suffices hfold : ∀ (rest : List (RelayId × Nat)) (s : Search), rest ⊆ neighbors → s.Ordered →
      (∀ l ∈ s.pending, Search.Stands edge source excluded l) →
      (∀ v n k, s.best[(v, n)]? = some k → edge source v k ∧
        ∃ l ∈ s.pending, l.node = v ∧ l.hops = n ∧ l.cost = k) →
      let s' := rest.foldl (fun s neighbor =>
        if excluded = some neighbor.1 then s
        else s.push {
          cost := neighbor.2, hops := 1, node := neighbor.1, firstHop := neighbor.1
          hops_le := by decide }) s
      Search.Extends s s' ∧ s'.Ordered ∧ (∀ l ∈ s'.pending, Search.Stands edge source excluded l) ∧
        ∀ neighbor ∈ rest, excluded ≠ some neighbor.1 →
          ∃ k, s'.best[(neighbor.1, 1)]? = some k ∧ k ≤ neighbor.2 by
    obtain ⟨hext, hordered, hstands, hentries⟩ := hfold neighbors {} (List.Subset.refl _)
      List.Pairwise.nil (by simp) (by simp)
    refine ⟨hordered, hstands, ?_, ?_⟩
    · exact fun x e hx hfirst => hentries (x, e) ((hneighbors x e).mp hx) hfirst
    · intro v n k hk
      rcases hext.fresh hk with hk | hpending
      · simp at hk
      · exact .inl hpending
  intro rest
  induction rest with
  | nil => exact fun s _ hordered hstands _ => ⟨.refl s, hordered, hstands, by simp⟩
  | cons neighbor rest ih =>
      intro s hsub hordered hstands hbest
      have hmem := (hneighbors neighbor.1 neighbor.2).mpr (hsub List.mem_cons_self)
      have hrest : rest ⊆ neighbors := List.Subset.trans (List.subset_cons_self _ _) hsub
      simp only [List.foldl_cons]
      by_cases hfirst : excluded = some neighbor.1
      · simp only [hfirst, if_true] at ih ⊢
        obtain ⟨hext, hordered', hstands', hentries⟩ := ih s hrest hordered (hfirst ▸ hstands) hbest
        refine ⟨hext, hordered', hstands', fun other hother hne => ?_⟩
        rcases List.mem_cons.mp hother with rfl | hother
        · exact absurd rfl hne
        · exact hentries other hother hne
      · rw [if_neg hfirst]
        have hext : Search.Extends s (s.push {
            cost := neighbor.2, hops := 1, node := neighbor.1, firstHop := neighbor.1
            hops_le := by decide }) :=
          Search.extends_push fun k hk => (honce _ _ _ hmem (hbest _ _ _ hk).1).le
        have hstands' : ∀ l ∈ (s.push {
            cost := neighbor.2, hops := 1, node := neighbor.1, firstHop := neighbor.1
            hops_le := by decide }).pending, Search.Stands edge source excluded l := by
          intro l hl
          rcases Search.mem_push.mp hl with rfl | hl
          · exact Search.stands_first hmem (hedge _ _ _ hmem) (hloop _ _ hmem) hfirst
          · exact hstands l hl
        obtain ⟨hext', hordered', hstands'', hentries⟩ := ih _ hrest (hordered.push _) hstands' (by
          intro v n k hk
          rcases hext.fresh hk with hk | hpending
          · obtain ⟨hv, l, hl, hlabel⟩ := hbest v n k hk
            exact ⟨hv, l, hext.pending l hl, hlabel⟩
          · refine ⟨?_, hpending⟩
            rw [Search.push_best] at hk
            split at hk
            · next hkey =>
              cases hkey
              cases hk
              exact hmem
            · exact (hbest v n k hk).1)
        refine ⟨hext.trans hext', hordered', hstands'', fun other hother hne => ?_⟩
        rcases List.mem_cons.mp hother with rfl | hother
        · exact hext'.best (by simp)
        · exact hentries other hother hne

/-! ## Valid topologies

What validation checks makes the adjacency lists symmetric, each edge unique, and every cost small enough
for the counters.
-/

/-- What `validate` checks of the edges. -/
structure Valid (topology : RelayTopology) : Prop where
  lt : ∀ edge ∈ topology.edges, edge.left < edge.right
  rtt_le : ∀ edge ∈ topology.edges, edge.rttMillis ≤ defaultBackboneRttMillis
  loss_le : ∀ edge ∈ topology.edges, edge.lossPermyriad ≤ defaultBackboneLossPermyriad
  ends : (topology.edges.map fun edge => (edge.left, edge.right)).Nodup

theorem nodup_of_allFresh {T : Type} {cmp : T → T → Ordering} [TransCmp cmp] [LawfulEqCmp cmp]
    {items : List T} {seen : ExtTreeSet T cmp} (h : allFresh cmp seen items = true) :
    items.Nodup ∧ ∀ item ∈ items, item ∉ seen := by
  induction items generalizing seen with
  | nil => simp
  | cons item items ih =>
      rw [allFresh, Bool.and_eq_true, Bool.not_eq_true', Bool.eq_false_iff, ne_eq,
        ExtTreeSet.contains_iff_mem] at h
      obtain ⟨hnodup, hseen⟩ := ih h.2
      refine ⟨List.nodup_cons.mpr ⟨fun hmem => hseen item hmem (by simp), hnodup⟩, ?_⟩
      intro other hother
      rcases List.mem_cons.mp hother with rfl | hother
      · exact h.1
      · exact fun hmem => hseen other hother (ExtTreeSet.mem_insert.mpr (.inr hmem))

theorem ensureUnique_eq_ok {T : Type} {cmp : T → T → Ordering} [TransCmp cmp] [LawfulEqCmp cmp]
    {items : List T} : ensureUnique cmp items = .ok () ↔ items.Nodup := by
  refine ⟨fun h => ?_, ensureUnique_of_nodup⟩
  unfold ensureUnique at h
  split at h
  · next hfresh => exact (nodup_of_allFresh hfresh).1
  · cases h

/-- `validate` as the sequence of its checks. -/
theorem validate_eq (topology : RelayTopology) : topology.validate = (do
    rejectIf (topology.nodes.length > 4096 || topology.edges.length > 65536) .nonCanonical
    ensureSortedUnique compare (topology.nodes.map (·.relayId))
    rejectIf (topology.nodes.any invalidNode) .nonCanonical
    ensureSortedUnique compare topology.edges
    ensureUnique byEndpoints (topology.edges.map fun edge => (edge.left, edge.right))
    rejectIf (topology.edges.any (invalidEdge
      (ExtTreeSet.ofList (topology.nodes.map (·.relayId)) compare))) .nonCanonical) := by
  unfold validate rejectIf
  generalize (topology.nodes.length > 4096 || topology.edges.length > 65536 : Bool) = size
  generalize topology.nodes.any invalidNode = nodes
  cases size <;> cases nodes <;> rfl

theorem valid_of_validate {topology : RelayTopology} (h : topology.validate = .ok ()) :
    topology.Valid := by
  rw [validate_eq] at h
  obtain ⟨_, -, h⟩ := bind_eq_ok.mp h
  obtain ⟨_, -, h⟩ := bind_eq_ok.mp h
  obtain ⟨_, -, h⟩ := bind_eq_ok.mp h
  obtain ⟨_, -, h⟩ := bind_eq_ok.mp h
  obtain ⟨_, hends, h⟩ := bind_eq_ok.mp h
  rw [rejectIf_eq_ok, List.any_eq_false] at h
  have hgood : ∀ edge ∈ topology.edges, edge.left < edge.right ∧
      edge.rttMillis ≤ defaultBackboneRttMillis ∧
      edge.lossPermyriad ≤ defaultBackboneLossPermyriad := by
    intro edge hedge
    have hvalid := h edge hedge
    simp only [invalidEdge, Bool.or_eq_true, decide_eq_true_eq, not_or] at hvalid
    obtain ⟨⟨⟨⟨hle, -⟩, -⟩, hrtt⟩, hloss⟩ := hvalid
    rw [BitVec.le_def] at hle
    rw [BitVec.lt_def]
    exact ⟨by omega, by omega, by omega⟩
  exact {
    lt := fun edge hedge => (hgood edge hedge).1
    rtt_le := fun edge hedge => (hgood edge hedge).2.1
    loss_le := fun edge hedge => (hgood edge hedge).2.2
    ends := ensureUnique_eq_ok.mp hends }

/-- The backbone has an edge between the two Relays, of this cost. -/
def Joined (topology : RelayTopology) (a b : RelayId) (cost : Nat) : Prop :=
  ∃ edge ∈ topology.edges, edge.other a = some b ∧ edge.routingCost = cost

theorem Valid.other_eq_some {topology : RelayTopology} (h : topology.Valid)
    {edge : RelayTopologyEdge} (hedge : edge ∈ topology.edges) {a b : RelayId} :
    edge.other a = some b ↔ edge.left = a ∧ edge.right = b ∨ edge.right = a ∧ edge.left = b := by
  have hne : edge.left ≠ edge.right := by
    intro heq
    have := h.lt edge hedge
    rw [heq] at this
    exact absurd this (by simp)
  unfold RelayTopologyEdge.other
  split
  · next ha =>
    subst ha
    simp [hne.symm]
  · next ha =>
    split
    · next hb =>
      subst hb
      simp [hne]
    · next hb => simp [Ne.symm ha, Ne.symm hb]

theorem Adjacency.mem_push {adjacency : Adjacency} {relay a : RelayId}
    {neighbor x : RelayId × Nat} : x ∈ (adjacency.push relay neighbor).neighbors a ↔
      x ∈ adjacency.neighbors a ∨ relay = a ∧ x = neighbor := by
  unfold Adjacency.push Adjacency.neighbors
  rw [ExtTreeMap.getElem?_insert]
  by_cases ha : relay = a
  · subst ha
    simp
  · simp [ha]

/-- The lists hold both directions of every edge. -/
theorem mem_adjacency {topology : RelayTopology} (h : topology.Valid) {a x : RelayId} {e : Nat} :
    (x, e) ∈ topology.adjacency.neighbors a ↔ topology.Joined a x e := by
  suffices hfold : ∀ (edges : List RelayTopologyEdge) (adjacency : Adjacency),
      edges ⊆ topology.edges →
      ((x, e) ∈ (edges.foldl (fun adjacency edge =>
        (adjacency.push edge.left (edge.right, edge.routingCost)).push edge.right
          (edge.left, edge.routingCost)) adjacency).neighbors a ↔
        (x, e) ∈ adjacency.neighbors a ∨
          ∃ edge ∈ edges, edge.other a = some x ∧ edge.routingCost = e) by
    rw [adjacency, hfold topology.edges ∅ (List.Subset.refl _)]
    simp [Adjacency.neighbors, Joined]
  intro edges
  induction edges with
  | nil => simp
  | cons edge edges ih =>
      intro adjacency hsub
      have hother := h.other_eq_some (a := a) (b := x) (hsub List.mem_cons_self)
      rw [List.foldl_cons, ih _ (List.Subset.trans (List.subset_cons_self _ _) hsub),
        Adjacency.mem_push, Adjacency.mem_push, List.exists_mem_cons_iff, hother, Prod.mk.injEq,
        Prod.mk.injEq]
      grind

theorem Valid.routingCost_le {topology : RelayTopology} (h : topology.Valid)
    {edge : RelayTopologyEdge} (hedge : edge ∈ topology.edges) :
    edge.routingCost ≤ Search.ceiling := by
  have hrtt := h.rtt_le edge hedge
  have hloss := h.loss_le edge hedge
  have hadd := Net.saturatingAdd_le edge.rttMillis (min (edge.lossPermyriad * 10) U64_MAX)
  have hmin := Nat.min_le_left (edge.lossPermyriad * 10) U64_MAX
  unfold RelayTopologyEdge.routingCost Search.ceiling
  omega

theorem Valid.joined_le {topology : RelayTopology} (h : topology.Valid) (a x : RelayId) (e : Nat)
    (hjoined : topology.Joined a x e) : e ≤ Search.ceiling := by
  obtain ⟨edge, hedge, -, rfl⟩ := hjoined
  exact h.routingCost_le hedge

theorem Valid.joined_ne {topology : RelayTopology} (h : topology.Valid) {a x : RelayId} {e : Nat}
    (hjoined : topology.Joined a x e) : x ≠ a := by
  obtain ⟨edge, hedge, hother, -⟩ := hjoined
  have hlt := h.lt edge hedge
  rw [BitVec.lt_def] at hlt
  rintro rfl
  rcases (h.other_eq_some hedge).mp hother with ⟨hl, hr⟩ | ⟨hr, hl⟩
  · rw [hl, hr] at hlt
    omega
  · rw [hl, hr] at hlt
    omega

/-- Two Relays are joined by at most one edge. -/
theorem Valid.joined_once {topology : RelayTopology} (h : topology.Valid) {a x : RelayId}
    {e e' : Nat} (hjoined : topology.Joined a x e) (hjoined' : topology.Joined a x e') : e = e' := by
  obtain ⟨edge, hedge, hother, rfl⟩ := hjoined
  obtain ⟨edge', hedge', hother', rfl⟩ := hjoined'
  have hlt := h.lt edge hedge
  have hlt' := h.lt edge' hedge'
  rw [BitVec.lt_def] at hlt hlt'
  have hends : (edge.left, edge.right) = (edge'.left, edge'.right) := by
    rcases (h.other_eq_some hedge).mp hother with ⟨hl, hr⟩ | ⟨hr, hl⟩ <;>
      rcases (h.other_eq_some hedge').mp hother' with ⟨hl', hr'⟩ | ⟨hr', hl'⟩
    · rw [hl, hr, hl', hr']
    · rw [hl, hr] at hlt
      rw [hl', hr'] at hlt'
      omega
    · rw [hl, hr] at hlt
      rw [hl', hr'] at hlt'
      omega
    · rw [hl, hr, hl', hr']
  rw [List.inj_on_of_nodup_map h.ends hedge hedge' hends]

/-! ## Exactness

Routes may return to a node and paths may not. Cutting out what a route goes around makes it no dearer, so
the search, which looks at routes, finds the cost of the cheapest path.
-/

theorem shortestNextHop_answers {topology : RelayTopology} (h : topology.Valid)
    {source destination : RelayId} (hne : source ≠ destination) (excluded : Option RelayId) :
    Answers (fun p cost => Search.Allowed topology.Joined source excluded p destination cost)
      (topology.shortestNextHop source destination excluded) := by
  rw [shortestNextHop, if_neg hne]
  cases hneighbors : topology.adjacency[source]? with
  | none =>
      intro p cost hp
      cases hp.route with
      | nil _ => exact hne rfl
      | cons hstep _ =>
          rw [← mem_adjacency h, Adjacency.neighbors, hneighbors] at hstep
          simp at hstep
  | some neighbors =>
      refine search_answers hne h.joined_le (fun a x e => (mem_adjacency h).symm) _ _ ?_
      refine Search.start_inv h.joined_le (fun _ _ => h.joined_ne) (fun _ _ _ => h.joined_once) ?_ _
      intro x e
      rw [← mem_adjacency h, Adjacency.neighbors, hneighbors, Option.getD_some]

/-- A path of at most four edges. -/
structure HopPath (topology : RelayTopology) (source : RelayId) (p : List RelayId)
    (destination : RelayId) (cost : Nat) : Prop where
  route : Route topology.Joined source p destination cost
  length_le : p.length ≤ 4
  nodup : (source :: p).Nodup

/-- A walk of at most four edges that does not return to the source. -/
structure HopWalk (topology : RelayTopology) (source : RelayId) (p : List RelayId)
    (destination : RelayId) (cost : Nat) : Prop where
  route : Route topology.Joined source p destination cost
  length_le : p.length ≤ 4
  leaves : source ∉ p

section Exact

variable {topology : RelayTopology} {source destination : RelayId} {p : List RelayId} {cost : Nat}

theorem HopPath.toWalk (h : topology.HopPath source p destination cost) :
    topology.HopWalk source p destination cost :=
  ⟨h.route, h.length_le, (List.nodup_cons.mp h.nodup).1⟩

theorem HopWalk.allowed {excluded : Option RelayId}
    (h : topology.HopWalk source p destination cost)
    (hfirst : ∀ first ∈ p.head?, excluded ≠ some first) :
    Search.Allowed topology.Joined source excluded p destination cost :=
  ⟨h.route, h.length_le, h.leaves, hfirst⟩

/-- A walk is not cheaper than some path with the same first hop. -/
theorem exists_hopPath {excluded : Option RelayId} {first : RelayId}
    (h : Search.Allowed topology.Joined source excluded (first :: p) destination cost) :
    ∃ q d, topology.HopPath source (first :: q) destination d ∧ d ≤ cost := by
  obtain ⟨q, d, hroute, hnodup, hlength, hle⟩ := h.route.exists_path h.leaves
  have hp := h.length_le
  rw [List.length_cons] at hp
  exact ⟨q, d, ⟨hroute, by rw [List.length_cons]; omega, hnodup⟩, hle⟩

/-- What one search says: there is no path, or its first hop starts a cheapest one. -/
theorem shortestNextHop_spec (h : topology.Valid) (hne : source ≠ destination)
    (excluded : Option RelayId) :
    (topology.shortestNextHop source destination excluded = none ↔
      ¬ ∃ hop p cost, excluded ≠ some hop ∧ topology.HopPath source (hop :: p) destination cost) ∧
    ∀ cost first, topology.shortestNextHop source destination excluded = some (cost, first) →
      excluded ≠ some first ∧ ∃ p, topology.HopPath source (first :: p) destination cost ∧
        ∀ hop q cost', excluded ≠ some hop →
          topology.HopWalk source (hop :: q) destination cost' → cost ≤ cost' := by
  have hanswers := shortestNextHop_answers h hne excluded
  have hallowed : ∀ {hop q cost'}, excluded ≠ some hop →
      topology.HopWalk source (hop :: q) destination cost' →
      Search.Allowed topology.Joined source excluded (hop :: q) destination cost' := by
    intro hop q cost' hhop hwalk
    refine hwalk.allowed ?_
    rintro first ⟨⟩
    exact hhop
  cases hresult : topology.shortestNextHop source destination excluded with
  | none =>
      rw [hresult] at hanswers
      refine ⟨⟨fun _ => ?_, fun _ => rfl⟩, by simp⟩
      rintro ⟨hop, p, cost, hhop, hpath⟩
      exact hanswers _ _ (hallowed hhop hpath.toWalk)
  | some answer =>
      obtain ⟨cost, first⟩ := answer
      rw [hresult] at hanswers
      obtain ⟨⟨p, hp⟩, hmin⟩ := hanswers
      have hfirst := hp.first_ne first rfl
      obtain ⟨q, d, hpath, hle⟩ := exists_hopPath hp
      obtain rfl : d = cost := by
        have := hmin _ _ (hallowed hfirst hpath.toWalk)
        omega
      refine ⟨⟨nofun, fun hnone => absurd ⟨first, q, d, hfirst, hpath⟩ hnone⟩, ?_⟩
      rintro _ _ ⟨⟩
      exact ⟨hfirst, q, hpath, fun hop r cost' hhop hwalk => hmin _ _ (hallowed hhop hwalk)⟩

/-- The node list is sorted first, so its order does not matter. -/
theorem build_perm (meshId : MeshId) (revision : Nat) {nodes nodes' : List RelayTopologyNode}
    (sparseThreshold : Nat) (sparseCapability : UInt64) (h : nodes.Perm nodes') :
    build meshId revision nodes sparseThreshold sparseCapability =
      build meshId revision nodes' sparseThreshold sparseCapability := by
  have hids := h.map (·.relayId)
  rw [build, ← sorted, build, ← sorted]
  by_cases hnodup : (nodes.map (·.relayId)).Nodup
  · have hsame : sorted nodes = sorted nodes' := by
      have hincreasing := List.pairwise_map.mp (sorted_increasing hnodup)
      have hincreasing' := List.pairwise_map.mp (sorted_increasing (hids.nodup_iff.mp hnodup))
      refine List.Perm.eq_of_pairwise ?_ hincreasing hincreasing'
        (((sorted_perm nodes).trans h).trans (sorted_perm nodes').symm)
      intro a b _ _ hab hba
      have hswap : compare a.relayId b.relayId = (compare b.relayId a.relayId).swap :=
        OrientedCmp.eq_swap
      rw [hswap, hba] at hab
      cases hab
    rw [hsame]
  · have hreject : ∀ {nodes : List RelayTopologyNode}, ¬ (nodes.map (·.relayId)).Nodup →
        ensureUnique compare ((sorted nodes).map (·.relayId)) = .error .nonCanonical := by
      intro nodes hnodup
      have hsorted : ensureUnique compare ((sorted nodes).map (·.relayId)) ≠ .ok () :=
        ensureUnique_eq_ok.not.mpr (((sorted_perm nodes).map (·.relayId)).nodup_iff.not.mpr hnodup)
      unfold ensureUnique at hsorted ⊢
      split
      · next hfresh =>
        rw [if_pos hfresh] at hsorted
        exact absurd rfl hsorted
      · rfl
    simp only [hreject hnodup, hreject (hids.nodup_iff.not.mp hnodup), bind, Except.bind]

/-- **Next hops are exact.** For every valid topology: there is none exactly when no path of at most
four edges leads to the destination; the first one starts a cheapest path; and there is a second one
exactly when some path starts otherwise, and then it starts a cheapest of those. -/
theorem next_hops_exact (h : topology.validate = .ok ()) (hne : source ≠ destination) :
    (topology.nextHops source destination = [] ↔
      ¬ ∃ p cost, topology.HopPath source p destination cost) ∧
    (∀ primary rest, topology.nextHops source destination = primary :: rest →
      (∃ p cost, topology.HopPath source (primary :: p) destination cost ∧
        ∀ q cost', topology.HopWalk source q destination cost' → cost ≤ cost') ∧
      (rest = [] ↔ ¬ ∃ hop p cost, hop ≠ primary ∧
        topology.HopPath source (hop :: p) destination cost) ∧
      ∀ backup more, rest = backup :: more → more = [] ∧ backup ≠ primary ∧
        ∃ p cost, topology.HopPath source (backup :: p) destination cost ∧
          ∀ hop q cost', hop ≠ primary →
            topology.HopWalk source (hop :: q) destination cost' → cost ≤ cost') ∧
    ∀ (meshId : MeshId) (revision : Nat) (nodes nodes' : List RelayTopologyNode)
      (sparseThreshold : Nat) (sparseCapability : UInt64), nodes.Perm nodes' →
      (build meshId revision nodes sparseThreshold sparseCapability).map
          (·.nextHops source destination) =
        (build meshId revision nodes' sparseThreshold sparseCapability).map
          (·.nextHops source destination) := by
  have hvalid := valid_of_validate h
  -- a route to another node has a first hop
  have hcons : ∀ {p cost}, Route topology.Joined source p destination cost →
      ∃ hop q, p = hop :: q := by
    rintro _ _ (_ | _)
    · exact absurd rfl hne
    · exact ⟨_, _, rfl⟩
  obtain ⟨hnone, hsome⟩ := shortestNextHop_spec hvalid hne none
  refine ⟨?_, ?_, fun _ _ _ _ _ _ hperm => by rw [build_perm _ _ _ _ hperm]⟩
  · unfold nextHops
    cases hprimary : topology.shortestNextHop source destination none with
    | none =>
        refine ⟨fun _ => ?_, fun _ => rfl⟩
        rintro ⟨p, cost, hpath⟩
        obtain ⟨hop, q, rfl⟩ := hcons hpath.route
        exact hnone.mp hprimary ⟨hop, q, cost, nofun, hpath⟩
    | some answer =>
        obtain ⟨cost, primary⟩ := answer
        obtain ⟨-, p, hpath, -⟩ := hsome cost primary hprimary
        refine ⟨fun hempty => ?_, fun hno => absurd ⟨_, _, hpath⟩ hno⟩
        dsimp only at hempty
        split at hempty <;> cases hempty
  · intro primary rest hhops
    unfold nextHops at hhops
    cases hprimary : topology.shortestNextHop source destination none with
    | none =>
        rw [hprimary] at hhops
        cases hhops
    | some answer =>
        obtain ⟨cost, first⟩ := answer
        obtain ⟨-, p, hpath, hmin⟩ := hsome cost first hprimary
        simp only [hprimary] at hhops
        -- the second search is the first one without the primary hop
        obtain ⟨hnone', hsome'⟩ := shortestNextHop_spec hvalid hne (some first)
        have hother : ∀ {hop : RelayId}, some first ≠ some hop ↔ hop ≠ first := by
          intro hop
          rw [ne_eq, Option.some.injEq, eq_comm]
        simp only [hother] at hnone' hsome'
        obtain ⟨rfl, hrest⟩ : first = primary ∧ rest =
            ((topology.shortestNextHop source destination (some first)).map Prod.snd).toList := by
          split at hhops
          · next hbackup =>
            cases hhops
            exact ⟨rfl, by rw [hbackup]; rfl⟩
          · next hbackup =>
            cases hhops
            exact ⟨rfl, by rw [hbackup]; rfl⟩
        refine ⟨⟨p, cost, hpath, ?_⟩, ?_, ?_⟩
        · intro q cost' hwalk
          obtain ⟨hop, r, rfl⟩ := hcons hwalk.route
          exact hmin hop r cost' nofun hwalk
        · rw [← hnone', hrest]
          simp
        · intro backup more hbackup
          rw [hrest] at hbackup
          cases hanswer : topology.shortestNextHop source destination (some first) with
          | none =>
              rw [hanswer] at hbackup
              cases hbackup
          | some answer =>
              rw [hanswer] at hbackup
              cases hbackup
              obtain ⟨hne', q, hpath', hmin'⟩ := hsome' answer.1 answer.2 hanswer
              exact ⟨rfl, hne', q, answer.1, hpath', hmin'⟩

end Exact

/-- Four Relays, two ways from the first to the last. -/
def diamond : RelayTopology where
  meshId := 7
  revision := 1
  mode := .sparse
  nodes := [⟨1, [97], 1, 0⟩, ⟨2, [97], 1, 0⟩, ⟨3, [97], 1, 0⟩, ⟨4, [97], 1, 0⟩]
  edges := [⟨1, 2, 5, 0⟩, ⟨1, 3, 1, 0⟩, ⟨2, 4, 1, 0⟩, ⟨3, 4, 6, 0⟩]

theorem next_hops_exact_diamond :
    ∃ p cost, diamond.HopPath 1 (2 :: p) 4 cost ∧
      ∀ q cost', diamond.HopWalk 1 q 4 cost' → cost ≤ cost' :=
  ((@next_hops_exact diamond 1 4 (by decide +kernel) (by decide)).2.1 2 [3]
    (by decide +kernel)).1

end Peerward.Directory.RelayTopology
