import Peerward.Directory.RelayTopology
import Peerward.Lib.Intervals
import Peerward.Lib.Routes
import Peerward.Net.Packet

/-!
# Next hops

`RelayTopologyV1::next_hops` asks twice for a cheapest path of at most four edges, the second time
without the first answer. `shortest_next_hop` searches over pairs of a Relay and a hop count and
remembers of a path only its first hop.

The binary heap holds its labels in a total order, so it is a sorted list here. A label carries its
bound of four hops, which is why the loop ends: what a label can still push weighs less than it.
-/

namespace Peerward.Directory

open Std Peerward.Lib
open Peerward.Net (saturatingAdd U64_MAX)

/-- `routing_cost`. -/
def RelayTopologyEdge.routingCost (edge : RelayTopologyEdge) : Nat :=
  saturatingAdd edge.rttMillis (min (edge.lossPermyriad * 10) U64_MAX)

/-- An entry of the heap, in the order of its fields. -/
structure Label where
  cost : Nat
  hops : Nat
  node : RelayId
  firstHop : RelayId
  hops_le : hops ≤ 4

namespace Label

def cmp : Label → Label → Ordering :=
  compareLex (compareOn cost) <| compareLex (compareOn hops) <|
    compareLex (compareOn node) (compareOn firstHop)

instance : TransCmp cmp := inferInstanceAs (TransCmp (compareLex _ _))

/-- Pops no later. -/
def le (a b : Label) : Prop := (cmp a b).isLE = true

instance : DecidableRel le := fun a b => inferInstanceAs (Decidable ((cmp a b).isLE = true))

instance : IsTrans Label le := ⟨fun _ _ _ => TransCmp.isLE_trans⟩

instance : Std.Total le where
  total a b := by
    have hswap : cmp b a = (cmp a b).swap := OrientedCmp.eq_swap
    rw [le, le, hswap]
    cases cmp a b <;> simp

end Label

namespace RelayTopology

/-- The order of the keys of `best`. -/
def byHops : RelayId × Nat → RelayId × Nat → Ordering :=
  compareLex (compareOn Prod.fst) (compareOn Prod.snd)

instance : TransCmp byHops := inferInstanceAs (TransCmp (compareLex _ _))

instance : LawfulEqCmp byHops where
  eq_of_compare := by
    rintro ⟨a, b⟩ ⟨a', b'⟩ h
    simp only [byHops, compareLex_eq_eq, compareOn, LawfulEqOrd.compare_eq_iff_eq] at h
    exact Prod.ext h.1 h.2

/-- The cheapest known cost of reaching a Relay in so many hops. -/
abbrev Best := ExtTreeMap (RelayId × Nat) Nat byHops

/-- The neighbours of every Relay, with the cost of the edge. -/
abbrev Adjacency := ExtTreeMap RelayId (List (RelayId × Nat))

/-- `adjacency.entry(relay).or_default().push(neighbor)`. -/
def Adjacency.push (adjacency : Adjacency) (relay : RelayId) (neighbor : RelayId × Nat) :
    Adjacency :=
  adjacency.insert relay ((adjacency[relay]?).getD [] ++ [neighbor])

def adjacency (topology : RelayTopology) : Adjacency :=
  topology.edges.foldl (fun adjacency edge =>
    (adjacency.push edge.left (edge.right, edge.routingCost)).push edge.right
      (edge.left, edge.routingCost)) ∅

/-- `adjacency.get(&node).into_iter().flatten()`. -/
def Adjacency.neighbors (adjacency : Adjacency) (node : RelayId) : List (RelayId × Nat) :=
  (adjacency[node]?).getD []

/-- The state of a search. -/
structure Search where
  best : Best := ∅
  pending : List Label := []

namespace Search

/-- Makes `cost` the best for its key and pushes the label that says so. -/
def push (s : Search) (label : Label) : Search where
  best := s.best.insert (label.node, label.hops) label.cost
  pending := s.pending.orderedInsert Label.le label

/-- The first labels: one for each neighbour of the source. -/
def start (neighbors : List (RelayId × Nat)) (excluded : Option RelayId) : Search :=
  neighbors.foldl (fun s neighbor =>
    if excluded = some neighbor.1 then s
    else s.push {
      cost := neighbor.2, hops := 1, node := neighbor.1, firstHop := neighbor.1
      hops_le := by decide }) {}

/-- What one edge makes of a label. -/
def relax (source : RelayId) (label : Label) (hhops : label.hops < 4) (s : Search)
    (neighbor : RelayId × Nat) : Search :=
  if neighbor.1 = source then s
  else
    let nextCost := saturatingAdd label.cost neighbor.2
    if (s.best[(neighbor.1, label.hops + 1)]?).any (· ≤ nextCost) then s
    else s.push { label with
      cost := nextCost, hops := label.hops + 1, node := neighbor.1, hops_le := hhops }

def expand (source : RelayId) (label : Label) (hhops : label.hops < 4) (s : Search)
    (neighbors : List (RelayId × Nat)) : Search :=
  neighbors.foldl (relax source label hhops) s

/-- What labels with these hop counts can still push, in a graph of this degree. -/
def weight (degree : Nat) (pending : List Label) : Nat :=
  (pending.map fun label => (degree + 1) ^ (4 - label.hops)).sum

theorem weight_push (degree : Nat) (s : Search) (label : Label) :
    weight degree (s.push label).pending =
      (degree + 1) ^ (4 - label.hops) + weight degree s.pending := by
  unfold weight push
  rw [((List.perm_orderedInsert Label.le label s.pending).map _).sum_eq, List.map_cons,
    List.sum_cons]

theorem weight_relax_le (degree : Nat) (source : RelayId) (label : Label) (hhops : label.hops < 4)
    (s : Search) (neighbor : RelayId × Nat) :
    weight degree (s.relax source label hhops neighbor).pending ≤
      (degree + 1) ^ (4 - (label.hops + 1)) + weight degree s.pending := by
  unfold relax
  split
  · omega
  · dsimp only
    split
    · omega
    · rw [weight_push]

theorem weight_expand_le (degree : Nat) (source : RelayId) (label : Label) (hhops : label.hops < 4)
    (neighbors : List (RelayId × Nat)) (s : Search) :
    weight degree (s.expand source label hhops neighbors).pending ≤
      neighbors.length * (degree + 1) ^ (4 - (label.hops + 1)) + weight degree s.pending := by
  induction neighbors generalizing s with
  | nil => simp [expand]
  | cons neighbor neighbors ih =>
      have hrest := ih (s.relax source label hhops neighbor)
      have hfirst := weight_relax_le degree source label hhops s neighbor
      rw [expand, List.foldl_cons, ← expand, List.length_cons, Nat.add_mul]
      omega

end Search

/-- More than any Relay has neighbours. -/
def Adjacency.degree (adjacency : Adjacency) : Nat := total List.length adjacency

theorem Adjacency.length_neighbors_le (adjacency : Adjacency) (node : RelayId) :
    (adjacency.neighbors node).length ≤ adjacency.degree := by
  unfold neighbors
  cases h : adjacency[node]? with
  | none => simp
  | some neighbors =>
      have := total_erase List.length h
      simp only [Option.getD_some, degree]
      omega

/-- Expanding a label costs less than it weighed. -/
theorem Adjacency.weight_expand_lt (adjacency : Adjacency) (source : RelayId) (label : Label)
    (hhops : label.hops < 4) (s : Search) :
    Search.weight adjacency.degree
        (s.expand source label hhops (adjacency.neighbors label.node)).pending <
      Search.weight adjacency.degree (label :: s.pending) := by
  have hle := Search.weight_expand_le adjacency.degree source label hhops
    (adjacency.neighbors label.node) s
  have hlength := Nat.mul_le_mul_right ((adjacency.degree + 1) ^ (4 - (label.hops + 1)))
    (adjacency.length_neighbors_le label.node)
  have hpow : (adjacency.degree + 1) ^ (4 - label.hops) =
      (adjacency.degree + 1) * (adjacency.degree + 1) ^ (4 - (label.hops + 1)) := by
    rw [← Nat.pow_succ']
    congr 1
    omega
  have hpos : 0 < (adjacency.degree + 1) ^ (4 - (label.hops + 1)) :=
    Nat.pow_pos (Nat.succ_pos adjacency.degree)
  have hcons : Search.weight adjacency.degree (label :: s.pending) =
      (adjacency.degree + 1) ^ (4 - label.hops) + Search.weight adjacency.degree s.pending := by
    simp [Search.weight]
  rw [hcons, hpow, Nat.add_mul, Nat.one_mul]
  omega

/-- The loop of `shortest_next_hop`. -/
def search (adjacency : Adjacency) (source destination : RelayId) (best : Best) :
    List Label → Option (Nat × RelayId)
  | [] => none
  | label :: pending =>
    if label.cost > (best[(label.node, label.hops)]?).getD U64_MAX then
      search adjacency source destination best pending
    else if label.node = destination then some (label.cost, label.firstHop)
    else if hhops : label.hops = 4 then search adjacency source destination best pending
    else
      let s := Search.expand source label (by have := label.hops_le; omega) { best, pending }
        (adjacency.neighbors label.node)
      search adjacency source destination s.best s.pending
termination_by pending => Search.weight adjacency.degree pending
decreasing_by
  · simp [Search.weight]
  · simp [Search.weight]
  · exact adjacency.weight_expand_lt source label _ { best, pending }

def shortestNextHop (topology : RelayTopology) (source destination : RelayId)
    (excludedFirstHop : Option RelayId) : Option (Nat × RelayId) :=
  if source = destination then none
  else do
    let neighbors ← topology.adjacency[source]?
    let s := Search.start neighbors excludedFirstHop
    search topology.adjacency source destination s.best s.pending

/-- Deterministic primary and backup next hops whose paths fit the four-hop bound. -/
def nextHops (topology : RelayTopology) (source destination : RelayId) : List RelayId :=
  match topology.shortestNextHop source destination none with
  | none => []
  | some (_, primary) =>
    match topology.shortestNextHop source destination (some primary) with
    | none => [primary]
    | some (_, backup) => [primary, backup]

end RelayTopology

end Peerward.Directory
