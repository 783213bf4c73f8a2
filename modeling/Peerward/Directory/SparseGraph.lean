import Peerward.Directory.RelayTopology
import Peerward.Lib.Walks

/-!
# The sparse graph survives any single Relay

Every member of a region is joined to both regional gateways, and every regional gateway to both
global ones. Losing one Relay leaves one of each pair, so any two other Relays stay connected
through at most three intermediate hops: a gateway of the source, a global gateway, a gateway of the
destination.

All loops of the construction are first brought into one list of pairs (`sparsePairs`); its length
bounds the number of edges and its members are the edges.
-/

namespace Peerward.Directory.RelayTopology

open Std (ExtTreeMap ExtTreeSet LawfulEqOrd LawfulEqCmp TransCmp)
open Peerward.Lib

/-! ## Edges as pairs -/

/-- Everything `RelayTopologyEdgeV1::new` promises of its result. -/
theorem new_eq_some {a b : RelayId} {edge : RelayTopologyEdge}
    (h : RelayTopologyEdge.new a b = some edge) :
    edge.left < edge.right ∧ ((edge.left = a ∧ edge.right = b) ∨ (edge.left = b ∧ edge.right = a)) ∧
      edge.rttMillis = defaultBackboneRttMillis ∧
      edge.lossPermyriad = defaultBackboneLossPermyriad := by
  unfold RelayTopologyEdge.new at h
  split at h
  · next hne =>
    by_cases hlt : a < b
    · rw [if_pos hlt] at h
      cases h
      exact ⟨hlt, .inl ⟨rfl, rfl⟩, rfl, rfl⟩
    · have hgt : b < a := by
        have hne' : a.toNat ≠ b.toNat := fun h => hne (BitVec.eq_of_toNat_eq h)
        rw [BitVec.lt_def] at hlt ⊢
        omega
      rw [if_neg hlt] at h
      cases h
      exact ⟨hgt, .inr ⟨rfl, rfl⟩, rfl, rfl⟩
  · cases h

theorem exists_new {a b : RelayId} (h : a ≠ b) : ∃ edge, RelayTopologyEdge.new a b = some edge := by
  simp [RelayTopologyEdge.new, h]

theorem other_of_new {a b : RelayId} {edge : RelayTopologyEdge}
    (h : RelayTopologyEdge.new a b = some edge) : edge.other a = some b := by
  obtain ⟨hlt, hends, -, -⟩ := new_eq_some h
  rcases hends with ⟨rfl, rfl⟩ | ⟨rfl, rfl⟩
  · simp [RelayTopologyEdge.other]
  · have hne : edge.right ≠ edge.left := by
      intro heq
      rw [heq] at hlt
      exact absurd hlt (by simp)
    simp [RelayTopologyEdge.other, hne]

theorem mem_link {edges : Edges} {a b : RelayId} {edge : RelayTopologyEdge} :
    edge ∈ link edges a b ↔ edge ∈ edges ∨ RelayTopologyEdge.new a b = some edge := by
  unfold link
  split
  · next new hnew => rw [ExtTreeSet.mem_insert, LawfulEqOrd.compare_eq_iff_eq, hnew, or_comm,
      Option.some.injEq]
  · next hnew => simp [hnew]

/-- The edges of a construction are those of its pairs. -/
theorem mem_linkAll {edges : Edges} {pairs : List (RelayId × RelayId)} {edge : RelayTopologyEdge} :
    edge ∈ linkAll edges pairs ↔
      edge ∈ edges ∨ ∃ pair ∈ pairs, RelayTopologyEdge.new pair.1 pair.2 = some edge := by
  induction pairs generalizing edges with
  | nil => simp [linkAll]
  | cons pair pairs ih =>
      rw [linkAll, List.foldl_cons, ← linkAll, ih, mem_link, or_assoc, List.exists_mem_cons_iff]

theorem size_linkAll_le (edges : Edges) (pairs : List (RelayId × RelayId)) :
    (linkAll edges pairs).size ≤ edges.size + pairs.length := by
  induction pairs generalizing edges with
  | nil => simp [linkAll]
  | cons pair pairs ih =>
      have hlink : (link edges pair.1 pair.2).size ≤ edges.size + 1 := by
        unfold link
        split
        · exact ExtTreeSet.size_insert_le
        · omega
      rw [linkAll, List.foldl_cons, ← linkAll, List.length_cons]
      have := ih (link edges pair.1 pair.2)
      omega

theorem linkAll_append (edges : Edges) (ps qs : List (RelayId × RelayId)) :
    linkAll edges (ps ++ qs) = linkAll (linkAll edges ps) qs := List.foldl_append

/-! ## All loops as one list of pairs

The construction is a sequence of loops that link pairs. Put into one list, the bound on the edges is a
bound on its length, and an edge is there when its pair is.
-/

/-- What one region contributes: two rings and its spokes. -/
def regionPairs (members : List RelayTopologyNode) : List (RelayId × RelayId) :=
  ringPairs members 1 ++ ringPairs members 2 ++ spokePairs members

/-- The pairs of the whole sparse construction. -/
def sparsePairs (regions : List (List RelayTopologyNode)) : List (RelayId × RelayId) :=
  regions.flatMap regionPairs ++
    if regions.length > 1 then
      lanePairs (regions.map selectTwo) ++ shortcutPairs (regions.map selectTwo)
    else []

theorem regionalEdges_eq (regions : List (Bytes × List RelayTopologyNode)) :
    regionalEdges regions = linkAll ∅ ((regions.map Prod.snd).flatMap regionPairs) := by
  suffices h : ∀ edges : Edges, regions.foldl (fun edges entry =>
      linkAll (addForwardRing (addForwardRing edges entry.2 1) entry.2 2) (spokePairs entry.2))
        edges = linkAll edges ((regions.map Prod.snd).flatMap regionPairs) from h ∅
  induction regions with
  | nil => exact fun _ => rfl
  | cons entry regions ih =>
      intro edges
      rw [List.foldl_cons, ih, List.map_cons, List.flatMap_cons, linkAll_append, regionPairs,
        linkAll_append, linkAll_append]
      rfl

theorem sparseEdges_eq (nodes : List RelayTopologyNode) :
    sparseEdges nodes = linkAll ∅ (sparsePairs ((regions nodes).toList.map Prod.snd)) := by
  simp only [sparseEdges, sparsePairs, regionalEdges_eq, List.length_map, List.map_map]
  split
  · rw [linkAll_append, linkAll_append]
    rfl
  · rw [List.append_nil]

/-! ## Regions -/

/-- The members of a region are the nodes that name it, in order. -/
theorem regions_get (nodes : List RelayTopologyNode) (region : Bytes) :
    ((regions nodes)[region]?).getD [] = nodes.filter (·.region = region) ∧
      ∀ members, (regions nodes)[region]? = some members → members ≠ [] := by
  induction nodes using List.reverseRecOn with
  | nil => simp [regions]
  | append_singleton nodes node ih =>
      have hstep : regions (nodes ++ [node]) = (regions nodes).insert node.region
          (((regions nodes)[node.region]?).getD [] ++ [node]) := by
        rw [regions, List.foldl_append]
        rfl
      rw [hstep, ExtTreeMap.getElem?_insert, List.filter_append]
      by_cases hregion : node.region = region
      · subst hregion
        rw [if_pos (by simp), Option.getD_some, ih.1]
        refine ⟨by simp, ?_⟩
        rintro members ⟨⟩
        simp
      · rw [if_neg (by simpa using hregion), ih.1]
        exact ⟨by simp [hregion], ih.2⟩

theorem entry_eq {nodes : List RelayTopologyNode} {region : Bytes}
    {members : List RelayTopologyNode} (h : (region, members) ∈ (regions nodes).toList) :
    members = nodes.filter (·.region = region) ∧ members ≠ [] := by
  rw [ExtTreeMap.mem_toList_iff_getElem?_eq_some] at h
  obtain ⟨hget, hne⟩ := regions_get nodes region
  rw [h, Option.getD_some] at hget
  exact ⟨hget, hne members h⟩

theorem entry_of_mem {nodes : List RelayTopologyNode} {node : RelayTopologyNode} (h : node ∈ nodes) :
    (node.region, nodes.filter (·.region = node.region)) ∈ (regions nodes).toList := by
  rw [ExtTreeMap.mem_toList_iff_getElem?_eq_some]
  have hget := (regions_get nodes node.region).1
  cases hentry : (regions nodes)[node.region]? with
  | some members =>
      rw [hentry, Option.getD_some] at hget
      rw [hget]
  | none =>
      rw [hentry, Option.getD_none] at hget
      have hmem : node ∈ nodes.filter (·.region = node.region) := by simp [h]
      rw [← hget] at hmem
      cases hmem

/-- Regions do not share members, so together they have at most as many as there are nodes. -/
theorem sum_filter_length_le (nodes : List RelayTopologyNode) {names : List Bytes}
    (hnames : names.Nodup) :
    (names.map fun region => (nodes.filter (·.region = region)).length).sum ≤ nodes.length := by
  induction nodes with
  | nil => simp
  | cons node nodes ih =>
      have hsplit : ∀ names : List Bytes,
          (names.map fun region => ((node :: nodes).filter (·.region = region)).length).sum =
            (names.map fun region => (nodes.filter (·.region = region)).length).sum +
              names.count node.region := by
        intro names
        induction names with
        | nil => rfl
        | cons region names ih =>
            rw [List.map_cons, List.map_cons, List.sum_cons, List.sum_cons, ih, List.count_cons,
              List.filter_cons]
            by_cases hregion : node.region = region
            · simp [hregion]
              omega
            · simp [hregion, Ne.symm hregion]
              omega
      have hcount : names.count node.region ≤ 1 := List.nodup_iff_count_le_one.mp hnames _
      rw [hsplit, List.length_cons]
      omega

theorem nodup_names (nodes : List RelayTopologyNode) :
    ((regions nodes).toList.map Prod.fst).Nodup := by
  rw [List.Nodup, List.pairwise_map]
  refine ExtTreeMap.distinct_keys_toList.imp ?_
  intro a b h heq
  exact h (LawfulEqOrd.compare_eq_iff_eq.mpr heq)

/-- The member lists of the regions. -/
def memberLists (nodes : List RelayTopologyNode) : List (List RelayTopologyNode) :=
  (regions nodes).toList.map Prod.snd

theorem memberLists_mem {nodes members : List RelayTopologyNode}
    (h : members ∈ memberLists nodes) :
    members ≠ [] ∧ ∃ region, members = nodes.filter (·.region = region) := by
  obtain ⟨⟨region, members⟩, hentry, rfl⟩ := List.mem_map.mp h
  obtain ⟨heq, hne⟩ := entry_eq hentry
  exact ⟨hne, region, heq⟩

theorem sum_memberLists_le (nodes : List RelayTopologyNode) :
    ((memberLists nodes).map List.length).sum ≤ nodes.length := by
  refine le_trans (le_of_eq ?_) (sum_filter_length_le nodes (nodup_names nodes))
  rw [memberLists, List.map_map, List.map_map]
  refine congrArg List.sum (List.map_congr_left ?_)
  rintro ⟨region, members⟩ hentry
  exact congrArg List.length (entry_eq hentry).1

theorem length_memberLists_le (nodes : List RelayTopologyNode) :
    (memberLists nodes).length ≤ nodes.length := by
  refine le_trans ?_ (sum_memberLists_le nodes)
  have hpos : ∀ members ∈ memberLists nodes, 1 ≤ members.length := by
    intro members h
    exact List.length_pos_iff.mpr (memberLists_mem h).1
  calc (memberLists nodes).length
      = ((memberLists nodes).map fun _ => 1).sum := by simp
    _ ≤ ((memberLists nodes).map List.length).sum := List.sum_le_sum hpos

/-! ## How many edges

Each region contributes a few pairs for each of its members, and regions do not share members. So the graph
is linear in the number of Relays.
-/

theorem length_selectTwo_le (nodes : List RelayTopologyNode) : (selectTwo nodes).length ≤ 2 :=
  List.length_take_le _ _

theorem length_ringPairs_le (nodes : List RelayTopologyNode) (distance : Nat) :
    (ringPairs nodes distance).length ≤ nodes.length := by
  unfold ringPairs
  split <;> simp

/-- Pairing every element of one list with at most two others. -/
theorem length_pairs_le (nodes gateways : List RelayTopologyNode) (h : gateways.length ≤ 2) :
    (nodes.flatMap fun node => gateways.map fun gateway =>
      (node.relayId, gateway.relayId)).length ≤ 2 * nodes.length := by
  simp only [List.length_flatMap, List.length_map, List.map_const', List.sum_replicate, smul_eq_mul]
  rw [Nat.mul_comm]
  exact Nat.mul_le_mul_right _ h

theorem length_regionPairs_le (members : List RelayTopologyNode) :
    (regionPairs members).length ≤ 4 * members.length := by
  have h₁ := length_ringPairs_le members 1
  have h₂ := length_ringPairs_le members 2
  have h₃ := length_pairs_le members _ (length_selectTwo_le members)
  rw [regionPairs, List.length_append, List.length_append, spokePairs]
  omega

theorem length_lanePairs_le (gateways : List (List RelayTopologyNode)) :
    (lanePairs gateways).length ≤ 2 * gateways.length := by
  rw [lanePairs, List.length_flatMap]
  refine le_trans (List.sum_le_card_nsmul _ 2 ?_) (by simp [Nat.mul_comm])
  intro n hn
  obtain ⟨index, -, rfl⟩ := List.mem_map.mp hn
  exact (List.length_filterMap_le _ _).trans (by simp)

theorem length_shortcutPairs_le (gateways : List (List RelayTopologyNode))
    (h : ∀ selected ∈ gateways, selected.length ≤ 2) :
    (shortcutPairs gateways).length ≤ 4 * gateways.length := by
  have hflat : gateways.flatten.length ≤ 2 * gateways.length := by
    rw [List.length_flatten]
    refine le_trans (List.sum_le_card_nsmul _ 2 ?_) (by simp [Nat.mul_comm])
    intro n hn
    obtain ⟨selected, hselected, rfl⟩ := List.mem_map.mp hn
    exact h selected hselected
  have hpairs := length_pairs_le gateways.flatten _ (length_selectTwo_le gateways.flatten)
  rw [shortcutPairs, globalGateways]
  omega

/-- The construction is linear in the number of Relays. -/
theorem length_sparsePairs_le (nodes : List RelayTopologyNode) :
    (sparsePairs (memberLists nodes)).length ≤ 10 * nodes.length := by
  have hregional : ((memberLists nodes).flatMap regionPairs).length ≤ 4 * nodes.length := by
    rw [List.length_flatMap]
    calc ((memberLists nodes).map fun members => (regionPairs members).length).sum
        ≤ ((memberLists nodes).map fun members => 4 * members.length).sum :=
          List.sum_le_sum fun members _ => length_regionPairs_le members
      _ = 4 * ((memberLists nodes).map List.length).sum := List.sum_map_mul_left ..
      _ ≤ 4 * nodes.length := Nat.mul_le_mul_left _ (sum_memberLists_le nodes)
  have hlanes := length_lanePairs_le ((memberLists nodes).map selectTwo)
  have hshortcuts := length_shortcutPairs_le ((memberLists nodes).map selectTwo) (by
    intro selected h
    obtain ⟨members, -, rfl⟩ := List.mem_map.mp h
    exact length_selectTwo_le members)
  have hcount := length_memberLists_le nodes
  rw [List.length_map] at hlanes hshortcuts
  rw [sparsePairs, List.length_append]
  split
  · rw [List.length_append]
    omega
  · rw [List.length_nil]
    omega

/-! ## Endpoints are Relays of the mesh -/

theorem mem_of_mem_selectTwo {nodes : List RelayTopologyNode} {node : RelayTopologyNode}
    (h : node ∈ selectTwo nodes) : node ∈ nodes :=
  (List.perm_insertionSort _ _).mem_iff.mp (List.mem_of_mem_take h)

theorem mem_ringPairs {nodes : List RelayTopologyNode} {distance : Nat} {pair : RelayId × RelayId}
    (h : pair ∈ ringPairs nodes distance) :
    pair.1 ∈ nodes.map (·.relayId) ∧ pair.2 ∈ nodes.map (·.relayId) := by
  unfold ringPairs at h
  split at h
  · cases h
  · next htwo =>
    obtain ⟨index, hindex, rfl⟩ := List.mem_mapIdx.mp h
    have hlt : (index + distance) % nodes.length < nodes.length := Nat.mod_lt _ (by omega)
    refine ⟨List.mem_map.mpr ⟨_, List.getElem_mem hindex, rfl⟩, List.mem_map.mpr ⟨_, ?_, rfl⟩⟩
    rw [List.getD_eq_getElem _ _ hlt]
    exact List.getElem_mem hlt

theorem mem_lane {gateways : List RelayTopologyNode} {i : Nat} {node : RelayTopologyNode}
    (h : lane gateways i = some node) : node ∈ gateways := by
  rw [lane, Option.or_eq_some_iff] at h
  rcases h with h | ⟨-, h⟩
  · exact List.mem_of_getElem? h
  · exact List.mem_of_mem_head? h

theorem mem_lanePairs {gateways : List (List RelayTopologyNode)} {pair : RelayId × RelayId}
    (h : pair ∈ lanePairs gateways) :
    pair.1 ∈ gateways.flatten.map (·.relayId) ∧ pair.2 ∈ gateways.flatten.map (·.relayId) := by
  have hend : ∀ {index i : Nat} {node : RelayTopologyNode},
      lane (gateways.getD index []) i = some node → node.relayId ∈ gateways.flatten.map (·.relayId) := by
    intro index i node hlane
    have hnode := mem_lane hlane
    rw [List.getD_eq_getElem?_getD] at hnode
    cases hget : gateways[index]? with
    | none =>
        rw [hget] at hnode
        cases hnode
    | some selected =>
        rw [hget] at hnode
        exact List.mem_map.mpr
          ⟨node, List.mem_flatten.mpr ⟨selected, List.mem_of_getElem? hget, hnode⟩, rfl⟩
  obtain ⟨index, -, hpair⟩ := List.mem_flatMap.mp h
  obtain ⟨i, -, hpair⟩ := List.mem_filterMap.mp hpair
  simp only [Option.bind_eq_bind, Option.bind_eq_some_iff, Option.pure_def] at hpair
  obtain ⟨left, hleft, right, hright, hsome⟩ := hpair
  cases hsome
  exact ⟨hend hleft, hend hright⟩

theorem mem_gateways {nodes : List RelayTopologyNode} {id : RelayId}
    (h : id ∈ ((memberLists nodes).map selectTwo).flatten.map (·.relayId)) :
    id ∈ nodes.map (·.relayId) := by
  obtain ⟨node, hnode, rfl⟩ := List.mem_map.mp h
  obtain ⟨selected, hselected, hnode⟩ := List.mem_flatten.mp hnode
  obtain ⟨members, hmembers, rfl⟩ := List.mem_map.mp hselected
  obtain ⟨-, region, rfl⟩ := memberLists_mem hmembers
  exact List.mem_map.mpr ⟨node, List.mem_of_mem_filter (mem_of_mem_selectTwo hnode), rfl⟩

/-- Every pair of the construction joins two nodes. -/
theorem mem_sparsePairs {nodes : List RelayTopologyNode} {pair : RelayId × RelayId}
    (h : pair ∈ sparsePairs (memberLists nodes)) :
    pair.1 ∈ nodes.map (·.relayId) ∧ pair.2 ∈ nodes.map (·.relayId) := by
  rw [sparsePairs, List.mem_append] at h
  rcases h with hregional | hglobal
  · obtain ⟨members, hmembers, hpair⟩ := List.mem_flatMap.mp hregional
    obtain ⟨-, region, hfilter⟩ := memberLists_mem hmembers
    have hsub : ∀ id ∈ members.map (·.relayId), id ∈ nodes.map (·.relayId) := by
      intro id hid
      obtain ⟨node, hnode, rfl⟩ := List.mem_map.mp hid
      exact List.mem_map.mpr ⟨node, List.mem_of_mem_filter (hfilter ▸ hnode), rfl⟩
    suffices hends : pair.1 ∈ members.map (·.relayId) ∧ pair.2 ∈ members.map (·.relayId) from
      ⟨hsub _ hends.1, hsub _ hends.2⟩
    rw [regionPairs, List.mem_append, List.mem_append] at hpair
    rcases hpair with (hring | hring) | hspoke
    · exact mem_ringPairs hring
    · exact mem_ringPairs hring
    · obtain ⟨node, hnode, hpair⟩ := List.mem_flatMap.mp hspoke
      obtain ⟨gateway, hgateway, rfl⟩ := List.mem_map.mp hpair
      exact ⟨List.mem_map.mpr ⟨_, hnode, rfl⟩,
        List.mem_map.mpr ⟨_, mem_of_mem_selectTwo hgateway, rfl⟩⟩
  · split at hglobal
    · rw [List.mem_append] at hglobal
      rcases hglobal with hlane | hshortcut
      · obtain ⟨hleft, hright⟩ := mem_lanePairs hlane
        exact ⟨mem_gateways hleft, mem_gateways hright⟩
      · obtain ⟨regional, hregional, hpair⟩ := List.mem_flatMap.mp hshortcut
        obtain ⟨gateway, hgateway, rfl⟩ := List.mem_map.mp hpair
        exact ⟨mem_gateways (List.mem_map.mpr ⟨_, hregional, rfl⟩),
          mem_gateways (List.mem_map.mpr ⟨_, mem_of_mem_selectTwo hgateway, rfl⟩)⟩
    · cases hglobal

/-! ## Validation succeeds -/

section Checks

variable {T : Type} {cmp : T → T → Ordering}

theorem allFresh_of_nodup [TransCmp cmp] [LawfulEqCmp cmp] {items : List T} (hitems : items.Nodup)
    {seen : ExtTreeSet T cmp} (hseen : ∀ item ∈ items, item ∉ seen) :
    allFresh cmp seen items = true := by
  induction items generalizing seen with
  | nil => rfl
  | cons item items ih =>
      rw [List.nodup_cons] at hitems
      have hfresh : seen.contains item = false := by
        rw [Bool.eq_false_iff, ne_eq, ExtTreeSet.contains_iff_mem]
        exact hseen item (by simp)
      rw [allFresh, hfresh, ih hitems.2]
      · rfl
      · intro other hother hmem
        rw [ExtTreeSet.mem_insert, LawfulEqCmp.compare_eq_iff_eq] at hmem
        rcases hmem with rfl | hmem
        · exact hitems.1 hother
        · exact hseen other (by simp [hother]) hmem

theorem ensureUnique_of_nodup [TransCmp cmp] [LawfulEqCmp cmp] {items : List T}
    (h : items.Nodup) : ensureUnique cmp items = .ok () := by
  rw [ensureUnique, allFresh_of_nodup h (by simp), if_pos rfl]

theorem ensureSortedUnique_of_pairwise {items : List T}
    (h : items.Pairwise fun a b => cmp a b = .lt) : ensureSortedUnique cmp items = .ok () := by
  suffices hfrom : ∀ previous : Option T, (∀ old ∈ previous, ∀ item ∈ items, cmp old item = .lt) →
      ensureSortedUniqueFrom cmp previous items = .ok () from hfrom none (by simp)
  induction items with
  | nil => exact fun _ _ => rfl
  | cons item items ih =>
      intro previous hprevious
      rw [List.pairwise_cons] at h
      have hlater : (previous.any fun old => (cmp old item).isGE) = false := by
        rw [Option.any_eq_false]
        intro old hold
        simp [hprevious old hold item (by simp)]
      rw [ensureSortedUniqueFrom, hlater, if_neg (by simp)]
      exact ih h.2 _ fun old hold => by
        cases hold
        exact h.1

end Checks

/-- The checks of `validate`, one by one. -/
theorem validate_eq_ok {topology : RelayTopology} (hcount : topology.nodes.length ≤ 4096)
    (hedges : topology.edges.length ≤ 65536)
    (hids : (topology.nodes.map (·.relayId)).Pairwise fun a b => compare a b = .lt)
    (hnodes : topology.nodes.any invalidNode = false)
    (hordered : topology.edges.Pairwise fun a b => compare a b = .lt)
    (hends : (topology.edges.map fun edge => (edge.left, edge.right)).Nodup)
    (hgood : topology.edges.any (invalidEdge (ExtTreeSet.ofList (topology.nodes.map (·.relayId))
      compare)) = false) : topology.validate = .ok () := by
  have hsize : (topology.nodes.length > 4096 || topology.edges.length > 65536) = false := by
    simp only [gt_iff_lt, Bool.or_eq_false_iff, decide_eq_false_iff_not]
    omega
  simp only [validate, hsize, ensureSortedUnique_of_pairwise hids, hnodes,
    ensureSortedUnique_of_pairwise hordered, ensureUnique_of_nodup hends, hgood]
  rfl

/-- The nodes as `build` keeps them. -/
def sorted (nodes : List RelayTopologyNode) : List RelayTopologyNode :=
  nodes.insertionSort fun a b => a.relayId ≤ b.relayId

theorem sorted_perm (nodes : List RelayTopologyNode) : (sorted nodes).Perm nodes :=
  List.perm_insertionSort _ _

theorem sorted_ids {nodes : List RelayTopologyNode} (hids : (nodes.map (·.relayId)).Nodup) :
    ((sorted nodes).map (·.relayId)).Nodup := ((sorted_perm nodes).map _).nodup_iff.mpr hids

theorem sorted_increasing {nodes : List RelayTopologyNode} (hids : (nodes.map (·.relayId)).Nodup) :
    ((sorted nodes).map (·.relayId)).Pairwise fun a b => compare a b = .lt := by
  have : Std.Total fun a b : RelayTopologyNode => a.relayId ≤ b.relayId :=
    ⟨fun a b => by simp only [BitVec.le_def]; omega⟩
  have : IsTrans RelayTopologyNode fun a b => a.relayId ≤ b.relayId :=
    ⟨fun a b c hab hbc => by simp only [BitVec.le_def] at *; omega⟩
  have hle : (sorted nodes).Pairwise fun a b => a.relayId ≤ b.relayId :=
    List.pairwise_insertionSort _ nodes
  have hne := sorted_ids hids
  rw [List.Nodup, List.pairwise_map] at hne
  rw [List.pairwise_map]
  refine (hle.and hne).imp ?_
  rintro a b ⟨hab, hne⟩
  have hne' : a.relayId.toNat ≠ b.relayId.toNat := fun h => hne (BitVec.eq_of_toNat_eq h)
  rw [BitVec.le_def] at hab
  refine compareOfLessAndEq_eq_lt.mpr ?_
  rw [BitVec.lt_def]
  omega

/-- The topology a sparse `build` returns. -/
def sparseTopology (meshId : MeshId) (revision : Nat) (nodes : List RelayTopologyNode) :
    RelayTopology where
  meshId := meshId
  revision := revision
  mode := .sparse
  nodes := sorted nodes
  edges := (sparseEdges (sorted nodes)).toList

theorem mem_sparseTopology {meshId : MeshId} {revision : Nat} {nodes : List RelayTopologyNode}
    {edge : RelayTopologyEdge} :
    edge ∈ (sparseTopology meshId revision nodes).edges ↔
      ∃ pair ∈ sparsePairs (memberLists (sorted nodes)),
        RelayTopologyEdge.new pair.1 pair.2 = some edge := by
  show edge ∈ (sparseEdges (sorted nodes)).toList ↔ _
  rw [ExtTreeSet.mem_toList, sparseEdges_eq, mem_linkAll]
  simp [memberLists]

theorem length_sparseTopology_le {meshId : MeshId} {revision : Nat}
    {nodes : List RelayTopologyNode} (hcount : nodes.length ≤ 4096) :
    (sparseTopology meshId revision nodes).edges.length ≤ 65536 := by
  show (sparseEdges (sorted nodes)).toList.length ≤ 65536
  rw [ExtTreeSet.length_toList, sparseEdges_eq]
  have hsize := size_linkAll_le ∅ (sparsePairs (memberLists (sorted nodes)))
  have hpairs := length_sparsePairs_le (sorted nodes)
  have hlength := (sorted_perm nodes).length_eq
  rw [ExtTreeSet.size_empty] at hsize
  exact hsize.trans (by omega)

theorem validate_sparseTopology {meshId : MeshId} {revision : Nat} {nodes : List RelayTopologyNode}
    (hids : (nodes.map (·.relayId)).Nodup) (hcount : nodes.length ≤ 4096)
    (hvalid : ∀ node ∈ nodes, invalidNode node = false) :
    (sparseTopology meshId revision nodes).validate = .ok () := by
  have hlength : (sorted nodes).length = nodes.length := (sorted_perm nodes).length_eq
  have hedges := @length_sparseTopology_le meshId revision nodes hcount
  have hnodes : ((sorted nodes).any invalidNode) = false := by
    rw [List.any_eq_false]
    intro node hnode
    simpa using hvalid node ((sorted_perm nodes).mem_iff.mp hnode)
  have hordered : (sparseTopology meshId revision nodes).edges.Pairwise
      fun a b => compare a b = .lt := ExtTreeSet.ordered_toList
  -- all edges carry the default health, so distinct edges have distinct endpoints
  have hends : ((sparseTopology meshId revision nodes).edges.map
      fun edge => (edge.left, edge.right)).Nodup := by
    refine List.Nodup.map_on ?_ ?_
    · intro a ha b hb heq
      obtain ⟨_, _, hnewa⟩ := mem_sparseTopology.mp ha
      obtain ⟨_, _, hnewb⟩ := mem_sparseTopology.mp hb
      obtain ⟨-, -, hrtta, hlossa⟩ := new_eq_some hnewa
      obtain ⟨-, -, hrttb, hlossb⟩ := new_eq_some hnewb
      rw [Prod.mk.injEq] at heq
      cases a
      cases b
      simp_all
    · refine hordered.imp ?_
      rintro a b hlt rfl
      simp at hlt
  have hgood : ((sparseTopology meshId revision nodes).edges.any
      (invalidEdge (ExtTreeSet.ofList ((sorted nodes).map (·.relayId)) compare))) = false := by
    rw [List.any_eq_false]
    intro edge hedge
    obtain ⟨pair, hpair, hnew⟩ := mem_sparseTopology.mp hedge
    obtain ⟨hlt, hpairs, hrtt, hloss⟩ := new_eq_some hnew
    obtain ⟨hfirst, hsecond⟩ := mem_sparsePairs hpair
    have hmem : edge.left ∈ (sorted nodes).map (·.relayId) ∧
        edge.right ∈ (sorted nodes).map (·.relayId) := by
      rcases hpairs with ⟨hl, hr⟩ | ⟨hl, hr⟩
      · exact ⟨hl ▸ hfirst, hr ▸ hsecond⟩
      · exact ⟨hl ▸ hsecond, hr ▸ hfirst⟩
    have hle : ¬ edge.right ≤ edge.left := by
      rw [BitVec.lt_def] at hlt
      rw [BitVec.le_def]
      omega
    simp only [invalidEdge, hle, hrtt, hloss, decide_false, Bool.false_or, gt_iff_lt, lt_irrefl,
      Bool.or_false, Bool.or_eq_true, Bool.not_eq_true', not_or, Bool.not_eq_false]
    simpa [ExtTreeSet.contains_ofList] using hmem
  exact validate_eq_ok (hlength ▸ hcount) hedges (sorted_increasing hids) hnodes hordered hends hgood

theorem build_sparse (meshId : MeshId) (revision : Nat) {nodes : List RelayTopologyNode}
    {sparseThreshold : Nat} {sparseCapability : UInt64} (hids : (nodes.map (·.relayId)).Nodup)
    (hcount : nodes.length ≤ 4096) (hvalid : ∀ node ∈ nodes, invalidNode node = false)
    (hthreshold : sparseThreshold ≤ nodes.length)
    (hcapable : ∀ node ∈ nodes, node.capabilities &&& sparseCapability ≠ 0) :
    build meshId revision nodes sparseThreshold sparseCapability =
      .ok (sparseTopology meshId revision nodes) := by
  have hsparse : ((sorted nodes).length ≥ sparseThreshold &&
      (sorted nodes).all fun node => node.capabilities &&& sparseCapability ≠ 0) = true := by
    rw [(sorted_perm nodes).length_eq, Bool.and_eq_true, decide_eq_true_eq, List.all_eq_true]
    refine ⟨hthreshold, fun node hnode => ?_⟩
    simpa using hcapable node ((sorted_perm nodes).mem_iff.mp hnode)
  have hvalidate := @validate_sparseTopology meshId revision nodes hids hcount hvalid
  unfold sparseTopology at hvalidate
  rw [build, ← sorted]
  simp only [ensureUnique_of_nodup (sorted_ids hids), hsparse, if_true, hvalidate, bind, Except.bind]
  rfl

/-! ## Detours

Without any one Relay, two others are still joined by at most four edges: of two gateways, one is another
Relay, and the same again between regions.
-/

section Detours

variable {meshId : MeshId} {revision : Nat} {nodes : List RelayTopologyNode}

theorem near_of_pair {pair : RelayId × RelayId}
    (h : pair ∈ sparsePairs (memberLists (sorted nodes))) :
    pair.1 = pair.2 ∨ (sparseTopology meshId revision nodes).graph.Adj pair.1 pair.2 := by
  by_cases heq : pair.1 = pair.2
  · exact .inl heq
  · obtain ⟨edge, hedge⟩ := exists_new heq
    rw [graph, SimpleGraph.fromRel_adj]
    exact .inr ⟨heq, .inl ⟨edge, mem_sparseTopology.mpr ⟨pair, h, hedge⟩, other_of_new hedge⟩⟩

/-- Every member of a region is next to both regional gateways. -/
theorem near_regional {members : List RelayTopologyNode}
    (hmembers : members ∈ memberLists (sorted nodes)) {node gateway : RelayTopologyNode}
    (hnode : node ∈ members) (hgateway : gateway ∈ selectTwo members) :
    node.relayId = gateway.relayId ∨
      (sparseTopology meshId revision nodes).graph.Adj node.relayId gateway.relayId := by
  refine @near_of_pair meshId revision nodes (node.relayId, gateway.relayId) ?_
  refine List.mem_append_left _ (List.mem_flatMap.mpr ⟨members, hmembers, ?_⟩)
  exact List.mem_append_right _ (List.mem_flatMap.mpr
    ⟨node, hnode, List.mem_map.mpr ⟨gateway, hgateway, rfl⟩⟩)

/-- With more than one region, every regional gateway is next to both global ones. -/
theorem near_global (hregions : (memberLists (sorted nodes)).length > 1)
    {members : List RelayTopologyNode} (hmembers : members ∈ memberLists (sorted nodes))
    {regional gateway : RelayTopologyNode} (hregional : regional ∈ selectTwo members)
    (hgateway : gateway ∈ globalGateways ((memberLists (sorted nodes)).map selectTwo)) :
    regional.relayId = gateway.relayId ∨
      (sparseTopology meshId revision nodes).graph.Adj regional.relayId gateway.relayId := by
  refine @near_of_pair meshId revision nodes (regional.relayId, gateway.relayId) ?_
  refine List.mem_append_right _ ?_
  rw [if_pos hregions]
  refine List.mem_append_right _ (List.mem_flatMap.mpr
    ⟨regional, ?_, List.mem_map.mpr ⟨gateway, hgateway, rfl⟩⟩)
  exact List.mem_flatten.mpr ⟨_, List.mem_map.mpr ⟨members, hmembers, rfl⟩, hregional⟩

theorem near_symm {G : SimpleGraph RelayId} {a b : RelayId} (h : a = b ∨ G.Adj a b) :
    b = a ∨ G.Adj b a := h.imp Eq.symm SimpleGraph.Adj.symm

/-- One of the two selected nodes is not `x`, if some candidate is not. -/
theorem exists_selected_ne {candidates : List RelayTopologyNode}
    (hids : (candidates.map (·.relayId)).Nodup) {node : RelayTopologyNode} {x : RelayId}
    (hnode : node ∈ candidates) (hx : node.relayId ≠ x) :
    ∃ gateway ∈ selectTwo candidates, gateway.relayId ≠ x := by
  have hperm := List.perm_insertionSort (fun a b => preferred a b) candidates
  obtain ⟨id, hid, hne⟩ := exists_mem_take_two_ne ((hperm.map (·.relayId)).nodup_iff.mpr hids)
    (List.mem_map.mpr ⟨node, hperm.mem_iff.mpr hnode, rfl⟩) hx
  rw [← List.map_take] at hid
  obtain ⟨gateway, hgateway, rfl⟩ := List.mem_map.mp hid
  exact ⟨gateway, hgateway, hne⟩

theorem selectTwo_nodup {candidates : List RelayTopologyNode} (h : candidates.Nodup) :
    (selectTwo candidates).Nodup :=
  ((List.perm_insertionSort _ _).nodup_iff.mpr h).sublist (List.take_sublist _ _)

/-- Gateways of different regions are different Relays. -/
theorem gateways_ids_nodup (hids : (nodes.map (·.relayId)).Nodup) :
    ((((memberLists nodes).map selectTwo).flatten).map (·.relayId)).Nodup := by
  have hnodes : nodes.Nodup := List.Nodup.of_map _ hids
  refine List.Nodup.map_on ?_ ?_
  · have hmem : ∀ node ∈ ((memberLists nodes).map selectTwo).flatten, node ∈ nodes := by
      intro node hnode
      obtain ⟨selected, hselected, hnode⟩ := List.mem_flatten.mp hnode
      obtain ⟨members, hmembers, rfl⟩ := List.mem_map.mp hselected
      obtain ⟨-, region, rfl⟩ := memberLists_mem hmembers
      exact List.mem_of_mem_filter (mem_of_mem_selectTwo hnode)
    intro a ha b hb heq
    exact List.inj_on_of_nodup_map hids (hmem a ha) (hmem b hb) heq
  · rw [List.nodup_flatten]
    constructor
    · intro selected hselected
      obtain ⟨members, hmembers, rfl⟩ := List.mem_map.mp hselected
      obtain ⟨-, region, rfl⟩ := memberLists_mem hmembers
      exact selectTwo_nodup (hnodes.filter _)
    · rw [memberLists, List.map_map, List.pairwise_map]
      refine List.Pairwise.imp_of_mem ?_ ExtTreeMap.distinct_keys_toList
      rintro ⟨region, members⟩ ⟨region', members'⟩ hentry hentry' hne node hnode hnode'
      have hregion := mem_of_mem_selectTwo hnode
      have hregion' := mem_of_mem_selectTwo hnode'
      simp only at hregion hregion'
      rw [(entry_eq hentry).1, List.mem_filter, decide_eq_true_eq] at hregion
      rw [(entry_eq hentry').1, List.mem_filter, decide_eq_true_eq] at hregion'
      exact hne (LawfulEqOrd.compare_eq_iff_eq.mpr (hregion.2.symm.trans hregion'.2))

/-- Two Relays of one region are two steps apart, around any third. -/
theorem detour_within (hids : (nodes.map (·.relayId)).Nodup) {s d : RelayTopologyNode}
    (hs : s ∈ sorted nodes) (hd : d ∈ sorted nodes) (hregion : s.region = d.region) {x : RelayId}
    (hsx : s.relayId ≠ x) (hdx : d.relayId ≠ x) :
    Detour (sparseTopology meshId revision nodes).graph x 2 s.relayId d.relayId := by
  have hmembers : (sorted nodes).filter (·.region = s.region) ∈ memberLists (sorted nodes) :=
    List.mem_map.mpr ⟨_, entry_of_mem hs, rfl⟩
  have hs' : s ∈ (sorted nodes).filter (·.region = s.region) := by simp [hs]
  have hd' : d ∈ (sorted nodes).filter (·.region = s.region) := by simp [hd, hregion]
  have hfilter : (((sorted nodes).filter (·.region = s.region)).map (·.relayId)).Nodup :=
    (sorted_ids hids).sublist (List.filter_sublist.map _)
  obtain ⟨gateway, hgateway, hne⟩ := exists_selected_ne hfilter hs' hsx
  exact .step (near_regional hmembers hs' hgateway) hsx
    (.step (near_symm (near_regional hmembers hd' hgateway)) hne (.refl hdx))

/-- Two Relays of different regions meet at a global gateway, around any third. -/
theorem detour_between (hids : (nodes.map (·.relayId)).Nodup) {s d : RelayTopologyNode}
    (hs : s ∈ sorted nodes) (hd : d ∈ sorted nodes) (hregion : s.region ≠ d.region) {x : RelayId}
    (hsx : s.relayId ≠ x) (hdx : d.relayId ≠ x) :
    Detour (sparseTopology meshId revision nodes).graph x 4 s.relayId d.relayId := by
  have hentry : ∀ {node : RelayTopologyNode}, node ∈ sorted nodes → node.relayId ≠ x →
      ∃ members ∈ memberLists (sorted nodes), node ∈ members ∧
        ∃ regional ∈ selectTwo members, regional.relayId ≠ x := by
    intro node hnode hx
    have hself : node ∈ (sorted nodes).filter (·.region = node.region) := by simp [hnode]
    exact ⟨_, List.mem_map.mpr ⟨_, entry_of_mem hnode, rfl⟩, hself,
      exists_selected_ne ((sorted_ids hids).sublist (List.filter_sublist.map _)) hself hx⟩
  obtain ⟨source, hsource, hs', regional, hregional, hrx⟩ := hentry hs hsx
  obtain ⟨target, htarget, hd', regional', hregional', hrx'⟩ := hentry hd hdx
  have htwo : (memberLists (sorted nodes)).length > 1 := by
    have hsource := entry_of_mem hs
    have htarget := entry_of_mem hd
    rw [memberLists, List.length_map]
    by_contra hone
    match hl : (regions (sorted nodes)).toList with
    | [] => simp [hl] at hsource
    | [entry] =>
        rw [hl, List.mem_singleton] at hsource htarget
        exact hregion (congrArg Prod.fst (hsource.trans htarget.symm))
    | _ :: _ :: _ => simp [hl] at hone
  obtain ⟨gateway, hgateway, hgx⟩ := exists_selected_ne (gateways_ids_nodup (sorted_ids hids))
    (List.mem_flatten.mpr ⟨_, List.mem_map.mpr ⟨source, hsource, rfl⟩, hregional⟩) hrx
  exact .step (near_regional hsource hs' hregional) hsx
    (.step (near_global htwo hsource hregional hgateway) hrx
      (.step (near_symm (near_global htwo htarget hregional' hgateway)) hgx
        (.step (near_symm (near_regional htarget hd' hregional')) hrx' (.refl hdx))))

end Detours

/-- **The sparse Relay graph fits the four-hop bound and survives any single Relay failure.** -/
theorem build_survives_any_relay (meshId : MeshId) (revision : Nat)
    (nodes : List RelayTopologyNode) (sparseThreshold : Nat) (sparseCapability : UInt64)
    (hcount : nodes.length ≤ 4096) (hids : (nodes.map (·.relayId)).Nodup)
    (hvalid : ∀ node ∈ nodes, invalidNode node = false)
    (hthreshold : sparseThreshold ≤ nodes.length)
    (hcapable : ∀ node ∈ nodes, node.capabilities &&& sparseCapability ≠ 0) :
    ∃ topology, build meshId revision nodes sparseThreshold sparseCapability = .ok topology ∧
      topology.mode = .sparse ∧ topology.edges.length ≤ 65536 ∧
      ∀ s ∈ nodes, ∀ d ∈ nodes, ∀ x ∈ nodes, s ≠ d → x ≠ s → x ≠ d →
        ∃ walk : topology.graph.Walk s.relayId d.relayId,
          walk.length ≤ 4 ∧ x.relayId ∉ walk.support := by
  refine ⟨sparseTopology meshId revision nodes,
    build_sparse meshId revision hids hcount hvalid hthreshold hcapable, rfl,
    length_sparseTopology_le hcount, ?_⟩
  intro s hs d hd x hx _ hxs hxd
  have hne : ∀ {node : RelayTopologyNode}, node ∈ nodes → x ≠ node → node.relayId ≠ x.relayId := by
    intro node hnode hne heq
    exact hne (List.inj_on_of_nodup_map hids hx hnode heq.symm)
  have hsx := hne hs hxs
  have hdx := hne hd hxd
  rw [← (sorted_perm nodes).mem_iff] at hs hd
  by_cases hregion : s.region = d.region
  · exact (detour_within hids hs hd hregion hsx hdx).mono (by omega)
  · exact detour_between hids hs hd hregion hsx hdx

/-- Three Relays, two of them in one region: without the heaviest one, the other two still meet. -/
theorem build_three_relays_survives :
    ∃ topology, build 7 1 [⟨1, [97], 10, 1⟩, ⟨2, [97], 1, 1⟩, ⟨3, [98], 1, 1⟩] 3 1 = .ok topology ∧
      ∃ walk : topology.graph.Walk 2 3, walk.length ≤ 4 ∧ 1 ∉ walk.support := by
  obtain ⟨topology, hbuild, -, -, hwalk⟩ := build_survives_any_relay 7 1
    [⟨1, [97], 10, 1⟩, ⟨2, [97], 1, 1⟩, ⟨3, [98], 1, 1⟩] 3 1 (by decide) (by decide) (by decide)
    (by decide) (by decide)
  exact ⟨topology, hbuild, hwalk ⟨2, [97], 1, 1⟩ (by decide) ⟨3, [98], 1, 1⟩ (by decide)
    ⟨1, [97], 10, 1⟩ (by decide) (by decide) (by decide) (by decide)⟩

end Peerward.Directory.RelayTopology
