import Mathlib
import Peerward.Types.Ids

/-!
# The Relay topology

`RelayTopologyV1::build` turns the live Relays of a mesh into an undirected backbone graph: a full
mesh, or a sparse regional graph once there are enough Relays and all of them support it.

The source inserts edges into one `BTreeSet` from several nested loops. Here each loop is the list
of the pairs it visits and `linkAll` inserts them; a set does not remember the order. `sort_by_key`
is a stable sort, as `List.insertionSort` is.
-/

namespace Peerward.Directory

open Std Peerward.Lib

/-- `peerward_types::RelayId`, ordered by its raw UUID. -/
abbrev RelayId := BitVec 128

/-- `peerward_types::MeshId`. -/
abbrev MeshId := BitVec 128

/-- Directory parsing, signature, or ordering failure. -/
inductive DirectoryError where
  | invalidSignature
  | wrongMesh
  | rollback
  | mixedChunks
  | nonCanonical
  | invalidEndpoint
  | malformed
  deriving DecidableEq

inductive RelayTopologyMode where
  | fullMesh
  | sparse
  deriving DecidableEq

/-- One live Relay participating in a topology revision. -/
structure RelayTopologyNode where
  relayId : RelayId
  /-- Lowercase scheduling region. -/
  region : Bytes
  /-- Relative routing preference in 1..=1000. -/
  routingWeight : Nat
  capabilities : UInt64
  deriving DecidableEq

/-- An undirected, canonically ordered backbone edge. -/
structure RelayTopologyEdge where
  left : RelayId
  right : RelayId
  rttMillis : Nat
  lossPermyriad : Nat
  deriving DecidableEq

def defaultBackboneRttMillis : Nat := 120000

def defaultBackboneLossPermyriad : Nat := 10000

namespace RelayTopologyEdge

/-- The derived order: by endpoints, then by health. -/
def cmp : RelayTopologyEdge → RelayTopologyEdge → Ordering :=
  compareLex (compareOn left) <| compareLex (compareOn right) <|
    compareLex (compareOn rttMillis) (compareOn lossPermyriad)

instance : Ord RelayTopologyEdge := ⟨cmp⟩

instance : TransOrd RelayTopologyEdge := inferInstanceAs (TransCmp (compareLex _ _))

instance : LawfulEqOrd RelayTopologyEdge where
  eq_of_compare := by
    intro a b h
    replace h : cmp a b = .eq := h
    simp only [cmp, compareLex_eq_eq, compareOn] at h
    obtain ⟨h₁, h₂, h₃, h₄⟩ := h
    cases a
    cases b
    congr
    · exact LawfulEqOrd.eq_of_compare h₁
    · exact LawfulEqOrd.eq_of_compare h₂
    · exact LawfulEqOrd.eq_of_compare h₃
    · exact LawfulEqOrd.eq_of_compare h₄

/-- The edge between two Relays with unknown health; `none` for a loop. -/
def new (first second : RelayId) : Option RelayTopologyEdge :=
  if first ≠ second then
    let (left, right) := if first < second then (first, second) else (second, first)
    some { left, right, rttMillis := defaultBackboneRttMillis
           lossPermyriad := defaultBackboneLossPermyriad }
  else none

/-- The opposite endpoint when `relay` is incident to the edge. -/
def other (edge : RelayTopologyEdge) (relay : RelayId) : Option RelayId :=
  if relay = edge.left then some edge.right
  else if relay = edge.right then some edge.left
  else none

end RelayTopologyEdge

/-- The Relay graph of one mesh. -/
structure RelayTopology where
  meshId : MeshId
  revision : Nat
  mode : RelayTopologyMode
  /-- Sorted by raw Relay UUID. -/
  nodes : List RelayTopologyNode
  /-- Sorted by endpoints. -/
  edges : List RelayTopologyEdge

/-! ## Canonical order checks

The checks of the source are loops over sets of what was seen so far. They are written as such, and said to
be the sortedness they stand for where that is used.
-/

section Checks

variable {T : Type} (cmp : T → T → Ordering)

/-- The `all` of `ensure_unique`, with the set of the items seen so far. -/
def allFresh [TransCmp cmp] : ExtTreeSet T cmp → List T → Bool
  | _, [] => true
  | seen, item :: items => !seen.contains item && allFresh (seen.insert item) items

def ensureUnique [TransCmp cmp] (items : List T) : Except DirectoryError Unit :=
  if allFresh cmp ∅ items then .ok () else .error .nonCanonical

/-- The loop of `ensure_sorted_unique`. -/
def ensureSortedUniqueFrom : Option T → List T → Except DirectoryError Unit
  | _, [] => .ok ()
  | previous, item :: items =>
    if previous.any fun old => (cmp old item).isGE then .error .nonCanonical
    else ensureSortedUniqueFrom (some item) items

def ensureSortedUnique (items : List T) : Except DirectoryError Unit :=
  ensureSortedUniqueFrom cmp none items

end Checks

/-- The order of a pair of ids. -/
def byEndpoints : RelayId × RelayId → RelayId × RelayId → Ordering :=
  compareLex (compareOn Prod.fst) (compareOn Prod.snd)

instance : TransCmp byEndpoints := inferInstanceAs (TransCmp (compareLex _ _))

instance : LawfulEqCmp byEndpoints where
  eq_of_compare := by
    rintro ⟨a, b⟩ ⟨a', b'⟩ h
    simp only [byEndpoints, compareLex_eq_eq, compareOn, LawfulEqOrd.compare_eq_iff_eq] at h
    exact Prod.ext h.1 h.2

namespace RelayTopology

/-- The nodes of `topology.validate` that its per-node check refuses. -/
def invalidNode (node : RelayTopologyNode) : Bool :=
  node.region.isEmpty || node.region.length > 32
    || !(1 ≤ node.routingWeight && node.routingWeight ≤ 1000)
    || !node.region.all fun byte =>
      (97 ≤ byte && byte ≤ 122) || (48 ≤ byte && byte ≤ 57) || byte = 45

def invalidEdge (nodeIds : ExtTreeSet RelayId) (edge : RelayTopologyEdge) : Bool :=
  edge.right ≤ edge.left || !nodeIds.contains edge.left || !nodeIds.contains edge.right
    || edge.rttMillis > defaultBackboneRttMillis
    || edge.lossPermyriad > defaultBackboneLossPermyriad

def validate (topology : RelayTopology) : Except DirectoryError Unit := do
  if topology.nodes.length > 4096 || topology.edges.length > 65536 then throw .nonCanonical
  ensureSortedUnique compare (topology.nodes.map (·.relayId))
  let nodeIds := ExtTreeSet.ofList (topology.nodes.map (·.relayId)) compare
  if topology.nodes.any invalidNode then throw .nonCanonical
  ensureSortedUnique compare topology.edges
  ensureUnique byEndpoints (topology.edges.map fun edge => (edge.left, edge.right))
  if topology.edges.any (invalidEdge nodeIds) then throw .nonCanonical

/-! ## Construction

Rings inside a region, spokes to its two gateways, two lanes between neighbouring regions, and shortcuts to
two global gateways. Everything that is chosen is chosen by weight and then by id, so that all Relays choose
alike.
-/

/-- The edge set under construction. -/
abbrev Edges := ExtTreeSet RelayTopologyEdge

def link (edges : Edges) (first second : RelayId) : Edges :=
  match RelayTopologyEdge.new first second with
  | some edge => edges.insert edge
  | none => edges

def linkAll (edges : Edges) (pairs : List (RelayId × RelayId)) : Edges :=
  pairs.foldl (fun edges pair => link edges pair.1 pair.2) edges

/-- The pairs of `add_forward_ring`: each node and the one `distance` further. -/
def ringPairs (nodes : List RelayTopologyNode) (distance : Nat) : List (RelayId × RelayId) :=
  if nodes.length < 2 then []
  else nodes.mapIdx fun index node =>
    (node.relayId, (nodes.getD ((index + distance) % nodes.length) node).relayId)

def addForwardRing (edges : Edges) (nodes : List RelayTopologyNode) (distance : Nat) : Edges :=
  linkAll edges (ringPairs nodes distance)

/-- The regions with their members, in the order of the `BTreeMap`. -/
def regions (nodes : List RelayTopologyNode) : ExtTreeMap Bytes (List RelayTopologyNode) :=
  nodes.foldl (fun regions node =>
    regions.insert node.region ((regions[node.region]?).getD [] ++ [node])) ∅

/-- Gateways are chosen by descending weight, then by ascending id. -/
def preferred (a b : RelayTopologyNode) : Bool :=
  b.routingWeight < a.routingWeight || (a.routingWeight = b.routingWeight && a.relayId ≤ b.relayId)

/-- `sort_by_key` followed by `truncate(2)`. -/
def selectTwo (nodes : List RelayTopologyNode) : List RelayTopologyNode :=
  (nodes.insertionSort fun a b => preferred a b).take 2

/-- Every member of a region with each of its gateways. -/
def spokePairs (members : List RelayTopologyNode) : List (RelayId × RelayId) :=
  members.flatMap fun regional => (selectTwo members).map fun gateway =>
    (regional.relayId, gateway.relayId)

/-- The edges inside the regions. -/
def regionalEdges (regions : List (Bytes × List RelayTopologyNode)) : Edges :=
  regions.foldl (fun edges entry =>
    linkAll (addForwardRing (addForwardRing edges entry.2 1) entry.2 2) (spokePairs entry.2)) ∅

/-- Lane `lane` of a region's gateways, falling back to its first one. -/
def lane (gateways : List RelayTopologyNode) (lane : Nat) : Option RelayTopologyNode :=
  gateways[lane]?.or gateways.head?

/-- Adjacent regions are joined by two lanes. -/
def lanePairs (gateways : List (List RelayTopologyNode)) : List (RelayId × RelayId) :=
  (List.range gateways.length).flatMap fun index =>
    (List.range 2).filterMap fun i => do
      let left ← lane (gateways.getD index []) i
      let right ← lane (gateways.getD ((index + 1) % gateways.length) []) i
      pure (left.relayId, right.relayId)

/-- The two shortcuts every regional gateway is joined to. -/
def globalGateways (gateways : List (List RelayTopologyNode)) : List RelayTopologyNode :=
  selectTwo gateways.flatten

def shortcutPairs (gateways : List (List RelayTopologyNode)) : List (RelayId × RelayId) :=
  gateways.flatten.flatMap fun regional => (globalGateways gateways).map fun gateway =>
    (regional.relayId, gateway.relayId)

/-- The regional graph. -/
def sparseEdges (nodes : List RelayTopologyNode) : Edges :=
  let regions := (regions nodes).toList
  let gateways := regions.map fun entry => selectTwo entry.2
  let edges := regionalEdges regions
  if gateways.length > 1 then linkAll (linkAll edges (lanePairs gateways)) (shortcutPairs gateways)
  else edges

/-- Every node with every later one. -/
def meshPairs : List RelayTopologyNode → List (RelayId × RelayId)
  | [] => []
  | left :: rest => rest.map (fun right => (left.relayId, right.relayId)) ++ meshPairs rest

/-- Builds the deterministic regional graph, falling back to Full Mesh when required. -/
def build (meshId : MeshId) (revision : Nat) (nodes : List RelayTopologyNode)
    (sparseThreshold : Nat) (sparseCapability : UInt64) : Except DirectoryError RelayTopology := do
  let nodes := nodes.insertionSort fun a b => a.relayId ≤ b.relayId
  ensureUnique compare (nodes.map (·.relayId))
  let sparse := nodes.length ≥ sparseThreshold
    && nodes.all fun node => node.capabilities &&& sparseCapability ≠ 0
  let edges := if sparse then sparseEdges nodes else linkAll ∅ (meshPairs nodes)
  let topology : RelayTopology := {
    meshId, revision, nodes
    mode := if sparse then .sparse else .fullMesh
    edges := edges.toList }
  topology.validate
  return topology

/-- The backbone as a graph on Relay ids. -/
def graph (topology : RelayTopology) : SimpleGraph RelayId :=
  SimpleGraph.fromRel fun a b => ∃ edge ∈ topology.edges, edge.other a = some b

end RelayTopology

end Peerward.Directory
