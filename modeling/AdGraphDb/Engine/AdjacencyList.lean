import AdGraphDb.Core.Graph

/-!
# The adjacency list engine

The engine knows which nodes exist and which edges connect them, without labels and
properties.
-/

namespace AdGraphDb
open Std

/-- One side of an edge. -/
structure Neighbor where
  nodeId : NodeId
  edgeId : EdgeId
  weight : F64
deriving DecidableEq

/-- The neighbors of every node in one direction. -/
abbrev Adjacency := HashMap NodeId (List Neighbor)

/-- `neighbors.retain(|n| n.edge_id != edge_id)`. -/
def Adjacency.retain (m : Adjacency) (id : NodeId) (edgeId : EdgeId) : Adjacency :=
  m.modify id fun ns => ns.filter fun n => n.edgeId ≠ edgeId

structure AdjacencyListEngine where
  outgoing : Adjacency
  incoming : Adjacency
  edgeEndpoints : HashMap EdgeId (NodeId × NodeId)
deriving DecidableEq

namespace AdjacencyListEngine

def new : AdjacencyListEngine := ⟨∅, ∅, ∅⟩

def insertNode (id : NodeId) (e : AdjacencyListEngine) : AdjacencyListEngine :=
  { e with
    outgoing := e.outgoing.entryOrDefault id [] fun ns => ns
    incoming := e.incoming.entryOrDefault id [] fun ns => ns }

def insertEdge (edgeId : EdgeId) (source target : NodeId) (weight : F64)
    (e : AdjacencyListEngine) : AdjacencyListEngine :=
  { edgeEndpoints := e.edgeEndpoints.insert edgeId (source, target)
    outgoing := e.outgoing.entryOrDefault source [] fun ns => ns ++ [⟨target, edgeId, weight⟩]
    incoming := e.incoming.entryOrDefault target [] fun ns => ns ++ [⟨source, edgeId, weight⟩] }

def removeEdge (edgeId : EdgeId) (e : AdjacencyListEngine) : AdjacencyListEngine :=
  match e.edgeEndpoints[edgeId]? with
  | none => e
  | some (source, target) =>
    { edgeEndpoints := e.edgeEndpoints.erase edgeId
      outgoing := e.outgoing.retain source edgeId
      incoming := e.incoming.retain target edgeId }

/-- The edges that `remove_node` removes, found by scanning the endpoints. -/
def edgeIdsToRemove (ord : HashOrder) (id : NodeId) (e : AdjacencyListEngine) : List EdgeId :=
  ((e.edgeEndpoints.iter ord).filter fun p => p.2.1 = id ∨ p.2.2 = id).map Prod.fst

def removeNode (ord : HashOrder) (id : NodeId) (e : AdjacencyListEngine) : AdjacencyListEngine :=
  let e := (e.edgeIdsToRemove ord id).foldl (fun e edgeId => e.removeEdge edgeId) e
  { e with outgoing := e.outgoing.erase id, incoming := e.incoming.erase id }

def neighborsOutgoing (source : NodeId) (e : AdjacencyListEngine) : List Neighbor :=
  e.outgoing[source]?.getD []

def neighborsIncoming (target : NodeId) (e : AdjacencyListEngine) : List Neighbor :=
  e.incoming[target]?.getD []

def allNodeIds (ord : HashOrder) (e : AdjacencyListEngine) : List NodeId := e.outgoing.keysIter ord

def allEdgeIds (ord : HashOrder) (e : AdjacencyListEngine) : List EdgeId :=
  e.edgeEndpoints.keysIter ord

def nodeCount (e : AdjacencyListEngine) : Nat := e.outgoing.size

def edgeCount (e : AdjacencyListEngine) : Nat := e.edgeEndpoints.size

def containsNode (id : NodeId) (e : AdjacencyListEngine) : Bool := e.outgoing[id]?.isSome

/-! ## The ends of the edges -/

/-- The ends of the outgoing edges of a node, in the order of the engine. -/
def targets (e : AdjacencyListEngine) (v : NodeId) : List NodeId :=
  (e.neighborsOutgoing v).map Neighbor.nodeId

/-- All nodes at which an edge ends, and a start. -/
def ends (e : AdjacencyListEngine) (start : NodeId) : Finset NodeId :=
  insert start (e.outgoing.vals.flatten.map Neighbor.nodeId).toFinset

theorem mem_flatten_outgoing {e : AdjacencyListEngine} {u : NodeId} {n : Neighbor}
    (hn : n ∈ e.neighborsOutgoing u) : n ∈ e.outgoing.vals.flatten := by
  unfold neighborsOutgoing at hn
  cases hu : e.outgoing[u]? with
  | none =>
    rw [hu] at hn
    cases hn
  | some ns =>
    rw [hu, Option.getD_some] at hn
    exact List.mem_flatten_of_mem (HashMap.mem_vals.mpr ⟨u, hu⟩) hn

theorem mem_ends (e : AdjacencyListEngine) (start u : NodeId) {v : NodeId}
    (hv : v ∈ e.targets u) : v ∈ e.ends start := by
  obtain ⟨n, hn, rfl⟩ := List.mem_map.mp hv
  apply Finset.mem_insert_of_mem
  rw [List.mem_toFinset]
  exact List.mem_map_of_mem (mem_flatten_outgoing hn)

end AdjacencyListEngine

end AdGraphDb
