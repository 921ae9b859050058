import AdGraphDb.Query.Executor
import AdGraphDb.Database.Layered

/-!
# The database as the context of queries
-/

namespace AdGraphDb
open Std

/-- A `TraversalAlgorithm`: the nodes in the order of their visits. -/
abbrev TraversalAlgorithm := AdjacencyListEngine → NodeId → List NodeId

/-- A `ShortestPathAlgorithm`: the nodes of a path and its weight. -/
abbrev ShortestPathAlgorithm := AdjacencyListEngine → NodeId → NodeId → Option (List NodeId × F64)

/-- The algorithms that queries are wired to. -/
structure Algorithms where
  breadthFirstSearch : TraversalAlgorithm
  depthFirstSearch : TraversalAlgorithm
  dijkstra : ShortestPathAlgorithm

namespace LayeredGraphDatabase

variable {S C : Type}

def traverse (algorithm : TraversalAlgorithm) (start : NodeId) (db : LayeredGraphDatabase S C) :
    List NodeId := algorithm db.engine start

def findShortestPath (algorithm : ShortestPathAlgorithm) (start goal : NodeId)
    (db : LayeredGraphDatabase S C) : Option (List NodeId × F64) := algorithm db.engine start goal

def buildStats (ord : HashOrder) (db : LayeredGraphDatabase S C) : DatabaseStats where
  nodeCount := db.engine.nodeCount
  edgeCount := db.engine.edgeCount
  labelCounts :=
    HashMap.ofKeys (db.labelIndex.allLabels (ord.sub 0)) fun l => db.labelIndex.labelCount l
  indexedNodeFields := HashMap.ofKeys (db.propertyIndex.indexedFields (ord.sub 1)) fun _ => ()

def context [StoragePort S] [CachePort C] (algorithms : Algorithms) :
    DatabaseContext (LayeredGraphDatabase S C) where
  getNode := getNode
  getAllNodes := allNodes
  getNodesByLabel := nodesByLabel
  getNodesByProperty := nodesByProperty
  getEdge := getEdge
  getAllEdges := allEdges
  nodeCount := nodeCount
  edgeCount := edgeCount
  traverseBfs := traverse algorithms.breadthFirstSearch
  traverseDfs := traverse algorithms.depthFirstSearch
  shortestPathDijkstra := findShortestPath algorithms.dijkstra
  stats := buildStats

/-- The planner knows of exactly the fields that have an index. -/
theorem contains_indexedNodeFields (ord : HashOrder) (db : LayeredGraphDatabase S C)
    (field : String) : (db.buildStats ord).indexedNodeFields.contains field =
      db.propertyIndex.fields[field]?.isSome := by
  rw [ExtTreeMap.contains_eq_isSome_getElem?]
  change (HashMap.ofKeys _ _)[field]?.isSome = _
  rw [HashMap.getElem?_ofKeys, Bool.eq_iff_iff, ← HashMap.mem_keys,
    ← (HashMap.keysIter_perm (ord.sub 1) db.propertyIndex.fields).mem_iff]
  change (if _ ∈ db.propertyIndex.fields.keysIter (ord.sub 1) then _ else _ : Option Unit).isSome ↔ _
  split_ifs with h <;> simp [h]

end LayeredGraphDatabase

end AdGraphDb
