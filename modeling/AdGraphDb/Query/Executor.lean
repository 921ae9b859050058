import AdGraphDb.Foundation.Action
import AdGraphDb.Query.Planner

/-!
# The query executor

It runs a plan against the port through which queries see a database.
-/

namespace AdGraphDb

/-- The methods that a query may call on a database. -/
structure DatabaseContext (D : Type) where
  getNode : HashOrder → NodeId → Action GraphError D (Option Node)
  getAllNodes : HashOrder → Action GraphError D (List Node)
  getNodesByLabel : HashOrder → String → Action GraphError D (List Node)
  getNodesByProperty : HashOrder → String → ComparisonOp → Value → Action GraphError D (List Node)
  getEdge : HashOrder → EdgeId → Action GraphError D (Option Edge)
  getAllEdges : HashOrder → Action GraphError D (List Edge)
  nodeCount : D → Nat
  edgeCount : D → Nat
  traverseBfs : NodeId → D → List NodeId
  traverseDfs : NodeId → D → List NodeId
  shortestPathDijkstra : NodeId → NodeId → D → Option (List NodeId × F64)
  stats : HashOrder → D → DatabaseStats

inductive QueryResult where
  | nodes (nodes : List Node)
  | edges (edges : List Edge)
  | traversal (ids : List NodeId)
  | path (nodes : List NodeId) (totalWeight : F64)
  | singleNode (node : Option Node)
  | singleEdge (edge : Option Edge)
  | count (n : Nat)
  | empty
deriving DecidableEq

variable {D : Type} (ctx : DatabaseContext D) (log2Ceil : Nat → Nat)

/-- Runs a pre-computed plan. -/
def executePlan (ord : HashOrder) : ExecutionPlan → Action GraphError D QueryResult
  | .propertyIndexScan field op value remainingFilter => do
    let candidates ← ctx.getNodesByProperty ord field op value
    return .nodes (candidates.filter fun n => remainingFilter.matches n)
  | .labelIndexScan _ remainingFilter => do
    let label := remainingFilter.label.getD ""
    let candidates ← ctx.getNodesByLabel ord label
    return .nodes (candidates.filter fun n => remainingFilter.matches n)
  | .fullNodeScan filter => do
    let all ← ctx.getAllNodes ord
    return .nodes (all.filter fun n => filter.matches n)
  | .fullEdgeScan filter => do
    let all ← ctx.getAllEdges ord
    return .edges (all.filter fun e => filter.matches e)
  | .nodeLookup id => do return .singleNode (← ctx.getNode ord id)
  | .edgeLookup id => do return .singleEdge (← ctx.getEdge ord id)
  | .traverse kind start => Action.read fun db => .traversal <|
    match kind with
    | .bfs => ctx.traverseBfs start db
    | .dfs => ctx.traverseDfs start db
  | .shortestPath start goal => Action.read fun db =>
    match ctx.shortestPathDijkstra start goal db with
    | some (nodes, weight) => .path nodes weight
    | none => .empty
  | .countNodes => Action.read fun db => .count (ctx.nodeCount db)
  | .countEdges => Action.read fun db => .count (ctx.edgeCount db)

/-- Plans and executes a command. -/
def execute (ord : HashOrder) (command : QueryCommand) : Action GraphError D QueryResult := do
  let stats ← Action.read (ctx.stats ord)
  executePlan ctx (ord.sub 0) (QueryPlanner.plan log2Ceil command stats)

end AdGraphDb
