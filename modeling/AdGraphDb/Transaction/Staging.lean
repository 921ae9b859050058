import AdGraphDb.Core.Graph

/-!
# Transactions

A transaction is a buffer of operations on the client's side. It allocates ids from its
own clone of the counters.
-/

namespace AdGraphDb

inductive StagedOp where
  | insertNode (node : Node)
  | insertEdge (edge : Edge)
  | deleteNode (id : NodeId)
  | deleteEdge (id : EdgeId)
deriving DecidableEq

def StagedOp.isInsertion : StagedOp → Bool
  | insertNode _ | insertEdge _ => true
  | deleteNode _ | deleteEdge _ => false

structure Transaction where
  txnId : UInt64
  operations : List StagedOp
  /-- The counters of the database at the begin, advanced by what was staged since. -/
  idGen : IdGenerator
deriving DecidableEq

namespace Transaction

/-- `new`, with the value that the process-wide counter of transactions gives. -/
def new (txnId : UInt64) (idGenSnapshot : IdGenerator) : Transaction := ⟨txnId, [], idGenSnapshot⟩

def stageInsertNode (label : String) (properties : Properties) (t : Transaction) :
    NodeId × Transaction :=
  let (id, idGen) := t.idGen.nextNodeId
  (id, { t with idGen, operations := t.operations ++ [.insertNode ⟨id, label, properties⟩] })

def stageInsertEdge (source target : NodeId) (label : String) (weight : F64)
    (properties : Properties) (t : Transaction) : EdgeId × Transaction :=
  let (id, idGen) := t.idGen.nextEdgeId
  (id, { t with
    idGen
    operations := t.operations ++ [.insertEdge ⟨id, source, target, label, weight, properties⟩] })

def stageDeleteNode (id : NodeId) (t : Transaction) : Transaction :=
  { t with operations := t.operations ++ [.deleteNode id] }

def stageDeleteEdge (id : EdgeId) (t : Transaction) : Transaction :=
  { t with operations := t.operations ++ [.deleteEdge id] }

end Transaction

/-- Advances the counters past the id that an operation inserts. -/
def StagedOp.seed (ids : IdGenerator) : StagedOp → IdGenerator
  | insertNode node => ids.seedFromNode node.id
  | insertEdge edge => ids.seedFromEdge edge.id
  | _ => ids

/-- `seed_generator_into`. -/
def Transaction.seedGeneratorInto (target : IdGenerator) (t : Transaction) : IdGenerator :=
  t.operations.foldl StagedOp.seed target

structure CommitResult where
  insertedNodeIds : List NodeId
  insertedEdgeIds : List EdgeId
  deletedNodeIds : List NodeId
  deletedEdgeIds : List EdgeId
deriving DecidableEq

/-- `Default::default()`. -/
def CommitResult.default : CommitResult := ⟨[], [], [], []⟩

end AdGraphDb
