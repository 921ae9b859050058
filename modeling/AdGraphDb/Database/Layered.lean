import AdGraphDb.Storage.Port
import AdGraphDb.Cache.Port
import AdGraphDb.Engine.AdjacencyList
import AdGraphDb.Index.Property
import AdGraphDb.Database.Config

/-!
# The layered database

Storage is written first on every mutation, the cache holds properties, the engine the
structure, and two indexes answer label and property queries.
-/

namespace AdGraphDb
open Std

structure LayeredGraphDatabase (S C : Type) where
  engine : AdjacencyListEngine
  cache : C
  storage : S
  labelIndex : LabelIndex
  propertyIndex : PropertyIndex
  idGenerator : IdGenerator
  config : DatabaseConfig
  writesSinceCompact : Nat
deriving DecidableEq

abbrev DatabaseAction (S C α : Type) := Action GraphError (LayeredGraphDatabase S C) α

namespace LayeredGraphDatabase

variable {S C : Type}

/-- `self.storage`. -/
def storageField : Action.Field (LayeredGraphDatabase S C) S :=
  ⟨fun db => db.storage, fun storage db => { db with storage := storage }⟩

/-- `self.cache`. -/
def cacheField : Action.Field (LayeredGraphDatabase S C) C :=
  ⟨fun db => db.cache, fun cache db => { db with cache := cache }⟩

/-- Indexes the properties of a node that the configuration selects. -/
def indexNode (ord : HashOrder) (config : DatabaseConfig) (node : Node) (i : PropertyIndex) :
    PropertyIndex :=
  if config.indexesAllFields then i.insertNode ord node.id node.properties
  else if (config.indexedProperties node.properties).isEmpty then i
  else i.insertNode ord node.id (config.indexedProperties node.properties)

/-- A configured field is indexed as the node carries it, another one is left alone. -/
theorem fields_indexNode (ord : HashOrder) (config : DatabaseConfig) (node : Node)
    (i : PropertyIndex) (field : String) :
    (indexNode ord config node i).fields[field]? =
      if config.shouldIndexField field then
        node.properties[field]?.elim i.fields[field]? fun v =>
          some ((i.fields[field]?.getD .default).insert node.id v)
      else i.fields[field]? := by
  unfold indexNode
  by_cases hall : config.indexesAllFields = true
  · rw [if_pos hall, if_pos (DatabaseConfig.shouldIndexField_of_all hall field)]
    exact PropertyIndex.fields_insertNode ord node.id node.properties i field
  · have hprops := config.getElem?_indexedProperties node.properties field
    rw [if_neg hall]
    by_cases hempty : (config.indexedProperties node.properties).isEmpty
    · rw [ExtTreeMap.isEmpty_iff.mp hempty, ExtTreeMap.getElem?_empty] at hprops
      rw [if_pos hempty]
      split_ifs at hprops ⊢
      · rw [← hprops, Option.elim_none]
      · rfl
    · rw [if_neg hempty, PropertyIndex.fields_insertNode, hprops]
      split_ifs <;> rfl

variable [StoragePort S] [CachePort C]

/-! ## Opening -/

def replayNode (ord : HashOrder) (db : LayeredGraphDatabase S C) (node : Node) :
    LayeredGraphDatabase S C :=
  { db with
    idGenerator := db.idGenerator.seedFromNode node.id
    engine := db.engine.insertNode node.id
    labelIndex := db.labelIndex.insert node.id node.label
    propertyIndex := indexNode (ord.sub node.id.val.toNat) db.config node db.propertyIndex }

def replayEdge (db : LayeredGraphDatabase S C) (edge : Edge) : LayeredGraphDatabase S C :=
  { db with
    idGenerator := db.idGenerator.seedFromEdge edge.id
    engine := db.engine.insertEdge edge.id edge.source edge.target edge.weight }

/-- The indexes, the engine and the id counters are rebuilt from the storage. -/
def openWithConfig (ord : HashOrder) (storage : S) (cache : C) (engine : AdjacencyListEngine)
    (config : DatabaseConfig) : Except GraphError (LayeredGraphDatabase S C) := do
  let db : LayeredGraphDatabase S C :=
    { engine, cache, storage, labelIndex := .new, propertyIndex := .new, idGenerator := .new,
      config, writesSinceCompact := 0 }
  let nodes ← StoragePort.loadAllNodes (ord.sub 0) storage
  let db := nodes.foldl (replayNode (ord.sub 1)) db
  let edges ← StoragePort.loadAllEdges (ord.sub 2) storage
  return edges.foldl replayEdge db

/-! ## Maintenance -/

def compact (ord : HashOrder) : DatabaseAction S C Unit := do
  Action.on storageField (StoragePort.compact ord)
  Action.modify fun db => { db with cache := CachePort.clear db.cache, writesSinceCompact := 0 }

/-- The auto-compaction trigger, with a counter of type `usize`. An error of the compaction is
logged and dropped. -/
def onWrite (ord : HashOrder) : DatabaseAction S C Unit := do
  Action.modify fun db =>
    { db with writesSinceCompact := (db.writesSinceCompact + 1) % 2 ^ 64 }
  let db ← Action.read fun db => db
  match db.config.autoCompactAfterWrites with
  | some threshold =>
    if db.writesSinceCompact ≥ threshold then Action.attempt (compact ord) else pure ()
  | none => pure ()

/-! ## Nodes -/

def insertNode (ord : HashOrder) (label : String) (properties : Properties) :
    DatabaseAction S C NodeId := do
  let id ← Action.update fun db =>
    (db.idGenerator.nextNodeId.1, { db with idGenerator := db.idGenerator.nextNodeId.2 })
  let node : Node := { id, label, properties }
  Action.on storageField (StoragePort.saveNode (ord.sub 0) node)
  Action.modify fun db =>
    { db with
      cache := CachePort.putNode (ord.sub 1) node db.cache
      engine := db.engine.insertNode id
      labelIndex := db.labelIndex.insert id node.label
      propertyIndex := indexNode (ord.sub 2) db.config node db.propertyIndex }
  onWrite (ord.sub 3)
  return id

def getNode (ord : HashOrder) (id : NodeId) : DatabaseAction S C (Option Node) := do
  let cached ← Action.on cacheField (Action.update (CachePort.getNode id))
  match cached with
  | some node => return some node
  | none =>
    let stored ← Action.tryRead fun db => StoragePort.loadNode id db.storage
    match stored with
    | some node =>
      Action.modify fun db => { db with cache := CachePort.putNode ord node db.cache }
      return some node
    | none => return none

/-- The incident edges as the engine lists them; a self-loop is listed twice. -/
def incidentEdges (id : NodeId) (db : LayeredGraphDatabase S C) : List EdgeId :=
  (db.engine.neighborsOutgoing id).map Neighbor.edgeId ++
    (db.engine.neighborsIncoming id).map Neighbor.edgeId

/-- Removes what was found of a node from the two indexes. -/
def unindex (ord : HashOrder) (id : NodeId) (found : Option Node)
    (db : LayeredGraphDatabase S C) : LayeredGraphDatabase S C :=
  match found with
  | some node =>
    { db with
      labelIndex := db.labelIndex.remove id node.label
      propertyIndex := db.propertyIndex.removeNode ord id node.properties }
  | none => db

def deleteNode (ord : HashOrder) (id : NodeId) : DatabaseAction S C Unit := do
  let incident ← Action.read (incidentEdges id)
  Action.forEach (fun edgeId => do
    Action.on storageField (StoragePort.deleteEdge edgeId)
    Action.modify fun db => { db with cache := CachePort.invalidateEdge edgeId db.cache }) incident
  let found ← getNode (ord.sub 0) id
  Action.modify (unindex (ord.sub 1) id found)
  Action.on storageField (StoragePort.deleteNode id)
  Action.modify fun db =>
    { db with
      cache := CachePort.invalidateNode id db.cache
      engine := db.engine.removeNode (ord.sub 2) id }
  onWrite (ord.sub 3)

/-! ## Edges -/

def insertEdge (ord : HashOrder) (source target : NodeId) (label : String) (weight : F64)
    (properties : Properties) : DatabaseAction S C EdgeId := do
  let db ← Action.read fun db => db
  if !db.engine.containsNode source then Action.throw (.nodeNotFound source)
  else if !db.engine.containsNode target then Action.throw (.nodeNotFound target)
  else
    let id ← Action.update fun db =>
      (db.idGenerator.nextEdgeId.1, { db with idGenerator := db.idGenerator.nextEdgeId.2 })
    let edge : Edge := { id, source, target, label, weight, properties }
    Action.on storageField (StoragePort.saveEdge (ord.sub 0) edge)
    Action.modify fun db =>
      { db with
        cache := CachePort.putEdge (ord.sub 1) edge db.cache
        engine := db.engine.insertEdge id source target weight }
    onWrite (ord.sub 2)
    return id

def getEdge (ord : HashOrder) (id : EdgeId) : DatabaseAction S C (Option Edge) := do
  let cached ← Action.on cacheField (Action.update (CachePort.getEdge id))
  match cached with
  | some edge => return some edge
  | none =>
    let stored ← Action.tryRead fun db => StoragePort.loadEdge id db.storage
    match stored with
    | some edge =>
      Action.modify fun db => { db with cache := CachePort.putEdge ord edge db.cache }
      return some edge
    | none => return none

def deleteEdge (ord : HashOrder) (id : EdgeId) : DatabaseAction S C Unit := do
  Action.on storageField (StoragePort.deleteEdge id)
  Action.modify fun db =>
    { db with
      cache := CachePort.invalidateEdge id db.cache
      engine := db.engine.removeEdge id }
  onWrite ord

/-! ## Bulk helpers -/

/-- Loads the nodes of a list of ids, each lookup with a cache of its own order. -/
def loadNodes (ord : HashOrder) (ids : List NodeId) : DatabaseAction S C (List Node) :=
  Action.filterMap (fun id => getNode (ord.sub id.val.toNat) id) ids

def loadEdges (ord : HashOrder) (ids : List EdgeId) : DatabaseAction S C (List Edge) :=
  Action.filterMap (fun id => getEdge (ord.sub id.val.toNat) id) ids

def allNodes (ord : HashOrder) : DatabaseAction S C (List Node) := do
  let ids ← Action.read fun db => db.engine.allNodeIds (ord.sub 0)
  loadNodes (ord.sub 1) ids

def nodesByLabel (ord : HashOrder) (label : String) : DatabaseAction S C (List Node) := do
  let ids ← Action.read fun db => db.labelIndex.get label
  loadNodes ord ids

/-- Falls back to the scan when no node has an indexed value in the field. -/
def nodesByProperty (ord : HashOrder) (field : String) (op : ComparisonOp) (value : Value) :
    DatabaseAction S C (List Node) := do
  let ids? ← Action.read fun db => db.propertyIndex.query field op value
  match ids? with
  | some ids => loadNodes ord ids
  | none =>
    let all ← allNodes ord
    return all.filter fun n =>
      (n.properties[field]?.map fun v => op.compareValues v value).getD false

def allEdges (ord : HashOrder) : DatabaseAction S C (List Edge) := do
  let ids ← Action.read fun db => db.engine.allEdgeIds (ord.sub 0)
  loadEdges (ord.sub 1) ids

/-! ## Structural queries -/

def neighborsOutgoing (id : NodeId) (db : LayeredGraphDatabase S C) : List Neighbor :=
  db.engine.neighborsOutgoing id

def neighborsIncoming (id : NodeId) (db : LayeredGraphDatabase S C) : List Neighbor :=
  db.engine.neighborsIncoming id

def nodeCount (db : LayeredGraphDatabase S C) : Nat := db.engine.nodeCount

def edgeCount (db : LayeredGraphDatabase S C) : Nat := db.engine.edgeCount

def labelCount (label : String) (db : LayeredGraphDatabase S C) : Nat :=
  db.labelIndex.labelCount label

end LayeredGraphDatabase

end AdGraphDb
