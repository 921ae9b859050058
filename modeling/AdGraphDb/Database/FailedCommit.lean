import AdGraphDb.Engine.Removal
import AdGraphDb.Database.Commit
import AdGraphDb.Database.Refinement

/-!
# Commits that fail

The operations before the failing one have been applied one by one, and only the log is
told that they are undone.
-/

namespace AdGraphDb
open Std AdGraphDb.Action AdjacencyListEngine

namespace LayeredGraphDatabase

variable {S C : Type} [FileStorage S] [LawfulCachePort C] {L : StorageSpec S}
  {db db' : LayeredGraphDatabase S C}

/-- A staged deletion of what no layer knows. -/
def Absent (L : StorageSpec S) (db : LayeredGraphDatabase S C) : StagedOp → Prop
  | .deleteNode id => db.engine.LacksNode id ∧ nodeValue L db id = none
  | .deleteEdge id => db.engine.edgeEndpoints[id]? = none ∧ edgeValue L db id = none
  | _ => False

/-- What the cache answers is in the storage. -/
structure CacheAgrees (L : StorageSpec S) (db : LayeredGraphDatabase S C) : Prop where
  node : ∀ id n, LawfulCachePort.nodeAt db.cache id = some n →
    (L.view db.storage).nodes[id]? = some n
  edge : ∀ id e, LawfulCachePort.edgeAt db.cache id = some e →
    (L.view db.storage).edges[id]? = some e

/-- All that can be seen stays as it is. -/
structure Unmoved (L : StorageSpec S) (db db' : LayeredGraphDatabase S C) : Prop where
  engine : db'.engine = db.engine
  labelIndex : db'.labelIndex = db.labelIndex
  propertyIndex : db'.propertyIndex = db.propertyIndex
  valid : L.Valid db'.storage
  nodes : (L.view db'.storage).nodes = (L.view db.storage).nodes
  edges : (L.view db'.storage).edges = (L.view db.storage).edges
  nodeValue : ∀ id, nodeValue L db' id = nodeValue L db id
  edgeValue : ∀ id, edgeValue L db' id = edgeValue L db id

theorem Unmoved.refl (h : L.Valid db.storage) : Unmoved L db db :=
  ⟨rfl, rfl, rfl, h, rfl, rfl, fun _ => rfl, fun _ => rfl⟩

theorem Unmoved.trans {db'' : LayeredGraphDatabase S C} (h : Unmoved L db db')
    (h' : Unmoved L db' db'') : Unmoved L db db'' :=
  ⟨h'.engine.trans h.engine, h'.labelIndex.trans h.labelIndex,
    h'.propertyIndex.trans h.propertyIndex, h'.valid, h'.nodes.trans h.nodes,
    h'.edges.trans h.edges, fun id => (h'.nodeValue id).trans (h.nodeValue id),
    fun id => (h'.edgeValue id).trans (h.edgeValue id)⟩

theorem Unmoved.absent (h : Unmoved L db db') {op : StagedOp} (ha : Absent L db op) :
    Absent L db' op := by
  cases op with
  | insertNode n => exact ha
  | insertEdge e => exact ha
  | deleteNode id => exact ⟨h.engine ▸ ha.1, (h.nodeValue id).trans ha.2⟩
  | deleteEdge id => exact ⟨h.engine ▸ ha.1, (h.edgeValue id).trans ha.2⟩

theorem CacheAgrees.nodeValue (h : CacheAgrees L db) (id : NodeId) :
    nodeValue L db id = (L.view db.storage).nodes[id]? := by
  unfold LayeredGraphDatabase.nodeValue
  cases hc : LawfulCachePort.nodeAt db.cache id with
  | none => rfl
  | some n => exact (h.node id n hc).symm

theorem CacheAgrees.edgeValue (h : CacheAgrees L db) (id : EdgeId) :
    edgeValue L db id = (L.view db.storage).edges[id]? := by
  unfold LayeredGraphDatabase.edgeValue
  cases hc : LawfulCachePort.edgeAt db.cache id with
  | none => rfl
  | some e => exact (h.edge id e hc).symm

/-- Storage and cache show what they showed, and so does the database. -/
theorem CacheAgrees.congr (h : CacheAgrees L db)
    (hnodes : (L.view db'.storage).nodes = (L.view db.storage).nodes)
    (hedges : (L.view db'.storage).edges = (L.view db.storage).edges)
    (hnode : LawfulCachePort.nodeAt db'.cache = LawfulCachePort.nodeAt db.cache)
    (hedge : LawfulCachePort.edgeAt db'.cache = LawfulCachePort.edgeAt db.cache) :
    CacheAgrees L db' := by
  refine ⟨fun id x hx => ?_, fun id x hx => ?_⟩
  · rw [hnode] at hx
    rw [hnodes]
    exact h.node id x hx
  · rw [hedge] at hx
    rw [hedges]
    exact h.edge id x hx

/-- A compaction clears the cache. -/
theorem Settled.cacheAgrees (hs : Settled L db db') (hd : db.due = true) : CacheAgrees L db' := by
  obtain ⟨-, -, hcache⟩ := hs.compacted hd
  refine ⟨fun id x hx => ?_, fun id x hx => ?_⟩ <;> rw [hcache] at hx
  · rw [LawfulCachePort.nodeAt_clear] at hx
    cases hx
  · rw [LawfulCachePort.edgeAt_clear] at hx
    cases hx

/-- A write of which storage and cache show nothing; counting it may compact. -/
theorem Settled.unmoved {storage : S} {cache : C} {n : Nat}
    (hs : Settled L { db with storage := storage, cache := cache } db')
    (hnodes : (L.view storage).nodes = (L.view db.storage).nodes)
    (hedges : (L.view storage).edges = (L.view db.storage).edges)
    (hnode : LawfulCachePort.nodeAt cache = LawfulCachePort.nodeAt db.cache)
    (hedge : LawfulCachePort.edgeAt cache = LawfulCachePort.edgeAt db.cache)
    (h : CacheAgrees L db ∨ Quiet (n + 1) db) :
    Unmoved L db db' ∧ (CacheAgrees L db' ∨ Quiet n db') := by
  cases hd : LayeredGraphDatabase.due { db with storage := storage, cache := cache } with
  | false =>
    -- storage and cache are kept, the count goes on
    obtain ⟨hcount, hstorage, hcache⟩ := hs.kept hd
    replace hnodes : (L.view db'.storage).nodes = (L.view db.storage).nodes := by
      rw [hstorage]
      exact hnodes
    replace hedges : (L.view db'.storage).edges = (L.view db.storage).edges := by
      rw [hstorage]
      exact hedges
    replace hnode : LawfulCachePort.nodeAt db'.cache = LawfulCachePort.nodeAt db.cache := by
      rw [hcache]
      exact hnode
    replace hedge : LawfulCachePort.edgeAt db'.cache = LawfulCachePort.edgeAt db.cache := by
      rw [hcache]
      exact hedge
    refine ⟨⟨hs.engine, hs.labelIndex, hs.propertyIndex, hs.valid, hnodes, hedges, ?_, ?_⟩, ?_⟩
    · intro id
      rw [nodeValue, hnode, hnodes]
      rfl
    · intro id
      rw [edgeValue, hedge, hedges]
      rfl
    · exact h.imp (fun ha => ha.congr hnodes hedges hnode hedge)
        fun hq => hq.next hs.config hcount
  | true =>
    -- the cache is cleared, so it has to have agreed with the storage
    have ha : CacheAgrees L db := by
      apply h.resolve_right
      intro hq
      rw [hq.not_due] at hd
      cases hd
    have hcleared := hs.cacheAgrees hd
    obtain ⟨-, hview, -⟩ := hs.compacted hd
    replace hnodes : (L.view db'.storage).nodes = (L.view db.storage).nodes := by
      rw [hview]
      exact hnodes
    replace hedges : (L.view db'.storage).edges = (L.view db.storage).edges := by
      rw [hview]
      exact hedges
    refine ⟨⟨hs.engine, hs.labelIndex, hs.propertyIndex, hs.valid, hnodes, hedges, ?_, ?_⟩,
      .inl hcleared⟩
    · intro id
      rw [hcleared.nodeValue, ha.nodeValue, hnodes]
    · intro id
      rw [hcleared.edgeValue, ha.edgeValue, hedges]

/-- A deletion of an absent key changes what is stored or buffered, not what is visible. -/
theorem applyRecord_deleteNode_absent {st : ReplayState} {id : NodeId} (h : st.nodes[id]? = none) :
    (st.applyRecord (.deleteNode id)).nodes = st.nodes ∧
      (st.applyRecord (.deleteNode id)).edges = st.edges := by
  unfold ReplayState.applyRecord ReplayState.applyOrBuffer
  cases st.txnBuffer with
  | none => exact ⟨HashMap.erase_eq_self h, rfl⟩
  | some b => exact ⟨rfl, rfl⟩

theorem applyRecord_deleteEdge_absent {st : ReplayState} {id : EdgeId} (h : st.edges[id]? = none) :
    (st.applyRecord (.deleteEdge id)).nodes = st.nodes ∧
      (st.applyRecord (.deleteEdge id)).edges = st.edges := by
  unfold ReplayState.applyRecord ReplayState.applyOrBuffer
  cases st.txnBuffer with
  | none => exact ⟨rfl, HashMap.erase_eq_self h⟩
  | some b => exact ⟨rfl, rfl⟩

theorem nodeValue_eq_none {id : NodeId} : nodeValue L db id = none ↔
    LawfulCachePort.nodeAt db.cache id = none ∧ (L.view db.storage).nodes[id]? = none := by
  unfold nodeValue
  cases LawfulCachePort.nodeAt db.cache id <;> simp

theorem edgeValue_eq_none {id : EdgeId} : edgeValue L db id = none ↔
    LawfulCachePort.edgeAt db.cache id = none ∧ (L.view db.storage).edges[id]? = none := by
  unfold edgeValue
  cases LawfulCachePort.edgeAt db.cache id <;> simp

theorem deleteEdge_absent {n : Nat} (ord : HashOrder) {id : EdgeId} (hv : L.Valid db.storage)
    (ha : Absent L db (.deleteEdge id)) (h : CacheAgrees L db ∨ Quiet (n + 1) db) :
    Returns (deleteEdge ord id) db fun _ db' =>
      Unmoved L db db' ∧ (CacheAgrees L db' ∨ Quiet n db') := by
  obtain ⟨hcached, hstored⟩ := edgeValue_eq_none.mp ha.2
  apply Returns.mono (deleteEdge_returns L ord id hv)
  rintro - db' ⟨storage, -, hview, hs⟩
  obtain ⟨hnodes, hedges⟩ := applyRecord_deleteEdge_absent hstored
  rw [AdjacencyListEngine.removeEdge_eq ha.1] at hs
  apply Settled.unmoved hs (hview ▸ hnodes) (hview ▸ hedges)
  · exact LawfulCachePort.nodeAt_invalidateEdge id db.cache
  · funext k
    rw [LawfulCachePort.edgeAt_invalidateEdge]
    split_ifs with hk
    · rw [hk, hcached]
    · rfl
  · exact h

/-- A lookup that finds nothing leaves the cache's contents alone. -/
theorem getNode_absent (ord : HashOrder) {id : NodeId} (hv : L.Valid db.storage)
    (h : nodeValue L db id = none) :
    Returns (getNode ord id) db fun found db' => found = none ∧
      db' = { db with cache := (CachePort.getNode id db.cache).2 } := by
  obtain ⟨hcached, hstored⟩ := nodeValue_eq_none.mp h
  apply Returns.bind_on_update
  change Returns _ { db with cache := (CachePort.getNode id db.cache).2 } _
  rw [show (CachePort.getNode id (cacheField.get db)).1 = none from
    (LawfulCachePort.getNode_fst id db.cache).trans hcached]
  apply Returns.bind_tryRead
  · exact L.loadNode id hv
  rw [show (L.view db.storage).nodes[id]? = none from hstored]
  exact .pure ⟨rfl, rfl⟩

theorem deleteNode_absent {n : Nat} (ord : HashOrder) {id : NodeId} (hv : L.Valid db.storage)
    (ha : Absent L db (.deleteNode id)) (h : CacheAgrees L db ∨ Quiet (n + 1) db) :
    Returns (deleteNode ord id) db fun _ db' =>
      Unmoved L db db' ∧ (CacheAgrees L db' ∨ Quiet n db') := by
  obtain ⟨hlacks, hvalue⟩ := ha
  obtain ⟨hcached, hstored⟩ := nodeValue_eq_none.mp hvalue
  have hincident : db.incidentEdges id = [] := by
    rw [incidentEdges, AdjacencyListEngine.neighborsOutgoing,
      AdjacencyListEngine.neighborsIncoming, hlacks.outgoing, hlacks.incoming]
    rfl
  apply Returns.bind_read
  rw [hincident]
  change Returns (getNode (ord.sub 0) id >>= _) db _
  apply Returns.bind (getNode_absent (ord.sub 0) hv hvalue)
  rintro _ _ ⟨rfl, rfl⟩
  apply Returns.bind_modify
  apply Returns.bind_on (L.write_plain .sorted (r := .deleteNode id) rfl hv trivial)
  rintro - storage ⟨hv', hview⟩
  apply Returns.bind_modify
  apply Returns.mono (onWrite_returns L (ord.sub 3) hv')
  intro _ db' hs
  obtain ⟨hnodes, hedges⟩ := applyRecord_deleteNode_absent hstored
  have hengine := hlacks.removeNode_eq (ord.sub 2)
  change Settled L { db with
    storage := storage
    cache := CachePort.invalidateNode id (CachePort.getNode id db.cache).2
    engine := db.engine.removeNode (ord.sub 2) id } db' at hs
  rw [hengine] at hs
  apply Settled.unmoved hs (hview ▸ hnodes) (hview ▸ hedges)
  · funext j
    rw [LawfulCachePort.nodeAt_invalidateNode, LawfulCachePort.nodeAt_getNode]
    split_ifs with hj
    · rw [hj, hcached]
    · rfl
  · rw [LawfulCachePort.edgeAt_invalidateNode, LawfulCachePort.edgeAt_getNode]
  · exact h

/-! ## The failing commit -/

/-- The commit gets past the operations `before` and finds an end of the next staged edge
missing. -/
def FailsAt (ord : HashOrder) (txn : Transaction) (before : List StagedOp) (edge : Edge)
    (db : LayeredGraphDatabase S C) : Prop :=
  ∃ after storage ord' result db', txn.operations = before ++ .insertEdge edge :: after ∧
    StoragePort.beginWalTransaction txn.txnId db.storage = (.ok (), storage) ∧
    Reaches txn.txnId (ord.sub 0) .default { db with storage := storage } before ord' result db' ∧
    hasEnds edge.source edge.target db' = false

/-- The answer is an error; all that is done about it is to write a marker. -/
theorem commitTransaction_failsAt {ord : HashOrder} {txn : Transaction} {before : List StagedOp}
    {edge : Edge} (h : FailsAt ord txn before edge db) :
    ∃ storage ord' result db' id,
      StoragePort.beginWalTransaction txn.txnId db.storage = (.ok (), storage) ∧
      Reaches txn.txnId (ord.sub 0) .default { db with storage := storage } before ord' result
        db' ∧
      commitTransaction ord txn db = (.error (.nodeNotFound id), { db' with
        storage := (StoragePort.rollbackWalTransaction txn.txnId db'.storage).2 }) := by
  obtain ⟨after, storage, ord', result, db', hops, hbegin, hreach, hends⟩ := h
  obtain ⟨id, herr⟩ := commitInsertEdge_of_not_hasEnds (ord'.sub 0) txn.txnId edge result hends
  refine ⟨storage, ord', result, db', id, hbegin, hreach, ?_⟩
  have hloop : commitOps (ord.sub 0) txn.txnId .default txn.operations
      { db with storage := storage } = commitNodeNotFound txn.txnId id db' := by
    rw [hops, hreach.commitOps]
    exact bind_error herr
  have hstart : on storageField (StoragePort.beginWalTransaction txn.txnId) db =
      (.ok (), { db with storage := storage }) := by
    change ((StoragePort.beginWalTransaction txn.txnId db.storage).1,
      storageField.set (StoragePort.beginWalTransaction txn.txnId db.storage).2 db) = _
    rw [hbegin]
    rfl
  exact (bind_ok hstart).trans (bind_error hloop)

/-- The marker of a bracket that opens or is undone shows nothing. -/
theorem marker_returns (ord : HashOrder) (r : RecordData) {s : S} (hv : L.Valid s)
    (hr : (∃ id, r = .beginTxn id) ∨ ∃ id, r = .rollbackTxn id) :
    Returns (StoragePort.write ord r) s fun _ s' => L.Valid s' ∧
      (L.view s').nodes = (L.view s).nodes ∧ (L.view s').edges = (L.view s).edges := by
  have hholds : RecordHolds (fun _ => L.NodeStorable) (fun _ => L.EdgeStorable) r := by
    rcases hr with ⟨id, rfl⟩ | ⟨id, rfl⟩ <;> trivial
  apply Returns.mono (L.write ord r hv hholds)
  rintro - s' ⟨hv', hview⟩
  rw [hview]
  refine ⟨hv', ?_⟩
  rcases hr with ⟨id, rfl⟩ | ⟨id, rfl⟩ <;> split_ifs <;> exact ⟨rfl, rfl⟩

/-- Nothing in memory changes with the storage if it shows the same. -/
theorem Unmoved.of_storage {storage : S} (hv : L.Valid storage)
    (hnodes : (L.view storage).nodes = (L.view db.storage).nodes)
    (hedges : (L.view storage).edges = (L.view db.storage).edges) :
    Unmoved L db { db with storage := storage } := by
  refine ⟨rfl, rfl, rfl, hv, hnodes, hedges, fun id => ?_, fun id => ?_⟩
  · rw [LayeredGraphDatabase.nodeValue, hnodes]
    rfl
  · rw [LayeredGraphDatabase.edgeValue, hedges]
    rfl

/-- A transaction's operations so far have no effect: they delete what is not there. -/
def Inert (L : StorageSpec S) (ops : List StagedOp) (db : LayeredGraphDatabase S C) : Prop :=
  (∀ op ∈ ops, Absent L db op) ∧ (CacheAgrees L db ∨ Quiet ops.length db)

theorem commitOp_absent {n : Nat} {ord : HashOrder} {txnId : UInt64}
    {result result' : CommitResult} {op : StagedOp} (hv : L.Valid db.storage)
    (ha : Absent L db op) (h : CacheAgrees L db ∨ Quiet (n + 1) db)
    (heq : commitOp ord txnId result op db = (.ok result', db')) :
    Unmoved L db db' ∧ (CacheAgrees L db' ∨ Quiet n db') := by
  have hop : Returns (commitOp ord txnId result op) db fun _ db' =>
      Unmoved L db db' ∧ (CacheAgrees L db' ∨ Quiet n db') := by
    cases op with
    | insertNode node => cases ha
    | insertEdge edge => cases ha
    | deleteNode id => exact (deleteNode_absent ord hv ha h).bind fun _ _ h => .pure h
    | deleteEdge id => exact (deleteEdge_absent ord hv ha h).bind fun _ _ h => .pure h
  have hdone := hop.of_eq heq
  exact hdone

theorem Reaches.unmoved {txnId : UInt64} {ord ord' : HashOrder} {result result' : CommitResult}
    {ops : List StagedOp} (hr : Reaches txnId ord result db ops ord' result' db')
    (hv : L.Valid db.storage) (h : Inert L ops db) : Unmoved L db db' := by
  induction hr with
  | nil => exact .refl hv
  | cons hop _ ih =>
    obtain ⟨hmoved, hquiet⟩ := commitOp_absent hv (h.1 _ List.mem_cons_self) h.2 hop
    apply hmoved.trans
    exact ih hmoved.valid
      ⟨fun op hmem => hmoved.absent (h.1 op (List.mem_cons_of_mem _ hmem)), hquiet⟩

/-- What a caller can see: the structures in memory, the answers of the lookups, and what
opening the storage again loads. -/
structure Unchanged (before after : LayeredGraphDatabase S C) : Prop where
  engine : after.engine = before.engine
  labelIndex : after.labelIndex = before.labelIndex
  propertyIndex : after.propertyIndex = before.propertyIndex
  getNode : ∀ ord id, (getNode ord id after).1 = (getNode ord id before).1
  getEdge : ∀ ord id, (getEdge ord id after).1 = (getEdge ord id before).1
  loadAllNodes : ∀ ord, StoragePort.loadAllNodes ord (FileStorage.reopen after.storage) =
    StoragePort.loadAllNodes ord (FileStorage.reopen before.storage)
  loadAllEdges : ∀ ord, StoragePort.loadAllEdges ord (FileStorage.reopen after.storage) =
    StoragePort.loadAllEdges ord (FileStorage.reopen before.storage)

theorem getNode_fst (ord : HashOrder) (id : NodeId) (hv : L.Valid db.storage) :
    (getNode ord id db).1 = .ok (nodeValue L db id) := by
  obtain ⟨v, db', h, rfl, -⟩ := getNode_returns L ord id hv
  rw [h]

theorem getEdge_fst (ord : HashOrder) (id : EdgeId) (hv : L.Valid db.storage) :
    (getEdge ord id db).1 = .ok (edgeValue L db id) := by
  obtain ⟨v, db', h, rfl, -⟩ := getEdge_returns L ord id hv
  rw [h]

theorem Unmoved.unchanged (h : Unmoved L db db') (hv : L.Valid db.storage) : Unchanged db db' := by
  refine ⟨h.engine, h.labelIndex, h.propertyIndex, ?_, ?_, ?_, ?_⟩
  · intro ord id
    rw [getNode_fst ord id hv, getNode_fst ord id h.valid, h.nodeValue]
  · intro ord id
    rw [getEdge_fst ord id hv, getEdge_fst ord id h.valid, h.edgeValue]
  · intro ord
    rw [L.reopen_eq, L.reopen_eq, L.loadAllNodes ord hv, L.loadAllNodes ord h.valid, h.nodes]
  · intro ord
    rw [L.reopen_eq, L.reopen_eq, L.loadAllEdges ord hv, L.loadAllEdges ord h.valid, h.edges]

theorem FailsAt.unchanged_of_inert {ord : HashOrder} {txn : Transaction}
    {before : List StagedOp} {edge : Edge} (h : FailsAt ord txn before edge db)
    (hv : L.Valid db.storage) (hi : Inert L before db) :
    Unchanged db (commitTransaction ord txn db).2 := by
  obtain ⟨storage, ord', result, db', id, hbegin, hreach, heq⟩ := commitTransaction_failsAt h
  obtain ⟨hv₁, hn₁, he₁⟩ :=
    (marker_returns .sorted (.beginTxn txn.txnId) hv (.inl ⟨_, rfl⟩)).of_eq hbegin
  have hbegun : Unmoved L db { db with storage := storage } := .of_storage hv₁ hn₁ he₁
  have hinert : Inert L before { db with storage := storage } := by
    refine ⟨fun op hop => hbegun.absent (hi.1 op hop), hi.2.imp ?_ fun hq => hq⟩
    intro ha
    exact ⟨fun id n hc => hn₁ ▸ ha.node id n hc, fun id e hc => he₁ ▸ ha.edge id e hc⟩
  have hloop := hreach.unmoved hv₁ hinert
  have hmarker := marker_returns .sorted (.rollbackTxn txn.txnId) hloop.valid (.inr ⟨_, rfl⟩)
  obtain ⟨v, s', hrun, hv₂, hn₂, he₂⟩ := hmarker
  have hstorage : (StoragePort.rollbackWalTransaction txn.txnId db'.storage).2 = s' :=
    congrArg Prod.snd hrun
  rw [heq, hstorage]
  exact ((hbegun.trans hloop).trans (.of_storage hv₂ hn₂ he₂)).unchanged hv

/-! ## Insertions cannot be without effect -/

/-- The entries of the label index and of the adjacency lists, which insertions append to. -/
structure Grown (db db' : LayeredGraphDatabase S C) : Prop where
  label : ∀ l, (db.labelIndex.get l).length ≤ (db'.labelIndex.get l).length
  neighbors : ∀ id, (db.engine.neighborsOutgoing id).length ≤
    (db'.engine.neighborsOutgoing id).length

omit [FileStorage S] [LawfulCachePort C] in
theorem Grown.trans {db'' : LayeredGraphDatabase S C} (h : Grown db db') (h' : Grown db' db'') :
    Grown db db'' :=
  ⟨fun l => (h.label l).trans (h'.label l), fun id => (h.neighbors id).trans (h'.neighbors id)⟩

theorem length_get_insert (i : LabelIndex) (id : NodeId) (label l : String) :
    ((i.insert id label).get l).length = (i.get l).length + if label = l then 1 else 0 := by
  rw [LabelIndex.get, LabelIndex.insert, HashMap.bucket_insert]
  split_ifs
  · rw [List.length_append]
    rfl
  · rfl

theorem length_neighborsOutgoing_insertNode (e : AdjacencyListEngine) (id j : NodeId) :
    ((e.insertNode id).neighborsOutgoing j).length = (e.neighborsOutgoing j).length := by
  rw [AdjacencyListEngine.neighborsOutgoing, AdjacencyListEngine.insertNode,
    HashMap.getElem?_entryOrDefault]
  split_ifs with hj
  · rw [hj]
    rfl
  · rfl

theorem length_neighborsOutgoing_insertEdge (e : AdjacencyListEngine) (k : EdgeId)
    (source target j : NodeId) (weight : F64) :
    ((e.insertEdge k source target weight).neighborsOutgoing j).length =
      (e.neighborsOutgoing j).length + if source = j then 1 else 0 := by
  rw [AdjacencyListEngine.neighborsOutgoing, AdjacencyListEngine.insertEdge,
    HashMap.getElem?_entryOrDefault]
  split_ifs with hj
  · rw [hj, Option.getD_some, List.length_append]
    rfl
  · rfl

/-- An insertion that goes through leaves a trace in memory. -/
theorem commitOp_grown {ord : HashOrder} {txnId : UInt64} {result result' : CommitResult}
    {op : StagedOp} (hop : op.isInsertion = true)
    (h : commitOp ord txnId result op db = (.ok result', db')) :
    Grown db db' ∧ ((∃ l, (db.labelIndex.get l).length < (db'.labelIndex.get l).length) ∨
      ∃ id, (db.engine.neighborsOutgoing id).length <
        (db'.engine.neighborsOutgoing id).length) := by
  cases op with
  | deleteNode id => cases hop
  | deleteEdge id => cases hop
  | insertNode node =>
    obtain ⟨storage, -, rfl⟩ := commitOp_insertNode_ok h
    refine ⟨⟨fun l => ?_, fun id => ?_⟩, .inl ⟨node.label, ?_⟩⟩
    · rw [length_get_insert]
      exact Nat.le_add_right _ _
    · rw [length_neighborsOutgoing_insertNode]
    · rw [length_get_insert, if_pos rfl]
      exact Nat.lt_succ_self _
  | insertEdge edge =>
    obtain ⟨storage, -, rfl⟩ := commitOp_insertEdge_ok h
    refine ⟨⟨fun l => le_rfl, fun id => ?_⟩, .inr ⟨edge.source, ?_⟩⟩
    · rw [length_neighborsOutgoing_insertEdge]
      exact Nat.le_add_right _ _
    · rw [length_neighborsOutgoing_insertEdge, if_pos rfl]
      exact Nat.lt_succ_self _

theorem Reaches.grown {txnId : UInt64} {ord ord' : HashOrder} {result result' : CommitResult}
    {ops : List StagedOp} (hr : Reaches txnId ord result db ops ord' result' db')
    (hops : ∀ op ∈ ops, op.isInsertion = true) : Grown db db' := by
  induction hr with
  | nil => exact ⟨fun _ => le_rfl, fun _ => le_rfl⟩
  | cons hop _ ih =>
    apply (commitOp_grown (hops _ List.mem_cons_self) hop).1.trans
    exact ih fun op hmem => hops op (List.mem_cons_of_mem _ hmem)

theorem Reaches.eq_nil_of_insertions {txnId : UInt64} {ord ord' : HashOrder}
    {result result' : CommitResult} {ops : List StagedOp}
    (hr : Reaches txnId ord result db ops ord' result' db')
    (hops : ∀ op ∈ ops, op.isInsertion = true) (hlabel : db'.labelIndex = db.labelIndex)
    (hengine : db'.engine = db.engine) : ops = [] := by
  cases hr with
  | nil => rfl
  | cons hop hrest =>
    have hgrown := hrest.grown fun op hmem => hops op (List.mem_cons_of_mem _ hmem)
    rcases (commitOp_grown (hops _ List.mem_cons_self) hop).2 with ⟨l, hlt⟩ | ⟨id, hlt⟩
    · have hle := hgrown.label l
      rw [hlabel] at hle
      exact absurd (hlt.trans_le hle) (lt_irrefl _)
    · have hle := hgrown.neighbors id
      rw [hengine] at hle
      exact absurd (hlt.trans_le hle) (lt_irrefl _)

/-! ## Nor can deletions of what is there -/

/-- What has been deleted is not in the engine. -/
def Gone (e : AdjacencyListEngine) : StagedOp → Prop
  | .deleteNode id => e.outgoing[id]? = none
  | .deleteEdge id => e.edgeEndpoints[id]? = none
  | _ => True

theorem Gone.shrunk {e e' : AdjacencyListEngine} {op : StagedOp} (hop : Gone e op)
    (h : Shrunk e e') : Gone e' op := by
  cases op with
  | insertNode node => trivial
  | insertEdge edge => trivial
  | deleteNode id => exact h.outgoing id hop
  | deleteEdge k => exact h.endpoints k hop

theorem commitOp_gone {ord : HashOrder} {txnId : UInt64} {result result' : CommitResult}
    {op : StagedOp} (hv : L.Valid db.storage) (hop : op.isInsertion = false)
    (h : commitOp ord txnId result op db = (.ok result', db')) :
    L.Valid db'.storage ∧ Shrunk db.engine db'.engine ∧ Gone db'.engine op := by
  have hdel : Returns (commitOp ord txnId result op) db fun _ db' =>
      L.Valid db'.storage ∧ Shrunk db.engine db'.engine ∧ Gone db'.engine op := by
    cases op with
    | insertNode node => cases hop
    | insertEdge edge => cases hop
    | deleteNode id =>
      apply Returns.bind (deleteNode_returns L ord id hv)
      rintro - db' ⟨storage, cache, -, -, -, hs⟩
      have hshrunk := shrunk_removeNode db.engine (ord.sub 2) id
      exact .pure ⟨hs.valid, hs.engine ▸ hshrunk⟩
    | deleteEdge k =>
      apply Returns.bind (deleteEdge_returns L ord k hv)
      rintro - db' ⟨storage, -, -, hs⟩
      have hshrunk := shrunk_removeEdge db.engine k
      exact .pure ⟨hs.valid, hs.engine ▸ hshrunk⟩
  have hdone := hdel.of_eq h
  exact hdone

theorem Reaches.gone {txnId : UInt64} {ord ord' : HashOrder} {result result' : CommitResult}
    {ops : List StagedOp} (hr : Reaches txnId ord result db ops ord' result' db')
    (hv : L.Valid db.storage) (hops : ∀ op ∈ ops, op.isInsertion = false) :
    Shrunk db.engine db'.engine ∧ ∀ op ∈ ops, Gone db'.engine op := by
  induction hr with
  | nil => exact ⟨.refl _, fun op hop => absurd hop List.not_mem_nil⟩
  | cons hop _ ih =>
    obtain ⟨hv', hshrunk, hgone⟩ := commitOp_gone hv (hops _ List.mem_cons_self) hop
    obtain ⟨hrest, hall⟩ := ih hv' fun op hmem => hops op (List.mem_cons_of_mem _ hmem)
    refine ⟨hshrunk.trans hrest, fun op hmem => ?_⟩
    rcases List.mem_cons.mp hmem with rfl | hmem
    · exact hgone.shrunk hrest
    · exact hall op hmem

/-- While the layers agree, what is not in the engine is nowhere. -/
theorem Sync.absent_of_gone {g : PlainGraph} (h : Sync L db g) {op : StagedOp}
    (hop : op.isInsertion = false) (hgone : Gone db.engine op) : Absent L db op := by
  cases op with
  | insertNode node => cases hop
  | insertEdge edge => cases hop
  | deleteEdge k =>
    have hend : g.edges[k]?.map (fun e => (e.source, e.target)) = none :=
      (h.engine.endpoints k).symm.trans hgone
    exact ⟨hgone, (h.edgeValue k).trans (Option.map_eq_none_iff.mp hend)⟩
  | deleteNode id =>
    have hnode : g.nodes[id]? = none := by
      apply Option.not_isSome_iff_eq_none.mp
      rw [← h.engine.outgoing.keys id, show db.engine.outgoing[id]? = none from hgone]
      exact Bool.false_ne_true
    refine ⟨⟨hgone, ?_, ?_⟩, (h.nodeValue id).trans hnode⟩
    · apply Option.not_isSome_iff_eq_none.mp
      rw [h.engine.incoming.keys id, hnode]
      exact Bool.false_ne_true
    · intro k ends hk
      rw [h.engine.endpoints k] at hk
      obtain ⟨e, he, rfl⟩ := Option.map_eq_some_iff.mp hk
      have hs := h.wellFormed.source k e he
      have ht := h.wellFormed.target k e he
      unfold PlainGraph.Live at hs ht
      constructor <;> rintro rfl
      · rw [hnode] at hs
        cases hs
      · rw [hnode] at ht
        cases ht

theorem Sync.cacheAgrees {g : PlainGraph} (h : Sync L db g) : CacheAgrees L db := by
  refine ⟨fun id n hn => ?_, fun id e he => ?_⟩ <;> rw [h.stored]
  · exact h.cached.node id n hn
  · exact h.cached.edge id e he

/-- A commit that fails leaves everything as it is if the operations before the failing one
delete only what is not there. Operations before it that only insert, or only delete from
layers that agree, leave everything as it is only then. -/
theorem failedCommit_unchanged (a : StorageAdapter) (hs : a.Documented) {C : Type} [LawfulCachePort C]
    {db : LayeredGraphDatabase a.Storage C} {ord : HashOrder} {txn : Transaction}
    {before : List StagedOp} {edge : Edge} (hv : (a.spec hs).Valid db.storage)
    (h : FailsAt ord txn before edge db) :
    (∃ id, (commitTransaction ord txn db).1 = .error (.nodeNotFound id)) ∧
      (Inert (a.spec hs) before db → Unchanged db (commitTransaction ord txn db).2) ∧
      ((∀ op ∈ before, op.isInsertion = true) ∨
          (∀ op ∈ before, op.isInsertion = false) ∧ (∃ g, Sync (a.spec hs) db g) →
        Unchanged db (commitTransaction ord txn db).2 → Inert (a.spec hs) before db) := by
  refine ⟨?_, h.unchanged_of_inert hv, ?_⟩
  · obtain ⟨_, _, _, _, id, _, _, heq⟩ := commitTransaction_failsAt h
    exact ⟨id, congrArg Prod.fst heq⟩
  · intro hside hunchanged
    obtain ⟨storage, ord', result, db', id, hbegin, hreach, heq⟩ := commitTransaction_failsAt h
    rw [heq] at hunchanged
    rcases hside with hins | ⟨hdel, g, hsync⟩
    · obtain rfl := hreach.eq_nil_of_insertions hins hunchanged.labelIndex hunchanged.engine
      exact ⟨fun op hop => absurd hop List.not_mem_nil, .inr (.inl rfl)⟩
    · have hmarker := marker_returns .sorted (.beginTxn txn.txnId) hv (.inl ⟨_, rfl⟩)
      have hv₁ := (hmarker.of_eq hbegin).1
      have hgone := (hreach.gone hv₁ hdel).2
      have hengine : db'.engine = db.engine := hunchanged.engine
      rw [hengine] at hgone
      exact ⟨fun op hop => hsync.absent_of_gone (hdel op hop) (hgone op hop),
        .inl hsync.cacheAgrees⟩

/-- A node and an edge to a node that does not exist. -/
def danglingTransaction : Transaction :=
  ((newDatabase.beginTransaction 1).stageInsertNode "A" ∅).2.stageInsertEdge ⟨0⟩ ⟨7⟩ "E"
    (F64.ofInt 1) ∅ |>.2

/-- The node stays in the engine. -/
theorem failedCommit_keeps_node :
    (commitTransaction .sorted danglingTransaction newDatabase).1 =
        .error (.nodeNotFound ⟨7⟩) ∧
      ¬ Unchanged newDatabase (commitTransaction .sorted danglingTransaction newDatabase).2 := by
  refine ⟨by decide +kernel, ?_⟩
  intro h
  have hlive : (commitTransaction .sorted danglingTransaction newDatabase).2.engine.containsNode
      ⟨0⟩ = true := by
    decide +kernel
  rw [h.engine] at hlive
  exact absurd hlive (by decide)

/-- A database with two nodes. -/
def pairDatabase : LayeredGraphDatabase BinaryFileStorage (NoCache ⊕ LruCache) :=
  (insertNode .sorted "B" ∅ (insertNode .sorted "A" ∅ newDatabase).2).2

/-- A deletion of a node that does not exist, and an edge to another one. -/
def idleTransaction : Transaction :=
  (((pairDatabase.beginTransaction 1).stageDeleteNode ⟨5⟩).stageInsertEdge ⟨0⟩ ⟨7⟩ "E"
    (F64.ofInt 1) ∅).2

theorem failedCommit_unchanged_idle :
    pairDatabase.nodeCount = 2 ∧
      Unchanged pairDatabase (commitTransaction .sorted idleTransaction pairDatabase).2 := by
  have hfails : FailsAt .sorted idleTransaction [.deleteNode ⟨5⟩]
      ⟨⟨0⟩, ⟨0⟩, ⟨7⟩, "E", F64.ofInt 1, ∅⟩ pairDatabase :=
    ⟨[], _, _, _, _, rfl, rfl, .cons rfl (.nil ..), rfl⟩
  have hvalid : (StorageAdapter.spec .binary trivial).Valid pairDatabase.storage :=
    ⟨[(.sorted, .upsertNode ⟨⟨0⟩, "A", ∅⟩), (.sorted, .upsertNode ⟨⟨1⟩, "B", ∅⟩)], by decide, rfl⟩
  refine ⟨by decide +kernel, (failedCommit_unchanged .binary trivial hvalid hfails).2.1 ?_⟩
  refine ⟨?_, .inr (.inr ?_)⟩
  · intro op hop
    obtain rfl := List.mem_singleton.mp hop
    exact ⟨⟨rfl, rfl, fun k ends hk => by cases hk⟩, rfl⟩
  · rintro threshold hc
    cases hc
    decide

end LayeredGraphDatabase

end AdGraphDb
