import AdGraphDb.Transaction.Staging
import AdGraphDb.Database.Spec

/-!
# Committing a transaction

The staged operations are applied one by one, between the markers of a bracket in the
log. A failed one marks the bracket as rolled back and leaves what was applied.
-/

namespace AdGraphDb
open Std AdGraphDb.Action

namespace LayeredGraphDatabase

section

variable {S C : Type} [StoragePort S] [CachePort C]

def beginTransaction (txnId : UInt64) (db : LayeredGraphDatabase S C) : Transaction :=
  .new txnId db.idGenerator

/-- The arm of `StagedOp::InsertNode`. It indexes every field, whatever is configured. -/
def commitInsertNode (ord : HashOrder) (node : Node) (result : CommitResult) :
    DatabaseAction S C CommitResult := do
  Action.on storageField (StoragePort.saveNode (ord.sub 0) node)
  Action.modify fun db =>
    { db with
      cache := CachePort.putNode (ord.sub 1) node db.cache
      engine := db.engine.insertNode node.id
      labelIndex := db.labelIndex.insert node.id node.label
      propertyIndex := db.propertyIndex.insertNode (ord.sub 2) node.id node.properties
      idGenerator := db.idGenerator.seedFromNode node.id }
  return { result with insertedNodeIds := result.insertedNodeIds ++ [node.id] }

/-- An endpoint that is not in the engine when the edge is reached. -/
def commitNodeNotFound (txnId : UInt64) (id : NodeId) : DatabaseAction S C CommitResult := do
  Action.attempt (Action.on storageField (StoragePort.rollbackWalTransaction txnId))
  Action.throw (.nodeNotFound id)

def commitInsertEdge (ord : HashOrder) (txnId : UInt64) (edge : Edge) (result : CommitResult) :
    DatabaseAction S C CommitResult := do
  let db ← Action.read fun db => db
  if !db.engine.containsNode edge.source then commitNodeNotFound txnId edge.source
  else if !db.engine.containsNode edge.target then commitNodeNotFound txnId edge.target
  else
    Action.on storageField (StoragePort.saveEdge (ord.sub 0) edge)
    Action.modify fun db =>
      { db with
        cache := CachePort.putEdge (ord.sub 1) edge db.cache
        engine := db.engine.insertEdge edge.id edge.source edge.target edge.weight
        idGenerator := db.idGenerator.seedFromEdge edge.id }
    return { result with insertedEdgeIds := result.insertedEdgeIds ++ [edge.id] }

/-- One round of the loop over the staged operations. -/
def commitOp (ord : HashOrder) (txnId : UInt64) (result : CommitResult) :
    StagedOp → DatabaseAction S C CommitResult
  | .insertNode node => commitInsertNode ord node result
  | .insertEdge edge => commitInsertEdge ord txnId edge result
  | .deleteNode id => do
    deleteNode ord id
    return { result with deletedNodeIds := result.deletedNodeIds ++ [id] }
  | .deleteEdge id => do
    deleteEdge ord id
    return { result with deletedEdgeIds := result.deletedEdgeIds ++ [id] }

def commitOps (ord : HashOrder) (txnId : UInt64) :
    CommitResult → List StagedOp → DatabaseAction S C CommitResult
  | result, [] => pure result
  | result, op :: ops => do
    let result ← commitOp (ord.sub 0) txnId result op
    commitOps (ord.sub 1) txnId result ops

def commitTransaction (ord : HashOrder) (txn : Transaction) :
    DatabaseAction S C CommitResult := do
  Action.on storageField (StoragePort.beginWalTransaction txn.txnId)
  let result ← commitOps (ord.sub 0) txn.txnId .default txn.operations
  Action.on storageField (StoragePort.commitWalTransaction txn.txnId)
  onWrite (ord.sub 1)
  return result

def rollbackTransaction (txn : Transaction) (db : LayeredGraphDatabase S C) :
    LayeredGraphDatabase S C :=
  { db with idGenerator := txn.seedGeneratorInto db.idGenerator }

/-- The loop gets past these operations. -/
inductive Reaches (txnId : UInt64) : HashOrder → CommitResult → LayeredGraphDatabase S C →
    List StagedOp → HashOrder → CommitResult → LayeredGraphDatabase S C → Prop
  | nil (ord : HashOrder) (result : CommitResult) (db : LayeredGraphDatabase S C) :
    Reaches txnId ord result db [] ord result db
  | cons {ord ord' : HashOrder} {result result' result'' : CommitResult} {op : StagedOp}
    {ops : List StagedOp} {db db' db'' : LayeredGraphDatabase S C} :
    commitOp (ord.sub 0) txnId result op db = (.ok result', db') →
    Reaches txnId (ord.sub 1) result' db' ops ord' result'' db'' →
    Reaches txnId ord result db (op :: ops) ord' result'' db''

theorem Reaches.commitOps {txnId : UInt64} {ord ord' : HashOrder} {result result' : CommitResult}
    {ops : List StagedOp} {db db' : LayeredGraphDatabase S C}
    (h : Reaches txnId ord result db ops ord' result' db') (rest : List StagedOp) :
    commitOps ord txnId result (ops ++ rest) db = commitOps ord' txnId result' rest db' := by
  induction h with
  | nil => rfl
  | cons hop _ ih => exact (bind_ok hop).trans ih

/-! ## What happens to the counters -/

abbrev KeepsIds {α : Type} (a : DatabaseAction S C α) : Prop := Keeps a fun db => db.idGenerator

variable {db db' : LayeredGraphDatabase S C}

theorem keepsIds_compact (ord : HashOrder) :
    KeepsIds (compact ord : DatabaseAction S C Unit) := by
  apply Keeps.bind_on fun _ _ => rfl
  intro _
  exact .modify fun _ => rfl

theorem keepsIds_onWrite (ord : HashOrder) : KeepsIds (onWrite ord : DatabaseAction S C Unit) := by
  apply Keeps.bind_modify
  · intro _
    rfl
  apply Keeps.bind (.read _)
  intro db
  cases db.config.autoCompactAfterWrites with
  | none => exact .pure ()
  | some threshold =>
    dsimp only
    split_ifs
    · exact (keepsIds_compact ord).attempt
    · exact .pure ()

theorem keepsIds_getNode (ord : HashOrder) (id : NodeId) :
    KeepsIds (getNode ord id : DatabaseAction S C (Option Node)) := by
  apply Keeps.bind_on fun _ _ => rfl
  intro cached
  cases cached with
  | some node => exact .pure _
  | none =>
    apply Keeps.bind (.tryRead _)
    intro stored
    cases stored with
    | some node => exact .bind_modify (fun _ => rfl) (.pure _)
    | none => exact .pure _

omit [StoragePort S] [CachePort C] in
/-- A write, a change and the closing step, as most operations end. -/
theorem keepsIds_written {β : Type} {a : Action GraphError S Unit}
    {f : LayeredGraphDatabase S C → LayeredGraphDatabase S C} {b : DatabaseAction S C β}
    (hf : ∀ db, (f db).idGenerator = db.idGenerator) (hb : KeepsIds b) :
    KeepsIds (do on storageField a; modify f; b) := by
  apply Keeps.bind_on fun _ _ => rfl
  intro _
  exact .bind_modify hf hb

theorem keepsIds_deleteNode (ord : HashOrder) (id : NodeId) :
    KeepsIds (deleteNode ord id : DatabaseAction S C Unit) := by
  apply Keeps.bind (.read _)
  intro incident
  apply Keeps.bind
  · apply Keeps.forEach
    intro edgeId
    apply Keeps.bind_on fun _ _ => rfl
    intro _
    exact .modify fun _ => rfl
  intro _
  apply (keepsIds_getNode _ id).bind
  intro found
  apply Keeps.bind_modify
  · intro db
    cases found <;> rfl
  exact keepsIds_written (fun _ => rfl) (keepsIds_onWrite _)

theorem keepsIds_deleteEdge (ord : HashOrder) (id : EdgeId) :
    KeepsIds (deleteEdge ord id : DatabaseAction S C Unit) := by
  exact keepsIds_written (fun _ => rfl) (keepsIds_onWrite _)

/-- The part of `insertNode` behind the draw of the id. -/
def insertDrawnNode (ord : HashOrder) (node : Node) : DatabaseAction S C NodeId := do
  Action.on storageField (StoragePort.saveNode (ord.sub 0) node)
  Action.modify fun db =>
    { db with
      cache := CachePort.putNode (ord.sub 1) node db.cache
      engine := db.engine.insertNode node.id
      labelIndex := db.labelIndex.insert node.id node.label
      propertyIndex := indexNode (ord.sub 2) db.config node db.propertyIndex }
  onWrite (ord.sub 3)
  return node.id

theorem insertNode_eq (ord : HashOrder) (label : String) (properties : Properties)
    (db : LayeredGraphDatabase S C) : insertNode ord label properties db =
      insertDrawnNode ord ⟨db.idGenerator.nextNodeId.1, label, properties⟩
        { db with idGenerator := db.idGenerator.nextNodeId.2 } := rfl

/-- Even an insertion that fails has drawn an id. -/
theorem insertNode_ids (ord : HashOrder) (label : String) (properties : Properties)
    (db : LayeredGraphDatabase S C) :
    (insertNode ord label properties db).2.idGenerator = db.idGenerator.nextNodeId.2 ∧
      ∀ id, (insertNode ord label properties db).1 = .ok id → id = db.idGenerator.nextNodeId.1 := by
  have keeps (node : Node) : KeepsIds (insertDrawnNode ord node : DatabaseAction S C NodeId) := by
    exact keepsIds_written (fun _ => rfl) ((keepsIds_onWrite _).bind fun _ => .pure _)
  have yields (node : Node) :
      Yields (insertDrawnNode ord node : DatabaseAction S C NodeId) node.id :=
    .bind fun _ => .bind fun _ => .bind fun _ => .pure _
  rw [insertNode_eq]
  exact ⟨keeps _ _, fun id h => yields _ _ id h⟩

/-- The part of `insertEdge` behind the draw of the id. -/
def insertDrawnEdge (ord : HashOrder) (edge : Edge) : DatabaseAction S C EdgeId := do
  Action.on storageField (StoragePort.saveEdge (ord.sub 0) edge)
  Action.modify fun db =>
    { db with
      cache := CachePort.putEdge (ord.sub 1) edge db.cache
      engine := db.engine.insertEdge edge.id edge.source edge.target edge.weight }
  onWrite (ord.sub 2)
  return edge.id

/-- Whether both ends of an edge are in the engine. -/
def hasEnds (source target : NodeId) (db : LayeredGraphDatabase S C) : Bool :=
  db.engine.containsNode source && db.engine.containsNode target

omit [StoragePort S] [CachePort C] in
theorem ite_of_hasEnds {α : Type} {source target : NodeId} {a b c : α}
    (h : hasEnds source target db = true) :
    (if !db.engine.containsNode source then a else if !db.engine.containsNode target then b
      else c) = c := by
  obtain ⟨hs, ht⟩ := (Bool.and_eq_true_iff).mp h
  rw [hs, ht]
  rfl

omit [StoragePort S] [CachePort C] in
/-- An edge without one of its ends takes one of the two failures. -/
theorem ite_of_not_hasEnds {α : Type} {p : α → Prop} {source target : NodeId} {a b c : α}
    (h : hasEnds source target db = false) (ha : p a) (hb : p b) :
    p (if !db.engine.containsNode source then a else if !db.engine.containsNode target then b
      else c) := by
  unfold hasEnds at h
  cases hs : db.engine.containsNode source with
  | false => exact ha
  | true =>
    rw [hs, Bool.true_and] at h
    rw [h]
    exact hb

theorem insertEdge_of_hasEnds (ord : HashOrder) {source target : NodeId} (label : String)
    (weight : F64) (properties : Properties) (h : hasEnds source target db = true) :
    insertEdge ord source target label weight properties db =
      insertDrawnEdge ord
        ⟨db.idGenerator.nextEdgeId.1, source, target, label, weight, properties⟩
        { db with idGenerator := db.idGenerator.nextEdgeId.2 } := by
  change (if !db.engine.containsNode source then _
    else if !db.engine.containsNode target then _ else _ : DatabaseAction S C EdgeId) db = _
  rw [ite_of_hasEnds h]
  rfl

theorem insertEdge_of_not_hasEnds (ord : HashOrder) {source target : NodeId} (label : String)
    (weight : F64) (properties : Properties) (h : hasEnds source target db = false) :
    ∃ e, insertEdge ord source target label weight properties db = (.error e, db) :=
  ite_of_not_hasEnds (p := fun a : DatabaseAction S C EdgeId => ∃ e, a db = (.error e, db)) h
    ⟨_, rfl⟩ ⟨_, rfl⟩

theorem insertEdge_ids (ord : HashOrder) {source target : NodeId} (label : String)
    (weight : F64) (properties : Properties) (h : hasEnds source target db = true) :
    (insertEdge ord source target label weight properties db).2.idGenerator =
        db.idGenerator.nextEdgeId.2 ∧
      ∀ id, (insertEdge ord source target label weight properties db).1 = .ok id →
        id = db.idGenerator.nextEdgeId.1 := by
  have keeps (edge : Edge) : KeepsIds (insertDrawnEdge ord edge : DatabaseAction S C EdgeId) := by
    exact keepsIds_written (fun _ => rfl) ((keepsIds_onWrite _).bind fun _ => .pure _)
  have yields (edge : Edge) :
      Yields (insertDrawnEdge ord edge : DatabaseAction S C EdgeId) edge.id :=
    .bind fun _ => .bind fun _ => .bind fun _ => .pure _
  rw [insertEdge_of_hasEnds ord label weight properties h]
  exact ⟨keeps _ _, fun id h => yields _ _ id h⟩

/-- The failure of an insertion of an edge without one of its ends. -/
theorem commitInsertEdge_of_not_hasEnds (ord : HashOrder) (txnId : UInt64) (edge : Edge)
    (result : CommitResult) (h : hasEnds edge.source edge.target db = false) :
    ∃ id, commitInsertEdge ord txnId edge result db = commitNodeNotFound txnId id db :=
  ite_of_not_hasEnds (p := fun a : DatabaseAction S C CommitResult =>
    ∃ id, a db = commitNodeNotFound txnId id db) h ⟨_, rfl⟩ ⟨_, rfl⟩

theorem commitInsertEdge_of_hasEnds (ord : HashOrder) (txnId : UInt64) (edge : Edge)
    (result : CommitResult) (h : hasEnds edge.source edge.target db = true) :
    commitInsertEdge ord txnId edge result db =
      (do
        Action.on storageField (StoragePort.saveEdge (ord.sub 0) edge)
        Action.modify fun db =>
          { db with
            cache := CachePort.putEdge (ord.sub 1) edge db.cache
            engine := db.engine.insertEdge edge.id edge.source edge.target edge.weight
            idGenerator := db.idGenerator.seedFromEdge edge.id }
        return { result with insertedEdgeIds := result.insertedEdgeIds ++ [edge.id] } :
          DatabaseAction S C CommitResult) db := by
  change (if !db.engine.containsNode edge.source then _
    else if !db.engine.containsNode edge.target then _ else _ :
      DatabaseAction S C CommitResult) db = _
  rw [ite_of_hasEnds h]

theorem commitOp_insertNode_ok {ord : HashOrder} {txnId : UInt64} {result result' : CommitResult}
    {node : Node} (h : commitOp ord txnId result (.insertNode node) db = (.ok result', db')) :
    ∃ storage, StoragePort.saveNode (ord.sub 0) node db.storage = (.ok (), storage) ∧
      db' = { db with
        storage := storage
        cache := CachePort.putNode (ord.sub 1) node db.cache
        engine := db.engine.insertNode node.id
        labelIndex := db.labelIndex.insert node.id node.label
        propertyIndex := db.propertyIndex.insertNode (ord.sub 2) node.id node.properties
        idGenerator := db.idGenerator.seedFromNode node.id } := by
  rcases bind_on_cases storageField (StoragePort.saveNode (ord.sub 0) node) _ db with
    ⟨_, t, hsave, hrun⟩ | ⟨e, t, _, hrun⟩
  · have heq : commitOp ord txnId result (.insertNode node) db = _ := hrun
    exact ⟨t, hsave, congrArg Prod.snd (h.symm.trans heq)⟩
  · have heq : commitOp ord txnId result (.insertNode node) db = _ := hrun
    cases h.symm.trans heq

theorem commitOp_insertEdge_ok {ord : HashOrder} {txnId : UInt64} {result result' : CommitResult}
    {edge : Edge} (h : commitOp ord txnId result (.insertEdge edge) db = (.ok result', db')) :
    ∃ storage, StoragePort.saveEdge (ord.sub 0) edge db.storage = (.ok (), storage) ∧
      db' = { db with
        storage := storage
        cache := CachePort.putEdge (ord.sub 1) edge db.cache
        engine := db.engine.insertEdge edge.id edge.source edge.target edge.weight
        idGenerator := db.idGenerator.seedFromEdge edge.id } := by
  cases hends : hasEnds edge.source edge.target db with
  | false =>
    obtain ⟨id, herr⟩ := commitInsertEdge_of_not_hasEnds ord txnId edge result hends
    cases h.symm.trans herr
  | true =>
    have hins := commitInsertEdge_of_hasEnds ord txnId edge result hends
    rcases bind_on_cases storageField (StoragePort.saveEdge (ord.sub 0) edge) _ db with
      ⟨_, t, hsave, hrun⟩ | ⟨e, t, _, hrun⟩
    · exact ⟨t, hsave, congrArg Prod.snd (h.symm.trans (hins.trans hrun))⟩
    · cases h.symm.trans (hins.trans hrun)

/-- An operation that succeeds advances the counters past what it inserts, one that fails
may leave them alone. -/
theorem commitOp_ids (ord : HashOrder) (txnId : UInt64) (result : CommitResult) (op : StagedOp)
    (db : LayeredGraphDatabase S C) :
    (commitOp ord txnId result op db).2.idGenerator = op.seed db.idGenerator ∨
      ∃ e db', commitOp ord txnId result op db = (.error e, db') ∧
        db'.idGenerator = db.idGenerator := by
  cases op with
  | insertNode node =>
    rcases bind_on_cases storageField (StoragePort.saveNode (ord.sub 0) node) _ db with
      ⟨_, t, _, h⟩ | ⟨e, t, _, h⟩
    · have hrun : commitOp ord txnId result (.insertNode node) db = _ := h
      exact .inl (congrArg (fun r => r.2.idGenerator) hrun)
    · exact .inr ⟨e, _, h, rfl⟩
  | insertEdge edge =>
    cases hends : hasEnds edge.source edge.target db with
    | false =>
      obtain ⟨id, h⟩ := commitInsertEdge_of_not_hasEnds ord txnId edge result hends
      exact .inr ⟨_, _, h, rfl⟩
    | true =>
      have heq := commitInsertEdge_of_hasEnds ord txnId edge result hends
      rcases bind_on_cases storageField (StoragePort.saveEdge (ord.sub 0) edge) _ db with
        ⟨_, t, _, h⟩ | ⟨e, t, _, h⟩
      · exact .inl (congrArg (fun r => r.2.idGenerator) (heq.trans h))
      · exact .inr ⟨e, _, heq.trans h, rfl⟩
  | deleteNode id =>
    exact .inl ((keepsIds_deleteNode ord id).bind (fun _ => .pure _) db)
  | deleteEdge id =>
    exact .inl ((keepsIds_deleteEdge ord id).bind (fun _ => .pure _) db)

/-- However the loop ends, the counters have learned about a prefix of the operations. -/
theorem commitOps_ids (ord : HashOrder) (txnId : UInt64) (result : CommitResult)
    (ops : List StagedOp) (db : LayeredGraphDatabase S C) :
    ∃ k, (commitOps ord txnId result ops db).2.idGenerator =
      (ops.take k).foldl StagedOp.seed db.idGenerator := by
  induction ops generalizing ord result db with
  | nil => exact ⟨0, rfl⟩
  | cons op ops ih =>
    have hstep := commitOp_ids (ord.sub 0) txnId result op db
    cases h : commitOp (ord.sub 0) txnId result op db with
    | mk r db' =>
      rw [h] at hstep
      cases r with
      | error e =>
        have hrun : commitOps ord txnId result (op :: ops) db = (.error e, db') := bind_error h
        rw [hrun]
        rcases hstep with hstep | ⟨_, _, heq, hstep⟩
        · exact ⟨1, hstep⟩
        · exact ⟨0, (Prod.ext_iff.mp heq).2 ▸ hstep⟩
      | ok result' =>
        have hrun : commitOps ord txnId result (op :: ops) db =
          commitOps (ord.sub 1) txnId result' ops db' := bind_ok h
        rw [hrun]
        rcases hstep with hstep | ⟨e, _, heq, _⟩
        · obtain ⟨k, hk⟩ := ih (ord.sub 1) result' db'
          refine ⟨k + 1, hk.trans ?_⟩
          rw [List.take_succ_cons, List.foldl_cons, ← hstep]
        · cases (Prod.ext_iff.mp heq).1

/-- So have they when the whole commit fails or succeeds. -/
theorem commitTransaction_ids (ord : HashOrder) (txn : Transaction)
    (db : LayeredGraphDatabase S C) :
    ∃ k, (commitTransaction ord txn db).2.idGenerator =
      (txn.operations.take k).foldl StagedOp.seed db.idGenerator := by
  rcases bind_on_cases storageField (StoragePort.beginWalTransaction txn.txnId) _ db with
    ⟨_, t, _, h⟩ | ⟨e, t, _, h⟩
  · obtain ⟨k, hk⟩ := commitOps_ids (ord.sub 0) txn.txnId .default txn.operations
      (storageField.set t db)
    refine ⟨k, ?_⟩
    have hrun : commitTransaction ord txn db = _ := h
    have keeps (result : CommitResult) : KeepsIds (S := S) (C := C) do
        Action.on storageField (StoragePort.commitWalTransaction txn.txnId)
        onWrite (ord.sub 1)
        return result := by
      apply Keeps.bind_on fun _ _ => rfl
      intro _
      exact (keepsIds_onWrite _).bind fun _ => .pure _
    rw [hrun, bind_apply]
    cases hops : commitOps (ord.sub 0) txn.txnId .default txn.operations
      (storageField.set t db) with
    | mk r db' =>
      rw [hops] at hk
      cases r with
      | ok result => exact (keeps result db').trans hk
      | error e => exact hk
  · have hrun : commitTransaction ord txn db = _ := h
    exact ⟨0, congrArg (fun r => r.2.idGenerator) hrun⟩

end

end LayeredGraphDatabase

end AdGraphDb
