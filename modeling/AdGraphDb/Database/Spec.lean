import AdGraphDb.Storage.Spec
import AdGraphDb.Database.Layered

/-!
# What the operations of the database do

One triple for every operation, from any state with a valid storage, in terms of the
replayed maps of the storage and the contents of the cache.
-/

namespace AdGraphDb
open Std AdGraphDb.Action

namespace LayeredGraphDatabase

section

variable {S C : Type} [StoragePort S] [CachePort C] {db : LayeredGraphDatabase S C}

theorem insertEdge_source_error {ord : HashOrder} {source : NodeId} (target : NodeId)
    (label : String) (weight : F64) (properties : Properties)
    (h : db.engine.containsNode source = false) :
    insertEdge ord source target label weight properties db =
      (.error (.nodeNotFound source), db) := by
  change (if !db.engine.containsNode source then _ else _ : DatabaseAction S C EdgeId) db = _
  rw [h]
  rfl

theorem insertEdge_target_error {ord : HashOrder} {source target : NodeId}
    (label : String) (weight : F64) (properties : Properties)
    (hs : db.engine.containsNode source = true) (ht : db.engine.containsNode target = false) :
    insertEdge ord source target label weight properties db =
      (.error (.nodeNotFound target), db) := by
  change (if !db.engine.containsNode source then _
    else if !db.engine.containsNode target then _ else _ : DatabaseAction S C EdgeId) db = _
  rw [hs, ht]
  rfl

end

variable {S C : Type} [FileStorage S] [LawfulCachePort C] (L : StorageSpec S)
  {db db' : LayeredGraphDatabase S C}

/-- Whether the next write triggers a compaction. -/
def due (db : LayeredGraphDatabase S C) : Bool :=
  match db.config.autoCompactAfterWrites with
  | some threshold => decide ((db.writesSinceCompact + 1) % 2 ^ 64 ≥ threshold)
  | none => false

/-- The next `n` writes do not compact. -/
def Quiet (n : Nat) (db : LayeredGraphDatabase S C) : Prop :=
  n = 0 ∨ ∀ threshold, db.config.autoCompactAfterWrites = some threshold →
    db.writesSinceCompact + n < threshold

omit [FileStorage S] [LawfulCachePort C] in
theorem quiet_iff {n : Nat} : Quiet n db ↔ n = 0 ∨
    db.config.autoCompactAfterWrites.all fun threshold =>
      decide (db.writesSinceCompact + n < threshold) := by
  unfold Quiet
  cases db.config.autoCompactAfterWrites <;> simp

instance (n : Nat) (db : LayeredGraphDatabase S C) : Decidable (Quiet n db) :=
  decidable_of_iff _ quiet_iff.symm

omit [FileStorage S] [LawfulCachePort C] in
/-- A quiet write is not the one that compacts. -/
theorem Quiet.not_due {storage : S} {cache : C} {n : Nat} (h : Quiet (n + 1) db) :
    LayeredGraphDatabase.due { db with storage := storage, cache := cache } = false := by
  rcases h with h | h
  · cases h
  · unfold LayeredGraphDatabase.due
    cases hc : db.config.autoCompactAfterWrites with
    | none => rfl
    | some threshold =>
      have hbelow := h threshold hc
      have hmod := Nat.mod_le (db.writesSinceCompact + 1) (2 ^ 64)
      apply decide_eq_false
      change ¬ (db.writesSinceCompact + 1) % 2 ^ 64 ≥ threshold
      omega

omit [FileStorage S] [LawfulCachePort C] in
/-- One write fewer is to come. -/
theorem Quiet.next {n : Nat} (h : Quiet (n + 1) db) (hconfig : db'.config = db.config)
    (hcount : db'.writesSinceCompact = (db.writesSinceCompact + 1) % 2 ^ 64) : Quiet n db' := by
  rcases h with h | h
  · cases h
  · right
    intro threshold ht
    have hbelow := h threshold (hconfig ▸ ht)
    have hmod := Nat.mod_le (db.writesSinceCompact + 1) (2 ^ 64)
    omega

/-- The state after a write has been counted. -/
structure Settled (before after : LayeredGraphDatabase S C) : Prop where
  engine : after.engine = before.engine
  labelIndex : after.labelIndex = before.labelIndex
  propertyIndex : after.propertyIndex = before.propertyIndex
  idGenerator : after.idGenerator = before.idGenerator
  config : after.config = before.config
  valid : L.Valid after.storage
  compacted : before.due = true → after.writesSinceCompact = 0 ∧
    L.view after.storage = ⟨(L.view before.storage).nodes, (L.view before.storage).edges, none⟩ ∧
    after.cache = CachePort.clear before.cache
  kept : before.due = false →
    after.writesSinceCompact = (before.writesSinceCompact + 1) % 2 ^ 64 ∧
    after.storage = before.storage ∧ after.cache = before.cache

theorem compact_returns (ord : HashOrder) (db : LayeredGraphDatabase S C)
    (h : L.Valid db.storage) :
    Returns (compact ord) db fun _ db' => ∃ storage, db' = { db with
        storage := storage, cache := CachePort.clear db.cache, writesSinceCompact := 0 } ∧
      L.Valid storage ∧
      L.view storage = ⟨(L.view db.storage).nodes, (L.view db.storage).edges, none⟩ := by
  apply Returns.bind_on (L.compact ord h)
  rintro - storage ⟨hv, hview⟩
  exact .modify ⟨storage, rfl, hv, hview⟩

theorem onWrite_returns (ord : HashOrder) (h : L.Valid db.storage) :
    Returns (onWrite ord) db fun _ db' => Settled L db db' := by
  -- the two cases of the test on the count
  have kept (hd : db.due = false) :
      Settled L db { db with writesSinceCompact := (db.writesSinceCompact + 1) % 2 ^ 64 } := {
    engine := rfl
    labelIndex := rfl
    propertyIndex := rfl
    idGenerator := rfl
    config := rfl
    valid := h
    compacted := fun hc => absurd (hd.symm.trans hc) Bool.false_ne_true
    kept := fun _ => ⟨rfl, rfl, rfl⟩ }
  have compacted (hd : db.due = true) : Returns (attempt (compact ord))
      { db with writesSinceCompact := (db.writesSinceCompact + 1) % 2 ^ 64 }
      fun _ db' => Settled L db db' := by
    have hc := compact_returns L ord
      { db with writesSinceCompact := (db.writesSinceCompact + 1) % 2 ^ 64 } h
    apply hc.attempt
    rintro - _ ⟨storage, rfl, hv, hview⟩
    exact {
      engine := rfl
      labelIndex := rfl
      propertyIndex := rfl
      idGenerator := rfl
      config := rfl
      valid := hv
      compacted := fun _ => ⟨rfl, hview, rfl⟩
      kept := fun hk => absurd (hk.symm.trans hd) Bool.false_ne_true }
  apply Returns.bind_modify
  apply Returns.bind_read
  unfold due at kept compacted
  dsimp only
  cases hc : db.config.autoCompactAfterWrites with
  | none =>
    rw [hc] at kept
    exact .pure (kept rfl)
  | some threshold =>
    rw [hc] at kept compacted
    dsimp only at kept compacted ⊢
    split_ifs with hd
    · exact compacted (decide_eq_true hd)
    · exact .pure (kept (decide_eq_false hd))

/-! ## Lookups -/

/-- What a lookup of a node finds. -/
def nodeValue (db : LayeredGraphDatabase S C) (id : NodeId) : Option Node :=
  (LawfulCachePort.nodeAt db.cache id).or (L.view db.storage).nodes[id]?

def edgeValue (db : LayeredGraphDatabase S C) (id : EdgeId) : Option Edge :=
  (LawfulCachePort.edgeAt db.cache id).or (L.view db.storage).edges[id]?

/-- A lookup may fill the cache with what it loads. -/
structure NodeLoaded (db : LayeredGraphDatabase S C) (id : NodeId) (cache : C) : Prop where
  node : ∀ j n, LawfulCachePort.nodeAt cache j = some n →
    LawfulCachePort.nodeAt db.cache j = some n ∨ (j = id ∧ nodeValue L db id = some n)
  edge : LawfulCachePort.edgeAt cache = LawfulCachePort.edgeAt db.cache

structure EdgeLoaded (db : LayeredGraphDatabase S C) (id : EdgeId) (cache : C) : Prop where
  node : LawfulCachePort.nodeAt cache = LawfulCachePort.nodeAt db.cache
  edge : ∀ j e, LawfulCachePort.edgeAt cache j = some e →
    LawfulCachePort.edgeAt db.cache j = some e ∨ (j = id ∧ edgeValue L db id = some e)

open LawfulCachePort in
theorem getNode_returns (ord : HashOrder) (id : NodeId) (h : L.Valid db.storage) :
    Returns (getNode ord id) db fun found db' => found = nodeValue L db id ∧
      ∃ cache, db' = { db with cache := cache } ∧ NodeLoaded L db id cache := by
  apply Returns.bind_on_update
  change Returns _ { db with cache := (CachePort.getNode id db.cache).2 } _
  rw [show (CachePort.getNode id (cacheField.get db)).1 = nodeAt db.cache id from getNode_fst id _]
  have hkept : nodeAt (CachePort.getNode id db.cache).2 = nodeAt db.cache := nodeAt_getNode id _
  have hedge : edgeAt (CachePort.getNode id db.cache).2 = edgeAt db.cache := edgeAt_getNode id _
  unfold nodeValue
  cases hc : nodeAt db.cache id with
  | some node =>
    exact .pure ⟨rfl, _, rfl, fun j n hj => .inl (by rwa [hkept] at hj), hedge⟩
  | none =>
    apply Returns.bind_tryRead
    · exact L.loadNode id h
    cases hs : (L.view db.storage).nodes[id]? with
    | none => exact .pure ⟨rfl, _, rfl, fun j n hj => .inl (by rwa [hkept] at hj), hedge⟩
    | some node =>
      have hid : node.id = id := ((L.holds h).nodes id node hs).1
      refine .bind_modify (.pure ⟨rfl, _, rfl, fun j n hj => ?_, (edgeAt_putNode ..).trans hedge⟩)
      have hput := nodeAt_putNode _ _ _ _ _ hj
      split_ifs at hput with hjid
      · refine .inr ⟨hjid.trans hid, ?_⟩
        rw [nodeValue, hc, hs, hput]
        rfl
      · exact .inl (by rwa [hkept] at hput)

open LawfulCachePort in
theorem getEdge_returns (ord : HashOrder) (id : EdgeId) (h : L.Valid db.storage) :
    Returns (getEdge ord id) db fun found db' => found = edgeValue L db id ∧
      ∃ cache, db' = { db with cache := cache } ∧ EdgeLoaded L db id cache := by
  apply Returns.bind_on_update
  change Returns _ { db with cache := (CachePort.getEdge id db.cache).2 } _
  rw [show (CachePort.getEdge id (cacheField.get db)).1 = edgeAt db.cache id from getEdge_fst id _]
  have hkept : edgeAt (CachePort.getEdge id db.cache).2 = edgeAt db.cache := edgeAt_getEdge id _
  have hnode : nodeAt (CachePort.getEdge id db.cache).2 = nodeAt db.cache := nodeAt_getEdge id _
  unfold edgeValue
  cases hc : edgeAt db.cache id with
  | some edge =>
    exact .pure ⟨rfl, _, rfl, hnode, fun j e hj => .inl (by rwa [hkept] at hj)⟩
  | none =>
    apply Returns.bind_tryRead
    · exact L.loadEdge id h
    cases hs : (L.view db.storage).edges[id]? with
    | none => exact .pure ⟨rfl, _, rfl, hnode, fun j e hj => .inl (by rwa [hkept] at hj)⟩
    | some edge =>
      have hid : edge.id = id := ((L.holds h).edges id edge hs).1
      refine .bind_modify (.pure ⟨rfl, _, rfl, (nodeAt_putEdge ..).trans hnode, fun j e hj => ?_⟩)
      have hput := edgeAt_putEdge _ _ _ _ _ hj
      split_ifs at hput with hjid
      · refine .inr ⟨hjid.trans hid, ?_⟩
        rw [edgeValue, hc, hs, hput]
        rfl
      · exact .inl (by rwa [hkept] at hput)

/-! ## Writes -/

theorem insertNode_returns (ord : HashOrder) (label : String) (properties : Properties)
    (h : L.Valid db.storage)
    (hn : L.NodeStorable ⟨⟨db.idGenerator.nextNode⟩, label, properties⟩) :
    Returns (insertNode ord label properties) db fun id db' => id = ⟨db.idGenerator.nextNode⟩ ∧
      ∃ storage, L.Valid storage ∧
        L.view storage = (L.view db.storage).applyRecord (.upsertNode ⟨id, label, properties⟩) ∧
        Settled L { db with
          idGenerator := db.idGenerator.nextNodeId.2
          storage := storage
          cache := CachePort.putNode (ord.sub 1) ⟨id, label, properties⟩ db.cache
          engine := db.engine.insertNode id
          labelIndex := db.labelIndex.insert id label
          propertyIndex :=
            indexNode (ord.sub 2) db.config ⟨id, label, properties⟩ db.propertyIndex } db' := by
  apply Returns.bind_update
  apply Returns.bind_on (L.write_plain (ord.sub 0) (r := .upsertNode _) rfl h hn)
  rintro - storage ⟨hv, hview⟩
  apply Returns.bind_modify
  apply Returns.bind (onWrite_returns L (ord.sub 3) hv)
  intro _ db' hs
  exact .pure ⟨rfl, storage, hv, hview, hs⟩

theorem insertEdge_returns (ord : HashOrder) {source target : NodeId} (label : String)
    (weight : F64) (properties : Properties) (h : L.Valid db.storage)
    (hs : db.engine.containsNode source = true) (ht : db.engine.containsNode target = true)
    (he : L.EdgeStorable ⟨⟨db.idGenerator.nextEdge⟩, source, target, label, weight, properties⟩) :
    Returns (insertEdge ord source target label weight properties) db fun id db' =>
      id = ⟨db.idGenerator.nextEdge⟩ ∧ ∃ storage, L.Valid storage ∧
        L.view storage = (L.view db.storage).applyRecord
          (.upsertEdge ⟨id, source, target, label, weight, properties⟩) ∧
        Settled L { db with
          idGenerator := db.idGenerator.nextEdgeId.2
          storage := storage
          cache := CachePort.putEdge (ord.sub 1)
            ⟨id, source, target, label, weight, properties⟩ db.cache
          engine := db.engine.insertEdge id source target weight } db' := by
  apply Returns.bind_read
  rw [hs, ht]
  apply Returns.bind_update
  apply Returns.bind_on (L.write_plain (ord.sub 0) (r := .upsertEdge _) rfl h he)
  rintro - storage ⟨hv, hview⟩
  apply Returns.bind_modify
  apply Returns.bind (onWrite_returns L (ord.sub 2) hv)
  intro _ db' hs
  exact .pure ⟨rfl, storage, hv, hview, hs⟩

theorem deleteEdge_returns (ord : HashOrder) (id : EdgeId) (h : L.Valid db.storage) :
    Returns (deleteEdge ord id) db fun _ db' => ∃ storage, L.Valid storage ∧
      L.view storage = (L.view db.storage).applyRecord (.deleteEdge id) ∧
      Settled L { db with
        storage := storage
        cache := CachePort.invalidateEdge id db.cache
        engine := db.engine.removeEdge id } db' := by
  apply Returns.bind_on (L.write_plain .sorted (r := .deleteEdge id) rfl h trivial)
  rintro - storage ⟨hv, hview⟩
  apply Returns.bind_modify
  apply Returns.mono (onWrite_returns L ord hv)
  intro _ db' hs
  exact ⟨storage, hv, hview, hs⟩

/-- The body of the loop over the incident edges. -/
theorem deleteEdges_returns (ids : List EdgeId) (db : LayeredGraphDatabase S C)
    (h : L.Valid db.storage) :
    Returns (forEach (fun edgeId => do
        on storageField (StoragePort.deleteEdge edgeId)
        modify fun db => { db with cache := CachePort.invalidateEdge edgeId db.cache }) ids) db
      fun _ db' => ∃ storage cache, db' = { db with storage := storage, cache := cache } ∧
        L.Valid storage ∧ L.view storage = (L.view db.storage).run (ids.map .deleteEdge) ∧
        LawfulCachePort.nodeAt cache = LawfulCachePort.nodeAt db.cache ∧
        ∀ k, LawfulCachePort.edgeAt cache k =
          if k ∈ ids then none else LawfulCachePort.edgeAt db.cache k := by
  induction ids generalizing db with
  | nil => exact .pure ⟨db.storage, db.cache, rfl, h, rfl, rfl, fun k => by simp⟩
  | cons id ids ih =>
    -- one turn of the loop
    have hfirst : Returns (do
        on storageField (StoragePort.deleteEdge id)
        modify fun db => { db with cache := CachePort.invalidateEdge id db.cache }) db
        fun _ db' => ∃ storage, db' = { db with
            storage := storage, cache := CachePort.invalidateEdge id db.cache } ∧
          L.Valid storage ∧ L.view storage = (L.view db.storage).applyRecord (.deleteEdge id) := by
      apply Returns.bind_on (L.write_plain .sorted (r := .deleteEdge id) rfl h trivial)
      rintro - storage ⟨hv, hview⟩
      exact .modify ⟨storage, rfl, hv, hview⟩
    apply Returns.bind hfirst
    rintro - _ ⟨storage, rfl, hv, hview⟩
    apply Returns.mono (ih _ hv)
    rintro - _ ⟨storage', cache, rfl, hv', hview', hnode, hedge⟩
    refine ⟨storage', cache, rfl, hv', ?_, ?_, fun k => ?_⟩
    · rw [hview', hview]
      rfl
    · exact hnode.trans (LawfulCachePort.nodeAt_invalidateEdge id _)
    · rw [hedge k, LawfulCachePort.edgeAt_invalidateEdge]
      by_cases hk : k = id <;> simp [hk]

/-- What remains in the cache after the node and its incident edges are gone. -/
structure NodeDropped (db : LayeredGraphDatabase S C) (id : NodeId) (cache : C) : Prop where
  node : ∀ j n, LawfulCachePort.nodeAt cache j = some n →
    j ≠ id ∧ LawfulCachePort.nodeAt db.cache j = some n
  edge : ∀ k e, LawfulCachePort.edgeAt cache k = some e →
    k ∉ db.incidentEdges id ∧ LawfulCachePort.edgeAt db.cache k = some e

theorem deleteNode_returns (ord : HashOrder) (id : NodeId) (h : L.Valid db.storage) :
    Returns (deleteNode ord id) db fun _ db' => ∃ storage cache, L.Valid storage ∧
      L.view storage = ((L.view db.storage).run ((db.incidentEdges id).map .deleteEdge)).applyRecord
        (.deleteNode id) ∧
      NodeDropped db id cache ∧
      Settled L { unindex (ord.sub 1) id (nodeValue L db id) db with
        storage := storage
        cache := cache
        engine := db.engine.removeNode (ord.sub 2) id } db' := by
  apply Returns.bind_read
  apply Returns.bind (deleteEdges_returns L (db.incidentEdges id) db h)
  rintro - _ ⟨s₁, c₁, rfl, hv₁, hview₁, hnode₁, hedge₁⟩
  have hnodes : (L.view s₁).nodes = (L.view db.storage).nodes := by
    rw [hview₁, run_deletedEdges_nodes]
  have hvalue : nodeValue L { db with storage := s₁, cache := c₁ } id = nodeValue L db id := by
    unfold nodeValue
    rw [hnode₁, hnodes]
  apply Returns.bind (getNode_returns L (ord.sub 0) id hv₁)
  rintro _ _ ⟨rfl, c₂, rfl, hloaded⟩
  rw [hvalue]
  have hdropped : NodeDropped db id (CachePort.invalidateNode id c₂) := by
    constructor
    · intro j n hj
      rw [LawfulCachePort.nodeAt_invalidateNode] at hj
      split_ifs at hj with hne
      rcases hloaded.node j n hj with hj | ⟨hj, -⟩
      · exact ⟨hne, by rwa [← hnode₁]⟩
      · exact absurd hj hne
    · intro k e hk
      rw [LawfulCachePort.edgeAt_invalidateNode, hloaded.edge] at hk
      change LawfulCachePort.edgeAt c₁ k = some e at hk
      rw [hedge₁ k] at hk
      split_ifs at hk with hin
      exact ⟨hin, hk⟩
  apply Returns.bind_modify
  -- unindexing touches neither the storage nor the cache
  generalize nodeValue L db id = found
  have hstorage : (unindex (ord.sub 1) id found { db with storage := s₁, cache := c₂ }) =
      { unindex (ord.sub 1) id found db with storage := s₁, cache := c₂ } := by
    cases found <;> rfl
  have hengine : (unindex (ord.sub 1) id found db).engine = db.engine := by
    cases found <;> rfl
  change Returns _ (unindex (ord.sub 1) id found { db with storage := s₁, cache := c₂ }) _
  rw [hstorage]
  apply Returns.bind_on (L.write_plain .sorted (r := .deleteNode id) rfl hv₁ trivial)
  rintro - storage ⟨hv, hview⟩
  apply Returns.bind_modify
  apply Returns.mono (onWrite_returns L (ord.sub 3) hv)
  intro _ db' hs
  refine ⟨storage, _, hv, hview.trans (congrArg (fun st => st.applyRecord (.deleteNode id)) hview₁), hdropped, ?_⟩
  rw [← hengine]
  exact hs

end LayeredGraphDatabase

end AdGraphDb
