import AdGraphDb.Foundation.Projection
import AdGraphDb.Storage.Pending
import AdGraphDb.Database.Commit

/-!
# The database without its cache

What a lookup finds is all that a method learns from the cache. Where that is what the
storage shows, the method does the same without a cache. A coherent cache holds entries
that the storage shows, or will show when the open bracket is committed.
-/

namespace AdGraphDb
open Std AdGraphDb.Action ReplayState

namespace LayeredGraphDatabase

/-! ## The methods -/

section

variable {S C : Type}

/-- The same database with the pass-through cache. -/
def uncached (db : LayeredGraphDatabase S C) : LayeredGraphDatabase S NoCache where
  engine := db.engine
  cache := .mk
  storage := db.storage
  labelIndex := db.labelIndex
  propertyIndex := db.propertyIndex
  idGenerator := db.idGenerator
  config := db.config
  writesSinceCompact := db.writesSinceCompact

variable {db : LayeredGraphDatabase S C}

theorem projects_storage {α : Type} (a : StorageAction S α) :
    Projects uncached (on storageField a) (on storageField a) db := .on rfl (fun _ => rfl) a

variable [StoragePort S] [CachePort C]

theorem projects_compact (ord : HashOrder) : Projects uncached (compact ord) (compact ord) db := by
  apply (projects_storage _).bind
  intro _ _ _
  exact .modify rfl

theorem projects_onWrite (ord : HashOrder) : Projects uncached (onWrite ord) (onWrite ord) db := by
  apply Projects.bind_modify
  · rfl
  apply Projects.bind_read
  dsimp only [uncached]
  cases db.config.autoCompactAfterWrites with
  | none => exact .pure ()
  | some threshold =>
    dsimp only
    split_ifs
    · exact (projects_compact ord).attempt
    · exact .pure ()

theorem projects_insertNode (ord : HashOrder) (label : String) (properties : Properties) :
    Projects uncached (insertNode ord label properties) (insertNode ord label properties) db := by
  apply Projects.bind_update
  · rfl
  apply (projects_storage _).bind
  intro _ _ _
  apply Projects.bind_modify
  · rfl
  exact (projects_onWrite _).bind fun _ _ _ => .pure _

theorem projects_insertEdge (ord : HashOrder) (source target : NodeId) (label : String)
    (weight : F64) (properties : Properties) :
    Projects uncached (insertEdge ord source target label weight properties)
      (insertEdge ord source target label weight properties) db := by
  apply Projects.bind_read
  change Projects uncached
    (if !db.engine.containsNode source then _ else if !db.engine.containsNode target then _ else _)
    (if !db.engine.containsNode source then _ else if !db.engine.containsNode target then _ else _)
    db
  split_ifs
  · exact .throw _
  · exact .throw _
  · apply Projects.bind_update
    · rfl
    apply (projects_storage _).bind
    intro _ _ _
    apply Projects.bind_modify
    · rfl
    exact (projects_onWrite _).bind fun _ _ _ => .pure _

theorem projects_deleteEdge (ord : HashOrder) (id : EdgeId) :
    Projects uncached (deleteEdge ord id) (deleteEdge ord id) db := by
  apply (projects_storage _).bind
  intro _ _ _
  apply Projects.bind_modify
  · rfl
  exact projects_onWrite ord

end

/-! ## Lookups -/

section

variable {S C : Type} [FileStorage S] [LawfulCachePort C] {L : StorageSpec S}
  {db db' : LayeredGraphDatabase S C}

theorem projects_getNode (ord : HashOrder) {id : NodeId} (hv : L.Valid db.storage)
    (h : nodeValue L db id = (L.view db.storage).nodes[id]?) :
    Projects uncached (getNode ord id) (getNode ord id) db := by
  obtain ⟨_, _, hrun, rfl, cache, rfl, -⟩ := getNode_returns L ord id hv
  obtain ⟨_, _, hrun', rfl, ⟨⟩, rfl, -⟩ := getNode_returns L ord id
    (show L.Valid db.uncached.storage from hv)
  unfold Projects
  rw [hrun, hrun', h]
  rfl

theorem projects_getEdge (ord : HashOrder) {id : EdgeId} (hv : L.Valid db.storage)
    (h : edgeValue L db id = (L.view db.storage).edges[id]?) :
    Projects uncached (getEdge ord id) (getEdge ord id) db := by
  obtain ⟨_, _, hrun, rfl, cache, rfl, -⟩ := getEdge_returns L ord id hv
  obtain ⟨_, _, hrun', rfl, ⟨⟩, rfl, -⟩ := getEdge_returns L ord id
    (show L.Valid db.uncached.storage from hv)
  unfold Projects
  rw [hrun, hrun', h]
  rfl

/-- The deletion looks the node up behind the deletions of its edges, which do not show
in what it finds. -/
theorem projects_deleteNode (ord : HashOrder) {id : NodeId} (hv : L.Valid db.storage)
    (h : nodeValue L db id = (L.view db.storage).nodes[id]?) :
    Projects uncached (deleteNode ord id) (deleteNode ord id) db := by
  apply Projects.bind_read
  have hloop : Projects uncached
      (forEach (fun edgeId => do
        on storageField (StoragePort.deleteEdge edgeId)
        modify fun db => { db with cache := CachePort.invalidateEdge edgeId db.cache })
        (db.incidentEdges id))
      (forEach (fun edgeId => do
        on storageField (StoragePort.deleteEdge edgeId)
        modify fun db => { db with cache := CachePort.invalidateEdge edgeId db.cache })
        (db.incidentEdges id)) db := by
    apply Projects.forEach
    intro edgeId db
    apply (projects_storage _).bind
    intro _ _ _
    exact .modify rfl
  apply Projects.bind hloop
  intro _ db₁ hrun
  obtain ⟨storage, cache, rfl, hv₁, hview, hnode, -⟩ :=
    (deleteEdges_returns L (db.incidentEdges id) db hv).of_eq hrun
  have hnodes : (L.view storage).nodes = (L.view db.storage).nodes := by
    rw [hview, run_deletedEdges_nodes]
  have hvalue : nodeValue L { db with storage := storage, cache := cache } id =
      (L.view storage).nodes[id]? := by
    rw [hnodes, ← h, nodeValue, nodeValue, hnode, hnodes]
  apply Projects.bind (projects_getNode (ord.sub 0) hv₁ hvalue)
  intro found _ _
  apply Projects.bind_modify
  · cases found <;> rfl
  apply (projects_storage _).bind
  intro _ _ _
  apply Projects.bind_modify
  · rfl
  exact projects_onWrite _

/-! ## Coherence -/

/-- The cache holds what the storage shows or, while the bracket of the transaction is
open, will show after its commit. -/
structure Coherent (L : StorageSpec S) (txnId? : Option UInt64) (storage : S) (cache : C) :
    Prop where
  valid : L.Valid storage
  bracket : ∀ b, (L.view storage).txnBuffer = some b → txnId? = some b.txnId
  node : ∀ id n, LawfulCachePort.nodeAt cache id = some n →
    (L.view storage).committed.1[id]? = some n
  edge : ∀ id e, LawfulCachePort.edgeAt cache id = some e →
    (L.view storage).committed.2[id]? = some e

namespace Coherent

variable {txnId? : Option UInt64} {storage storage' : S} {cache cache' : C}

theorem closed (h : Coherent L none storage cache) : (L.view storage).txnBuffer = none := by
  cases hb : (L.view storage).txnBuffer with
  | none => rfl
  | some b => cases h.bracket b hb

theorem of_empty (hv : L.Valid storage) (hb : (L.view storage).txnBuffer = none)
    (hc : LawfulCachePort.Empty cache) : Coherent L txnId? storage cache := by
  refine ⟨hv, fun b hopen => ?_, fun id n hn => ?_, fun id e he => ?_⟩
  · rw [hb] at hopen
    cases hopen
  · rw [hc.node] at hn
    cases hn
  · rw [hc.edge] at he
    cases he

/-- Records of entries that the cache has let go of, or holds as they will be. -/
theorem run (h : Coherent L txnId? storage cache) {rs : List RecordData}
    (hr : ∀ r ∈ rs, r.isMarker = false) (hv : L.Valid storage')
    (hview : L.view storage' = (L.view storage).run rs)
    (hnode : ∀ id n, LawfulCachePort.nodeAt cache' id = some n →
      (LawfulCachePort.nodeAt cache id = some n ∧
        ∀ r ∈ rs, ∀ u, r.nodeUpdate? = some u → u.key ≠ id) ∨
      (L.view storage').committed.1[id]? = some n)
    (hedge : ∀ id e, LawfulCachePort.edgeAt cache' id = some e →
      (LawfulCachePort.edgeAt cache id = some e ∧
        ∀ r ∈ rs, ∀ u, r.edgeUpdate? = some u → u.key ≠ id) ∨
      (L.view storage').committed.2[id]? = some e) :
    Coherent L txnId? storage' cache' := by
  refine ⟨hv, fun b hb => ?_, fun id n hn => ?_, fun id e he => ?_⟩
  · rw [hview] at hb
    obtain ⟨b₀, hb₀, hid⟩ := run_txnId hr hb
    exact hid ▸ h.bracket b₀ hb₀
  · rcases hnode id n hn with ⟨hold, hother⟩ | hnew
    · rw [hview, committed_node_run hr hother]
      exact h.node id n hold
    · exact hnew
  · rcases hedge id e he with ⟨hold, hother⟩ | hnew
    · rw [hview, committed_edge_run hr hother]
      exact h.edge id e hold
    · exact hnew

/-- Counting a write may compact, which closes the bracket and clears the cache. -/
theorem settled (h : Coherent L txnId? db.storage db.cache) (hs : Settled L db db') :
    Coherent L txnId? db'.storage db'.cache := by
  cases hd : db.due with
  | false =>
    obtain ⟨-, hstorage, hcache⟩ := hs.kept hd
    rw [hstorage, hcache]
    exact h
  | true =>
    obtain ⟨-, hview, hcache⟩ := hs.compacted hd
    apply of_empty hs.valid
    · rw [hview]
    · rw [hcache]
      exact ⟨LawfulCachePort.nodeAt_clear _, LawfulCachePort.edgeAt_clear _⟩

/-- Outside a bracket the cache answers as the storage. -/
theorem nodeValue_eq (h : Coherent L none db.storage db.cache) (id : NodeId) :
    nodeValue L db id = (L.view db.storage).nodes[id]? := by
  unfold nodeValue
  cases hc : LawfulCachePort.nodeAt db.cache id with
  | none => rfl
  | some n =>
    have hn := h.node id n hc
    rw [committed_of_none h.closed] at hn
    exact hn.symm

theorem edgeValue_eq (h : Coherent L none db.storage db.cache) (id : EdgeId) :
    edgeValue L db id = (L.view db.storage).edges[id]? := by
  unfold edgeValue
  cases hc : LawfulCachePort.edgeAt db.cache id with
  | none => rfl
  | some e =>
    have he := h.edge id e hc
    rw [committed_of_none h.closed] at he
    exact he.symm

theorem upsertNode (h : Coherent L txnId? storage cache) (ord : HashOrder) {n : Node}
    (hv : L.Valid storage') (hview : L.view storage' = (L.view storage).applyRecord (.upsertNode n))
    (hdrop : ¬(L.view storage).DropsNode n.id) :
    Coherent L txnId? storage' (CachePort.putNode ord n cache) := by
  have hrun : L.view storage' = (L.view storage).run [.upsertNode n] := hview
  refine h.run (by simp [RecordData.isMarker]) hv hrun ?_ ?_
  · intro id m hm
    have hput := LawfulCachePort.nodeAt_putNode ord n cache id m hm
    split_ifs at hput with hid
    · right
      rw [hid, hput, hview, committed_upsertNode hdrop]
    · refine .inl ⟨hput, fun r hr u hu => ?_⟩
      obtain rfl := List.mem_singleton.mp hr
      cases hu
      exact Ne.symm hid
  · intro id e he
    rw [LawfulCachePort.edgeAt_putNode] at he
    refine .inl ⟨he, fun r hr u hu => ?_⟩
    obtain rfl := List.mem_singleton.mp hr
    cases hu

theorem upsertEdge (h : Coherent L txnId? storage cache) (ord : HashOrder) {e : Edge}
    (hv : L.Valid storage') (hview : L.view storage' = (L.view storage).applyRecord (.upsertEdge e))
    (hdrop : ¬(L.view storage).DropsEdge e.id) :
    Coherent L txnId? storage' (CachePort.putEdge ord e cache) := by
  have hrun : L.view storage' = (L.view storage).run [.upsertEdge e] := hview
  refine h.run (by simp [RecordData.isMarker]) hv hrun ?_ ?_
  · intro id n hn
    rw [LawfulCachePort.nodeAt_putEdge] at hn
    refine .inl ⟨hn, fun r hr u hu => ?_⟩
    obtain rfl := List.mem_singleton.mp hr
    cases hu
  · intro id m hm
    have hput := LawfulCachePort.edgeAt_putEdge ord e cache id m hm
    split_ifs at hput with hid
    · right
      rw [hid, hput, hview, committed_upsertEdge hdrop]
    · refine .inl ⟨hput, fun r hr u hu => ?_⟩
      obtain rfl := List.mem_singleton.mp hr
      cases hu
      exact Ne.symm hid

end Coherent

/-! ## What keeps it -/

variable {txnId? : Option UInt64}

theorem getNode_coherent (ord : HashOrder) (id : NodeId)
    (h : Coherent L none db.storage db.cache) :
    Returns (getNode ord id) db fun _ db' => Coherent L none db'.storage db'.cache := by
  apply Returns.mono (getNode_returns L ord id h.valid)
  rintro _ _ ⟨-, cache, rfl, hloaded⟩
  refine ⟨h.valid, h.bracket, fun j n hn => ?_, fun j e he => ?_⟩
  · rcases hloaded.node j n hn with hold | ⟨rfl, hvalue⟩
    · exact h.node j n hold
    · rw [h.nodeValue_eq] at hvalue
      rw [committed_of_none h.closed]
      exact hvalue
  · rw [hloaded.edge] at he
    exact h.edge j e he

theorem getEdge_coherent (ord : HashOrder) (id : EdgeId)
    (h : Coherent L none db.storage db.cache) :
    Returns (getEdge ord id) db fun _ db' => Coherent L none db'.storage db'.cache := by
  apply Returns.mono (getEdge_returns L ord id h.valid)
  rintro _ _ ⟨-, cache, rfl, hloaded⟩
  refine ⟨h.valid, h.bracket, fun j n hn => ?_, fun j e he => ?_⟩
  · rw [hloaded.node] at hn
    exact h.node j n hn
  · rcases hloaded.edge j e he with hold | ⟨rfl, hvalue⟩
    · exact h.edge j e hold
    · rw [h.edgeValue_eq] at hvalue
      rw [committed_of_none h.closed]
      exact hvalue

theorem compact_coherent (ord : HashOrder) (h : Coherent L txnId? db.storage db.cache) :
    Returns (compact ord) db fun _ db' => Coherent L txnId? db'.storage db'.cache := by
  apply Returns.mono (compact_returns L ord db h.valid)
  rintro - _ ⟨storage, rfl, hv, hview⟩
  apply Coherent.of_empty hv
  · rw [hview]
  · exact ⟨LawfulCachePort.nodeAt_clear _, LawfulCachePort.edgeAt_clear _⟩

theorem not_dropsNode (h : Coherent L none db.storage db.cache) (id : NodeId) :
    ¬(L.view db.storage).DropsNode id := by
  rintro ⟨b, hb, -⟩
  rw [h.closed] at hb
  cases hb

theorem not_dropsEdge (h : Coherent L none db.storage db.cache) (id : EdgeId) :
    ¬(L.view db.storage).DropsEdge id := by
  rintro ⟨b, hb, -⟩
  rw [h.closed] at hb
  cases hb

theorem insertNode_coherent (ord : HashOrder) {label : String} {properties : Properties}
    (h : Coherent L none db.storage db.cache)
    (hn : L.NodeStorable ⟨⟨db.idGenerator.nextNode⟩, label, properties⟩) :
    Returns (insertNode ord label properties) db fun _ db' =>
      Coherent L none db'.storage db'.cache := by
  apply Returns.mono (insertNode_returns L ord label properties h.valid hn)
  rintro id db' ⟨-, storage, hv, hview, hs⟩
  have hput := h.upsertNode (ord.sub 1) hv hview (not_dropsNode h _)
  exact Coherent.settled hput hs

/-- Without its ends an edge is not inserted; between them it is saved. -/
theorem insertEdge_cases (ord : HashOrder) {source target : NodeId} {label : String}
    {weight : F64} {properties : Properties} (hv : L.Valid db.storage)
    (he : db.hasEnds source target = true →
      L.EdgeStorable ⟨⟨db.idGenerator.nextEdge⟩, source, target, label, weight, properties⟩) :
    (insertEdge ord source target label weight properties db).2 = db ∨
      db.engine.containsNode source = true ∧ ∃ id storage, L.Valid storage ∧
        L.view storage = (L.view db.storage).applyRecord
          (.upsertEdge ⟨id, source, target, label, weight, properties⟩) ∧
        Settled L { db with
          idGenerator := db.idGenerator.nextEdgeId.2
          storage := storage
          cache := CachePort.putEdge (ord.sub 1)
            ⟨id, source, target, label, weight, properties⟩ db.cache
          engine := db.engine.insertEdge id source target weight }
          (insertEdge ord source target label weight properties db).2 := by
  cases hends : db.hasEnds source target with
  | false =>
    obtain ⟨e, herr⟩ := insertEdge_of_not_hasEnds ord label weight properties hends
    rw [herr]
    exact .inl rfl
  | true =>
    obtain ⟨hsource, htarget⟩ := (Bool.and_eq_true_iff).mp hends
    obtain ⟨id, db', hrun, -, hstored⟩ :=
      insertEdge_returns L ord label weight properties hv hsource htarget (he hends)
    rw [hrun]
    exact .inr ⟨hsource, id, hstored⟩

theorem insertEdge_coherent (ord : HashOrder) {source target : NodeId} {label : String}
    {weight : F64} {properties : Properties} (h : Coherent L none db.storage db.cache)
    (he : db.hasEnds source target = true →
      L.EdgeStorable ⟨⟨db.idGenerator.nextEdge⟩, source, target, label, weight, properties⟩) :
    Coherent L none (insertEdge ord source target label weight properties db).2.storage
      (insertEdge ord source target label weight properties db).2.cache := by
  rcases insertEdge_cases ord h.valid he with heq | ⟨-, id, storage, hv, hview, hs⟩
  · rw [heq]
    exact h
  · have hput := h.upsertEdge (ord.sub 1) hv hview (not_dropsEdge h _)
    exact Coherent.settled hput hs

theorem deleteEdge_coherent (ord : HashOrder) (id : EdgeId)
    (h : Coherent L txnId? db.storage db.cache) :
    Returns (deleteEdge ord id) db fun _ db' => Coherent L txnId? db'.storage db'.cache := by
  apply Returns.mono (deleteEdge_returns L ord id h.valid)
  rintro - db' ⟨storage, hv, hview, hs⟩
  have hdel : Coherent L txnId? storage (CachePort.invalidateEdge id db.cache) := by
    have hrun : L.view storage = (L.view db.storage).run [.deleteEdge id] := hview
    refine h.run (by simp [RecordData.isMarker]) hv hrun ?_ ?_
    · intro j n hn
      rw [LawfulCachePort.nodeAt_invalidateEdge] at hn
      refine .inl ⟨hn, fun r hr u hu => ?_⟩
      obtain rfl := List.mem_singleton.mp hr
      cases hu
    · intro j e he
      rw [LawfulCachePort.edgeAt_invalidateEdge] at he
      split_ifs at he with hj
      refine .inl ⟨he, fun r hr u hu => ?_⟩
      obtain rfl := List.mem_singleton.mp hr
      cases hu
      exact Ne.symm hj
  exact Coherent.settled hdel hs

theorem deleteNode_coherent (ord : HashOrder) (id : NodeId)
    (h : Coherent L txnId? db.storage db.cache) :
    Returns (deleteNode ord id) db fun _ db' => Coherent L txnId? db'.storage db'.cache := by
  apply Returns.mono (deleteNode_returns L ord id h.valid)
  rintro - db' ⟨storage, cache, hv, hview, hdropped, hs⟩
  have hdel : Coherent L txnId? storage cache := by
    have hrun : L.view storage = (L.view db.storage).run
        ((db.incidentEdges id).map .deleteEdge ++ [.deleteNode id]) := by
      rw [hview, run_append]
      rfl
    apply h.run _ hv hrun
    · intro j n hn
      obtain ⟨hj, hold⟩ := hdropped.node j n hn
      refine .inl ⟨hold, fun r hr u hu => ?_⟩
      rcases List.mem_append.mp hr with hr | hr
      · obtain ⟨k, -, rfl⟩ := List.mem_map.mp hr
        cases hu
      · obtain rfl := List.mem_singleton.mp hr
        cases hu
        exact Ne.symm hj
    · intro j e he
      obtain ⟨hj, hold⟩ := hdropped.edge j e he
      refine .inl ⟨hold, fun r hr u hu => ?_⟩
      rcases List.mem_append.mp hr with hr | hr
      · obtain ⟨k, hk, rfl⟩ := List.mem_map.mp hr
        cases hu
        exact fun heq => hj (heq ▸ hk)
      · obtain rfl := List.mem_singleton.mp hr
        cases hu
    · intro r hr
      rcases List.mem_append.mp hr with hr | hr
      · obtain ⟨k, -, rfl⟩ := List.mem_map.mp hr
        rfl
      · obtain rfl := List.mem_singleton.mp hr
        rfl
  exact Coherent.settled hdel hs

end

end LayeredGraphDatabase

end AdGraphDb
