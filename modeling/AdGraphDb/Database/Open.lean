import AdGraphDb.Cache.Lru
import AdGraphDb.Database.Sync

/-!
# Opening the database

Whatever order the storage lists its nodes and edges in, the rebuilt structures agree
with the replayed maps.
-/

namespace AdGraphDb
open Std AdGraphDb.Action

namespace PlainGraph

def insertNodes (g : PlainGraph) (nodes : List Node) : PlainGraph :=
  nodes.foldl (fun g n => g.insertNode n) g

def insertEdges (g : PlainGraph) (edges : List Edge) : PlainGraph :=
  edges.foldl (fun g e => g.insertEdge e) g

theorem insertNodes_eq (g : PlainGraph) (nodes : List Node) :
    g.insertNodes nodes =
      ⟨Update.applyAll g.nodes (nodes.map fun n => .put n.id n), g.edges⟩ := by
  induction nodes generalizing g with
  | nil => rfl
  | cons n nodes ih => exact ih (g.insertNode n)

theorem insertEdges_eq (g : PlainGraph) (edges : List Edge) :
    g.insertEdges edges =
      ⟨g.nodes, Update.applyAll g.edges (edges.map fun e => .put e.id e)⟩ := by
  induction edges generalizing g with
  | nil => rfl
  | cons e edges ih => exact ih (g.insertEdge e)

end PlainGraph

namespace LayeredGraphDatabase

section Replay

variable {S C : Type} {db : LayeredGraphDatabase S C} {g : PlainGraph}

theorem InMemory.replayNode (h : InMemory db g) (ord : HashOrder) {n : Node}
    (hn : g.nodes[n.id]? = none) (hmax : n.id.val.toNat + 1 < 2 ^ 64) :
    InMemory (replayNode ord db n) (g.insertNode n) where
  wellFormed := h.wellFormed.insertNode n
  engine := h.engine.insertNode n
  labels := h.labels.insertNode hn
  properties := h.properties.insertNode _ hn
  ids := by
    have hseed := db.idGenerator.seedFromNode_nextNode n.id hmax
    apply h.ids.insertNode
    · change n.id.val < (db.idGenerator.seedFromNode n.id).nextNode
      rw [UInt64.lt_iff_toNat_lt, hseed]
      omega
    · change _ ≤ (db.idGenerator.seedFromNode n.id).nextNode
      rw [UInt64.le_iff_toNat_le, hseed]
      omega
    · exact IdGenerator.seedFromNode_nextEdge _ _

theorem InMemory.replayEdge (h : InMemory db g) {e : Edge} (he : g.edges[e.id]? = none)
    (hs : g.Live e.source) (ht : g.Live e.target) (hmax : e.id.val.toNat + 1 < 2 ^ 64) :
    InMemory (replayEdge db e) (g.insertEdge e) where
  wellFormed := h.wellFormed.insertEdge hs ht
  engine := h.engine.insertEdge he hs ht
  labels := h.labels
  properties := h.properties
  ids := by
    have hseed := db.idGenerator.seedFromEdge_nextEdge e.id hmax
    apply h.ids.insertEdge
    · change e.id.val < (db.idGenerator.seedFromEdge e.id).nextEdge
      rw [UInt64.lt_iff_toNat_lt, hseed]
      omega
    · change _ ≤ (db.idGenerator.seedFromEdge e.id).nextEdge
      rw [UInt64.le_iff_toNat_le, hseed]
      omega
    · exact IdGenerator.seedFromEdge_nextNode _ _

/-- What replaying leaves alone. -/
structure Replayed (before after : LayeredGraphDatabase S C) : Prop where
  storage : after.storage = before.storage
  cache : after.cache = before.cache
  config : after.config = before.config
  writesSinceCompact : after.writesSinceCompact = before.writesSinceCompact

theorem InMemory.replayNodes {nodes : List Node} {N : Nat} (hN : N < 2 ^ 64) (ord : HashOrder)
    (h : InMemory db g) (hfresh : ∀ n ∈ nodes, g.nodes[n.id]? = none)
    (hnodup : (nodes.map Node.id).Nodup) (hlt : ∀ n ∈ nodes, n.id.val.toNat < N)
    (hdb : db.idGenerator.nextNode.toNat ≤ N) :
    InMemory (nodes.foldl (LayeredGraphDatabase.replayNode ord) db)
        (g.insertNodes nodes) ∧
      Replayed db (nodes.foldl (LayeredGraphDatabase.replayNode ord) db) ∧
      (nodes.foldl (LayeredGraphDatabase.replayNode ord) db).idGenerator.nextNode.toNat ≤ N ∧
      (nodes.foldl (LayeredGraphDatabase.replayNode ord) db).idGenerator.nextEdge =
        db.idGenerator.nextEdge := by
  -- the bound on the ids keeps the seeding below the wrap-around
  induction nodes generalizing db g with
  | nil => exact ⟨h, ⟨rfl, rfl, rfl, rfl⟩, hdb, rfl⟩
  | cons n nodes ih =>
    rw [List.map_cons, List.nodup_cons] at hnodup
    have hn := hlt n List.mem_cons_self
    have hseed := db.idGenerator.seedFromNode_nextNode n.id (by omega)
    have hstep := h.replayNode ord (hfresh n List.mem_cons_self) (by omega)
    have hfresh' : ∀ m ∈ nodes, (g.insertNode n).nodes[m.id]? = none := by
      intro m hm
      rw [PlainGraph.insertNode, HashMap.getElem?_insert', if_neg]
      · exact hfresh m (List.mem_cons_of_mem n hm)
      · intro hid
        exact hnodup.1 (hid ▸ List.mem_map_of_mem hm)
    have hdb' : (LayeredGraphDatabase.replayNode ord db n).idGenerator.nextNode.toNat ≤ N := by
      change (db.idGenerator.seedFromNode n.id).nextNode.toNat ≤ N
      omega
    obtain ⟨hmem, hrep, hle, hedge⟩ := ih hstep hfresh' hnodup.2
      (fun m hm => hlt m (List.mem_cons_of_mem n hm)) hdb'
    refine ⟨hmem, ⟨hrep.storage, hrep.cache, hrep.config, hrep.writesSinceCompact⟩, hle, ?_⟩
    exact hedge.trans (IdGenerator.seedFromNode_nextEdge _ _)

theorem InMemory.replayEdges {edges : List Edge} {N : Nat} (hN : N < 2 ^ 64)
    (h : InMemory db g) (hfresh : ∀ e ∈ edges, g.edges[e.id]? = none)
    (hnodup : (edges.map Edge.id).Nodup)
    (hlive : ∀ e ∈ edges, g.Live e.source ∧ g.Live e.target)
    (hlt : ∀ e ∈ edges, e.id.val.toNat < N) (hdb : db.idGenerator.nextEdge.toNat ≤ N) :
    InMemory (edges.foldl LayeredGraphDatabase.replayEdge db)
        (g.insertEdges edges) ∧
      Replayed db (edges.foldl LayeredGraphDatabase.replayEdge db) ∧
      (edges.foldl LayeredGraphDatabase.replayEdge db).idGenerator.nextEdge.toNat ≤ N ∧
      (edges.foldl LayeredGraphDatabase.replayEdge db).idGenerator.nextNode =
        db.idGenerator.nextNode := by
  induction edges generalizing db g with
  | nil => exact ⟨h, ⟨rfl, rfl, rfl, rfl⟩, hdb, rfl⟩
  | cons e edges ih =>
    rw [List.map_cons, List.nodup_cons] at hnodup
    have he := hlt e List.mem_cons_self
    have hends := hlive e List.mem_cons_self
    have hseed := db.idGenerator.seedFromEdge_nextEdge e.id (by omega)
    have hstep := h.replayEdge (hfresh e List.mem_cons_self) hends.1 hends.2 (by omega)
    have hfresh' : ∀ x ∈ edges, (g.insertEdge e).edges[x.id]? = none := by
      intro x hx
      rw [PlainGraph.insertEdge, HashMap.getElem?_insert', if_neg]
      · exact hfresh x (List.mem_cons_of_mem e hx)
      · intro hid
        exact hnodup.1 (hid ▸ List.mem_map_of_mem hx)
    have hdb' : (LayeredGraphDatabase.replayEdge db e).idGenerator.nextEdge.toNat ≤ N := by
      change (db.idGenerator.seedFromEdge e.id).nextEdge.toNat ≤ N
      omega
    obtain ⟨hmem, hrep, hle, hnode⟩ := ih hstep hfresh' hnodup.2
      (fun x hx => hlive x (List.mem_cons_of_mem e hx))
      (fun x hx => hlt x (List.mem_cons_of_mem e hx)) hdb'
    refine ⟨hmem, ⟨hrep.storage, hrep.cache, hrep.config, hrep.writesSinceCompact⟩, hle, ?_⟩
    exact hnode.trans (IdGenerator.seedFromEdge_nextNode _ _)

end Replay

section Open

variable {S C : Type} [FileStorage S] (L : StorageSpec S)

theorem openWithConfig_eq (ord : HashOrder) {storage : S} (cache : C)
    (engine : AdjacencyListEngine) (config : DatabaseConfig) (h : L.Valid storage) :
    openWithConfig ord storage cache engine config =
      .ok (((L.view storage).edges.valuesIter (ord.sub 2)).foldl replayEdge
        (((L.view storage).nodes.valuesIter (ord.sub 0)).foldl (replayNode (ord.sub 1))
          ⟨engine, cache, storage, .new, .new, .new, config, 0⟩)) := by
  unfold openWithConfig
  rw [L.loadAllNodes (ord.sub 0) h, L.loadAllEdges (ord.sub 2) h]
  rfl

variable [LawfulCachePort C]

/-- With an empty cache and a fresh engine the layers are in step with the stored graph,
and the counters exceed no bound of the stored ids. -/
theorem openWithConfig_sync (ord : HashOrder) {storage : S} {cache : C} (config : DatabaseConfig)
    (h : L.Valid storage) {g : PlainGraph} (hg : g.WellFormed)
    (hview : L.view storage = ⟨g.nodes, g.edges, none⟩) (hcache : LawfulCachePort.Empty cache)
    {N M : Nat} (hN : N < 2 ^ 64) (hM : M < 2 ^ 64)
    (hnodes : ∀ id : NodeId, g.nodes[id]?.isSome → id.val.toNat < N)
    (hedges : ∀ id : EdgeId, g.edges[id]?.isSome → id.val.toNat < M) :
    ∃ db, openWithConfig ord storage cache .new config = .ok db ∧ Sync L db g ∧
      db.idGenerator.nextNode.toNat ≤ N ∧ db.idGenerator.nextEdge.toNat ≤ M := by
  have hempty : InMemory (⟨.new, cache, storage, .new, .new, .new, config, 0⟩ :
      LayeredGraphDatabase S C) .empty := by
    refine ⟨.empty, .new, .new, fun field => ?_, ?_⟩
    · split_ifs
      · exact .new
      · exact ExtTreeMap.getElem?_empty
    · constructor <;> intro id hid <;> simp [PlainGraph.empty] at hid
  have hmemN (n : Node) (hn : n ∈ g.nodes.valuesIter (ord.sub 0)) : g.nodes[n.id]? = some n := by
    obtain ⟨k, hk⟩ := HashMap.mem_vals.mp ((HashMap.valuesIter_perm _ g.nodes).mem_iff.mp hn)
    rwa [hg.node k n hk]
  have hmemE (e : Edge) (he : e ∈ g.edges.valuesIter (ord.sub 2)) : g.edges[e.id]? = some e := by
    obtain ⟨k, hk⟩ := HashMap.mem_vals.mp ((HashMap.valuesIter_perm _ g.edges).mem_iff.mp he)
    rwa [hg.edge k e hk]
  have hltN (n : Node) (hn : n ∈ g.nodes.valuesIter (ord.sub 0)) : n.id.val.toNat < N := by
    apply hnodes
    rw [hmemN n hn]
    rfl
  have hltM (e : Edge) (he : e ∈ g.edges.valuesIter (ord.sub 2)) : e.id.val.toNat < M := by
    apply hedges
    rw [hmemE e he]
    rfl
  -- first all nodes, then all edges between them
  obtain ⟨hmem₁, hrep₁, hle₁, hedge₁⟩ := hempty.replayNodes hN (ord.sub 1)
    (fun n _ => by simp [PlainGraph.empty]) (HashMap.nodup_valuesIter _ hg.node) hltN
    (Nat.zero_le N)
  have hgraph₁ : PlainGraph.empty.insertNodes (g.nodes.valuesIter (ord.sub 0)) =
      ⟨g.nodes, ∅⟩ := by
    rw [PlainGraph.insertNodes_eq]
    exact congrArg (PlainGraph.mk · ∅) (BinaryFileStorage.applyAll_values (ord.sub 0) hg.node)
  rw [hgraph₁] at hmem₁
  obtain ⟨hmem₂, hrep₂, hle₂, hnode₂⟩ := hmem₁.replayEdges hM (fun e _ => by simp)
    (HashMap.nodup_valuesIter _ hg.edge)
    (fun e he => ⟨hg.source _ e (hmemE e he), hg.target _ e (hmemE e he)⟩)
    hltM (by rw [hedge₁]; exact Nat.zero_le M)
  have hgraph₂ : (⟨g.nodes, ∅⟩ : PlainGraph).insertEdges (g.edges.valuesIter (ord.sub 2)) = g := by
    rw [PlainGraph.insertEdges_eq]
    exact congrArg (PlainGraph.mk g.nodes) (BinaryFileStorage.applyAll_values (ord.sub 2) hg.edge)
  rw [hgraph₂] at hmem₂
  have hopen := openWithConfig_eq L ord cache .new config h
  rw [hview] at hopen
  refine ⟨_, hopen, ⟨hmem₂, ?_, ?_, ?_⟩, ?_, hle₂⟩
  · rw [hrep₂.storage, hrep₁.storage]
    exact h
  · rw [hrep₂.storage, hrep₁.storage]
    exact hview
  · rw [hrep₂.cache, hrep₁.cache]
    constructor <;> intro id x hx
    · rw [hcache.node] at hx
      cases hx
    · rw [hcache.edge] at hx
      cases hx
  · rw [hnode₂]
    exact hle₁

end Open

/-- A database over a new binary file, without a cache. -/
def newDatabase : LayeredGraphDatabase BinaryFileStorage (NoCache ⊕ LruCache) :=
  ⟨.new, .inl .mk, FileStorage.openPath none, .new, .new, .new, .default, 0⟩

theorem openWithConfig_newDatabase : openWithConfig .sorted
    (FileStorage.openPath none : BinaryFileStorage) (.inl .mk : NoCache ⊕ LruCache) .new .default =
      .ok newDatabase := rfl

end LayeredGraphDatabase

end AdGraphDb
