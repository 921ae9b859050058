import AdGraphDb.Engine.Represents
import AdGraphDb.Database.Spec

/-!
# The layers in step

Outside transactions the storage, the cache, the engine, the label index, the property
index and the id counters all agree with one plain graph, and every operation keeps it so.
-/

namespace AdGraphDb
open Std AdGraphDb.Action

/-- The property index covers exactly the configured fields of the nodes. -/
def PropertyIndex.Covers (i : PropertyIndex) (config : DatabaseConfig) (g : PlainGraph) : Prop :=
  ∀ field, if config.shouldIndexField field then i.Indexes field g.nodes.vals
    else i.fields[field]? = none

/-- The ids in use lie below the counters. -/
structure IdGenerator.Above (ids : IdGenerator) (g : PlainGraph) : Prop where
  node : ∀ id : NodeId, g.nodes[id]?.isSome → id.val < ids.nextNode
  edge : ∀ id : EdgeId, g.edges[id]?.isSome → id.val < ids.nextEdge

/-- The cache answers with what the graph holds. -/
structure Coherent {C : Type} [LawfulCachePort C] (cache : C) (g : PlainGraph) : Prop where
  node : ∀ id n, LawfulCachePort.nodeAt cache id = some n → g.nodes[id]? = some n
  edge : ∀ id e, LawfulCachePort.edgeAt cache id = some e → g.edges[id]? = some e

namespace LayeredGraphDatabase

variable {S C : Type}

/-- What is rebuilt when the database opens. -/
structure InMemory (db : LayeredGraphDatabase S C) (g : PlainGraph) : Prop where
  wellFormed : g.WellFormed
  engine : db.engine.Represents g
  labels : db.labelIndex.Represents g
  properties : db.propertyIndex.Covers db.config g
  ids : db.idGenerator.Above g

variable [FileStorage S] [LawfulCachePort C] (L : StorageSpec S)

structure Sync (db : LayeredGraphDatabase S C) (g : PlainGraph) : Prop extends InMemory db g where
  valid : L.Valid db.storage
  stored : L.view db.storage = ⟨g.nodes, g.edges, none⟩
  cached : Coherent db.cache g

end LayeredGraphDatabase

/-! ## One structure at a time -/

namespace PropertyIndex.Covers

variable {i i' : PropertyIndex} {config : DatabaseConfig} {g g' : PlainGraph}

theorem congr_nodes (h : i.Covers config g) (hg : g'.nodes = g.nodes) : i.Covers config g' := by
  unfold Covers
  rw [hg]
  exact h

theorem insertNode (h : i.Covers config g) (ord : HashOrder) {n : Node}
    (hn : g.nodes[n.id]? = none) :
    (LayeredGraphDatabase.indexNode ord config n i).Covers config (g.insertNode n) := by
  intro field
  have hfields := LayeredGraphDatabase.fields_indexNode ord config n i field
  have hold := h field
  split_ifs at hfields hold ⊢
  · exact (hold.add n hfields).perm (HashMap.vals_insert_perm hn n).symm
  · rw [hfields, hold]

theorem deleteNode (h : i.Covers config g) (hg : g.WellFormed) (ord : HashOrder) {n : Node}
    (hn : g.nodes[n.id]? = some n) :
    (i.removeNode ord n.id n.properties).Covers config (g.deleteNode n.id) := by
  have hothers : ∀ m ∈ HashMap.vals (g.nodes.erase n.id), m.id ≠ n.id := by
    intro m hm hid
    obtain ⟨k, hk⟩ := HashMap.mem_vals.mp hm
    rw [HashMap.getElem?_erase'] at hk
    split_ifs at hk with hne
    exact hne (hid.symm.trans (hg.node k m hk))
  intro field
  have hold := h field
  split_ifs at hold ⊢
  · exact (hold.perm (HashMap.vals_erase_perm hn)).removeNode ord hothers
  · rw [fields_removeNode, hold]
    cases n.properties[field]? <;> rfl

end PropertyIndex.Covers

namespace IdGenerator

variable {ids : IdGenerator} {g g' : PlainGraph}

/-- Taking away nodes and edges keeps the rest below. -/
theorem Above.mono (h : ids.Above g)
    (hn : ∀ id : NodeId, g'.nodes[id]?.isSome → g.nodes[id]?.isSome)
    (he : ∀ id : EdgeId, g'.edges[id]?.isSome → g.edges[id]?.isSome) : ids.Above g' :=
  ⟨fun id hid => h.node id (hn id hid), fun id hid => h.edge id (he id hid)⟩

theorem Above.insertNode (h : ids.Above g) {ids' : IdGenerator} {n : Node}
    (hn : n.id.val < ids'.nextNode) (hle : ids.nextNode ≤ ids'.nextNode)
    (he : ids'.nextEdge = ids.nextEdge) : ids'.Above (g.insertNode n) := by
  refine ⟨fun id hid => ?_, fun id hid => he ▸ h.edge id hid⟩
  rw [PlainGraph.insertNode, HashMap.getElem?_insert'] at hid
  split_ifs at hid with heq
  · exact heq ▸ hn
  · exact UInt64.lt_of_lt_of_le (h.node id hid) hle

theorem Above.insertEdge (h : ids.Above g) {ids' : IdGenerator} {e : Edge}
    (he : e.id.val < ids'.nextEdge) (hle : ids.nextEdge ≤ ids'.nextEdge)
    (hn : ids'.nextNode = ids.nextNode) : ids'.Above (g.insertEdge e) := by
  refine ⟨fun id hid => hn ▸ h.node id hid, fun id hid => ?_⟩
  rw [PlainGraph.insertEdge, HashMap.getElem?_insert'] at hid
  split_ifs at hid with heq
  · exact heq ▸ he
  · exact UInt64.lt_of_lt_of_le (h.edge id hid) hle

theorem Above.node_fresh (h : ids.Above g) : g.nodes[(⟨ids.nextNode⟩ : NodeId)]? = none := by
  apply Option.not_isSome_iff_eq_none.mp
  intro hs
  exact UInt64.lt_irrefl _ (h.node _ hs)

theorem Above.edge_fresh (h : ids.Above g) : g.edges[(⟨ids.nextEdge⟩ : EdgeId)]? = none := by
  apply Option.not_isSome_iff_eq_none.mp
  intro hs
  exact UInt64.lt_irrefl _ (h.edge _ hs)

end IdGenerator

namespace LabelIndex.Represents

theorem congr_nodes {i : LabelIndex} {g g' : PlainGraph} (h : i.Represents g)
    (hg : g'.nodes = g.nodes) : i.Represents g' := by
  unfold Represents
  rw [hg]
  exact h

end LabelIndex.Represents

namespace PlainGraph

theorem deleteNode_nodes_sub {g : PlainGraph} {id j : NodeId}
    (h : (g.deleteNode id).nodes[j]?.isSome) : g.nodes[j]?.isSome := by
  rw [deleteNode, HashMap.getElem?_erase'] at h
  split_ifs at h
  · cases h
  · exact h

theorem deleteNode_edges_sub {g : PlainGraph} {id : NodeId} {k : EdgeId}
    (h : (g.deleteNode id).edges[k]?.isSome) : g.edges[k]?.isSome := by
  obtain ⟨e, he⟩ := Option.isSome_iff_exists.mp h
  rw [deleteNode_edges, Option.filter_eq_some_iff] at he
  rw [he.1]
  rfl

end PlainGraph

theorem Coherent.clear {C : Type} [LawfulCachePort C] (cache : C) (g : PlainGraph) :
    Coherent (CachePort.clear cache) g := by
  constructor <;> intro id x hx
  · rw [LawfulCachePort.nodeAt_clear] at hx
    cases hx
  · rw [LawfulCachePort.edgeAt_clear] at hx
    cases hx

/-! ## Operations -/

namespace LayeredGraphDatabase

variable {S C : Type} [FileStorage S] [LawfulCachePort C] {L : StorageSpec S}
  {db db' : LayeredGraphDatabase S C} {g : PlainGraph}

/-- Counting a write and compacting keep the layers in step. -/
theorem Settled.sync (hs : Settled L db db') (h : Sync L db g) :
    Sync L db' g ∧ db'.idGenerator = db.idGenerator := by
  have hmem : InMemory db' g := by
    refine ⟨h.wellFormed, ?_, ?_, ?_, ?_⟩
    · exact hs.engine ▸ h.engine
    · exact hs.labelIndex ▸ h.labels
    · rw [hs.propertyIndex, hs.config]
      exact h.properties
    · exact hs.idGenerator ▸ h.ids
  refine ⟨⟨hmem, hs.valid, ?_, ?_⟩, hs.idGenerator⟩ <;> cases hd : db.due
  · rw [(hs.kept hd).2.1]
    exact h.stored
  · rw [(hs.compacted hd).2.1, h.stored]
  · rw [(hs.kept hd).2.2]
    exact h.cached
  · rw [(hs.compacted hd).2.2]
    exact .clear db.cache g

namespace Sync

theorem compact (h : Sync L db g) (ord : HashOrder) :
    Returns (compact ord) db fun _ db' => Sync L db' g ∧ db'.idGenerator = db.idGenerator := by
  apply Returns.mono (compact_returns L ord db h.valid)
  rintro - _ ⟨storage, rfl, hv, hview⟩
  rw [h.stored] at hview
  exact ⟨⟨⟨h.wellFormed, h.engine, h.labels, h.properties, h.ids⟩, hv, hview, .clear db.cache g⟩,
    rfl⟩

theorem nodeValue (h : Sync L db g) (id : NodeId) : nodeValue L db id = g.nodes[id]? := by
  unfold LayeredGraphDatabase.nodeValue
  rw [h.stored]
  cases hc : LawfulCachePort.nodeAt db.cache id with
  | none => rfl
  | some n => exact (h.cached.node id n hc).symm

theorem edgeValue (h : Sync L db g) (id : EdgeId) : edgeValue L db id = g.edges[id]? := by
  unfold LayeredGraphDatabase.edgeValue
  rw [h.stored]
  cases hc : LawfulCachePort.edgeAt db.cache id with
  | none => rfl
  | some e => exact (h.cached.edge id e hc).symm

theorem getNode (h : Sync L db g) (ord : HashOrder) (id : NodeId) :
    Returns (getNode ord id) db fun found db' => found = g.nodes[id]? ∧
      Sync L db' g ∧ db'.idGenerator = db.idGenerator := by
  apply Returns.mono (getNode_returns L ord id h.valid)
  rintro _ _ ⟨rfl, cache, rfl, hloaded⟩
  refine ⟨h.nodeValue id, ⟨⟨h.wellFormed, h.engine, h.labels, h.properties, h.ids⟩, h.valid,
    h.stored, ?_⟩, rfl⟩
  constructor
  · intro j n hj
    rcases hloaded.node j n hj with hj | ⟨rfl, hn⟩
    · exact h.cached.node j n hj
    · rwa [h.nodeValue] at hn
  · intro k e hk
    rw [hloaded.edge] at hk
    exact h.cached.edge k e hk

theorem getEdge (h : Sync L db g) (ord : HashOrder) (id : EdgeId) :
    Returns (getEdge ord id) db fun found db' => found = g.edges[id]? ∧
      Sync L db' g ∧ db'.idGenerator = db.idGenerator := by
  apply Returns.mono (getEdge_returns L ord id h.valid)
  rintro _ _ ⟨rfl, cache, rfl, hloaded⟩
  refine ⟨h.edgeValue id, ⟨⟨h.wellFormed, h.engine, h.labels, h.properties, h.ids⟩, h.valid,
    h.stored, ?_⟩, rfl⟩
  constructor
  · intro j n hj
    rw [hloaded.node] at hj
    exact h.cached.node j n hj
  · intro k e hk
    rcases hloaded.edge k e hk with hk | ⟨rfl, he⟩
    · exact h.cached.edge k e hk
    · rwa [h.edgeValue] at he

theorem insertNode (h : Sync L db g) (ord : HashOrder) (label : String) (properties : Properties)
    (hmax : db.idGenerator.nextNode.toNat + 1 < 2 ^ 64)
    (hn : L.NodeStorable ⟨⟨db.idGenerator.nextNode⟩, label, properties⟩) :
    Returns (insertNode ord label properties) db fun id db' => g.nodes[id]? = none ∧
      Sync L db' (g.insertNode ⟨id, label, properties⟩) ∧
      db'.idGenerator = db.idGenerator.nextNodeId.2 := by
  apply Returns.mono (insertNode_returns L ord label properties h.valid hn)
  rintro _ db' ⟨rfl, storage, hv, hview, hs⟩
  have hfresh := h.ids.node_fresh
  -- the counter does not wrap around, so the new id is above all others
  have hlt : db.idGenerator.nextNode < db.idGenerator.nextNode + 1 := by
    rw [UInt64.lt_iff_toNat_lt, UInt64.toNat_add, UInt64.toNat_one, Nat.mod_eq_of_lt hmax]
    omega
  refine ⟨hfresh, hs.sync ⟨⟨?_, ?_, ?_, ?_, ?_⟩, hv, ?_, ?_, ?_⟩⟩
  · exact h.wellFormed.insertNode _
  · exact h.engine.insertNode ⟨_, label, properties⟩
  · exact LabelIndex.Represents.insertNode (n := ⟨_, label, properties⟩) h.labels hfresh
  · exact h.properties.insertNode (ord.sub 2) hfresh
  · exact h.ids.insertNode hlt (UInt64.le_of_lt hlt) rfl
  · rw [hview, h.stored]
    rfl
  · intro j n hj
    have := LawfulCachePort.nodeAt_putNode _ _ _ _ _ hj
    rw [PlainGraph.insertNode, HashMap.getElem?_insert']
    split_ifs at this with hid
    · rw [if_pos hid.symm, this]
    · rw [if_neg (Ne.symm hid)]
      exact h.cached.node j n this
  · intro k e hk
    rw [LawfulCachePort.edgeAt_putNode] at hk
    exact h.cached.edge k e hk

theorem insertEdge (h : Sync L db g) (ord : HashOrder) {source target : NodeId} (label : String)
    (weight : F64) (properties : Properties) (hsource : g.Live source) (htarget : g.Live target)
    (hmax : db.idGenerator.nextEdge.toNat + 1 < 2 ^ 64)
    (he : L.EdgeStorable ⟨⟨db.idGenerator.nextEdge⟩, source, target, label, weight, properties⟩) :
    Returns (insertEdge ord source target label weight properties) db fun id db' =>
      g.edges[id]? = none ∧
      Sync L db' (g.insertEdge ⟨id, source, target, label, weight, properties⟩) ∧
      db'.idGenerator = db.idGenerator.nextEdgeId.2 := by
  apply Returns.mono (insertEdge_returns L ord label weight properties h.valid
    ((h.engine.containsNode source).mpr hsource) ((h.engine.containsNode target).mpr htarget) he)
  rintro _ db' ⟨rfl, storage, hv, hview, hs⟩
  have hfresh := h.ids.edge_fresh
  have hlt : db.idGenerator.nextEdge < db.idGenerator.nextEdge + 1 := by
    rw [UInt64.lt_iff_toNat_lt, UInt64.toNat_add, UInt64.toNat_one, Nat.mod_eq_of_lt hmax]
    omega
  refine ⟨hfresh, hs.sync ⟨⟨?_, ?_, ?_, ?_, ?_⟩, hv, ?_, ?_, ?_⟩⟩
  · exact h.wellFormed.insertEdge hsource htarget
  · exact h.engine.insertEdge (x := ⟨_, source, target, label, weight, properties⟩) hfresh hsource
      htarget
  · exact h.labels
  · exact h.properties
  · exact h.ids.insertEdge hlt (UInt64.le_of_lt hlt) rfl
  · rw [hview, h.stored]
    rfl
  · intro j n hj
    rw [LawfulCachePort.nodeAt_putEdge] at hj
    exact h.cached.node j n hj
  · intro k e hk
    have := LawfulCachePort.edgeAt_putEdge _ _ _ _ _ hk
    rw [PlainGraph.insertEdge, HashMap.getElem?_insert']
    split_ifs at this with hid
    · rw [if_pos hid.symm, this]
    · rw [if_neg (Ne.symm hid)]
      exact h.cached.edge k e this

theorem deleteEdge (h : Sync L db g) (ord : HashOrder) (id : EdgeId) :
    Returns (deleteEdge ord id) db fun _ db' =>
      Sync L db' (g.deleteEdge id) ∧ db'.idGenerator = db.idGenerator := by
  apply Returns.mono (deleteEdge_returns L ord id h.valid)
  rintro - db' ⟨storage, hv, hview, hs⟩
  refine hs.sync ⟨⟨?_, ?_, ?_, ?_, ?_⟩, hv, ?_, ?_, ?_⟩
  · exact h.wellFormed.deleteEdge id
  · exact h.engine.removeEdge h.wellFormed id
  · exact h.labels
  · exact h.properties
  · refine h.ids.mono (fun _ hn => hn) fun k hk => ?_
    rw [PlainGraph.deleteEdge, HashMap.getElem?_erase'] at hk
    split_ifs at hk
    · cases hk
    · exact hk
  · rw [hview, h.stored]
    rfl
  · intro j n hj
    rw [LawfulCachePort.nodeAt_invalidateEdge] at hj
    exact h.cached.node j n hj
  · intro k e hk
    rw [LawfulCachePort.edgeAt_invalidateEdge] at hk
    rw [PlainGraph.deleteEdge, HashMap.getElem?_erase']
    split_ifs at hk with hid
    rw [if_neg (Ne.symm hid)]
    exact h.cached.edge k e hk

theorem deleteNode (h : Sync L db g) (ord : HashOrder) (id : NodeId) :
    Returns (deleteNode ord id) db fun _ db' =>
      Sync L db' (g.deleteNode id) ∧ db'.idGenerator = db.idGenerator := by
  apply Returns.mono (deleteNode_returns L ord id h.valid)
  rintro - db' ⟨storage, cache, hv, hview, hdropped, hs⟩
  rw [h.nodeValue] at hs
  have hincident : ∀ (k : EdgeId) (e : Edge), g.edges[k]? = some e →
      (k ∈ db.incidentEdges id ↔ e.source = id ∨ e.target = id) :=
    fun k e hk => h.engine.mem_incident h.wellFormed hk
  have hedges := PlainGraph.deleteNode_edges_eq hincident
  -- a node that is not stored is not in the indexes either
  have hmem : InMemory { unindex (ord.sub 1) id g.nodes[id]? db with
      storage := storage, cache := cache, engine := db.engine.removeNode (ord.sub 2) id }
      (g.deleteNode id) := by
    have hids : db.idGenerator.Above (g.deleteNode id) :=
      h.ids.mono (fun _ => PlainGraph.deleteNode_nodes_sub) fun _ => PlainGraph.deleteNode_edges_sub
    have hengine := h.engine.removeNode h.wellFormed (ord.sub 2) id
    cases hn : g.nodes[id]? with
    | none =>
      have hnodes : (g.deleteNode id).nodes = g.nodes := HashMap.erase_eq_self hn
      exact ⟨h.wellFormed.deleteNode id, hengine, h.labels.congr_nodes hnodes,
        h.properties.congr_nodes hnodes, hids⟩
    | some n =>
      obtain rfl := h.wellFormed.node id n hn
      exact ⟨h.wellFormed.deleteNode n.id, hengine, h.labels.deleteNode h.wellFormed hn,
        h.properties.deleteNode h.wellFormed (ord.sub 1) hn, hids⟩
  have hview' : L.view storage = ⟨(g.deleteNode id).nodes, (g.deleteNode id).edges, none⟩ := by
    rw [hview, h.stored, run_deleteEdges, hedges]
    rfl
  have hids : (unindex (ord.sub 1) id g.nodes[id]? db).idGenerator = db.idGenerator := by
    cases g.nodes[id]? <;> rfl
  have hcached : Coherent cache (g.deleteNode id) := by
    constructor
    · intro j n hj
      obtain ⟨hne, hj⟩ := hdropped.node j n hj
      rw [PlainGraph.deleteNode, HashMap.getElem?_erase', if_neg (Ne.symm hne)]
      exact h.cached.node j n hj
    · intro k e hk
      obtain ⟨hin, hk⟩ := hdropped.edge k e hk
      rw [hedges, HashMap.getElem?_eraseAll, if_neg hin]
      exact h.cached.edge k e hk
  obtain ⟨hsync, hid⟩ := hs.sync ⟨hmem, hv, hview', hcached⟩
  exact ⟨hsync, hid.trans hids⟩

/-! ## Bulk reads -/

theorem loadNodes (h : Sync L db g) (ord : HashOrder) (ids : List NodeId) :
    Returns (loadNodes ord ids) db fun nodes db' =>
      nodes = ids.filterMap (fun id => g.nodes[id]?) ∧
      Sync L db' g ∧ db'.idGenerator = db.idGenerator := by
  apply Returns.filterMap (I := fun db' => Sync L db' g ∧ db'.idGenerator = db.idGenerator) ⟨h, rfl⟩
  rintro id - db₁ ⟨h₁, hid⟩
  apply Returns.mono (h₁.getNode (ord.sub id.val.toNat) id)
  rintro found db' ⟨hfound, h', hid'⟩
  exact ⟨hfound, h', hid'.trans hid⟩

theorem loadEdges (h : Sync L db g) (ord : HashOrder) (ids : List EdgeId) :
    Returns (loadEdges ord ids) db fun edges db' =>
      edges = ids.filterMap (fun id => g.edges[id]?) ∧
      Sync L db' g ∧ db'.idGenerator = db.idGenerator := by
  apply Returns.filterMap (I := fun db' => Sync L db' g ∧ db'.idGenerator = db.idGenerator) ⟨h, rfl⟩
  rintro id - db₁ ⟨h₁, hid⟩
  apply Returns.mono (h₁.getEdge (ord.sub id.val.toNat) id)
  rintro found db' ⟨hfound, h', hid'⟩
  exact ⟨hfound, h', hid'.trans hid⟩

theorem allNodes (h : Sync L db g) (ord : HashOrder) :
    Returns (allNodes ord) db fun nodes db' => nodes.Perm g.nodes.vals ∧
      Sync L db' g ∧ db'.idGenerator = db.idGenerator := by
  apply Returns.bind_read
  apply Returns.mono (h.loadNodes (ord.sub 1) _)
  rintro _ db' ⟨rfl, h', hid⟩
  refine ⟨?_, h', hid⟩
  apply ((h.engine.allNodeIds (ord.sub 0)).filterMap _).trans
  rw [HashMap.filterMap_keys]

theorem allEdges (h : Sync L db g) (ord : HashOrder) :
    Returns (allEdges ord) db fun edges db' => edges.Perm g.edges.vals ∧
      Sync L db' g ∧ db'.idGenerator = db.idGenerator := by
  apply Returns.bind_read
  apply Returns.mono (h.loadEdges (ord.sub 1) _)
  rintro _ db' ⟨rfl, h', hid⟩
  refine ⟨?_, h', hid⟩
  apply ((h.engine.allEdgeIds (ord.sub 0)).filterMap _).trans
  rw [HashMap.filterMap_keys]

/-- Looking up the ids of nodes of the graph gives the nodes. -/
theorem filterMap_ids (h : Sync L db g) {nodes : List Node} (hn : ∀ n ∈ nodes, n ∈ g.nodes.vals) :
    (nodes.map Node.id).filterMap (fun id => g.nodes[id]?) = nodes := by
  induction nodes with
  | nil => rfl
  | cons n nodes ih =>
    obtain ⟨k, hk⟩ := HashMap.mem_vals.mp (hn n List.mem_cons_self)
    obtain rfl := h.wellFormed.node k n hk
    rw [List.map_cons, List.filterMap_cons_some hk, ih fun m hm => hn m (List.mem_cons_of_mem n hm)]

theorem nodesByLabel (h : Sync L db g) (ord : HashOrder) (label : String) :
    Returns (nodesByLabel ord label) db fun nodes db' =>
      nodes.Perm (g.nodes.vals.filter fun n => n.label = label) ∧
      Sync L db' g ∧ db'.idGenerator = db.idGenerator := by
  apply Returns.bind_read
  apply Returns.mono (h.loadNodes ord _)
  rintro _ db' ⟨rfl, h', hid⟩
  refine ⟨?_, h', hid⟩
  have hlabel := h.labels label
  simp only [Option.some.injEq] at hlabel
  apply (hlabel.filterMap _).trans
  rw [h.filterMap_ids fun n hn => (List.mem_filter.mp hn).1]

theorem labelCount (h : Sync L db g) (label : String) :
    db.labelCount label = (g.nodes.vals.filter fun n => n.label = label).length := by
  have hlabel := (h.labels label).length_eq
  simp only [Option.some.injEq, List.length_map] at hlabel
  exact (LabelIndex.labelCount_eq label db.labelIndex).trans hlabel

end Sync

end LayeredGraphDatabase

end AdGraphDb
