import AdGraphDb.Storage.Pending
import AdGraphDb.Database.Open
import AdGraphDb.Database.Sessions
import AdGraphDb.Database.StorageErrors

/-!
# Transactions that take effect as a whole

While a commit applies the staged operations to the memory, the log holds them back. If it
stages ids of its own and fields that the configuration indexes, a commit makes of the graph
what its operations make of it one after the other, or finds the end of an edge missing.
-/

namespace AdGraphDb
open Std AdGraphDb.Action ReplayState

/-! ## What a transaction does to the graph -/

namespace PlainGraph

instance (g : PlainGraph) (id : NodeId) : Decidable (g.Live id) :=
  inferInstanceAs (Decidable (_ = true))

/-- The graph after a staged operation; an edge needs both of its ends. -/
def stage (g : PlainGraph) : StagedOp → Except GraphError PlainGraph
  | .insertNode node => .ok (g.insertNode node)
  | .insertEdge edge =>
    if ¬g.Live edge.source then .error (.nodeNotFound edge.source)
    else if ¬g.Live edge.target then .error (.nodeNotFound edge.target)
    else .ok (g.insertEdge edge)
  | .deleteNode id => .ok (g.deleteNode id)
  | .deleteEdge id => .ok (g.deleteEdge id)

/-- The graph after all of them, or the error of the first one that fails. -/
def commit : List StagedOp → PlainGraph → Except GraphError PlainGraph
  | [], g => .ok g
  | op :: ops, g => (g.stage op).bind (commit ops)

/-- The ends of an edge are looked for one after the other. -/
theorem stage_insertEdge_cases (g : PlainGraph) (edge : Edge) :
    (¬g.Live edge.source ∧ g.stage (.insertEdge edge) = .error (.nodeNotFound edge.source)) ∨
    (g.Live edge.source ∧ ¬g.Live edge.target ∧
      g.stage (.insertEdge edge) = .error (.nodeNotFound edge.target)) ∨
    (g.Live edge.source ∧ g.Live edge.target ∧
      g.stage (.insertEdge edge) = .ok (g.insertEdge edge)) := by
  by_cases hs : g.Live edge.source
  · have hsource : g.stage (.insertEdge edge) =
        if ¬g.Live edge.target then .error (.nodeNotFound edge.target)
        else .ok (g.insertEdge edge) := if_neg (not_not.mpr hs)
    by_cases ht : g.Live edge.target
    · exact .inr (.inr ⟨hs, ht, hsource.trans (if_neg (not_not.mpr ht))⟩)
    · exact .inr (.inl ⟨hs, ht, hsource.trans (if_pos ht)⟩)
  · exact .inl ⟨hs, if_pos hs⟩

end PlainGraph

/-- What the loop of a commit adds for an operation. -/
def CommitResult.add (result : CommitResult) : StagedOp → CommitResult
  | .insertNode node => { result with insertedNodeIds := result.insertedNodeIds ++ [node.id] }
  | .insertEdge edge => { result with insertedEdgeIds := result.insertedEdgeIds ++ [edge.id] }
  | .deleteNode id => { result with deletedNodeIds := result.deletedNodeIds ++ [id] }
  | .deleteEdge id => { result with deletedEdgeIds := result.deletedEdgeIds ++ [id] }

namespace StagedOp

/-- The second operation is not on its own behind the first one: both save or delete the same
node, or it saves an edge of the same id. -/
def Clashes : StagedOp → StagedOp → Bool
  | insertNode a, insertNode b => a.id = b.id
  | insertNode a, deleteNode id => a.id = id
  | deleteNode id, insertNode b => id = b.id
  | deleteNode id, deleteNode id' => id = id'
  | insertEdge a, insertEdge b => a.id = b.id
  | deleteEdge id, insertEdge b => id = b.id
  | _, _ => false

/-- What is saved satisfies the predicates. -/
def Storable (N : Node → Prop) (E : Edge → Prop) : StagedOp → Prop
  | insertNode node => N node
  | insertEdge edge => E edge
  | _ => True

/-- Every field of a saved node is one to be indexed. -/
def indexable (config : DatabaseConfig) : StagedOp → Bool
  | insertNode node => node.properties.toList.all fun p => config.shouldIndexField p.1
  | _ => true

/-- The deletions among the operations, each of which counts a write. -/
def deletions (ops : List StagedOp) : Nat := (ops.filter fun op => !op.isInsertion).length

/-- What a commit can do with the memory and the log alike. -/
structure Suits (config : DatabaseConfig) (N : Node → Prop) (E : Edge → Prop) (op : StagedOp) :
    Prop where
  storable : op.Storable N E
  indexable : op.indexable config = true
  below : ∀ kind x, op.insertedId kind = some x → x + 1 < 2 ^ 64

end StagedOp

/-! ## What the log still holds back -/

/-- The operations that are left mind neither the graph nor what waits in the bracket. -/
structure Ready (rest : List StagedOp) (st : ReplayState) (g : PlainGraph) : Prop where
  apart : rest.Pairwise fun a b => a.Clashes b = false
  node : ∀ n, .insertNode n ∈ rest → g.nodes[n.id]? = none ∧ ¬st.DropsNode n.id
  edge : ∀ e, .insertEdge e ∈ rest → g.edges[e.id]? = none ∧ ¬st.DropsEdge e.id
  deleted : ∀ id, .deleteNode id ∈ rest → ¬st.InsertsNode id ∧ ¬st.DropsNode id

namespace Ready

variable {op : StagedOp} {rest : List StagedOp} {st st' : ReplayState} {g g' : PlainGraph}

/-- The records of an operation leave alone what does not clash with it. -/
theorem run (h : Ready (op :: rest) st g) (rs : List RecordData)
    (hplain : ∀ r ∈ rs, r.isMarker = false) (hst : st' = st.run rs)
    (hnode : ∀ m, op.Clashes (.insertNode m) = false → g.nodes[m.id]? = none →
      g'.nodes[m.id]? = none ∧ .deleteNode m.id ∉ rs)
    (hedge : ∀ f, op.Clashes (.insertEdge f) = false → g.edges[f.id]? = none →
      g'.edges[f.id]? = none ∧ .deleteEdge f.id ∉ rs)
    (hdeleted : ∀ id, op.Clashes (.deleteNode id) = false →
      .deleteNode id ∉ rs ∧ ∀ n, .upsertNode n ∈ rs → n.id ≠ id) : Ready rest st' g' := by
  subst hst
  obtain ⟨hop, hapart⟩ := List.pairwise_cons.mp h.apart
  refine ⟨hapart, fun m hm => ?_, fun f hf => ?_, fun id hid => ?_⟩
  · obtain ⟨hfresh, hold⟩ := h.node m (List.mem_cons_of_mem _ hm)
    obtain ⟨hfresh', hrs⟩ := hnode m (hop _ hm) hfresh
    exact ⟨hfresh', fun hd => (dropsNode_run hplain hd).elim hold hrs⟩
  · obtain ⟨hfresh, hold⟩ := h.edge f (List.mem_cons_of_mem _ hf)
    obtain ⟨hfresh', hrs⟩ := hedge f (hop _ hf) hfresh
    exact ⟨hfresh', fun hd => (dropsEdge_run hplain hd).elim hold hrs⟩
  · obtain ⟨hins, hold⟩ := h.deleted id (List.mem_cons_of_mem _ hid)
    obtain ⟨hrs, hsaved⟩ := hdeleted id (hop _ hid)
    refine ⟨fun hi => ?_, fun hd => (dropsNode_run hplain hd).elim hold hrs⟩
    rcases insertsNode_run_cases hplain hi with hi | ⟨n, hn, hid⟩
    · exact hins hi
    · exact hsaved n hn hid

theorem insertNode {n : Node} (h : Ready (.insertNode n :: rest) st g)
    (hst : st' = st.applyRecord (.upsertNode n)) : Ready rest st' (g.insertNode n) := by
  apply h.run [.upsertNode n] (List.forall_mem_singleton.mpr rfl) hst
  · intro m hm hfresh
    refine ⟨?_, by simp⟩
    rw [PlainGraph.insertNode, HashMap.getElem?_insert', if_neg (of_decide_eq_false hm), hfresh]
  · exact fun f _ hfresh => ⟨hfresh, by simp⟩
  · refine fun id hid => ⟨by simp, fun m hm => ?_⟩
    cases List.mem_singleton.mp hm
    exact of_decide_eq_false hid

theorem insertEdge {e : Edge} (h : Ready (.insertEdge e :: rest) st g)
    (hst : st' = st.applyRecord (.upsertEdge e)) : Ready rest st' (g.insertEdge e) := by
  apply h.run [.upsertEdge e] (List.forall_mem_singleton.mpr rfl) hst
  · exact fun m _ hfresh => ⟨hfresh, by simp⟩
  · intro f hf hfresh
    refine ⟨?_, by simp⟩
    rw [PlainGraph.insertEdge, HashMap.getElem?_insert', if_neg (of_decide_eq_false hf), hfresh]
  · exact fun id _ => ⟨by simp, by simp⟩

theorem deleteEdge {k : EdgeId} (h : Ready (.deleteEdge k :: rest) st g)
    (hst : st' = st.applyRecord (.deleteEdge k)) : Ready rest st' (g.deleteEdge k) := by
  apply h.run [.deleteEdge k] (List.forall_mem_singleton.mpr rfl) hst
  · exact fun m _ hfresh => ⟨hfresh, by simp⟩
  · intro f hf hfresh
    have hne : k ≠ f.id := of_decide_eq_false hf
    refine ⟨?_, by simp [hne.symm]⟩
    rw [PlainGraph.deleteEdge, HashMap.getElem?_erase', if_neg hne, hfresh]
  · exact fun id _ => ⟨by simp, by simp⟩

/-- The edges that go with a node are in the graph, so no operation that is left saves them. -/
theorem deleteNode {id : NodeId} {ids : List EdgeId} (h : Ready (.deleteNode id :: rest) st g)
    (hids : ∀ k ∈ ids, g.edges[k]?.isSome)
    (hst : st' = (st.run (ids.map .deleteEdge)).applyRecord (.deleteNode id)) :
    Ready rest st' (g.deleteNode id) := by
  have hplain : ∀ r ∈ ids.map RecordData.deleteEdge ++ [.deleteNode id], r.isMarker = false := by
    intro r hr
    rcases List.mem_append.mp hr with hr | hr
    · obtain ⟨k, -, rfl⟩ := List.mem_map.mp hr
      rfl
    · cases List.mem_singleton.mp hr
      rfl
  apply h.run _ hplain (hst.trans (run_append st _ [.deleteNode id]).symm)
  · intro m hm hfresh
    have hne : id ≠ m.id := of_decide_eq_false hm
    refine ⟨?_, by simp [hne.symm]⟩
    rw [PlainGraph.deleteNode, HashMap.getElem?_erase', if_neg hne, hfresh]
  · intro f _ hfresh
    refine ⟨?_, fun hd => ?_⟩
    · rw [PlainGraph.deleteNode_edges, hfresh]
      rfl
    · have hlive := hids f.id (by simpa using hd)
      rw [hfresh] at hlive
      cases hlive
  · intro j hj
    have hne : id ≠ j := of_decide_eq_false hj
    exact ⟨by simp [hne.symm], by simp⟩

end Ready

/-! ## The memory, which is ahead -/

namespace Coherent

variable {C : Type} [LawfulCachePort C] {cache : C} {g : PlainGraph}

theorem putNode (h : Coherent cache g) (ord : HashOrder) (n : Node) :
    Coherent (CachePort.putNode ord n cache) (g.insertNode n) := by
  constructor
  · intro j m hj
    have hput := LawfulCachePort.nodeAt_putNode _ _ _ _ _ hj
    rw [PlainGraph.insertNode, HashMap.getElem?_insert']
    split_ifs at hput with hid
    · rw [if_pos hid.symm, hput]
    · rw [if_neg (Ne.symm hid)]
      exact h.node j m hput
  · intro k e hk
    rw [LawfulCachePort.edgeAt_putNode] at hk
    exact h.edge k e hk

theorem putEdge (h : Coherent cache g) (ord : HashOrder) (e : Edge) :
    Coherent (CachePort.putEdge ord e cache) (g.insertEdge e) := by
  constructor
  · intro j n hj
    rw [LawfulCachePort.nodeAt_putEdge] at hj
    exact h.node j n hj
  · intro k f hk
    have hput := LawfulCachePort.edgeAt_putEdge _ _ _ _ _ hk
    rw [PlainGraph.insertEdge, HashMap.getElem?_insert']
    split_ifs at hput with hid
    · rw [if_pos hid.symm, hput]
    · rw [if_neg (Ne.symm hid)]
      exact h.edge k f hput

theorem invalidateEdge (h : Coherent cache g) (id : EdgeId) :
    Coherent (CachePort.invalidateEdge id cache) (g.deleteEdge id) := by
  constructor
  · intro j n hj
    rw [LawfulCachePort.nodeAt_invalidateEdge] at hj
    exact h.node j n hj
  · intro k e hk
    rw [LawfulCachePort.edgeAt_invalidateEdge] at hk
    rw [PlainGraph.deleteEdge, HashMap.getElem?_erase']
    split_ifs at hk with hid
    rw [if_neg (Ne.symm hid)]
    exact h.edge k e hk

end Coherent

namespace LayeredGraphDatabase

/-- Where the configuration selects every field of a node, a commit indexes it as an insertion
does. -/
theorem indexNode_eq (ord : HashOrder) {config : DatabaseConfig} {n : Node}
    (h : ∀ field v, n.properties[field]? = some v → config.shouldIndexField field = true)
    (i : PropertyIndex) : indexNode ord config n i = i.insertNode ord n.id n.properties := by
  have hfields :
      (indexNode ord config n i).fields = (i.insertNode ord n.id n.properties).fields := by
    refine HashMap.ext fun field => ?_
    rw [fields_indexNode, PropertyIndex.fields_insertNode]
    split_ifs with hf
    · rfl
    · cases hv : n.properties[field]? with
      | none => rfl
      | some v => exact absurd (h field v hv) hf
  exact congrArg PropertyIndex.mk hfields

variable {S C : Type} {db : LayeredGraphDatabase S C} {g : PlainGraph}

theorem InMemory.deleteEdge (h : InMemory db g) (id : EdgeId) :
    InMemory { db with engine := db.engine.removeEdge id } (g.deleteEdge id) := by
  refine ⟨h.wellFormed.deleteEdge id, h.engine.removeEdge h.wellFormed id, h.labels, h.properties,
    h.ids.mono (fun _ hn => hn) fun k hk => ?_⟩
  rw [PlainGraph.deleteEdge, HashMap.getElem?_erase'] at hk
  split_ifs at hk
  · cases hk
  · exact hk

theorem InMemory.deleteNode (h : InMemory db g) (ord : HashOrder) (id : NodeId) :
    InMemory { unindex (ord.sub 1) id g.nodes[id]? db with
      engine := db.engine.removeNode (ord.sub 2) id } (g.deleteNode id) := by
  have hids : db.idGenerator.Above (g.deleteNode id) :=
    h.ids.mono (fun _ => PlainGraph.deleteNode_nodes_sub) fun _ => PlainGraph.deleteNode_edges_sub
  have hengine := h.engine.removeNode h.wellFormed (ord.sub 2) id
  cases hn : g.nodes[id]? with
  | none =>
    have hnodes : (g.deleteNode id).nodes = g.nodes := HashMap.erase_eq_self hn
    exact ⟨h.wellFormed.deleteNode id, hengine, h.labels.congr_nodes hnodes,
      h.properties.congr_nodes hnodes, hids⟩
  | some n =>
    obtain rfl := h.wellFormed.node id n hn
    exact ⟨h.wellFormed.deleteNode n.id, hengine, h.labels.deleteNode h.wellFormed hn,
      h.properties.deleteNode h.wellFormed (ord.sub 1) hn, hids⟩

variable [FileStorage S] [LawfulCachePort C] {L : StorageSpec S} {txnId : UInt64}
  {op : StagedOp} {rest : List StagedOp} {db' : LayeredGraphDatabase S C}

/-- Inside the bracket of a commit the log will show the graph once the bracket is closed. -/
structure Pending (L : StorageSpec S) (txnId : UInt64) (rest : List StagedOp)
    (db : LayeredGraphDatabase S C) (g : PlainGraph) : Prop extends InMemory db g where
  valid : L.Valid db.storage
  bracket : ∀ b, (L.view db.storage).txnBuffer = some b → b.txnId = txnId
  committed : (L.view db.storage).committed = (g.nodes, g.edges)
  cached : AdGraphDb.Coherent db.cache g
  ready : Ready rest (L.view db.storage) g

/-- Counting a write that triggers no compaction. -/
theorem Pending.settled (h : Pending L txnId rest db g) (hs : Settled L db db')
    (hd : db.due = false) : Pending L txnId rest db' g := by
  obtain ⟨-, hstorage, hcache⟩ := hs.kept hd
  refine ⟨⟨h.wellFormed, ?_, ?_, ?_, ?_⟩, hs.valid, ?_, ?_, ?_, ?_⟩
  · exact hs.engine ▸ h.engine
  · exact hs.labelIndex ▸ h.labels
  · rw [hs.propertyIndex, hs.config]
    exact h.properties
  · exact hs.idGenerator ▸ h.ids
  · exact hstorage ▸ h.bracket
  · exact hstorage ▸ h.committed
  · exact hcache ▸ h.cached
  · exact hstorage ▸ h.ready

/-- The lookup of a node that the transaction has not touched finds what the graph holds. -/
theorem Pending.nodeValue (h : Pending L txnId rest db g) {id : NodeId}
    (hid : .deleteNode id ∈ rest) : nodeValue L db id = g.nodes[id]? := by
  unfold LayeredGraphDatabase.nodeValue
  cases hc : LawfulCachePort.nodeAt db.cache id with
  | some n => exact (h.cached.node id n hc).symm
  | none =>
    obtain ⟨hins, hdrop⟩ := h.ready.deleted id hid
    have huntouched := committed_node_untouched hins hdrop
    rw [h.committed] at huntouched
    exact huntouched.symm

/-- The step of the records that an operation writes. -/
theorem Pending.bracket_run (h : Pending L txnId rest db g) {storage : S} (rs : List RecordData)
    (hplain : ∀ r ∈ rs, r.isMarker = false) (hview : L.view storage = (L.view db.storage).run rs) :
    ∀ b, (L.view storage).txnBuffer = some b → b.txnId = txnId := by
  intro b hb
  rw [hview] at hb
  obtain ⟨b₀, hb₀, hid⟩ := run_txnId hplain hb
  exact hid ▸ h.bracket b₀ hb₀

/-- An operation of a commit has been applied, and has moved the counters past its id. -/
structure Committed (L : StorageSpec S) (txnId : UInt64) (op : StagedOp) (rest : List StagedOp)
    (db db' : LayeredGraphDatabase S C) (g' : PlainGraph) : Prop where
  pending : Pending L txnId rest db' g'
  quiet : Quiet (StagedOp.deletions rest) db'
  idGenerator : db'.idGenerator = op.seed db.idGenerator
  config : db'.config = db.config

theorem Committed.of_settled {before : LayeredGraphDatabase S C}
    (hp : Pending L txnId rest before g) (hs : Settled L before db')
    (hq : Quiet (StagedOp.deletions rest + 1) before)
    (hids : before.idGenerator = op.seed db.idGenerator) (hconfig : before.config = db.config) :
    Committed L txnId op rest db db' g :=
  ⟨hp.settled hs hq.not_due, hq.next hs.config (hs.kept hq.not_due).1,
    hs.idGenerator.trans hids, hs.config.trans hconfig⟩

theorem commitOp_insertNode {n : Node} (h : Pending L txnId (.insertNode n :: rest) db g)
    (hop : (StagedOp.insertNode n).Suits db.config L.NodeStorable L.EdgeStorable)
    (hq : Quiet (StagedOp.deletions (.insertNode n :: rest)) db) (ord : HashOrder)
    (result : CommitResult) : Returns (commitOp ord txnId result (.insertNode n)) db
      fun result' db' => result' = result.add (.insertNode n) ∧
        Committed L txnId (.insertNode n) rest db db' (g.insertNode n) := by
  obtain ⟨hn, hindexable, hbelow⟩ := hop
  have hmax := hbelow .node _ rfl
  have hfields : ∀ field v, n.properties[field]? = some v →
      db.config.shouldIndexField field = true := fun field v hv =>
    List.all_eq_true.mp hindexable (field, v) (HashMap.mem_toList.mpr hv)
  obtain ⟨hfresh, hdrop⟩ := h.ready.node n List.mem_cons_self
  apply Returns.bind_on (L.write_plain (ord.sub 0) (r := .upsertNode n) rfl h.valid hn)
  rintro - storage ⟨hv, hview⟩
  replace hview : L.view storage = (L.view db.storage).applyRecord (.upsertNode n) := hview
  apply Returns.bind_modify
  refine .pure ⟨rfl, ⟨?_, hv, ?_, ?_, h.cached.putNode _ n, h.ready.insertNode hview⟩, hq, rfl,
    rfl⟩
  · -- as if the node were read back at the next opening
    have hmem := h.toInMemory.replayNode (ord.sub 2) hfresh hmax
    refine ⟨hmem.wellFormed, hmem.engine, hmem.labels, ?_, hmem.ids⟩
    have hindex := h.properties.insertNode (ord.sub 2) hfresh
    rwa [indexNode_eq (ord.sub 2) hfields] at hindex
  · exact h.bracket_run [.upsertNode n] (List.forall_mem_singleton.mpr rfl) hview
  · change (L.view storage).committed = _
    have heffect : (L.view db.storage).TakesEffect (.upsertNode n) := hdrop
    rw [hview, committed_applyRecord heffect, h.committed]
    rfl

theorem commitOp_insertEdge {e : Edge} (h : Pending L txnId (.insertEdge e :: rest) db g)
    (hop : (StagedOp.insertEdge e).Suits db.config L.NodeStorable L.EdgeStorable)
    (hq : Quiet (StagedOp.deletions (.insertEdge e :: rest)) db) (ord : HashOrder)
    (result : CommitResult) (hsource : g.Live e.source) (htarget : g.Live e.target) :
    Returns (commitOp ord txnId result (.insertEdge e)) db fun result' db' =>
      result' = result.add (.insertEdge e) ∧
        Committed L txnId (.insertEdge e) rest db db' (g.insertEdge e) := by
  have he : L.EdgeStorable e := hop.storable
  have hmax := hop.below .edge _ rfl
  obtain ⟨hfresh, hdrop⟩ := h.ready.edge e List.mem_cons_self
  have hends : db.hasEnds e.source e.target = true := by
    rw [hasEnds, (h.engine.containsNode e.source).mpr hsource,
      (h.engine.containsNode e.target).mpr htarget]
    rfl
  unfold Returns
  rw [commitOp, commitInsertEdge_of_hasEnds ord txnId e result hends]
  apply Returns.bind_on (L.write_plain (ord.sub 0) (r := .upsertEdge e) rfl h.valid he)
  rintro - storage ⟨hv, hview⟩
  replace hview : L.view storage = (L.view db.storage).applyRecord (.upsertEdge e) := hview
  apply Returns.bind_modify
  refine .pure ⟨rfl, ⟨?_, hv, ?_, ?_, h.cached.putEdge _ e, h.ready.insertEdge hview⟩, hq, rfl,
    rfl⟩
  · have hmem := h.toInMemory.replayEdge hfresh hsource htarget hmax
    exact ⟨hmem.wellFormed, hmem.engine, hmem.labels, hmem.properties, hmem.ids⟩
  · exact h.bracket_run [.upsertEdge e] (List.forall_mem_singleton.mpr rfl) hview
  · change (L.view storage).committed = _
    have heffect : (L.view db.storage).TakesEffect (.upsertEdge e) := hdrop
    rw [hview, committed_applyRecord heffect, h.committed]
    rfl

theorem commitOp_deleteEdge {id : EdgeId} (h : Pending L txnId (.deleteEdge id :: rest) db g)
    (hq : Quiet (StagedOp.deletions (.deleteEdge id :: rest)) db) (ord : HashOrder)
    (result : CommitResult) : Returns (commitOp ord txnId result (.deleteEdge id)) db fun result' db' =>
      result' = result.add (.deleteEdge id) ∧
        Committed L txnId (.deleteEdge id) rest db db' (g.deleteEdge id) := by
  apply Returns.bind (deleteEdge_returns L ord id h.valid)
  rintro - db' ⟨storage, hv, hview, hs⟩
  refine .pure ⟨rfl, .of_settled ⟨?_, hv, ?_, ?_, ?_, ?_⟩ hs hq rfl rfl⟩
  · have hmem := h.toInMemory.deleteEdge id
    exact ⟨hmem.wellFormed, hmem.engine, hmem.labels, hmem.properties, hmem.ids⟩
  · exact h.bracket_run [.deleteEdge id] (List.forall_mem_singleton.mpr rfl) hview
  · change (L.view storage).committed = _
    have heffect : (L.view db.storage).TakesEffect (.deleteEdge id) := rfl
    rw [hview, committed_applyRecord heffect, h.committed]
    rfl
  · exact h.cached.invalidateEdge id
  · exact h.ready.deleteEdge hview

theorem commitOp_deleteNode {id : NodeId} (h : Pending L txnId (.deleteNode id :: rest) db g)
    (hq : Quiet (StagedOp.deletions (.deleteNode id :: rest)) db) (ord : HashOrder)
    (result : CommitResult) : Returns (commitOp ord txnId result (.deleteNode id)) db fun result' db' =>
      result' = result.add (.deleteNode id) ∧
        Committed L txnId (.deleteNode id) rest db db' (g.deleteNode id) := by
  apply Returns.bind (deleteNode_returns L ord id h.valid)
  rintro - db' ⟨storage, cache, hv, hview, hdropped, hs⟩
  rw [h.nodeValue List.mem_cons_self] at hs
  have hincident : ∀ (k : EdgeId) (e : Edge), g.edges[k]? = some e →
      (k ∈ db.incidentEdges id ↔ e.source = id ∨ e.target = id) :=
    fun k e hk => h.engine.mem_incident h.wellFormed hk
  have hedges := PlainGraph.deleteNode_edges_eq hincident
  have hkept : (unindex (ord.sub 1) id g.nodes[id]? db).idGenerator = db.idGenerator ∧
      (unindex (ord.sub 1) id g.nodes[id]? db).config = db.config ∧
      Quiet (StagedOp.deletions rest + 1) (unindex (ord.sub 1) id g.nodes[id]? db) := by
    cases g.nodes[id]? <;> exact ⟨rfl, rfl, hq⟩
  have hplain : ∀ r ∈ (db.incidentEdges id).map RecordData.deleteEdge, r.isMarker = false := by
    intro r hr
    obtain ⟨k, -, rfl⟩ := List.mem_map.mp hr
    rfl
  refine .pure ⟨rfl, .of_settled ⟨?_, hv, ?_, ?_, ?_, ?_⟩ hs hkept.2.2 hkept.1 hkept.2.1⟩
  · have hmem := h.toInMemory.deleteNode ord id
    exact ⟨hmem.wellFormed, hmem.engine, hmem.labels, hmem.properties, hmem.ids⟩
  · have hrun : L.view storage = (L.view db.storage).run
        ((db.incidentEdges id).map RecordData.deleteEdge ++ [.deleteNode id]) := by
      rw [hview, run_append]
      rfl
    exact h.bracket_run _ (List.forall_mem_append.mpr ⟨hplain, List.forall_mem_singleton.mpr rfl⟩)
      hrun
  · change (L.view storage).committed = _
    have heffect : ((L.view db.storage).run ((db.incidentEdges id).map .deleteEdge)).TakesEffect
        (.deleteNode id) := rfl
    rw [hview, committed_applyRecord heffect, committed_deleteEdges, h.committed, hedges]
    rfl
  · constructor
    · intro j n hj
      obtain ⟨hne, hj⟩ := hdropped.node j n hj
      rw [PlainGraph.deleteNode, HashMap.getElem?_erase', if_neg (Ne.symm hne)]
      exact h.cached.node j n hj
    · intro k e hk
      obtain ⟨hin, hk⟩ := hdropped.edge k e hk
      rw [hedges, HashMap.getElem?_eraseAll, if_neg hin]
      exact h.cached.edge k e hk
  · refine h.ready.deleteNode (fun k hk => ?_) hview
    exact isSome_of_mem_incidentEdges h.engine h.wellFormed.edge hk

/-- An operation that the graph can take is applied, and another one ends the commit. -/
theorem commitOp_stages (h : Pending L txnId (op :: rest) db g)
    (hop : op.Suits db.config L.NodeStorable L.EdgeStorable)
    (hq : Quiet (StagedOp.deletions (op :: rest)) db) (ord : HashOrder) (result : CommitResult) :
    (∃ g', g.stage op = .ok g' ∧ Returns (commitOp ord txnId result op) db fun result' db' =>
      result' = result.add op ∧ Committed L txnId op rest db db' g') ∨
    ∃ e, g.stage op = .error e ∧ (commitOp ord txnId result op db).1 = .error e := by
  cases op with
  | insertNode n => exact .inl ⟨_, rfl, commitOp_insertNode h hop hq ord result⟩
  | deleteNode id => exact .inl ⟨_, rfl, commitOp_deleteNode h hq ord result⟩
  | deleteEdge id => exact .inl ⟨_, rfl, commitOp_deleteEdge h hq ord result⟩
  | insertEdge e =>
    have hsource := h.engine.containsNode e.source
    have htarget := h.engine.containsNode e.target
    rcases g.stage_insertEdge_cases e with ⟨hs, hg⟩ | ⟨hs, ht, hg⟩ | ⟨hs, ht, hg⟩
    · refine .inr ⟨_, hg, ?_⟩
      change ((if !db.engine.containsNode e.source then _ else _ :
        DatabaseAction S C CommitResult) db).1 = _
      rw [eq_false_of_ne_true (mt hsource.mp hs)]
      rfl
    · refine .inr ⟨_, hg, ?_⟩
      change ((if !db.engine.containsNode e.source then _
        else if !db.engine.containsNode e.target then _ else _ :
          DatabaseAction S C CommitResult) db).1 = _
      rw [hsource.mpr hs, eq_false_of_ne_true (mt htarget.mp ht)]
      rfl
    · exact .inl ⟨_, hg, commitOp_insertEdge h hop hq ord result hs ht⟩

/-- The loop over the staged operations. -/
theorem commitOps_commits {ops : List StagedOp} (h : Pending L txnId ops db g)
    (hops : ∀ op ∈ ops, op.Suits db.config L.NodeStorable L.EdgeStorable)
    (hq : Quiet (StagedOp.deletions ops) db) (ord : HashOrder) (result : CommitResult) :
    (∃ g', g.commit ops = .ok g' ∧ Returns (commitOps ord txnId result ops) db fun result' db' =>
      result' = ops.foldl .add result ∧ Pending L txnId [] db' g' ∧
      db'.idGenerator = ops.foldl StagedOp.seed db.idGenerator ∧ db'.config = db.config) ∨
    ∃ e, g.commit ops = .error e ∧ (commitOps ord txnId result ops db).1 = .error e := by
  induction ops generalizing ord result db g with
  | nil => exact .inl ⟨g, rfl, .pure ⟨rfl, h, rfl, rfl⟩⟩
  | cons op ops ih =>
    rcases commitOp_stages h (hops op List.mem_cons_self) hq (ord.sub 0) result with
      ⟨g₁, hg₁, result₁, db₁, hrun, rfl, hstep⟩ | ⟨e, he, hrun⟩
    · have hcommit : g.commit (op :: ops) = g₁.commit ops := by
        rw [PlainGraph.commit, hg₁]
        rfl
      have hloop : commitOps ord txnId result (op :: ops) db =
          commitOps (ord.sub 1) txnId (result.add op) ops db₁ := bind_ok hrun
      unfold Returns
      rw [hcommit, hloop]
      have hrest := ih hstep.pending
        (fun b hb => hstep.config ▸ hops b (List.mem_cons_of_mem op hb)) hstep.quiet (ord.sub 1)
        (result.add op)
      rw [hstep.idGenerator, hstep.config] at hrest
      exact hrest
    · refine .inr ⟨e, ?_, ?_⟩
      · rw [PlainGraph.commit, he]
        rfl
      · have hstop : commitOp (ord.sub 0) txnId result op db =
            (.error e, (commitOp (ord.sub 0) txnId result op db).2) := Prod.ext hrun rfl
        exact congrArg Prod.fst (bind_error hstop)

/-- A commit of the operations leaves the layers in step: every field of a saved node is one to
be indexed, and no deletion counts the write that starts a compaction. -/
def Settles (ops : List StagedOp) (db : LayeredGraphDatabase S C) : Prop :=
  (∀ op ∈ ops, op.indexable db.config = true) ∧ Quiet (StagedOp.deletions ops) db

instance (ops : List StagedOp) (db : LayeredGraphDatabase S C) : Decidable (Settles ops db) :=
  inferInstanceAs (Decidable (_ ∧ _))

/-- The operations of a transaction that has its ids to itself. -/
structure OnItsOwn (g : PlainGraph) (ops : List StagedOp) : Prop where
  apart : ops.Pairwise fun a b => a.Clashes b = false
  node : ∀ n, .insertNode n ∈ ops → g.nodes[n.id]? = none
  edge : ∀ e, .insertEdge e ∈ ops → g.edges[e.id]? = none

/-- The bracket opens, and nothing waits in it. -/
theorem Sync.begin (h : Sync L db g) {ops : List StagedOp} (hown : OnItsOwn g ops)
    (txnId : UInt64) : Returns (on storageField (StoragePort.beginWalTransaction txnId)) db
      fun _ db' => Pending L txnId ops db' g ∧ db'.idGenerator = db.idGenerator ∧
        db'.config = db.config ∧ db'.writesSinceCompact = db.writesSinceCompact := by
  obtain ⟨_, storage, hbegin, hv, hview⟩ :=
    L.write .sorted (.beginTxn txnId) h.valid trivial
  refine ⟨(), { db with storage := storage }, on_ok hbegin, ?_, rfl, rfl, rfl⟩
  rw [h.stored] at hview
  have hbuffer : ∀ b, (L.view storage).txnBuffer = some b → b = ⟨txnId, [], [], [], []⟩ := by
    intro b hb
    rw [hview] at hb
    split_ifs at hb
    exact (Option.some.inj hb).symm
  refine ⟨⟨h.wellFormed, h.engine, h.labels, h.properties, h.ids⟩, hv, ?_, ?_, h.cached, hown.apart,
    fun n hn => ⟨hown.node n hn, ?_⟩, fun e he => ⟨hown.edge e he, ?_⟩, fun id _ => ⟨?_, ?_⟩⟩
  · rintro b hb
    rw [hbuffer b hb]
  · change (L.view storage).committed = _
    rw [hview]
    split_ifs <;> rfl
  all_goals
    rintro ⟨b, hb, hmem⟩
    rw [hbuffer b hb] at hmem
    cases hmem

/-- The bracket closes, and the log shows the graph. -/
theorem Pending.close (h : Pending L txnId [] db g) :
    Returns (on storageField (StoragePort.commitWalTransaction txnId)) db fun _ db' =>
      Sync L db' g ∧ db'.idGenerator = db.idGenerator ∧ db'.config = db.config := by
  obtain ⟨_, storage, hcommit, hv, hcommitted, hclosed⟩ :=
    L.commit_returns txnId h.valid h.bracket
  refine ⟨(), { db with storage := storage }, on_ok hcommit, ⟨⟨h.wellFormed, h.engine, h.labels,
    h.properties, h.ids⟩, hv, ?_, h.cached⟩, rfl, rfl⟩
  rw [h.committed, committed_of_none hclosed] at hcommitted
  obtain ⟨hnodes, hedges⟩ := Prod.mk.inj hcommitted
  change L.view storage = _
  rw [← hnodes, ← hedges, ← hclosed]

/-- A commit does with the memory and the log what its operations do with the graph, or fails
as they do. -/
theorem Sync.commitTransaction (h : Sync L db g) (ord : HashOrder) {txn : Transaction}
    (hops : ∀ op ∈ txn.operations, op.Suits db.config L.NodeStorable L.EdgeStorable)
    (hq : Quiet (StagedOp.deletions txn.operations) db) (hown : OnItsOwn g txn.operations) :
    (∃ g', g.commit txn.operations = .ok g' ∧
      Returns (commitTransaction ord txn) db fun result db' =>
        result = txn.operations.foldl .add .default ∧ Sync L db' g' ∧
        db'.idGenerator = txn.operations.foldl StagedOp.seed db.idGenerator ∧
        db'.config = db.config) ∨
    ∃ e, g.commit txn.operations = .error e ∧ (commitTransaction ord txn db).1 = .error e := by
  obtain ⟨_, db₁, hbegin, hpending, hids₁, hconfig₁, hwrites₁⟩ := h.begin hown txn.txnId
  have hstart := bind_ok (f := fun _ => do
    let result ← commitOps (ord.sub 0) txn.txnId .default txn.operations
    on storageField (StoragePort.commitWalTransaction txn.txnId)
    onWrite (ord.sub 1)
    return result) hbegin
  rw [← hconfig₁] at hops
  have hq₁ : Quiet (StagedOp.deletions txn.operations) db₁ := by
    rwa [Quiet, hconfig₁, hwrites₁]
  rcases commitOps_commits hpending hops hq₁ (ord.sub 0) .default with
    ⟨g', hg', result, db₂, hloop, rfl, hend, hids₂, hconfig₂⟩ | ⟨e, he, hloop⟩
  · obtain ⟨_, db₃, hclose, hsync, hids₃, hconfig₃⟩ := hend.close
    obtain ⟨_, db₄, hwrite, hs⟩ := onWrite_returns L (ord.sub 1) hsync.valid
    obtain ⟨hsync₄, hids₄⟩ := hs.sync hsync
    refine .inl ⟨g', hg', _, db₄, ?_, rfl, hsync₄, ?_, ?_⟩
    · exact hstart.trans ((bind_ok hloop).trans ((bind_ok hclose).trans (bind_ok hwrite)))
    · rw [hids₄, hids₃, hids₂, hids₁]
    · rw [hs.config, hconfig₃, hconfig₂, hconfig₁]
  · refine .inr ⟨e, he, ?_⟩
    have hstop : commitOps (ord.sub 0) txn.txnId .default txn.operations db₁ =
        (.error e, (commitOps (ord.sub 0) txn.txnId .default txn.operations db₁).2) :=
      Prod.ext hloop rfl
    exact congrArg Prod.fst (hstart.trans (bind_error hstop))

end LayeredGraphDatabase

end AdGraphDb
