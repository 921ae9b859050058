import AdGraphDb.Database.Interrupted
import AdGraphDb.Database.Sync

/-!
# Memory and file after a storage error

Insertions and the deletion of an edge write once and change memory afterwards, so an error
leaves both sides as they were. The deletion of a node writes many times: an error splits
the two sides unless the failing call comes before every effect.
-/

namespace AdGraphDb
open Std AdGraphDb.Action

namespace LayeredGraphDatabase

variable {S C : Type} [FileStorage S] (L : StorageSpec S) {db : LayeredGraphDatabase (Faulty S) C}

/-- The engine and the two indexes hold what a replay of the storage would find. -/
structure Agrees (db : LayeredGraphDatabase (Faulty S) C) : Prop where
  valid : L.Valid db.storage.inner
  engine : db.engine.Represents (L.graph db.storage.inner)
  labels : db.labelIndex.Represents (L.graph db.storage.inner)
  properties : db.propertyIndex.Covers db.config (L.graph db.storage.inner)

/-- An index lists the id under the label or under a property of the node. -/
def Listed (db : LayeredGraphDatabase (Faulty S) C) (id : NodeId) (node : Node) : Prop :=
  id ∈ db.labelIndex.get node.label ∨
    ∃ field key, PropertyIndex.nodeKey field node = some key ∧ id ∈ db.propertyIndex.bucket field key

end LayeredGraphDatabase

/-! ## Taking an id out of an index -/

theorem LabelIndex.Represents.remove_iff {i : LabelIndex} {g : PlainGraph} (h : i.Represents g)
    (id : NodeId) (label : String) : (i.remove id label).Represents g ↔ id ∉ i.get label := by
  have hfilter := Grouped.filter_iff h (fun l => label = l) fun n => n ≠ id
  have hremove : (i.remove id label).Represents g ↔
      Grouped (fun n : Node => some n.label) Node.id
        (fun l => if label = l then (i.get l).filter (fun n => n ≠ id) else i.get l)
        g.nodes.vals := by
    have hb (l : String) := HashMap.bucket_remove i.index label l id
    exact ⟨fun hr => Grouped.congr hr fun l => (hb l).symm, fun hr => Grouped.congr hr hb⟩
  rw [hremove, hfilter]
  simp only [forall_eq', decide_eq_true_eq]
  exact ⟨fun hall hm => hall id hm rfl, fun hm q hq he => hm (he ▸ hq)⟩

namespace PropertyIndex

variable {i : PropertyIndex} {field : String} {nodes : List Node}

theorem Indexes.removeNode_iff (h : i.Indexes field nodes) (ord : HashOrder) (id : NodeId)
    (node : Node) : (i.removeNode ord id node.properties).Indexes field nodes ↔
      ∀ key, nodeKey field node = some key → id ∉ i.bucket field key := by
  have hfilter := Grouped.filter_iff h (fun k => nodeKey field node = some k) fun n => n ≠ id
  have hremove : (i.removeNode ord id node.properties).Indexes field nodes ↔
      Grouped (nodeKey field) Node.id
        (fun k => if nodeKey field node = some k then (i.bucket field k).filter (fun n => n ≠ id)
          else i.bucket field k) nodes := by
    have hb := bucket_removeNode ord id node i field
    exact ⟨fun hr => Grouped.congr hr fun k => (hb k).symm, fun hr => Grouped.congr hr hb⟩
  rw [hremove, hfilter]
  simp only [decide_eq_true_eq]
  exact ⟨fun hall key hk hm => hall key hk id hm rfl, fun hm key hk q hq he => hm key hk (he ▸ hq)⟩

/-- A field that is not configured has no index, hence no bucket. -/
theorem Covers.removeNode_iff {config : DatabaseConfig} {g : PlainGraph} (h : i.Covers config g)
    (ord : HashOrder) (id : NodeId) (node : Node) :
    (i.removeNode ord id node.properties).Covers config g ↔
      ∀ field key, nodeKey field node = some key → id ∉ i.bucket field key := by
  apply forall_congr'
  intro field
  have hf := h field
  by_cases hc : config.shouldIndexField field = true
  · rw [if_pos hc] at hf ⊢
    exact hf.removeNode_iff ord id node
  · rw [if_neg hc] at hf ⊢
    have hnone : (i.removeNode ord id node.properties).fields[field]? = none := by
      rw [fields_removeNode, hf]
      cases node.properties[field]? <;> rfl
    have hempty (key : FieldKey) : i.bucket field key = [] := by
      rw [bucket, hf, Option.getD_none, FieldIndex.bucket_default]
    refine ⟨fun _ key _ => ?_, fun _ => hnone⟩
    rw [hempty]
    exact List.not_mem_nil

end PropertyIndex

/-- The engine lists only edges of the graph. -/
theorem LayeredGraphDatabase.isSome_of_mem_incidentEdges {S C : Type}
    {db : LayeredGraphDatabase S C} {g : PlainGraph} (h : db.engine.Represents g)
    (hid : ∀ (k : EdgeId) (e : Edge), g.edges[k]? = some e → e.id = k) {id : NodeId} {k : EdgeId}
    (hk : k ∈ db.incidentEdges id) : g.edges[k]?.isSome := by
  have side {near far : Edge → NodeId} {n : Neighbor} (hn : n ∈ PlainGraph.neighbors near far id g) :
      g.edges[n.edgeId]?.isSome := by
    obtain ⟨j, e, he, -, rfl⟩ := PlainGraph.mem_neighbors.mp hn
    rw [PlainGraph.neighborOf, hid j e he, he]
    rfl
  rcases List.mem_append.mp hk with hk | hk <;> obtain ⟨n, hn, rfl⟩ := List.mem_map.mp hk
  · exact side ((h.neighborsOutgoing id).mem_iff.mp hn)
  · exact side ((h.neighborsIncoming id).mem_iff.mp hn)

namespace LayeredGraphDatabase

variable {S C : Type} [FileStorage S] [LawfulCachePort C] {L : StorageSpec S}
  {db : LayeredGraphDatabase (Faulty S) C} {inner : S} {cache : C} {ids : List EdgeId} {id : NodeId}
  {n : Nat}

namespace Agrees

omit [LawfulCachePort C] in
theorem graph_eq (h : ids = [] ∨ L.Bracketing db.storage.inner)
    (hview : L.view inner = (L.view db.storage.inner).run (ids.map .deleteEdge)) :
    L.graph inner = L.graph db.storage.inner := by
  rcases h with rfl | hopen
  · rw [StorageSpec.graph, hview]
    rfl
  · have hplain : ∀ r ∈ ids.map RecordData.deleteEdge, r.isMarker = false := by
      intro r hr
      obtain ⟨k, -, rfl⟩ := List.mem_map.mp hr
      rfl
    exact StorageSpec.graph_buffered hopen hplain hview

omit [LawfulCachePort C] in
/-- The engine misses deletions of edges in the file, unless there are none or the file
buffers them. -/
theorem closed_of_engine (h : Agrees L db) (hids : ∀ k ∈ ids, k ∈ db.incidentEdges id)
    (hview : L.view inner = (L.view db.storage.inner).run (ids.map .deleteEdge))
    (hr : db.engine.Represents (L.graph inner)) : ids = [] ∨ L.Bracketing db.storage.inner := by
  have hid (k : EdgeId) (e : Edge) (he : (L.graph db.storage.inner).edges[k]? = some e) : e.id = k :=
    ((L.holds h.valid).edges k e he).1
  by_contra hsplit
  obtain ⟨hne, hclosed⟩ := not_or.mp hsplit
  obtain ⟨k, ids', rfl⟩ := List.exists_cons_of_ne_nil hne
  have hlive := isSome_of_mem_incidentEdges h.engine hid (hids k List.mem_cons_self)
  have hgone := hr.endpoints_isSome k
  rw [StorageSpec.graph_deleteEdges hclosed hview, HashMap.getElem?_eraseAll,
    if_pos List.mem_cons_self, h.engine.endpoints_isSome, hlive] at hgone
  cases hgone

omit [LawfulCachePort C] in
theorem after_iff (h : Agrees L db) (hids : ∀ k ∈ ids, k ∈ db.incidentEdges id)
    (hvalid : L.Valid inner)
    (hview : L.view inner = (L.view db.storage.inner).run (ids.map .deleteEdge)) :
    Agrees L (db.after n inner cache) ↔ ids = [] ∨ L.Bracketing db.storage.inner := by
  refine ⟨fun ha => h.closed_of_engine hids hview ha.engine, fun hsame => ?_⟩
  have hg := graph_eq hsame hview
  refine ⟨hvalid, ?_, ?_, ?_⟩
  · exact hg ▸ h.engine
  · exact hg ▸ h.labels
  · exact hg ▸ h.properties

omit [LawfulCachePort C] in
theorem unindex_iff (h : Agrees L db) (ord : HashOrder) (found : Option Node) :
    Agrees L (unindex ord id found db) ↔ ∀ node, found = some node → ¬ db.Listed id node := by
  cases found with
  | none =>
    refine ⟨fun _ node hn => ?_, fun _ => h⟩
    cases hn
  | some node =>
    have hlabels := h.labels.remove_iff id node.label
    have hproperties := h.properties.removeNode_iff ord id node
    constructor
    · intro ha _ hn hm
      cases hn
      rcases hm with hm | ⟨field, key, hk, hm⟩
      · exact hlabels.mp ha.labels hm
      · exact hproperties.mp ha.properties field key hk hm
    · intro hl
      have hnot := not_or.mp (hl node rfl)
      refine ⟨h.valid, h.engine, hlabels.mpr hnot.1, hproperties.mpr fun field key hk hm => ?_⟩
      exact hnot.2 ⟨field, key, hk, hm⟩

end Agrees

/-- A failing call that comes before every effect of `deleteNode`, or after none is seen. -/
structure SparesNode (L : StorageSpec S) (id : NodeId) (db : LayeredGraphDatabase (Faulty S) C) :
    Prop where
  write : ∀ n ≤ (db.incidentEdges id).length, db.storage.point = .write n →
    (n = 0 ∨ L.Bracketing db.storage.inner) ∧
      (n = (db.incidentEdges id).length →
        ∀ node, found L db id = some node → ¬ db.Listed id node)
  load : db.storage.point = .load (db.incidentEdges id).length →
    LawfulCachePort.nodeAt db.cache id = none →
      (db.incidentEdges id).length = 0 ∨ L.Bracketing db.storage.inner

theorem deleteNode_raises_iff (h : Agrees L db) (hw : db.storage.writes = 0) (ord : HashOrder) :
    Raises (deleteNode ord id) db (fun _ db' => Agrees L db') ↔ SparesNode L id db := by
  have hends := deleteNode_ends L ord id h.valid
  have hall : ∀ k ∈ db.incidentEdges id, k ∈ db.incidentEdges id := fun _ hk => hk
  generalize hr : deleteNode ord id db = r at hends
  -- where the deletion stops decides what has reached the file
  cases hends with
  | @edgeRefused n inner cache hn hpoint hvalid hview =>
    rw [Raises.iff_of_error hr, h.after_iff (fun k => List.mem_of_mem_take) hvalid hview]
    rw [hw, Nat.zero_add] at hpoint
    have hzero : (db.incidentEdges id).take n = [] ↔ n = 0 := by
      rw [← List.length_eq_zero_iff, List.length_take]
      omega
    rw [hzero]
    constructor
    · intro hsame
      constructor
      · intro m _ hm
        obtain rfl : n = m := FailPoint.write.inj (hpoint.symm.trans hm)
        exact ⟨hsame, fun hlast => absurd hlast hn.ne⟩
      · intro hl
        cases hpoint.symm.trans hl
    · intro hs
      exact (hs.write n hn.le hpoint).1
  | @lookupRefused inner cache hpoint hmiss hvalid hview =>
    rw [Raises.iff_of_error hr, h.after_iff hall hvalid hview, ← List.length_eq_zero_iff]
    rw [hw, Nat.zero_add] at hpoint
    constructor
    · intro hsame
      constructor
      · intro m _ hm
        cases hpoint.symm.trans hm
      · exact fun _ _ => hsame
    · intro hs
      exact hs.load hpoint hmiss
  | @nodeRefused inner cache hpoint hvalid hview =>
    rw [hw, Nat.zero_add] at hpoint
    rw [Raises.iff_of_error hr]
    have hafter : Agrees L (db.after (db.incidentEdges id).length inner cache) ↔ _ :=
      h.after_iff hall hvalid hview
    rw [← List.length_eq_zero_iff] at hafter
    constructor
    · intro ha
      -- the engine is untouched, so it fits the file only if no edge is gone
      have hengine : db.engine.Represents (L.graph inner) := by
        have := ha.engine
        cases hf : found L db id with
        | none => rwa [hf] at this
        | some node => rwa [hf] at this
      have hsame := h.closed_of_engine hall hview hengine
      rw [← List.length_eq_zero_iff] at hsame
      have hlisted := ((hafter.mpr hsame).unindex_iff (ord.sub 1) (found L db id)).mp ha
      constructor
      · intro m _ hm
        obtain rfl : _ = m := FailPoint.write.inj (hpoint.symm.trans hm)
        exact ⟨hsame, fun _ => hlisted⟩
      · intro hl
        cases hpoint.symm.trans hl
    · intro hs
      obtain ⟨hsame, hlisted⟩ := hs.write _ le_rfl hpoint
      exact ((hafter.mpr hsame).unindex_iff (ord.sub 1) (found L db id)).mpr (hlisted rfl)
  | done hpoint hload hview hvalid hgraph =>
    refine ⟨fun _ => ⟨fun m hm he => ?_, fun he hmiss => ?_⟩, fun _ => .of_ok hr⟩
    · have := hpoint m hm
      rw [hw, Nat.zero_add] at this
      exact absurd he this
    · rw [hw, Nat.zero_add] at hload
      have := hload he
      rw [hmiss] at this
      cases this

/-! ## Every operation -/

/-- The four operations that write. -/
inductive Mutation where
  | insertNode (label : String) (properties : Properties)
  | insertEdge (source target : NodeId) (label : String) (weight : F64) (properties : Properties)
  | deleteNode (id : NodeId)
  | deleteEdge (id : EdgeId)

def mutate {S C : Type} [StoragePort S] [CachePort C] (ord : HashOrder) :
    Mutation → DatabaseAction S C Unit
  | .insertNode label properties => do
    let _ ← insertNode ord label properties
  | .insertEdge source target label weight properties => do
    let _ ← insertEdge ord source target label weight properties
  | .deleteNode id => deleteNode ord id
  | .deleteEdge id => deleteEdge ord id

/-- Only the deletion of a node can be interrupted half way. -/
def Spares (L : StorageSpec S) (db : LayeredGraphDatabase (Faulty S) C) : Mutation → Prop
  | .deleteNode id => SparesNode L id db
  | _ => True

/-- After an error engine, indexes and storage agree exactly if the failing call spares them. -/
theorem agrees_after_error_iff (L : StorageSpec S) (ord : HashOrder) (m : Mutation)
    (db : LayeredGraphDatabase (Faulty S) C) (h : Agrees L db) (hw : db.storage.writes = 0) :
    Raises (mutate ord m) db (fun _ db' => Agrees L db') ↔ Spares L db m := by
  cases m with
  | insertNode label properties =>
    refine iff_of_true (Raises.bind (fun e db' he => ?_) fun _ _ _ => .pure ()) trivial
    rw [insertNode_raises ord label properties e db' he]
    exact ⟨h.valid, h.engine, h.labels, h.properties⟩
  | insertEdge source target label weight properties =>
    refine iff_of_true (Raises.bind (fun e db' he => ?_) fun _ _ _ => .pure ()) trivial
    obtain ⟨ids, rfl⟩ := insertEdge_raises ord source target label weight properties e db' he
    exact ⟨h.valid, h.engine, h.labels, h.properties⟩
  | deleteNode id => exact deleteNode_raises_iff h hw ord
  | deleteEdge id =>
    refine iff_of_true (fun e db' he => ?_) trivial
    rw [deleteEdge_raises ord id e db' he]
    exact h

/-! ## A single node -/

/-- A database with one node and no edge, whose storage has a failing call ahead. -/
def oneNode (point : FailPoint) : LayeredGraphDatabase (Faulty BinaryFileStorage) NoCache where
  engine := AdjacencyListEngine.new.insertNode ⟨0⟩
  cache := .mk
  storage :=
    { inner := ⟨header ++ encodeLog [(.sorted, .upsertNode ⟨⟨0⟩, "A", ∅⟩)]⟩
      writes := 0
      point := point
      error := .storageIo "no space left on device" }
  labelIndex := LabelIndex.new.insert ⟨0⟩ "A"
  propertyIndex := .new
  idGenerator := ⟨1, 0⟩
  config := .unrestricted
  writesSinceCompact := 1

theorem oneNode_log : LogFits [(.sorted, .upsertNode ⟨⟨0⟩, "A", ∅⟩)] := by
  intro p hp
  cases List.mem_singleton.mp hp
  decide

theorem oneNode_graph (point : FailPoint) :
    BinaryFileStorage.spec.graph (oneNode point).storage.inner =
      PlainGraph.empty.insertNode ⟨⟨0⟩, "A", ∅⟩ :=
  congrArg (fun st : ReplayState => (⟨st.nodes, st.edges⟩ : PlainGraph))
    (BinaryFileStorage.view_log oneNode_log)

theorem oneNode_agrees (point : FailPoint) : Agrees BinaryFileStorage.spec (oneNode point) := by
  let node : Node := ⟨⟨0⟩, "A", ∅⟩
  have hfresh : PlainGraph.empty.nodes[node.id]? = none := by decide +kernel
  have hengine := AdjacencyListEngine.Represents.new.insertNode node
  have hlabels := LabelIndex.Represents.new.insertNode hfresh
  have hnew : PropertyIndex.new.Covers .unrestricted .empty := by
    intro field
    rw [if_pos (DatabaseConfig.shouldIndexField_of_all rfl field)]
    exact .new
  have hproperties := hnew.insertNode .sorted hfresh
  rw [show indexNode .sorted .unrestricted node .new = .new by decide +kernel] at hproperties
  refine ⟨⟨_, oneNode_log, rfl⟩, ?_, ?_, ?_⟩ <;> rw [oneNode_graph]
  · exact hengine
  · exact hlabels
  · exact hproperties

/-- The deletion of a node without edges fails at its lookup; nothing has changed. -/
theorem agrees_after_error_iff_example :
    Raises (mutate .sorted (.deleteNode ⟨0⟩)) (oneNode (.load 0))
      fun _ db' => Agrees BinaryFileStorage.spec db' := by
  have hincident : ((oneNode (.load 0)).incidentEdges ⟨0⟩).length = 0 := by decide +kernel
  apply (agrees_after_error_iff BinaryFileStorage.spec .sorted (.deleteNode ⟨0⟩) (oneNode (.load 0))
    (oneNode_agrees _) rfl).mpr
  constructor
  · intro n _ hp
    cases hp
  · exact fun _ _ => .inl hincident

/-- The storage refuses the deletion of the node, which the indexes have already forgotten. -/
theorem refused_deletion_splits : Agrees BinaryFileStorage.spec (oneNode (.write 0)) ∧
    (oneNode (.write 0)).storage.writes = 0 ∧
    ∃ e db', mutate .sorted (.deleteNode ⟨0⟩) (oneNode (.write 0)) = (.error e, db') ∧
      ¬ Agrees BinaryFileStorage.spec db' := by
  have hdelete : mutate .sorted (.deleteNode ⟨0⟩) (oneNode (.write 0)) =
      (.error (.storageIo "no space left on device"),
        { oneNode (.write 0) with labelIndex := .new }) := by decide +kernel
  refine ⟨oneNode_agrees _, rfl, _, _, hdelete, fun ha => ?_⟩
  have hlabels := ha.labels
  rw [show BinaryFileStorage.spec.graph _ = _ from oneNode_graph (.write 0)] at hlabels
  have hlisted : (⟨0⟩ : NodeId) ∈ LabelIndex.new.get "A" :=
    (Grouped.mem_iff hlabels).mpr ⟨⟨⟨0⟩, "A", ∅⟩, by decide +kernel, rfl, rfl⟩
  revert hlisted
  decide

end LayeredGraphDatabase

end AdGraphDb
