import AdGraphDb.Engine.Removal
import AdGraphDb.Index.Complete
import AdGraphDb.Database.Transparency

/-!
# Is an indexed field indexed completely?

A query on a field that has an index never falls back to the scan. The index is filled
when the database opens, by `insert_node` and by a commit; the commit alone indexes fields
that the configuration leaves out.
-/

namespace AdGraphDb
open Std AdGraphDb.Action ReplayState

namespace LayeredGraphDatabase

variable {S C : Type} [FileStorage S] [LawfulCachePort C] {L : StorageSpec S}
  {db db' : LayeredGraphDatabase S C}

/-- The fields that the configuration selects. -/
def Tracks (db : LayeredGraphDatabase S C) (field : String) : Prop :=
  db.config.shouldIndexField field = true

/-- What a lookup of a live node may find once the open bracket is committed, unless the
transaction deletes the node by then. -/
def Shows (L : StorageSpec S) (doomed : NodeId → Prop) (db : LayeredGraphDatabase S C) (id : NodeId)
    (node : Node) : Prop :=
  db.engine.containsNode id = true ∧ ¬doomed id ∧
    (LawfulCachePort.nodeAt db.cache id = some node ∨
      (L.view db.storage).committed.1[id]? = some node)

/-- The index lists what is shown, also while a bracket is open. -/
structure Indexed (L : StorageSpec S) (txnId? : Option UInt64) (doomed : NodeId → Prop)
    (db : LayeredGraphDatabase S C) : Prop where
  valid : L.Valid db.storage
  bracket : ∀ b, (L.view db.storage).txnBuffer = some b → txnId? = some b.txnId
  dropped : ∀ id, (L.view db.storage).DropsNode id → ¬(L.view db.storage).InsertsNode id →
    db.engine.containsNode id = false
  complete : db.propertyIndex.Complete db.Tracks (db.Shows L doomed)

variable {txnId? : Option UInt64} {doomed doomed' : NodeId → Prop}

theorem Indexed.closed (h : Indexed L none doomed db) : (L.view db.storage).txnBuffer = none := by
  cases hb : (L.view db.storage).txnBuffer with
  | none => rfl
  | some b => cases h.bracket b hb

/-- Fewer nodes stay. -/
theorem Indexed.doom (h : Indexed L txnId? doomed db) (hd : ∀ id, doomed id → doomed' id) :
    Indexed L txnId? doomed' db := by
  refine ⟨h.valid, h.bracket, h.dropped, h.complete.mono ?_⟩
  rintro id n ⟨hlive, hdoom, hshown⟩
  exact ⟨hlive, fun hdead => hdoom (hd id hdead), hshown⟩

/-- The stored nodes that a compaction inside the bracket brings back, because insertions
of their ids are lost, are indexed. -/
def BringsBackIndexed (L : StorageSpec S) (doomed : NodeId → Prop)
    (db : LayeredGraphDatabase S C) : Prop :=
  db.propertyIndex.Complete db.Tracks fun id node => db.engine.containsNode id = true ∧
    ¬doomed id ∧ (L.view db.storage).InsertsNode id ∧ (L.view db.storage).nodes[id]? = some node

omit [LawfulCachePort C] in
/-- Nothing is lost outside a bracket. -/
theorem BringsBackIndexed.of_closed (h : (L.view db.storage).txnBuffer = none) :
    BringsBackIndexed L doomed db := by
  rintro field - id n v ⟨-, -, ⟨b, hb, -⟩, -⟩
  rw [h] at hb
  cases hb

/-- Counting a write may compact. -/
theorem Indexed.settled (h : Indexed L txnId? doomed db) (hs : Settled L db db')
    (hback : db.due = true → BringsBackIndexed L doomed db) : Indexed L txnId? doomed db' := by
  have htracks : db'.Tracks = db.Tracks := by
    funext field
    unfold Tracks
    rw [hs.config]
  cases hd : db.due with
  | false =>
    -- only the count has changed
    obtain ⟨-, hstorage, hcache⟩ := hs.kept hd
    refine ⟨hs.valid, ?_, ?_, ?_⟩
    · rw [hstorage]
      exact h.bracket
    · rw [hstorage, hs.engine]
      exact h.dropped
    · rw [hs.propertyIndex, htracks]
      apply h.complete.mono
      intro id n hn
      unfold Shows at hn
      rw [hs.engine, hcache, hstorage] at hn
      exact hn
  | true =>
    -- the compaction has closed the bracket and cleared the cache
    obtain ⟨-, hview, hcache⟩ := hs.compacted hd
    have hnone : (L.view db'.storage).txnBuffer = none := by rw [hview]
    refine ⟨hs.valid, ?_, ?_, ?_⟩
    · intro b hb
      rw [hnone] at hb
      cases hb
    · rintro id ⟨b, hb, -⟩
      rw [hnone] at hb
      cases hb
    · rw [hs.propertyIndex, htracks]
      intro field hf id n v hn hv
      obtain ⟨hlive, hdoom, hcached | hstored⟩ := hn
      · rw [hcache, LawfulCachePort.nodeAt_clear] at hcached
        cases hcached
      · rw [hs.engine] at hlive
        rw [committed_of_none hnone, hview] at hstored
        -- an insertion that waited is lost, and what is stored under its id comes back
        by_cases hins : (L.view db.storage).InsertsNode id
        · exact hback hd field hf id n v ⟨hlive, hdoom, hins, hstored⟩ hv
        · have hdrop : ¬(L.view db.storage).DropsNode id := by
            intro hdrop
            rw [h.dropped id hdrop hins] at hlive
            cases hlive
          exact h.complete field hf id n v
            ⟨hlive, hdoom, .inr ((committed_node_untouched hins hdrop).trans hstored)⟩ hv

/-- The second database is the first one after the records of some deletions. -/
structure Drops (L : StorageSpec S) (rs : List RecordData) (db db' : LayeredGraphDatabase S C) :
    Prop where
  plain : ∀ r ∈ rs, r.isMarker = false ∧ ∀ n, r ≠ .upsertNode n
  valid : L.Valid db'.storage
  view : L.view db'.storage = (L.view db.storage).run rs
  config : db'.config = db.config
  live : ∀ id, db'.engine.containsNode id = true →
    db.engine.containsNode id = true ∧ .deleteNode id ∉ rs
  cache : ∀ id n, LawfulCachePort.nodeAt db'.cache id = some n →
    LawfulCachePort.nodeAt db.cache id = some n
  index : ∀ shows, db.propertyIndex.Complete db.Tracks shows →
    db'.propertyIndex.Complete db'.Tracks fun id n => .deleteNode id ∉ rs ∧ shows id n

variable {rs : List RecordData}

theorem Indexed.drops (h : Indexed L txnId? doomed db) (hd : Drops L rs db db')
    (hdoomed : ∀ id, .deleteNode id ∉ rs → doomed id → doomed' id) :
    Indexed L txnId? doomed' db' := by
  have hplain : ∀ r ∈ rs, r.isMarker = false := fun r hmem => (hd.plain r hmem).1
  refine ⟨hd.valid, ?_, ?_, ?_⟩
  · intro b hb
    rw [hd.view] at hb
    obtain ⟨b₀, hb₀, hid⟩ := run_txnId hplain hb
    exact hid ▸ h.bracket b₀ hb₀
  · intro id hdrop hins
    rw [hd.view] at hdrop hins
    by_contra hcontains
    obtain ⟨hlive, hkept⟩ := hd.live id (Bool.eq_true_of_not_eq_false hcontains)
    -- dropped before, or by one of the records, which keep no such node
    rcases dropsNode_run hplain hdrop with hold | hnew
    · have hdead := h.dropped id hold fun hi => hins (insertsNode_run hplain hi)
      rw [hdead] at hlive
      cases hlive
    · exact hkept hnew
  · apply (hd.index _ h.complete).mono
    rintro id n ⟨hlive', hdoom, hshown⟩
    obtain ⟨hlive, hkept⟩ := hd.live id hlive'
    -- the records are about nodes that do not stay
    have hother : ∀ r ∈ rs, ∀ u, r.nodeUpdate? = some u → u.key ≠ id := by
      intro r hmem u hu hid
      cases r with
      | upsertNode m => exact (hd.plain _ hmem).2 m rfl
      | deleteNode i =>
        cases hu
        exact hkept (hid ▸ hmem)
      | _ => cases hu
    refine ⟨hkept, hlive, fun hdead => hdoom (hdoomed id hkept hdead), ?_⟩
    rw [hd.view, committed_node_run hplain hother] at hshown
    exact hshown.imp_left (hd.cache id n)

theorem BringsBackIndexed.drops (h : BringsBackIndexed L doomed db) (hd : Drops L rs db db')
    (hdoomed : ∀ id, .deleteNode id ∉ rs → doomed id → doomed' id) :
    BringsBackIndexed L doomed' db' := by
  apply (hd.index _ h).mono
  rintro id n ⟨hlive', hdoom, hins, hstored⟩
  obtain ⟨hlive, hkept⟩ := hd.live id hlive'
  rw [hd.view] at hins hstored
  obtain ⟨hins₀, hnodes⟩ := insertsNode_of_run hd.plain hins
  rw [hnodes] at hstored
  exact ⟨hkept, hlive, fun hdead => hdoom (hdoomed id hkept hdead), hins₀, hstored⟩

/-! ## The methods -/

theorem deleteEdge_indexed (ord : HashOrder) (id : EdgeId) (h : Indexed L txnId? doomed db)
    (hback : db.due = true → BringsBackIndexed L doomed db) :
    Returns (deleteEdge ord id) db fun _ db' => Indexed L txnId? doomed db' := by
  apply Returns.mono (deleteEdge_returns L ord id h.valid)
  rintro - db' ⟨storage, hv, hview, hs⟩
  have hd : Drops L [.deleteEdge id] db { db with
      storage := storage
      cache := CachePort.invalidateEdge id db.cache
      engine := db.engine.removeEdge id } := {
    plain := by simp [RecordData.isMarker]
    valid := hv
    view := hview
    config := rfl
    live := by
      intro j hj
      have hshrunk := (AdjacencyListEngine.shrunk_removeEdge db.engine id).1
      exact ⟨hshrunk.containsNode hj, by simp⟩
    cache := by
      intro j n hn
      rwa [show LawfulCachePort.nodeAt (CachePort.invalidateEdge id db.cache) = _ from
        LawfulCachePort.nodeAt_invalidateEdge id db.cache] at hn
    index := fun shows hc => hc.mono fun _ _ hn => hn.2 }
  have hkept : ∀ j, RecordData.deleteNode j ∉ [RecordData.deleteEdge id] → doomed j → doomed j :=
    fun _ _ hj => hj
  exact (h.drops hd hkept).settled hs fun hdue => (hback hdue).drops hd hkept

theorem deleteNode_indexed (ord : HashOrder) (id : NodeId) (h : Indexed L txnId? doomed db)
    (hback : db.due = true → BringsBackIndexed L doomed db)
    (hdoomed : ∀ j ≠ id, doomed j → doomed' j) :
    Returns (deleteNode ord id) db fun _ db' => Indexed L txnId? doomed' db' := by
  apply Returns.mono (deleteNode_returns L ord id h.valid)
  rintro - db' ⟨storage, cache, hv, hview, hdropped, hs⟩
  generalize nodeValue L db id = found at hs
  have hrun : L.view storage = (L.view db.storage).run
      ((db.incidentEdges id).map .deleteEdge ++ [.deleteNode id]) := by
    rw [hview, run_append]
    rfl
  have hmem (j : NodeId) :
      RecordData.deleteNode j ∈ (db.incidentEdges id).map .deleteEdge ++ [.deleteNode id] ↔
        j = id := by
    simp
  -- the records of the edges, then that of the node
  have hd : Drops L ((db.incidentEdges id).map .deleteEdge ++ [.deleteNode id]) db
      { unindex (ord.sub 1) id found db with
        storage := storage
        cache := cache
        engine := db.engine.removeNode (ord.sub 2) id } := {
    plain := by
      intro r hr
      rcases List.mem_append.mp hr with hr | hr
      · obtain ⟨k, -, rfl⟩ := List.mem_map.mp hr
        exact ⟨rfl, fun n => by simp⟩
      · obtain rfl := List.mem_singleton.mp hr
        exact ⟨rfl, fun n => by simp⟩
    valid := hv
    view := hrun
    config := by cases found <;> rfl
    live := by
      intro j hj
      obtain ⟨hshrunk, hgone⟩ :=
        AdjacencyListEngine.shrunk_removeNode db.engine (ord.sub 2) id
      refine ⟨hshrunk.containsNode hj, fun hdel => ?_⟩
      rw [(hmem j).mp hdel] at hj
      change ((db.engine.removeNode (ord.sub 2) id).outgoing[id]?).isSome = true at hj
      rw [hgone] at hj
      cases hj
    cache := fun j n hn => (hdropped.node j n hn).2
    index := by
      intro shows hc
      cases found with
      | none => exact hc.mono fun _ _ hn => hn.2
      | some node =>
        apply (hc.removeNode (ord.sub 1) id node).mono
        intro j n hn
        exact ⟨fun hj => hn.1 ((hmem j).mpr hj), hn.2⟩ }
  have hkept (j : NodeId) (hj : RecordData.deleteNode j ∉
      (db.incidentEdges id).map .deleteEdge ++ [.deleteNode id]) : doomed j → doomed' j :=
    hdoomed j fun heq => hj ((hmem j).mpr heq)
  apply (h.drops hd hkept).settled hs
  intro hdue
  have hdue' : db.due = true := by
    cases found <;> exact hdue
  exact (hback hdue').drops hd hkept

/-- A node is saved, cached and indexed; who else is shown was shown before. -/
theorem Indexed.upsertNode (h : Indexed L txnId? doomed db) (ord : HashOrder) {node : Node}
    (hv : L.Valid db'.storage)
    (hview : L.view db'.storage = (L.view db.storage).applyRecord (.upsertNode node))
    (hcache : db'.cache = CachePort.putNode ord node db.cache)
    (hengine : db'.engine = db.engine.insertNode node.id)
    (hindex : db'.propertyIndex.Complete db'.Tracks fun id n => (id = node.id ∧ n = node) ∨
      id ≠ node.id ∧ db.Shows L doomed id n) : Indexed L txnId? doomed db' := by
  have hplain : ∀ r ∈ [RecordData.upsertNode node], r.isMarker = false := by
    simp [RecordData.isMarker]
  have hrun : L.view db'.storage = (L.view db.storage).run [.upsertNode node] := hview
  have hlive {id : NodeId} (hne : id ≠ node.id) :
      db'.engine.containsNode id = db.engine.containsNode id := by
    rw [hengine]
    unfold AdjacencyListEngine.containsNode AdjacencyListEngine.insertNode
    dsimp only
    rw [HashMap.getElem?_entryOrDefault, if_neg (Ne.symm hne)]
  refine ⟨hv, ?_, ?_, ?_⟩
  · intro b hb
    rw [hrun] at hb
    obtain ⟨b₀, hb₀, hid⟩ := run_txnId hplain hb
    exact hid ▸ h.bracket b₀ hb₀
  · intro id hdrop hins
    rw [hrun] at hdrop hins
    have hdrop₀ : (L.view db.storage).DropsNode id := by
      rcases dropsNode_run hplain hdrop with hold | hnew
      · exact hold
      · simp at hnew
    have hne : id ≠ node.id := by
      rintro rfl
      obtain ⟨b, hb, -⟩ := hdrop₀
      exact hins (insertsNode_upsertNode hb node)
    rw [hlive hne]
    exact h.dropped id hdrop₀ fun hi => hins (insertsNode_run hplain hi)
  · apply hindex.mono
    rintro id n ⟨hcontains, hdoom, hshown⟩
    rw [hcache, hview] at hshown
    -- the node itself, or one that was shown before
    by_cases hid : id = node.id
    · left
      refine ⟨hid, ?_⟩
      subst hid
      rcases hshown with hcached | hstored
      · have hput := LawfulCachePort.nodeAt_putNode ord node db.cache node.id n hcached
        rwa [if_pos rfl] at hput
      · exact eq_of_committed_upsertNode hstored
    · right
      rw [hlive hid] at hcontains
      refine ⟨hid, hcontains, hdoom, hshown.imp ?_ ?_⟩
      · intro hcached
        have hput := LawfulCachePort.nodeAt_putNode ord node db.cache id n hcached
        rwa [if_neg hid] at hput
      · intro hstored
        rwa [committed_node_other rfl] at hstored
        intro u hu
        cases hu
        exact Ne.symm hid

theorem insertNode_indexed (ord : HashOrder) {label : String} {properties : Properties}
    (h : Indexed L none doomed db)
    (hn : L.NodeStorable ⟨⟨db.idGenerator.nextNode⟩, label, properties⟩)
    (hnew : ∀ field v, properties[field]? = some v → db.config.shouldIndexField field = false →
      db.propertyIndex.isIndexed field = false) :
    Returns (insertNode ord label properties) db fun _ db' => Indexed L none doomed db' := by
  apply Returns.mono (insertNode_returns L ord label properties h.valid hn)
  rintro id db' ⟨-, storage, hv, hview, hs⟩
  have hothers : db.propertyIndex.Complete db.Tracks fun j n =>
      j ≠ id ∧ db.Shows L doomed j n := h.complete.mono fun _ _ hn => hn.2
  have hindex := hothers.indexed (fields_indexNode (ord.sub 2) db.config ⟨id, label, properties⟩
    db.propertyIndex) hnew
  apply Indexed.settled _ hs
  · intro _
    apply BringsBackIndexed.of_closed
    rw [hview, applyRecord_txnBuffer, h.closed]
    rfl
  · exact h.upsertNode (ord.sub 1) hv hview rfl rfl hindex

/-- An edge is saved and cached between live nodes. -/
theorem Indexed.upsertEdge (h : Indexed L txnId? doomed db) (ord : HashOrder) {edge : Edge}
    (hsource : db.engine.containsNode edge.source = true) (hv : L.Valid db'.storage)
    (hview : L.view db'.storage = (L.view db.storage).applyRecord (.upsertEdge edge))
    (hcache : db'.cache = CachePort.putEdge ord edge db.cache)
    (hengine : db'.engine = db.engine.insertEdge edge.id edge.source edge.target edge.weight)
    (hindex : db'.propertyIndex = db.propertyIndex) (hconfig : db'.config = db.config) :
    Indexed L txnId? doomed db' := by
  have hd : Drops L [.upsertEdge edge] db db' := {
    plain := by simp [RecordData.isMarker]
    valid := hv
    view := hview
    config := hconfig
    live := by
      intro id hid
      rw [hengine] at hid
      unfold AdjacencyListEngine.containsNode AdjacencyListEngine.insertEdge at hid
      dsimp only at hid
      rw [HashMap.getElem?_entryOrDefault] at hid
      refine ⟨?_, by simp⟩
      split_ifs at hid with hs
      · exact hs ▸ hsource
      · exact hid
    cache := by
      intro id n hn
      rwa [hcache, LawfulCachePort.nodeAt_putEdge] at hn
    index := by
      intro shows hc
      unfold Tracks
      rw [hindex, hconfig]
      exact hc.mono fun _ _ hn => hn.2 }
  exact h.drops hd fun _ _ hdead => hdead

theorem insertEdge_indexed (ord : HashOrder) {source target : NodeId} {label : String}
    {weight : F64} {properties : Properties} (h : Indexed L none doomed db)
    (he : db.hasEnds source target = true →
      L.EdgeStorable ⟨⟨db.idGenerator.nextEdge⟩, source, target, label, weight, properties⟩) :
    Indexed L none doomed (insertEdge ord source target label weight properties db).2 := by
  rcases insertEdge_cases ord h.valid he with heq | ⟨hsource, id, storage, hv, hview, hs⟩
  · rw [heq]
    exact h
  · apply Indexed.settled _ hs
    · intro _
      apply BringsBackIndexed.of_closed
      rw [hview, applyRecord_txnBuffer, h.closed]
      rfl
    · exact h.upsertEdge (ord.sub 1) hsource hv hview rfl rfl rfl rfl

/-- Only the cache changes, and what it has learned is stored. -/
theorem Indexed.of_cache (h : Indexed L none doomed db) {cache : C}
    (hc : ∀ id n, LawfulCachePort.nodeAt cache id = some n →
      LawfulCachePort.nodeAt db.cache id = some n ∨ (L.view db.storage).nodes[id]? = some n) :
    Indexed L none doomed { db with cache := cache } := by
  refine ⟨h.valid, h.bracket, h.dropped, h.complete.mono ?_⟩
  rintro id n ⟨hlive, hdoom, hcached | hstored⟩
  · refine ⟨hlive, hdoom, (hc id n hcached).imp_right fun hstored => ?_⟩
    rw [committed_of_none h.closed]
    exact hstored
  · exact ⟨hlive, hdoom, .inr hstored⟩

theorem getNode_indexed (ord : HashOrder) (id : NodeId) (h : Indexed L none doomed db) :
    Returns (getNode ord id) db fun _ db' => Indexed L none doomed db' := by
  apply Returns.mono (getNode_returns L ord id h.valid)
  rintro _ _ ⟨-, cache, rfl, hloaded⟩
  apply h.of_cache
  intro j n hn
  rcases hloaded.node j n hn with hold | ⟨rfl, hvalue⟩
  · exact .inl hold
  · exact (Option.or_eq_some_iff.mp hvalue).imp_right fun h => h.2

theorem getEdge_indexed (ord : HashOrder) (id : EdgeId) (h : Indexed L none doomed db) :
    Returns (getEdge ord id) db fun _ db' => Indexed L none doomed db' := by
  apply Returns.mono (getEdge_returns L ord id h.valid)
  rintro _ _ ⟨-, cache, rfl, hloaded⟩
  apply h.of_cache
  intro j n hn
  rw [hloaded.node] at hn
  exact .inl hn

theorem compact_indexed (ord : HashOrder) (h : Indexed L none doomed db) :
    Returns (compact ord) db fun _ db' => Indexed L none doomed db' := by
  apply Returns.mono (compact_returns L ord db h.valid)
  rintro - _ ⟨storage, rfl, hv, hview⟩
  have hnone : (L.view storage).txnBuffer = none := by rw [hview]
  refine ⟨hv, fun b hb => ?_, ?_, h.complete.mono ?_⟩
  · rw [hnone] at hb
    cases hb
  · rintro id ⟨b, hb, -⟩
    rw [hnone] at hb
    cases hb
  · rintro id n ⟨hlive, hdoom, hcached | hstored⟩
    · rw [LawfulCachePort.nodeAt_clear] at hcached
      cases hcached
    · rw [committed_of_none hnone, hview] at hstored
      refine ⟨hlive, hdoom, .inr ?_⟩
      rw [committed_of_none h.closed]
      exact hstored

/-- A query keeps what the lookups keep. -/
theorem lookUp_keeps {I : LayeredGraphDatabase S C → Prop}
    (hnode : ∀ ord id db, I db → Returns (getNode ord id) db fun _ db' => I db')
    (hedge : ∀ ord id db, I db → Returns (getEdge ord id) db fun _ db' => I db')
    (ord : HashOrder) (q : Lookup) (h : I db) :
    Returns (lookUp ord q) db fun _ db' => I db' := by
  have hloadNodes (ord : HashOrder) (ids : List NodeId) {db : LayeredGraphDatabase S C} (h : I db) :
      Returns (loadNodes ord ids) db fun _ db' => I db' :=
    .filterMap_inv (fun _ db hdb => hnode _ _ db hdb) ids h
  have hloadEdges (ord : HashOrder) (ids : List EdgeId) {db : LayeredGraphDatabase S C} (h : I db) :
      Returns (loadEdges ord ids) db fun _ db' => I db' :=
    .filterMap_inv (fun _ db hdb => hedge _ _ db hdb) ids h
  have hall : Returns (allNodes ord) db fun _ db' => I db' := .bind_read (hloadNodes _ _ h)
  -- a lookup loads some ids, or reads the engine or the label index
  cases q with
  | getNode id => exact (hnode ord id db h).bind fun _ _ h => .pure h
  | getEdge id => exact (hedge ord id db h).bind fun _ _ h => .pure h
  | allNodes => exact hall.bind fun _ _ h => .pure h
  | allEdges =>
    have hids : Returns (allEdges ord) db fun _ db' => I db' := .bind_read (hloadEdges _ _ h)
    exact hids.bind fun _ _ h => .pure h
  | nodesByLabel label =>
    have hids : Returns (nodesByLabel ord label) db fun _ db' => I db' :=
      .bind_read (hloadNodes _ _ h)
    exact hids.bind fun _ _ h => .pure h
  | nodesByProperty field op value =>
    have hids : Returns (nodesByProperty ord field op value) db fun _ db' => I db' := by
      apply Returns.bind_read
      cases db.propertyIndex.query field op value with
      | some ids => exact hloadNodes _ _ h
      | none => exact hall.bind fun _ _ h => .pure h
    exact hids.bind fun _ _ h => .pure h
  | nodeCount => exact .read h
  | edgeCount => exact .read h
  | labelCount label => exact .read h
  | neighborsOutgoing id => exact .read h
  | neighborsIncoming id => exact .read h

/-! ## Committing -/

/-- One of the operations deletes the node. -/
def Doomed (ops : List StagedOp) (id : NodeId) : Prop := .deleteNode id ∈ ops

/-- What keeps the index complete at a staged operation that `rest` follow. An insertion
may start the index of a field that the configuration leaves out only if no other node
carries the field, apart from nodes that the transaction deletes. A deletion that triggers
a compaction loses the insertions that wait in the bracket; the stored nodes of their ids
must be indexed. -/
def StaysIndexed (L : StorageSpec S) (rest : List StagedOp) (db : LayeredGraphDatabase S C) :
    StagedOp → Prop
  | .insertNode node => L.NodeStorable node ∧
    ∀ field v, node.properties[field]? = some v → db.config.shouldIndexField field = false →
      db.propertyIndex.isIndexed field = false →
      ∀ id n, id ≠ node.id → db.Shows L (Doomed rest) id n → n.properties[field]? = none
  | .insertEdge edge => db.hasEnds edge.source edge.target = true → L.EdgeStorable edge
  | .deleteNode id =>
    db.due = true → BringsBackIndexed L (Doomed (.deleteNode id :: rest)) db
  | .deleteEdge id =>
    db.due = true → BringsBackIndexed L (Doomed (.deleteEdge id :: rest)) db

/-- The same for the operations that the loop of a commit gets to. -/
def StaysIndexedAlong (L : StorageSpec S) (txnId : UInt64) :
    HashOrder → CommitResult → List StagedOp → LayeredGraphDatabase S C → Prop
  | _, _, [], _ => True
  | ord, result, op :: ops, db => StaysIndexed L ops db op ∧
    ∀ result' db', commitOp (ord.sub 0) txnId result op db = (.ok result', db') →
      StaysIndexedAlong L txnId (ord.sub 1) result' ops db'

/-- The same for a transaction that is about to be committed. -/
def StaysIndexedCommit (L : StorageSpec S) (ord : HashOrder) (txn : Transaction)
    (db : LayeredGraphDatabase S C) : Prop :=
  StaysIndexedAlong L txn.txnId (ord.sub 0) .default txn.operations
    { db with storage := (StoragePort.beginWalTransaction txn.txnId db.storage).2 }

variable {txnId : UInt64}

theorem commitOp_indexed {ord : HashOrder} {result result' : CommitResult} {op : StagedOp}
    {rest : List StagedOp} (h : Indexed L txnId? (Doomed (op :: rest)) db)
    (hs : StaysIndexed L rest db op)
    (hrun : commitOp ord txnId result op db = (.ok result', db')) :
    Indexed L txnId? (Doomed rest) db' := by
  cases op with
  | insertNode node =>
    obtain ⟨storage, hsave, rfl⟩ := commitOp_insertNode_ok hrun
    obtain ⟨hv, hview⟩ :=
      (L.write_plain (ord.sub 0) (r := .upsertNode node) rfl h.valid hs.1).of_eq hsave
    have h' : Indexed L txnId? (Doomed rest) db := h.doom fun id hd => by simpa [Doomed] using hd
    have hothers : db.propertyIndex.Complete db.Tracks fun id n =>
        id ≠ node.id ∧ db.Shows L (Doomed rest) id n := h'.complete.mono fun _ _ hn => hn.2
    -- a field that gets its index here is carried by no other node
    have hfirst (field : String) (v : Value) (hv : node.properties[field]? = some v)
        (hout : ¬db.Tracks field) (hnew : db.propertyIndex.isIndexed field = false) (id : NodeId)
        (n : Node) (hn : id ≠ node.id ∧ db.Shows L (Doomed rest) id n) :
        n.properties[field]? = none :=
      hs.2 field v hv (Bool.not_eq_true _ ▸ hout) hnew id n hn.1 hn.2
    have hindex := hothers.insertNode (ord.sub 2) hfirst
    exact h'.upsertNode (ord.sub 1) hv hview rfl rfl hindex
  | insertEdge edge =>
    cases hends : db.hasEnds edge.source edge.target with
    | false =>
      obtain ⟨id, herr⟩ := commitInsertEdge_of_not_hasEnds ord txnId edge result hends
      cases hrun.symm.trans herr
    | true =>
      obtain ⟨storage, hsave, rfl⟩ := commitOp_insertEdge_ok hrun
      obtain ⟨hv, hview⟩ :=
        (L.write_plain (ord.sub 0) (r := .upsertEdge edge) rfl h.valid (hs hends)).of_eq hsave
      have h' : Indexed L txnId? (Doomed rest) db :=
        h.doom fun id hd => by simpa [Doomed] using hd
      obtain ⟨hsource, -⟩ := (Bool.and_eq_true_iff).mp hends
      exact h'.upsertEdge (ord.sub 1) hsource hv hview rfl rfl rfl rfl
  | deleteNode id =>
    -- once deleted the node need not be shown any more
    have hdoomed : ∀ j ≠ id, Doomed (.deleteNode id :: rest) j → Doomed rest j := by
      intro j hne hd
      simpa [Doomed, hne] using hd
    have hop : Returns (commitOp ord txnId result (.deleteNode id)) db fun _ db' =>
        Indexed L txnId? (Doomed rest) db' :=
      (deleteNode_indexed ord id h hs hdoomed).bind fun _ _ h => .pure h
    exact hop.of_eq hrun
  | deleteEdge id =>
    have hop : Returns (commitOp ord txnId result (.deleteEdge id)) db fun _ db' =>
        Indexed L txnId? (Doomed (.deleteEdge id :: rest)) db' :=
      (deleteEdge_indexed ord id h hs).bind fun _ _ h => .pure h
    exact (hop.of_eq hrun).doom fun j hd => by simpa [Doomed] using hd

/-- The loop over the staged operations. -/
theorem commitOps_indexed {ord : HashOrder} {result result' : CommitResult} {ops : List StagedOp}
    (h : Indexed L txnId? (Doomed ops) db) (hs : StaysIndexedAlong L txnId ord result ops db)
    (hrun : commitOps ord txnId result ops db = (.ok result', db')) :
    Indexed L txnId? (Doomed []) db' := by
  induction ops generalizing ord result db with
  | nil =>
    cases hrun
    exact h
  | cons op ops ih =>
    cases hop : commitOp (ord.sub 0) txnId result op db with
    | mk r db₁ =>
      cases r with
      | error e =>
        have herr : commitOps ord txnId result (op :: ops) db = (.error e, db₁) := bind_error hop
        cases hrun.symm.trans herr
      | ok result₁ =>
        have hok : commitOps ord txnId result (op :: ops) db =
            commitOps (ord.sub 1) txnId result₁ ops db₁ := bind_ok hop
        exact ih (commitOp_indexed h hs.1 hop) (hs.2 result₁ db₁ hop) (hok.symm.trans hrun)

/-- The markers show nothing by themselves. -/
theorem Indexed.of_storage (h : Indexed L txnId? doomed db) {txnId?' : Option UInt64} {storage : S}
    (hv : L.Valid storage)
    (hbracket : ∀ b, (L.view storage).txnBuffer = some b → txnId?' = some b.txnId)
    (hdrop : ∀ id, (L.view storage).DropsNode id → (L.view db.storage).DropsNode id ∧
      ((L.view db.storage).InsertsNode id → (L.view storage).InsertsNode id))
    (hcommitted : (L.view storage).committed = (L.view db.storage).committed) :
    Indexed L txnId?' doomed { db with storage := storage } := by
  refine ⟨hv, hbracket, fun id hd hi => ?_, h.complete.mono ?_⟩
  · obtain ⟨hd₀, hi₀⟩ := hdrop id hd
    exact h.dropped id hd₀ fun hins => hi (hi₀ hins)
  · intro id n hn
    unfold Shows at hn
    rw [show L.view ({ db with storage := storage } : LayeredGraphDatabase S C).storage =
      L.view storage from rfl, hcommitted] at hn
    exact hn

theorem commitTransaction_indexed {ord : HashOrder} {txn : Transaction} {result : CommitResult}
    (h : Indexed L none (Doomed []) db) (hs : StaysIndexedCommit L ord txn db)
    (hrun : commitTransaction ord txn db = (.ok result, db')) :
    Indexed L none (Doomed []) db' := by
  obtain ⟨_, storage, hbegin, hv, hcommitted, hid, hdrop⟩ :=
    L.begin_returns txn.txnId h.valid h.closed
  -- inside the bracket, what the transaction deletes is left out
  have hopen : Indexed L (some txn.txnId) (Doomed txn.operations)
      { db with storage := storage } := by
    have hdoom : Indexed L none (Doomed txn.operations) db := h.doom fun id hd => by cases hd
    exact hdoom.of_storage hv (fun b hb => congrArg some (hid b hb).symm)
      (fun id hd => absurd hd (hdrop id)) hcommitted
  have hstart : on storageField (StoragePort.beginWalTransaction txn.txnId) db =
      (.ok (), { db with storage := storage }) := on_ok hbegin
  unfold StaysIndexedCommit at hs
  rw [hbegin] at hs
  have hrest := (bind_ok hstart).symm.trans hrun
  cases hloop : commitOps (ord.sub 0) txn.txnId .default txn.operations
      { db with storage := storage } with
  | mk r db₁ =>
    cases r with
    | error e => cases (bind_error hloop).symm.trans hrest
    | ok result₁ =>
      have hend := commitOps_indexed hopen hs hloop
      obtain ⟨_, storage₁, hcommit, hv₁, hcommitted₁, hclosed⟩ :=
        L.commit_returns txn.txnId hend.valid fun b hb =>
          (Option.some.inj (hend.bracket b hb)).symm
      have hmarked : on storageField (StoragePort.commitWalTransaction txn.txnId) db₁ =
          (.ok (), { db₁ with storage := storage₁ }) := on_ok hcommit
      have hrest₁ : Indexed L none (Doomed []) { db₁ with storage := storage₁ } := by
        apply hend.of_storage hv₁ _ _ hcommitted₁
        · intro b hb
          rw [hclosed] at hb
          cases hb
        · rintro id ⟨b, hb, -⟩
          rw [hclosed] at hb
          cases hb
      obtain ⟨_, db₂, hwrite, hsettled⟩ := onWrite_returns L (ord.sub 1) hrest₁.valid
      -- the marker and the count succeed, so the run is theirs
      have hall := (bind_ok hloop).symm.trans hrest
      have hall := (bind_ok hmarked).symm.trans hall
      have hall := (bind_ok hwrite).symm.trans hall
      cases hall
      exact hrest₁.settled hsettled fun _ => .of_closed hclosed

/-! ## Opening -/

omit [FileStorage S] [LawfulCachePort C] in
/-- Opening tells the index of every stored node. -/
theorem replayNodes_complete (ord : HashOrder) (nodes : List Node)
    {db : LayeredGraphDatabase S C} {shows : NodeId → Node → Prop}
    (h : db.propertyIndex.Complete db.Tracks shows)
    (hnone : ∀ field, db.config.shouldIndexField field = false →
      db.propertyIndex.isIndexed field = false) :
    (nodes.foldl (replayNode ord) db).propertyIndex.Complete
        (nodes.foldl (replayNode ord) db).Tracks
        (fun id n => (n ∈ nodes ∧ id = n.id) ∨ shows id n) := by
  induction nodes generalizing db shows with
  | nil => exact h.mono fun id n hn => hn.resolve_left fun hmem => by cases hmem.1
  | cons node nodes ih =>
    have hfields := fields_indexNode (ord.sub node.id.val.toNat) db.config node db.propertyIndex
    have hfirst := h.indexed hfields fun field _ _ hout => hnone field hout
    have hout (field : String) (hf : db.config.shouldIndexField field = false) :
        (replayNode ord db node).propertyIndex.isIndexed field = false := by
      change Option.isSome _ = false
      rw [show (replayNode ord db node).propertyIndex.fields[field]? = _ from hfields field, hf]
      exact hnone field hf
    apply (ih hfirst hout).mono
    rintro id n (⟨hmem, rfl⟩ | hold)
    · rcases List.mem_cons.mp hmem with rfl | hmem
      · exact .inr (.inl ⟨rfl, rfl⟩)
      · exact .inl ⟨hmem, rfl⟩
    · exact .inr (.inr hold)

theorem openWithConfig_indexed (ord : HashOrder) {storage : S} {cache : C} (config : DatabaseConfig)
    (hv : L.Valid storage) (hclosed : (L.view storage).txnBuffer = none)
    (hcache : LawfulCachePort.Empty cache) :
    ∃ db, openWithConfig ord storage cache .new config = .ok db ∧
      Indexed L none (Doomed []) db := by
  obtain ⟨db, hopen, -, hstorage, hdb⟩ :=
    openWithConfig_uncached L ord cache AdjacencyListEngine.new config hv
  have heq := openWithConfig_eq L ord cache .new config hv
  have hedges (edges : List Edge) (db : LayeredGraphDatabase S C) :
      (edges.foldl replayEdge db).propertyIndex = db.propertyIndex ∧
        (edges.foldl replayEdge db).config = db.config := by
    induction edges generalizing db with
    | nil => exact ⟨rfl, rfl⟩
    | cons e edges ih => exact ih (replayEdge db e)
  -- the nodes fill the index, and the edges leave it as it is
  let new : LayeredGraphDatabase S C := ⟨.new, cache, storage, .new, .new, .new, config, 0⟩
  have hempty : new.propertyIndex.Complete new.Tracks fun _ _ => False :=
    fun _ _ _ _ _ hn => hn.elim
  have hnone (field : String) (_ : new.config.shouldIndexField field = false) :
      new.propertyIndex.isIndexed field = false := by
    simp [new, PropertyIndex.isIndexed, PropertyIndex.new]
  have hnodes := replayNodes_complete (ord.sub 1) ((L.view storage).nodes.valuesIter (ord.sub 0))
    hempty hnone
  change _ = Except.ok (((L.view storage).edges.valuesIter (ord.sub 2)).foldl replayEdge
    (((L.view storage).nodes.valuesIter (ord.sub 0)).foldl (replayNode (ord.sub 1)) new)) at heq
  generalize ((L.view storage).nodes.valuesIter (ord.sub 0)).foldl (replayNode (ord.sub 1)) new =
    db₁ at heq hnodes
  obtain ⟨hindex, hconfig⟩ := hedges ((L.view storage).edges.valuesIter (ord.sub 2)) db₁
  rw [← Except.ok.inj (hopen.symm.trans heq)] at hindex hconfig
  refine ⟨db, hopen, ?_, ?_, ?_, ?_⟩
  · rw [hstorage]
    exact hv
  · rw [hstorage, hclosed]
    exact fun b hb => by cases hb
  · rw [hstorage]
    rintro id ⟨b, hb, -⟩
    rw [hclosed] at hb
    cases hb
  · unfold Tracks
    rw [hindex, hconfig]
    apply PropertyIndex.Complete.mono hnodes
    rintro id n ⟨-, -, hcached | hstored⟩
    · rw [hdb, hcache.node] at hcached
      cases hcached
    · rw [hstorage, committed_of_none hclosed] at hstored
      have hid : n.id = id := ((L.holds hv).nodes id n hstored).1
      refine .inl ⟨(HashMap.valuesIter_perm _ _).mem_iff.mpr ?_, hid.symm⟩
      exact HashMap.mem_vals.mpr ⟨id, hstored⟩

/-- Every live node that carries a field with an index is listed under its value. -/
def IndexComplete (L : StorageSpec S) (db : LayeredGraphDatabase S C) : Prop :=
  ∀ field, db.propertyIndex.isIndexed field = true → ∀ id node v,
    db.engine.containsNode id = true → nodeValue L db id = some node →
    node.properties[field]? = some v → id ∈ db.propertyIndex.bucket field (.of v)

theorem Indexed.indexComplete (h : Indexed L none (Doomed []) db) : IndexComplete L db := by
  intro field hf id node v hlive hvalue hv
  refine h.complete field (.inr hf) id node v ⟨hlive, List.not_mem_nil, ?_⟩ hv
  rw [committed_of_none h.closed]
  exact (Option.or_eq_some_iff.mp hvalue).imp_right fun hstored => hstored.2

end LayeredGraphDatabase

/-- A call on a session, or a restart. -/
inductive RestartCall where
  | client (call : ClientCall)
  | reopen (cache : CacheAdapter) (config : DatabaseConfig)

namespace Session

variable {S : Type} [FileStorage S]

def serveOrReopen (call : HashOrder × RestartCall) (s : Session S (NoCache ⊕ LruCache)) :
    ClientReply × Session S (NoCache ⊕ LruCache) :=
  match call.2 with
  | .client c => serve (call.1, c) s
  | .reopen cache config =>
    (.session (onDb (LayeredGraphDatabase.reopen call.1 cache config) (fun _ => .done) s).1,
      (onDb (LayeredGraphDatabase.reopen call.1 cache config) (fun _ => .done) s).2)

/-- What keeps the index complete at a call. A direct insertion must not carry a field
that the configuration leaves out and that has an index all the same; a commit succeeds, and
its operations keep the index complete. -/
def StaysIndexed (L : StorageSpec S) (call : HashOrder × RestartCall)
    (s : Session S (NoCache ⊕ LruCache)) : Prop :=
  match call.2 with
  | .client (.session (.insertNode label properties)) =>
    L.NodeStorable ⟨⟨s.db.idGenerator.nextNode⟩, label, properties⟩ ∧
      ∀ field v, properties[field]? = some v → s.db.config.shouldIndexField field = false →
        s.db.propertyIndex.isIndexed field = false
  | .client (.session (.insertEdge source target label weight properties)) =>
    s.db.hasEnds source target = true →
      L.EdgeStorable ⟨⟨s.db.idGenerator.nextEdge⟩, source, target, label, weight, properties⟩
  | .client (.session (.commitTransaction t)) => ∀ txn, s.transactions[t]? = some (txn, true) →
    (∃ result db, LayeredGraphDatabase.commitTransaction call.1 txn s.db = (.ok result, db)) ∧
      s.db.StaysIndexedCommit L call.1 txn
  | _ => True

variable {L : StorageSpec S} {s : Session S (NoCache ⊕ LruCache)}

/-- The invariant between calls. -/
abbrev Indexed (L : StorageSpec S) (s : Session S (NoCache ⊕ LruCache)) : Prop :=
  s.db.Indexed L none (LayeredGraphDatabase.Doomed [])

theorem indexed_onDb {α : Type} {a : DatabaseAction S (NoCache ⊕ LruCache) α}
    (reply : α → SessionReply) (h : (a s.db).2.Indexed L none (LayeredGraphDatabase.Doomed [])) :
    (onDb a reply s).2.Indexed L := by
  rw [onDb_snd]
  exact h

theorem indexed_onOpen (t : Nat) (f : Transaction → SessionReply × Transaction)
    (h : s.Indexed L) : (onOpen t f s).2.Indexed L := by
  rcases open_cases t s with ⟨txn, ht, -⟩ | ⟨-, hid, -⟩
  · rw [onOpen_of_some ht]
    exact h
  · rw [hid]
    exact h

theorem indexed_onEnd (t : Nat)
    {f : Transaction → Session S (NoCache ⊕ LruCache) →
      SessionReply × Session S (NoCache ⊕ LruCache)} (h : s.Indexed L)
    (hf : ∀ txn, s.transactions[t]? = some (txn, true) →
      (f txn { s with transactions := s.transactions.set t (txn, false) }).2.Indexed L) :
    (onEnd t f s).2.Indexed L := by
  rcases open_cases t s with ⟨txn, ht, -⟩ | ⟨-, -, hid⟩
  · rw [onEnd_of_some ht]
    exact hf txn ht
  · rw [hid]
    exact h

/-- One call. -/
theorem serveOrReopen_indexed (call : HashOrder × RestartCall) (h : s.Indexed L)
    (hcall : StaysIndexed L call s) : (serveOrReopen call s).2.Indexed L := by
  obtain ⟨ord, call⟩ := call
  have returned {α : Type} {a : DatabaseAction S (NoCache ⊕ LruCache) α}
      (hr : Returns a s.db fun _ db' => db'.Indexed L none (LayeredGraphDatabase.Doomed [])) :
      (a s.db).2.Indexed L none (LayeredGraphDatabase.Doomed []) := by
    obtain ⟨_, db', hrun, hdb'⟩ := hr
    rw [hrun]
    exact hdb'
  cases call with
  | reopen cache config =>
    -- the index is built anew from the file
    apply indexed_onDb fun _ => .done
    have hv : L.Valid (FileStorage.reopen s.db.storage) := by
      rw [L.reopen_eq]
      exact h.valid
    have hclosed : (L.view (FileStorage.reopen s.db.storage)).txnBuffer = none := by
      rw [L.reopen_eq]
      exact h.closed
    obtain ⟨db, hopen, hdb⟩ :=
      LayeredGraphDatabase.openWithConfig_indexed ord config hv hclosed cache.empty_new
    unfold LayeredGraphDatabase.reopen
    rw [hopen]
    exact hdb
  | client call =>
    cases call with
    | lookUp q =>
      exact returned (LayeredGraphDatabase.lookUp_keeps
        (fun ord id _ h => LayeredGraphDatabase.getNode_indexed ord id h)
        (fun ord id _ h => LayeredGraphDatabase.getEdge_indexed ord id h) ord q h)
    | compact =>
      exact indexed_onDb (fun _ => .done) (returned (LayeredGraphDatabase.compact_indexed ord h))
    | session call =>
      cases call with
      | insertNode label properties =>
        exact indexed_onDb _
          (returned (LayeredGraphDatabase.insertNode_indexed ord h hcall.1 hcall.2))
      | insertEdge source target label weight properties =>
        exact indexed_onDb _ (LayeredGraphDatabase.insertEdge_indexed ord h hcall)
      | deleteNode id =>
        exact indexed_onDb _ (returned (LayeredGraphDatabase.deleteNode_indexed ord id h
          (fun _ => .of_closed h.closed) fun _ _ hd => hd))
      | deleteEdge id =>
        exact indexed_onDb _ (returned (LayeredGraphDatabase.deleteEdge_indexed ord id h
          fun _ => .of_closed h.closed))
      | beginTransaction => exact h
      | stageInsertNode t label properties => exact indexed_onOpen t _ h
      | stageInsertEdge t source target label weight properties => exact indexed_onOpen t _ h
      | stageDeleteNode t id => exact indexed_onOpen t _ h
      | stageDeleteEdge t id => exact indexed_onOpen t _ h
      | commitTransaction t =>
        apply indexed_onEnd t h
        intro txn ht
        obtain ⟨⟨result, db, hrun⟩, hstays⟩ := hcall txn ht
        apply indexed_onDb .committed
        change (LayeredGraphDatabase.commitTransaction ord txn s.db).2.Indexed L none _
        rw [hrun]
        exact LayeredGraphDatabase.commitTransaction_indexed h hstays hrun
      | rollbackTransaction t =>
        apply indexed_onEnd t h
        intro txn ht
        exact ⟨h.valid, h.bracket, h.dropped, h.complete⟩

end Session

namespace LayeredGraphDatabase

/-- Over either adapter, from a file without an open bracket: as long as the calls keep the
index complete, it is complete in every state that a run reaches. -/
theorem run_indexComplete (a : StorageAdapter) (hs : a.Documented) (storage : a.Storage)
    (hv : (a.spec hs).Valid storage) (hclosed : ((a.spec hs).view storage).txnBuffer = none)
    (ord : HashOrder) (cache : CacheAdapter) (config : DatabaseConfig) (txnCounter : UInt64)
    (calls : List (HashOrder × RestartCall)) :
    ∃ db, openWithConfig ord storage cache.new .new config = .ok db ∧
      (Machine.Along (Session.StaysIndexed (a.spec hs)) Session.serveOrReopen calls
          ⟨db, txnCounter, []⟩ →
        IndexComplete (a.spec hs)
          (Machine.run Session.serveOrReopen calls ⟨db, txnCounter, []⟩).2.db) := by
  obtain ⟨db, hopen, hdb⟩ := openWithConfig_indexed ord config hv hclosed cache.empty_new
  refine ⟨db, hopen, fun hcalls => ?_⟩
  have hstep (call : HashOrder × RestartCall) (s : Session a.Storage (NoCache ⊕ LruCache))
      (h : s.Indexed (a.spec hs)) (hcall : Session.StaysIndexed (a.spec hs) call s) :
      (Session.serveOrReopen call s).2.Indexed (a.spec hs) :=
    Session.serveOrReopen_indexed call h hcall
  have hend : Session.Indexed (a.spec hs) _ := Machine.run_keeps hstep hdb hcalls
  exact hend.indexComplete

/-! ## A field that only a commit indexes -/

/-- Nothing is configured to be indexed. -/
def indexNothing : DatabaseConfig := ⟨none, .none⟩

def propertyX (v : Int64) : Properties := (∅ : Properties).insert "x" (.integer v)

/-- One node is inserted by a transaction. -/
def committedCalls : List (HashOrder × RestartCall) :=
  [(.sorted, .client (.session .beginTransaction)),
    (.sorted, .client (.session (.stageInsertNode 0 "A" (propertyX 2)))),
    (.sorted, .client (.session (.commitTransaction 0))),
    (.sorted, .client (.lookUp (.nodesByProperty "x" .eq (.integer 2))))]

/-- Another one is inserted directly before. -/
def mixedCalls : List (HashOrder × RestartCall) :=
  (.sorted, .client (.session (.insertNode "A" (propertyX 1)))) :: committedCalls

/-- A database over a new binary file that indexes nothing. -/
def unindexedDatabase : LayeredGraphDatabase BinaryFileStorage (NoCache ⊕ LruCache) :=
  ⟨.new, .inl .mk, FileStorage.openPath none, .new, .new, .new, indexNothing, 0⟩

theorem committedCalls_indexComplete :
    IndexComplete BinaryFileStorage.spec
      (Machine.run Session.serveOrReopen committedCalls ⟨unindexedDatabase, 1, []⟩).2.db := by
  obtain ⟨db, hopen, hrun⟩ := run_indexComplete .binary trivial (FileStorage.openPath none)
    BinaryFileStorage.spec.valid_openPath rfl .sorted .noCache indexNothing 1 committedCalls
  obtain rfl : unindexedDatabase = db := Except.ok.inj hopen
  apply hrun
  refine ⟨trivial, trivial, ?_, trivial, trivial⟩
  intro txn htxn
  obtain rfl := (Prod.mk.inj (Option.some.inj htxn)).1
  refine ⟨⟨_, _, rfl⟩, ⟨?_, ?_⟩, fun _ _ _ => trivial⟩
  · exact (by decide +kernel : NodeFits ⟨⟨0⟩, "A", propertyX 2⟩)
  · intro field v _ _ _ id n _ hn
    have hlive : ((∅ : Adjacency)[id]?).isSome = true := hn.1
    rw [ExtTreeMap.getElem?_empty] at hlive
    cases hlive

/-- The node that was inserted directly is missing in the index of its field. -/
theorem mixedCalls_not_indexComplete :
    openWithConfig .sorted (FileStorage.openPath none) CacheAdapter.noCache.new .new indexNothing =
        .ok unindexedDatabase ∧
      ¬ IndexComplete BinaryFileStorage.spec
        (Machine.run Session.serveOrReopen mixedCalls ⟨unindexedDatabase, 1, []⟩).2.db := by
  refine ⟨rfl, fun h => ?_⟩
  have hmem := h "x" (by decide +kernel) ⟨0⟩ ⟨⟨0⟩, "A", propertyX 1⟩ (.integer 1)
    (by decide +kernel) (by decide +kernel) (by decide +kernel)
  exact absurd hmem (by decide +kernel)

end LayeredGraphDatabase

end AdGraphDb
