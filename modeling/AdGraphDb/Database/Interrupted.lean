import AdGraphDb.Storage.Faults
import AdGraphDb.Database.Spec

/-!
# Operations whose storage fails

What each operation has done, in memory and in the file, when one call of its storage fails.
-/

namespace AdGraphDb
open Std AdGraphDb.Action

namespace LayeredGraphDatabase

/-! ## Calls that fail change nothing -/

section

variable {S C : Type} [StoragePort S] [CachePort C] {db : LayeredGraphDatabase (Faulty S) C}
  {Q : GraphError → LayeredGraphDatabase (Faulty S) C → Prop}

/-- The auto-compaction never makes a write fail. -/
theorem onWrite_raises (ord : HashOrder) : Raises (onWrite ord) db Q := by
  apply Raises.bind_modify
  apply Raises.bind_read
  dsimp only
  cases db.config.autoCompactAfterWrites with
  | none => exact .pure ()
  | some threshold =>
    dsimp only
    split_ifs
    · exact .attempt _
    · exact .pure ()

/-- Only the id is used up. -/
theorem insertNode_raises (ord : HashOrder) (label : String) (properties : Properties) :
    Raises (insertNode ord label properties) db fun _ db' =>
      db' = { db with idGenerator := db.idGenerator.nextNodeId.2 } := by
  apply Raises.bind_update
  apply Raises.bind_on
  · intro e s' h
    obtain rfl := Faulty.attempt_error h
    rfl
  · intro _ s' _
    apply Raises.bind_modify
    exact (onWrite_raises (ord.sub 3)).bind fun _ _ _ => .pure _

theorem insertEdge_raises (ord : HashOrder) (source target : NodeId) (label : String) (weight : F64)
    (properties : Properties) :
    Raises (insertEdge ord source target label weight properties) db fun _ db' =>
      ∃ ids, db' = { db with idGenerator := ids } := by
  apply Raises.bind_read
  split_ifs
  · exact .throw ⟨db.idGenerator, rfl⟩
  · exact .throw ⟨db.idGenerator, rfl⟩
  · apply Raises.bind_update
    apply Raises.bind_on
    · intro e s' h
      obtain rfl := Faulty.attempt_error h
      exact ⟨_, rfl⟩
    · intro _ s' _
      apply Raises.bind_modify
      exact (onWrite_raises (ord.sub 2)).bind fun _ _ _ => .pure _

theorem deleteEdge_raises (ord : HashOrder) (id : EdgeId) :
    Raises (deleteEdge ord id) db fun _ db' => db' = db := by
  apply Raises.bind_on
  · intro e s' h
    obtain rfl := Faulty.attempt_error h
    rfl
  · intro _ s' _
    apply Raises.bind_modify
    exact onWrite_raises ord

end

/-! ## What has reached the file -/

section

variable {S C : Type} {db : LayeredGraphDatabase (Faulty S) C}

/-- After some writes that have succeeded. -/
def after (db : LayeredGraphDatabase (Faulty S) C) (writes : Nat) (inner : S) (cache : C) :
    LayeredGraphDatabase (Faulty S) C :=
  { db with
    storage := { db.storage with inner := inner, writes := db.storage.writes + writes }
    cache := cache }

theorem after_after (m n : Nat) (inner inner' : S) (cache cache' : C) :
    (db.after m inner cache).after n inner' cache' = db.after (m + n) inner' cache' := by
  unfold after
  rw [← Nat.add_assoc]

theorem on_refused (a : StorageAction S Unit) (h : db.storage.point = .write db.storage.writes) :
    on storageField (Faulty.attempt a) db = (.error db.storage.error, db) := by
  have hr := Faulty.attempt_refused a h
  exact congrArg (fun r : Except GraphError Unit × Faulty S => (r.1, storageField.set r.2 db)) hr

theorem on_passed {a : StorageAction S Unit} {P : S → Prop}
    (h : db.storage.point ≠ .write db.storage.writes)
    (ha : Returns a db.storage.inner fun _ inner => P inner) :
    Returns (on storageField (Faulty.attempt a)) db fun _ db' =>
      ∃ inner, db' = db.after 1 inner db.cache ∧ P inner := by
  obtain ⟨inner, hr, hp⟩ := Faulty.attempt_passed h ha
  refine ⟨(), db.after 1 inner db.cache, ?_, inner, rfl, hp⟩
  exact congrArg (fun r : Except GraphError Unit × Faulty S => (r.1, storageField.set r.2 db)) hr

/-- The loop of `deleteNode` over the incident edges. -/
def dropEdges {S C : Type} [StoragePort S] [CachePort C] (ids : List EdgeId) :
    DatabaseAction S C Unit :=
  forEach (fun edgeId => do
    on storageField (StoragePort.deleteEdge edgeId)
    modify fun db => { db with cache := CachePort.invalidateEdge edgeId db.cache }) ids

end

variable {S C : Type} [FileStorage S] [LawfulCachePort C] (L : StorageSpec S)
  {db : LayeredGraphDatabase (Faulty S) C} {ord : HashOrder}

theorem onWrite_faulty (ord : HashOrder) (h : L.Valid db.storage.inner) :
    Returns (onWrite ord) db fun _ db' => L.Valid db'.storage.inner ∧
      L.graph db'.storage.inner = L.graph db.storage.inner := by
  have compacted (db : LayeredGraphDatabase (Faulty S) C) (h : L.Valid db.storage.inner) :
      Returns (attempt (compact ord)) db fun _ db' => L.Valid db'.storage.inner ∧
        L.graph db'.storage.inner = L.graph db.storage.inner := by
    refine ⟨(), _, rfl, ?_⟩
    by_cases hp : db.storage.point = .write db.storage.writes
    · have hc : on storageField (StoragePort.compact ord) db = (.error db.storage.error, db) :=
        on_refused _ hp
      rw [compact, bind_error hc]
      exact ⟨h, rfl⟩
    · obtain ⟨_, _, he, inner, rfl, hv, hg⟩ := on_passed hp (L.graph_compact ord h)
      have hc : on storageField (StoragePort.compact ord) db =
          (.ok (), db.after 1 inner db.cache) := he
      rw [compact, bind_ok hc]
      exact ⟨hv, hg⟩
  apply Returns.bind_modify
  apply Returns.bind_read
  dsimp only
  cases db.config.autoCompactAfterWrites with
  | none => exact .pure ⟨h, rfl⟩
  | some threshold =>
    dsimp only
    split_ifs
    · exact compacted _ h
    · exact .pure ⟨h, rfl⟩

/-- An insertion is refused before anything has changed, or its record is written. -/
theorem insertNode_faulty (ord : HashOrder) (label : String) (properties : Properties)
    (h : L.Valid db.storage.inner)
    (hn : L.NodeStorable ⟨⟨db.idGenerator.nextNode⟩, label, properties⟩) :
    (∃ e, insertNode ord label properties db =
      (.error e, { db with idGenerator := db.idGenerator.nextNodeId.2 })) ∨
    Returns (insertNode ord label properties) db fun id db' =>
      id = ⟨db.idGenerator.nextNode⟩ ∧ ∃ inner, L.view inner =
        (L.view db.storage.inner).applyRecord (.upsertNode ⟨id, label, properties⟩) ∧
      L.Valid db'.storage.inner ∧ L.graph db'.storage.inner = L.graph inner := by
  let db₁ := { db with idGenerator := db.idGenerator.nextNodeId.2 }
  by_cases hp : db.storage.point = .write db.storage.writes
  · refine .inl ⟨db.storage.error, ?_⟩
    change (on storageField (StoragePort.saveNode _ _) >>= fun _ => _) db₁ = _
    exact bind_error (on_refused _ (show db₁.storage.point = .write db₁.storage.writes from hp))
  · right
    apply Returns.bind_update
    apply Returns.bind (on_passed (show db₁.storage.point ≠ .write db₁.storage.writes from hp)
      (L.write_plain (ord.sub 0) (r := .upsertNode _) rfl h hn))
    rintro _ _ ⟨inner, rfl, hv, hview⟩
    apply Returns.bind_modify
    apply Returns.bind (onWrite_faulty L (ord.sub 3) hv)
    exact fun _ _ hend => .pure ⟨rfl, inner, hview, hend⟩

theorem insertEdge_faulty (ord : HashOrder) {source target : NodeId} (label : String) (weight : F64)
    (properties : Properties) (h : L.Valid db.storage.inner)
    (hs : db.engine.containsNode source = true) (ht : db.engine.containsNode target = true)
    (he : L.EdgeStorable ⟨⟨db.idGenerator.nextEdge⟩, source, target, label, weight, properties⟩) :
    (∃ e, insertEdge ord source target label weight properties db =
      (.error e, { db with idGenerator := db.idGenerator.nextEdgeId.2 })) ∨
    Returns (insertEdge ord source target label weight properties) db fun id db' =>
      id = ⟨db.idGenerator.nextEdge⟩ ∧ ∃ inner, L.view inner = (L.view db.storage.inner).applyRecord
        (.upsertEdge ⟨id, source, target, label, weight, properties⟩) ∧
      L.Valid db'.storage.inner ∧ L.graph db'.storage.inner = L.graph inner := by
  let db₁ := { db with idGenerator := db.idGenerator.nextEdgeId.2 }
  by_cases hp : db.storage.point = .write db.storage.writes
  · refine .inl ⟨db.storage.error, ?_⟩
    change (if !db.engine.containsNode source then _
      else if !db.engine.containsNode target then _ else _ : DatabaseAction (Faulty S) C EdgeId) db = _
    rw [hs, ht]
    change (on storageField (StoragePort.saveEdge _ _) >>= fun _ => _) db₁ = _
    exact bind_error (on_refused _ (show db₁.storage.point = .write db₁.storage.writes from hp))
  · right
    apply Returns.bind_read
    rw [hs, ht]
    apply Returns.bind_update
    apply Returns.bind (on_passed (show db₁.storage.point ≠ .write db₁.storage.writes from hp)
      (L.write_plain (ord.sub 0) (r := .upsertEdge _) rfl h he))
    rintro _ _ ⟨inner, rfl, hv, hview⟩
    apply Returns.bind_modify
    apply Returns.bind (onWrite_faulty L (ord.sub 2) hv)
    exact fun _ _ hend => .pure ⟨rfl, inner, hview, hend⟩

/-- The deletion of an edge is refused before anything has changed, or its record is written. -/
theorem deleteEdge_faulty (ord : HashOrder) (id : EdgeId) (h : L.Valid db.storage.inner) :
    (∃ e, deleteEdge ord id db = (.error e, db)) ∨
    Returns (deleteEdge ord id) db fun _ db' => ∃ inner,
      L.view inner = (L.view db.storage.inner).applyRecord (.deleteEdge id) ∧
      L.Valid db'.storage.inner ∧ L.graph db'.storage.inner = L.graph inner := by
  by_cases hp : db.storage.point = .write db.storage.writes
  · exact .inl ⟨_, bind_error (on_refused (StoragePort.deleteEdge id) hp)⟩
  · right
    apply Returns.bind
      (on_passed hp (L.write_plain .sorted (r := .deleteEdge id) rfl h trivial))
    rintro _ _ ⟨inner, rfl, hv, hview⟩
    apply Returns.bind_modify
    apply Returns.mono (onWrite_faulty L ord hv)
    exact fun _ _ hend => ⟨inner, hview, hend⟩

/-- How the loop ends: at the edge that the storage refuses, or after the last one. -/
inductive DropEdgesEnds (ids : List EdgeId) (db : LayeredGraphDatabase (Faulty S) C) :
    Except GraphError Unit × LayeredGraphDatabase (Faulty S) C → Prop
  | refused (n : Nat) {inner : S} {cache : C} (hn : n < ids.length)
    (hpoint : db.storage.point = .write (db.storage.writes + n)) (hvalid : L.Valid inner)
    (hview : L.view inner = (L.view db.storage.inner).run ((ids.take n).map .deleteEdge)) :
    DropEdgesEnds ids db (.error db.storage.error, db.after n inner cache)
  | done {inner : S} {cache : C}
    (hpoint : ∀ n < ids.length, db.storage.point ≠ .write (db.storage.writes + n))
    (hvalid : L.Valid inner)
    (hview : L.view inner = (L.view db.storage.inner).run (ids.map .deleteEdge))
    (hnode : LawfulCachePort.nodeAt cache = LawfulCachePort.nodeAt db.cache) :
    DropEdgesEnds ids db (.ok (), db.after ids.length inner cache)

theorem dropEdges_ends (ids : List EdgeId) (db : LayeredGraphDatabase (Faulty S) C)
    (h : L.Valid db.storage.inner) : DropEdgesEnds L ids db (dropEdges ids db) := by
  -- the records that have reached the file are counted from the first one on
  induction ids generalizing db with
  | nil => exact .done nofun h rfl rfl
  | cons id ids ih =>
    by_cases hp : db.storage.point = .write db.storage.writes
    · have hfirst := on_refused (StoragePort.deleteEdge id) hp
      have hrun : dropEdges (id :: ids) db = (.error db.storage.error, db) :=
        bind_error (bind_error hfirst)
      rw [hrun]
      exact .refused 0 (Nat.succ_pos _) hp h rfl
    · obtain ⟨_, _, hfirst, inner, rfl, hv, hview⟩ :=
        on_passed hp (L.write_plain .sorted (r := .deleteEdge id) rfl h trivial)
      let cache := CachePort.invalidateEdge id db.cache
      have hrun : dropEdges (id :: ids) db = dropEdges ids (db.after 1 inner cache) :=
        bind_ok (v := ()) ((bind_ok hfirst).trans rfl)
      rw [hrun]
      have hrest := ih (db.after 1 inner cache) hv
      generalize dropEdges ids (db.after 1 inner cache) = r at hrest
      have hview_cons {rs : List RecordData} {s : S}
          (hs : L.view s = (L.view inner).run rs) :
          L.view s = (L.view db.storage.inner).run (.deleteEdge id :: rs) := by
        rw [hs, hview]
        rfl
      have hwrites (n : Nat) : db.storage.writes + 1 + n = db.storage.writes + (n + 1) := by omega
      cases hrest with
      | @refused n inner' cache' hn hpoint hvalid hview' =>
        rw [after_after, Nat.add_comm 1 n]
        refine .refused (n + 1) (Nat.succ_lt_succ hn) ?_ hvalid (hview_cons hview')
        rw [← hwrites]
        exact hpoint
      | @done inner' cache' hpoint hvalid hview' hnode =>
        rw [after_after, Nat.add_comm 1]
        refine .done (fun n hn => ?_) hvalid (hview_cons hview') ?_
        · cases n with
          | zero => exact hp
          | succ n =>
            rw [← hwrites]
            exact hpoint n (Nat.lt_of_succ_lt_succ hn)
        · exact hnode.trans (LawfulCachePort.nodeAt_invalidateEdge id db.cache)

/-- What a lookup of a node finds. -/
def found (db : LayeredGraphDatabase (Faulty S) C) (id : NodeId) : Option Node :=
  (LawfulCachePort.nodeAt db.cache id).or (L.graph db.storage.inner).nodes[id]?

open LawfulCachePort in
/-- A lookup fails only when it has to ask the storage. -/
theorem getNode_faulty (ord : HashOrder) (id : NodeId) (db : LayeredGraphDatabase (Faulty S) C)
    (h : L.Valid db.storage.inner) :
    (db.storage.point = .load db.storage.writes ∧ nodeAt db.cache id = none ∧
      ∃ cache, getNode ord id db = (.error db.storage.error, { db with cache := cache })) ∨
    ((db.storage.point = .load db.storage.writes → (nodeAt db.cache id).isSome) ∧
      ∃ cache, getNode ord id db = (.ok (found L db id), { db with cache := cache })) := by
  let db₁ : LayeredGraphDatabase (Faulty S) C :=
    { db with cache := (CachePort.getNode id db.cache).2 }
  have hget : (on cacheField (update (CachePort.getNode id)) :
      DatabaseAction (Faulty S) C (Option Node)) db = (.ok (nodeAt db.cache id), db₁) := by
    rw [← getNode_fst id db.cache]
    rfl
  rw [getNode, bind_ok hget, found]
  -- a cached node is answered without the storage
  cases hc : nodeAt db.cache id with
  | some node => exact .inr ⟨fun _ => rfl, _, rfl⟩
  | none =>
    dsimp only
    by_cases hp : db.storage.point = .load db.storage.writes
    · have hl : tryRead (fun db => StoragePort.loadNode id db.storage) db₁ =
          (.error db.storage.error, db₁) :=
        congrArg (fun r => (r, db₁)) (Faulty.lookup_refused (StoragePort.loadNode id) hp)
      exact .inl ⟨hp, rfl, _, bind_error hl⟩
    · have hl : tryRead (fun db => StoragePort.loadNode id db.storage) db₁ =
          (.ok (L.graph db.storage.inner).nodes[id]?, db₁) :=
        congrArg (fun r => (r, db₁))
          ((Faulty.lookup_passed (StoragePort.loadNode id) hp).trans (L.loadNode id h))
      refine .inr ⟨fun h => absurd h hp, ?_⟩
      rw [bind_ok hl]
      cases (L.graph db.storage.inner).nodes[id]? with
      | none => exact ⟨_, rfl⟩
      | some node => exact ⟨_, rfl⟩

/-- How the deletion of a node ends: at the call that the storage refuses, or in full. -/
inductive DeleteNodeEnds (ord : HashOrder) (id : NodeId) (db : LayeredGraphDatabase (Faulty S) C) :
    Except GraphError Unit × LayeredGraphDatabase (Faulty S) C → Prop
  | edgeRefused (n : Nat) {inner : S} {cache : C} (hn : n < (db.incidentEdges id).length)
    (hpoint : db.storage.point = .write (db.storage.writes + n)) (hvalid : L.Valid inner)
    (hview : L.view inner =
      (L.view db.storage.inner).run (((db.incidentEdges id).take n).map .deleteEdge)) :
    DeleteNodeEnds ord id db (.error db.storage.error, db.after n inner cache)
  | lookupRefused {inner : S} {cache : C}
    (hpoint : db.storage.point = .load (db.storage.writes + (db.incidentEdges id).length))
    (hmiss : LawfulCachePort.nodeAt db.cache id = none) (hvalid : L.Valid inner)
    (hview : L.view inner = (L.view db.storage.inner).run ((db.incidentEdges id).map .deleteEdge)) :
    DeleteNodeEnds ord id db
      (.error db.storage.error, db.after (db.incidentEdges id).length inner cache)
  | nodeRefused {inner : S} {cache : C}
    (hpoint : db.storage.point = .write (db.storage.writes + (db.incidentEdges id).length))
    (hvalid : L.Valid inner)
    (hview : L.view inner = (L.view db.storage.inner).run ((db.incidentEdges id).map .deleteEdge)) :
    DeleteNodeEnds ord id db (.error db.storage.error, unindex (ord.sub 1) id (found L db id)
      (db.after (db.incidentEdges id).length inner cache))
  | done {db' : LayeredGraphDatabase (Faulty S) C} {inner : S}
    (hpoint : ∀ n ≤ (db.incidentEdges id).length,
      db.storage.point ≠ .write (db.storage.writes + n))
    (hload : db.storage.point = .load (db.storage.writes + (db.incidentEdges id).length) →
      (LawfulCachePort.nodeAt db.cache id).isSome)
    (hview : L.view inner = ((L.view db.storage.inner).run
      ((db.incidentEdges id).map .deleteEdge)).applyRecord (.deleteNode id))
    (hvalid : L.Valid db'.storage.inner) (hgraph : L.graph db'.storage.inner = L.graph inner) :
    DeleteNodeEnds ord id db (.ok (), db')

/-- The last write of `deleteNode` and what follows it. -/
def dropNode {S C : Type} [StoragePort S] [CachePort C] (ord : HashOrder) (id : NodeId) :
    DatabaseAction S C Unit := do
  on storageField (StoragePort.deleteNode id)
  modify fun db =>
    { db with
      cache := CachePort.invalidateNode id db.cache
      engine := db.engine.removeNode (ord.sub 2) id }
  onWrite (ord.sub 3)

theorem dropNode_refused (ord : HashOrder) (id : NodeId)
    (h : db.storage.point = .write db.storage.writes) :
    dropNode ord id db = (.error db.storage.error, db) :=
  bind_error (on_refused (StoragePort.deleteNode id) h)

theorem dropNode_passed (ord : HashOrder) (id : NodeId) (hv : L.Valid db.storage.inner)
    (h : db.storage.point ≠ .write db.storage.writes) :
    Returns (dropNode ord id) db fun _ db' => ∃ inner,
      L.view inner = (L.view db.storage.inner).applyRecord (.deleteNode id) ∧
      L.Valid db'.storage.inner ∧ L.graph db'.storage.inner = L.graph inner := by
  have hdelete := on_passed h (L.write_plain .sorted (r := .deleteNode id) rfl hv trivial)
  apply Returns.bind hdelete
  rintro _ _ ⟨inner, rfl, hv', hview⟩
  apply Returns.bind_modify
  apply Returns.mono (onWrite_faulty L (ord.sub 3) hv')
  exact fun _ _ hend => ⟨inner, hview, hend⟩

theorem deleteNode_ends (ord : HashOrder) (id : NodeId) (h : L.Valid db.storage.inner) :
    DeleteNodeEnds L ord id db (deleteNode ord id db) := by
  have hloop := dropEdges_ends L (db.incidentEdges id) db h
  let rest : DatabaseAction (Faulty S) C Unit := do
    let found ← getNode (ord.sub 0) id
    modify (unindex (ord.sub 1) id found)
    dropNode ord id
  have hrun : deleteNode ord id db = (dropEdges (db.incidentEdges id) >>= fun _ => rest) db := rfl
  rw [hrun, bind_apply]
  generalize dropEdges (db.incidentEdges id) db = r at hloop
  cases hloop with
  | refused n hn hpoint hvalid hview => exact .edgeRefused n hn hpoint hvalid hview
  | @done inner cache hpoint hvalid hview hnode =>
    dsimp only
    let db₁ := db.after (db.incidentEdges id).length inner cache
    have hnodes : (L.graph inner).nodes = (L.graph db.storage.inner).nodes := by
      change (L.view inner).nodes = _
      rw [hview, run_deletedEdges_nodes]
      rfl
    have hfound : found L db₁ id = found L db id := by
      unfold found
      rw [← hnodes, ← hnode]
      rfl
    rcases getNode_faulty L (ord.sub 0) id db₁ hvalid with
      ⟨hp, hmiss, cache₂, hget⟩ | ⟨hload, cache₂, hget⟩
    · have hrest : rest db₁ = (.error db.storage.error, { db₁ with cache := cache₂ }) :=
        bind_error hget
      rw [hrest]
      refine .lookupRefused hp ?_ hvalid hview
      rw [← hnode]
      exact hmiss
    · rw [hfound] at hget
      let db₂ := unindex (ord.sub 1) id (found L db id)
        (db.after (db.incidentEdges id).length inner cache₂)
      have hrest : rest db₁ = dropNode ord id db₂ := bind_ok hget
      have hstorage : db₂.storage = db₁.storage := by
        unfold db₂
        cases found L db id <;> rfl
      rw [hrest]
      by_cases hp : db₂.storage.point = .write db₂.storage.writes
      · rw [dropNode_refused ord id hp, hstorage]
        rw [hstorage] at hp
        exact .nodeRefused hp hvalid hview
      · obtain ⟨_, db', hlast, inner', hview', hv', hg'⟩ :=
          dropNode_passed L ord id (by rw [hstorage]; exact hvalid) hp
        rw [hstorage] at hp hview'
        rw [hlast]
        refine .done (fun n hn => ?_) ?_ ?_ hv' hg'
        · rcases Nat.lt_or_eq_of_le hn with hn | rfl
          · exact hpoint n hn
          · exact hp
        · rw [← hnode]
          exact hload
        · rw [hview', ← hview]
          rfl

end LayeredGraphDatabase

end AdGraphDb
