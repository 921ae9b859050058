import AdGraphDb.Cache.Lru
import AdGraphDb.Storage.JsonReadBack
import AdGraphDb.Foundation.Simulation
import AdGraphDb.Database.Open

/-!
# The layered database refines a plain graph

Whatever adapters it is built from, whatever is called and whenever it is compacted or
reopened, the database answers as one map of nodes and one map of edges would.
-/

namespace AdGraphDb
open Std AdGraphDb.Action

/-- The cache that a database is opened with. -/
inductive CacheAdapter where
  | noCache
  | lruCache (nodeCapacity edgeCapacity : Nat) (hn : 0 < nodeCapacity) (he : 0 < edgeCapacity)

def CacheAdapter.new : CacheAdapter → NoCache ⊕ LruCache
  | noCache => .inl .mk
  | lruCache nodeCapacity edgeCapacity hn he => .inr (.new nodeCapacity edgeCapacity hn he)

theorem CacheAdapter.empty_new (a : CacheAdapter) : LawfulCachePort.Empty a.new := by
  cases a with
  | noCache => exact ⟨fun _ => rfl, fun _ => rfl⟩
  | lruCache nodeCapacity edgeCapacity hn he =>
    have h := LruCache.empty_new nodeCapacity edgeCapacity hn he
    exact ⟨h.node, h.edge⟩

/-- A call on the database. Reopening drops it and opens its storage again. -/
inductive Call where
  | insertNode (label : String) (properties : Properties)
  | insertEdge (source target : NodeId) (label : String) (weight : F64) (properties : Properties)
  | deleteNode (id : NodeId)
  | deleteEdge (id : EdgeId)
  | getNode (id : NodeId)
  | getEdge (id : EdgeId)
  | compact
  | reopen (cache : CacheAdapter) (config : DatabaseConfig)
  | allNodes
  | allEdges
  | nodeCount
  | edgeCount
  | nodesByLabel (label : String)
  | labelCount (label : String)
  | neighborsOutgoing (id : NodeId)
  | neighborsIncoming (id : NodeId)

inductive Reply where
  | done
  | nodeId (id : NodeId)
  | edgeId (id : EdgeId)
  | node (found : Option Node)
  | edge (found : Option Edge)
  | nodes (nodes : List Node)
  | edges (edges : List Edge)
  | count (n : Nat)
  | neighbors (neighbors : List Neighbor)

/-- The number of node ids that a reply hands out. -/
def Reply.newNodes : Except GraphError Reply → Nat
  | .ok (.nodeId _) => 1
  | _ => 0

def Reply.newEdges : Except GraphError Reply → Nat
  | .ok (.edgeId _) => 1
  | _ => 0

theorem Reply.sum_newNodes (replies : List (Except GraphError Reply)) :
    (replies.map newNodes).sum ≤ replies.length := by
  rw [← List.length_map (f := newNodes), ← Nat.mul_one (List.length _)]
  apply List.sum_le_card_nsmul
  intro n hn
  obtain ⟨r, -, rfl⟩ := List.mem_map.mp hn
  unfold newNodes
  split <;> decide

theorem Reply.sum_newEdges (replies : List (Except GraphError Reply)) :
    (replies.map newEdges).sum ≤ replies.length := by
  rw [← List.length_map (f := newEdges), ← Nat.mul_one (List.length _)]
  apply List.sum_le_card_nsmul
  intro n hn
  obtain ⟨r, -, rfl⟩ := List.mem_map.mp hn
  unfold newEdges
  split <;> decide

namespace Call

/-- What the call inserts satisfies the predicates, whatever its id. -/
def Inserts (N : Node → Prop) (E : Edge → Prop) : Call → Prop
  | insertNode label properties => ∀ id, N ⟨id, label, properties⟩
  | insertEdge source target label weight properties =>
    ∀ id, E ⟨id, source, target, label, weight, properties⟩
  | _ => True

theorem Inserts.mono {N N' : Node → Prop} {E E' : Edge → Prop} {call : Call}
    (h : call.Inserts N E) (hN : ∀ n, N n → N' n) (hE : ∀ e, E e → E' e) :
    call.Inserts N' E' := by
  cases call with
  | insertNode label properties => exact fun id => hN _ (h id)
  | insertEdge source target label weight properties => exact fun id => hE _ (h id)
  | _ => trivial

/-- What the call inserts has finite floats and fits the binary format. -/
def Storable : Call → Prop := Inserts NodeStorable EdgeStorable

end Call

namespace LayeredGraphDatabase

variable {S : Type} [FileStorage S]

def reopen (ord : HashOrder) (cache : CacheAdapter) (config : DatabaseConfig) :
    DatabaseAction S (NoCache ⊕ LruCache) Unit := fun db =>
  match openWithConfig ord (FileStorage.reopen db.storage) cache.new .new config with
  | .ok db' => (.ok (), db')
  | .error e => (.error e, db)

def perform (ord : HashOrder) : Call → DatabaseAction S (NoCache ⊕ LruCache) Reply
  | .insertNode label properties => do return .nodeId (← insertNode ord label properties)
  | .insertEdge source target label weight properties => do
    return .edgeId (← insertEdge ord source target label weight properties)
  | .deleteNode id => do
    deleteNode ord id
    return .done
  | .deleteEdge id => do
    deleteEdge ord id
    return .done
  | .getNode id => do return .node (← getNode ord id)
  | .getEdge id => do return .edge (← getEdge ord id)
  | .compact => do
    compact ord
    return .done
  | .reopen cache config => do
    reopen ord cache config
    return .done
  | .allNodes => do return .nodes (← allNodes ord)
  | .allEdges => do return .edges (← allEdges ord)
  | .nodeCount => read fun db => .count db.nodeCount
  | .edgeCount => read fun db => .count db.edgeCount
  | .nodesByLabel label => do return .nodes (← nodesByLabel ord label)
  | .labelCount label => read fun db => .count (db.labelCount label)
  | .neighborsOutgoing id => read fun db => .neighbors (db.neighborsOutgoing id)
  | .neighborsIncoming id => read fun db => .neighbors (db.neighborsIncoming id)

/-- The answers to a list of calls, each with the order of the hash maps at the time. -/
def run (calls : List (HashOrder × Call)) (db : LayeredGraphDatabase S (NoCache ⊕ LruCache)) :
    List (Except GraphError Reply) × LayeredGraphDatabase S (NoCache ⊕ LruCache) :=
  Machine.run (fun call => perform call.1 call.2) calls db

theorem run_cons (call : HashOrder × Call) (calls : List (HashOrder × Call))
    (db : LayeredGraphDatabase S (NoCache ⊕ LruCache)) :
    (run (call :: calls) db).1 =
      (perform call.1 call.2 db).1 :: (run calls (perform call.1 call.2 db).2).1 := rfl

end LayeredGraphDatabase

/-- What the plain graph may answer to a call, and the graph after it. Lists may come in
any order, and an insertion may choose any id that is not in use. -/
inductive PlainGraph.Answers (g : PlainGraph) : Call → Except GraphError Reply → PlainGraph → Prop
  | insertNode {id : NodeId} {label : String} {properties : Properties}
    (fresh : g.nodes[id]? = none) :
    Answers g (.insertNode label properties) (.ok (.nodeId id))
      (g.insertNode ⟨id, label, properties⟩)
  | insertEdge {id : EdgeId} {source target : NodeId} {label : String} {weight : F64}
    {properties : Properties} (hs : g.Live source) (ht : g.Live target)
    (fresh : g.edges[id]? = none) :
    Answers g (.insertEdge source target label weight properties) (.ok (.edgeId id))
      (g.insertEdge ⟨id, source, target, label, weight, properties⟩)
  | noSource {source target : NodeId} {label : String} {weight : F64} {properties : Properties}
    (hs : ¬ g.Live source) :
    Answers g (.insertEdge source target label weight properties) (.error (.nodeNotFound source)) g
  | noTarget {source target : NodeId} {label : String} {weight : F64} {properties : Properties}
    (hs : g.Live source) (ht : ¬ g.Live target) :
    Answers g (.insertEdge source target label weight properties) (.error (.nodeNotFound target)) g
  | deleteNode (id : NodeId) : Answers g (.deleteNode id) (.ok .done) (g.deleteNode id)
  | deleteEdge (id : EdgeId) : Answers g (.deleteEdge id) (.ok .done) (g.deleteEdge id)
  | getNode (id : NodeId) : Answers g (.getNode id) (.ok (.node g.nodes[id]?)) g
  | getEdge (id : EdgeId) : Answers g (.getEdge id) (.ok (.edge g.edges[id]?)) g
  | compact : Answers g .compact (.ok .done) g
  | reopen (cache : CacheAdapter) (config : DatabaseConfig) :
    Answers g (.reopen cache config) (.ok .done) g
  | allNodes {nodes : List Node} (h : nodes.Perm g.nodes.vals) :
    Answers g .allNodes (.ok (.nodes nodes)) g
  | allEdges {edges : List Edge} (h : edges.Perm g.edges.vals) :
    Answers g .allEdges (.ok (.edges edges)) g
  | nodeCount {n : Nat} (h : n = g.nodes.size) : Answers g .nodeCount (.ok (.count n)) g
  | edgeCount {n : Nat} (h : n = g.edges.size) : Answers g .edgeCount (.ok (.count n)) g
  | nodesByLabel {label : String} {nodes : List Node}
    (h : nodes.Perm (g.nodes.vals.filter fun n => n.label = label)) :
    Answers g (.nodesByLabel label) (.ok (.nodes nodes)) g
  | labelCount {label : String} {n : Nat}
    (h : n = (g.nodes.vals.filter fun n => n.label = label).length) :
    Answers g (.labelCount label) (.ok (.count n)) g
  | neighborsOutgoing {id : NodeId} {neighbors : List Neighbor}
    (h : neighbors.Perm (g.neighborsOutgoing id)) :
    Answers g (.neighborsOutgoing id) (.ok (.neighbors neighbors)) g
  | neighborsIncoming {id : NodeId} {neighbors : List Neighbor}
    (h : neighbors.Perm (g.neighborsIncoming id)) :
    Answers g (.neighborsIncoming id) (.ok (.neighbors neighbors)) g

namespace LayeredGraphDatabase

variable {S : Type} [FileStorage S] {L : StorageSpec S}
  {db : LayeredGraphDatabase S (NoCache ⊕ LruCache)} {g g' : PlainGraph} {call : Call}
  {ord : HashOrder}

/-- One call, seen from both sides. The counters advance by what is handed out; reopening
may turn them back to the ids in use. -/
structure Stepped (L : StorageSpec S) (db : LayeredGraphDatabase S (NoCache ⊕ LruCache))
    (g : PlainGraph) (call : Call)
    (step : Except GraphError Reply × LayeredGraphDatabase S (NoCache ⊕ LruCache))
    (g' : PlainGraph) : Prop where
  answers : g.Answers call step.1 g'
  sync : Sync L step.2 g'
  nextNode :
    step.2.idGenerator.nextNode.toNat ≤ db.idGenerator.nextNode.toNat + Reply.newNodes step.1
  nextEdge :
    step.2.idGenerator.nextEdge.toNat ≤ db.idGenerator.nextEdge.toNat + Reply.newEdges step.1

/-- A call that hands out nothing leaves the counters. -/
theorem Stepped.of_returns {α : Type} {a : DatabaseAction S (NoCache ⊕ LruCache) α}
    {r : α → Reply}
    (ha : Returns a db fun v db' => g.Answers call (.ok (r v)) g' ∧ Sync L db' g' ∧
      db'.idGenerator = db.idGenerator) :
    Stepped L db g call ((do return r (← a) : DatabaseAction S (NoCache ⊕ LruCache) Reply) db)
      g' := by
  obtain ⟨v, db', he, hanswer, hsync, hid⟩ := ha
  rw [bind_ok he]
  refine ⟨hanswer, hsync, ?_, ?_⟩
  · rw [pure_apply, hid]
    exact Nat.le_add_right _ _
  · rw [pure_apply, hid]
    exact Nat.le_add_right _ _

theorem Stepped.of_read {f : LayeredGraphDatabase S (NoCache ⊕ LruCache) → Reply}
    (h : Sync L db g) (hp : perform ord call = read f) (ha : g.Answers call (.ok (f db)) g) :
    Stepped L db g call (perform ord call db) g := by
  rw [hp]
  exact ⟨ha, h, Nat.le_add_right _ _, Nat.le_add_right _ _⟩

theorem insertNode_stepped (h : Sync L db g) {label : String} {properties : Properties}
    (hn : L.NodeStorable ⟨⟨db.idGenerator.nextNode⟩, label, properties⟩)
    (hroom : db.idGenerator.nextNode.toNat +
      Reply.newNodes (perform ord (.insertNode label properties) db).1 < 2 ^ 64) :
    ∃ g', Stepped L db g (.insertNode label properties)
      (perform ord (.insertNode label properties) db) g' := by
  have hone : Reply.newNodes (perform ord (.insertNode label properties) db).1 = 1 := by
    obtain ⟨id, db', he, -⟩ := insertNode_returns L ord label properties h.valid hn
    rw [perform, bind_ok he]
    rfl
  rw [hone] at hroom
  obtain ⟨id, db', he, hfresh, hsync, hid⟩ := h.insertNode ord label properties hroom hn
  refine ⟨g.insertNode ⟨id, label, properties⟩, ?_⟩
  rw [perform, bind_ok he]
  refine ⟨.insertNode hfresh, hsync, ?_, ?_⟩
  · rw [pure_apply, hid]
    exact (UInt64.toNat_add _ _).trans_le (Nat.mod_le _ _)
  · rw [pure_apply, hid]
    exact Nat.le_add_right _ _

theorem insertEdge_stepped (h : Sync L db g) {source target : NodeId} {label : String}
    {weight : F64} {properties : Properties}
    (he : L.EdgeStorable ⟨⟨db.idGenerator.nextEdge⟩, source, target, label, weight, properties⟩)
    (hroom : db.idGenerator.nextEdge.toNat +
      Reply.newEdges (perform ord (.insertEdge source target label weight properties) db).1
        < 2 ^ 64) :
    ∃ g', Stepped L db g (.insertEdge source target label weight properties)
      (perform ord (.insertEdge source target label weight properties) db) g' := by
  have hsource := h.engine.containsNode source
  have htarget := h.engine.containsNode target
  by_cases hs : g.Live source
  · by_cases ht : g.Live target
    · -- an insertion that succeeds uses up one id of the room
      have hone : Reply.newEdges
          (perform ord (.insertEdge source target label weight properties) db).1 = 1 := by
        obtain ⟨id, db', heq, -⟩ := insertEdge_returns L ord label weight properties h.valid
          (hsource.mpr hs) (htarget.mpr ht) he
        rw [perform, bind_ok heq]
        rfl
      rw [hone] at hroom
      obtain ⟨id, db', heq, hfresh, hsync, hid⟩ :=
        h.insertEdge ord label weight properties hs ht hroom he
      refine ⟨g.insertEdge ⟨id, source, target, label, weight, properties⟩, ?_⟩
      rw [perform, bind_ok heq]
      refine ⟨.insertEdge hs ht hfresh, hsync, ?_, ?_⟩
      · rw [pure_apply, hid]
        exact Nat.le_add_right _ _
      · rw [pure_apply, hid]
        exact (UInt64.toNat_add _ _).trans_le (Nat.mod_le _ _)
    · have hmiss := eq_false_of_ne_true (mt htarget.mp ht)
      refine ⟨g, ?_⟩
      rw [perform, bind_error (insertEdge_target_error label weight properties (hsource.mpr hs)
        hmiss)]
      exact ⟨.noTarget hs ht, h, Nat.le_add_right _ _, Nat.le_add_right _ _⟩
  · have hmiss := eq_false_of_ne_true (mt hsource.mp hs)
    refine ⟨g, ?_⟩
    rw [perform, bind_error (insertEdge_source_error target label weight properties hmiss)]
    exact ⟨.noSource hs, h, Nat.le_add_right _ _, Nat.le_add_right _ _⟩

theorem reopen_stepped (h : Sync L db g) (cache : CacheAdapter) (config : DatabaseConfig) :
    Stepped L db g (.reopen cache config) (perform ord (.reopen cache config) db) g := by
  obtain ⟨db', hopen, hsync, hn, he⟩ := openWithConfig_sync L ord config
    (show L.Valid (FileStorage.reopen db.storage) from (L.reopen_eq db.storage).symm ▸ h.valid)
    h.wellFormed (by rw [L.reopen_eq, h.stored]) cache.empty_new (UInt64.toNat_lt _)
    (UInt64.toNat_lt _) (fun id hid => UInt64.lt_iff_toNat_lt.mp (h.ids.node id hid))
    fun id hid => UInt64.lt_iff_toNat_lt.mp (h.ids.edge id hid)
  have hreopen : reopen ord cache config db = (.ok (), db') := by
    rw [reopen, hopen]
  rw [perform, bind_ok hreopen]
  exact ⟨.reopen cache config, hsync, hn, he⟩

/-- Every call is answered as the plain graph may answer it, and the layers stay in step. -/
theorem perform_stepped (h : Sync L db g) (hcall : call.Inserts L.NodeStorable L.EdgeStorable)
    (hn : db.idGenerator.nextNode.toNat + Reply.newNodes (perform ord call db).1 < 2 ^ 64)
    (he : db.idGenerator.nextEdge.toNat + Reply.newEdges (perform ord call db).1 < 2 ^ 64) :
    ∃ g', Stepped L db g call (perform ord call db) g' := by
  cases call with
  | insertNode label properties => exact insertNode_stepped h (hcall _) hn
  | insertEdge source target label weight properties =>
    exact insertEdge_stepped h (hcall _) he
  | deleteNode id =>
    refine ⟨g.deleteNode id, Stepped.of_returns (r := fun _ => .done) ?_⟩
    exact (h.deleteNode ord id).mono fun _ _ hs => ⟨.deleteNode id, hs⟩
  | deleteEdge id =>
    refine ⟨g.deleteEdge id, Stepped.of_returns (r := fun _ => .done) ?_⟩
    exact (h.deleteEdge ord id).mono fun _ _ hs => ⟨.deleteEdge id, hs⟩
  | getNode id =>
    refine ⟨g, .of_returns ((h.getNode ord id).mono ?_)⟩
    rintro _ _ ⟨rfl, hs⟩
    exact ⟨.getNode id, hs⟩
  | getEdge id =>
    refine ⟨g, .of_returns ((h.getEdge ord id).mono ?_)⟩
    rintro _ _ ⟨rfl, hs⟩
    exact ⟨.getEdge id, hs⟩
  | compact =>
    refine ⟨g, Stepped.of_returns (r := fun _ => .done) ?_⟩
    exact (h.compact ord).mono fun _ _ hs => ⟨.compact, hs⟩
  | reopen cache config => exact ⟨g, reopen_stepped h cache config⟩
  | allNodes =>
    refine ⟨g, .of_returns ((h.allNodes ord).mono ?_)⟩
    rintro _ _ ⟨hp, hs⟩
    exact ⟨.allNodes hp, hs⟩
  | allEdges =>
    refine ⟨g, .of_returns ((h.allEdges ord).mono ?_)⟩
    rintro _ _ ⟨hp, hs⟩
    exact ⟨.allEdges hp, hs⟩
  | nodesByLabel label =>
    refine ⟨g, .of_returns ((h.nodesByLabel ord label).mono ?_)⟩
    rintro _ _ ⟨hp, hs⟩
    exact ⟨.nodesByLabel hp, hs⟩
  | nodeCount => exact ⟨g, .of_read h rfl (.nodeCount h.engine.nodeCount)⟩
  | edgeCount => exact ⟨g, .of_read h rfl (.edgeCount h.engine.edgeCount)⟩
  | labelCount label => exact ⟨g, .of_read h rfl (.labelCount (h.labelCount label))⟩
  | neighborsOutgoing id =>
    exact ⟨g, .of_read h rfl (.neighborsOutgoing (h.engine.neighborsOutgoing id))⟩
  | neighborsIncoming id =>
    exact ⟨g, .of_read h rfl (.neighborsIncoming (h.engine.neighborsIncoming id))⟩

/-- A call hands out at most one id. -/
theorem sum_newNodes_run (calls : List (HashOrder × Call))
    (db : LayeredGraphDatabase S (NoCache ⊕ LruCache)) :
    ((run calls db).1.map Reply.newNodes).sum ≤ calls.length := by
  rw [← Machine.length_run (fun call => perform call.1 call.2) calls db]
  exact Reply.sum_newNodes _

theorem sum_newEdges_run (calls : List (HashOrder × Call))
    (db : LayeredGraphDatabase S (NoCache ⊕ LruCache)) :
    ((run calls db).1.map Reply.newEdges).sum ≤ calls.length := by
  rw [← Machine.length_run (fun call => perform call.1 call.2) calls db]
  exact Reply.sum_newEdges _

/-- A run of the graph with the same calls and replies. -/
theorem run_refines {calls : List (HashOrder × Call)} (h : Sync L db g)
    (hcalls : ∀ call ∈ calls, call.2.Inserts L.NodeStorable L.EdgeStorable)
    (hn : db.idGenerator.nextNode.toNat + ((run calls db).1.map Reply.newNodes).sum < 2 ^ 64)
    (he : db.idGenerator.nextEdge.toNat + ((run calls db).1.map Reply.newEdges).sum < 2 ^ 64) :
    ∃ g', Machine.Runs (fun g call => g.Answers call.2) g calls (run calls db).1 g' ∧
      Sync L (run calls db).2 g' := by
  -- the ids still to be handed out fit behind the counters
  let R (calls : List (HashOrder × Call)) (db : LayeredGraphDatabase S (NoCache ⊕ LruCache))
      (g : PlainGraph) : Prop :=
    Sync L db g ∧ (∀ call ∈ calls, call.2.Inserts L.NodeStorable L.EdgeStorable) ∧
    db.idGenerator.nextNode.toNat + ((run calls db).1.map Reply.newNodes).sum < 2 ^ 64 ∧
    db.idGenerator.nextEdge.toNat + ((run calls db).1.map Reply.newEdges).sum < 2 ^ 64
  have hstep : ∀ call calls db g, R (call :: calls) db g →
      ∃ g', g.Answers call.2 (perform call.1 call.2 db).1 g' ∧
        R calls (perform call.1 call.2 db).2 g' := by
    rintro call calls db g ⟨h, hcalls, hn, he⟩
    rw [run_cons, List.map_cons, List.sum_cons] at hn he
    obtain ⟨g', hs⟩ := perform_stepped h (hcalls call List.mem_cons_self)
      (show _ + Reply.newNodes (perform call.1 call.2 db).1 < _ by omega) (by omega)
    have hnext := hs.nextNode
    have hedge := hs.nextEdge
    exact ⟨g', hs.answers, hs.sync, fun c hc => hcalls c (List.mem_cons_of_mem _ hc), by omega,
      by omega⟩
  obtain ⟨g', hruns, hend, -⟩ := Machine.runs_of_simulation hstep
    (show R calls db g from ⟨h, hcalls, hn, he⟩)
  exact ⟨g', hruns, hend⟩

/-- A run on a new database, seen from the plain graph that is empty at first. -/
theorem openPath_refines (L : StorageSpec S) (ord : HashOrder) (cache : CacheAdapter)
    (config : DatabaseConfig) (calls : List (HashOrder × Call))
    (hcalls : ∀ call ∈ calls, call.2.Inserts L.NodeStorable L.EdgeStorable) :
    ∃ db : LayeredGraphDatabase S (NoCache ⊕ LruCache),
      openWithConfig ord (FileStorage.openPath none) cache.new .new config = .ok db ∧
      (((run calls db).1.map Reply.newNodes).sum < 2 ^ 64 →
        ((run calls db).1.map Reply.newEdges).sum < 2 ^ 64 →
        ∃ g, Machine.Runs (fun g call => g.Answers call.2) PlainGraph.empty calls
          (run calls db).1 g ∧ Sync L (run calls db).2 g) := by
  obtain ⟨db, hopen, hsync, hn, he⟩ := openWithConfig_sync L ord config L.valid_openPath .empty
    L.view_openPath cache.empty_new (N := 0) (M := 0) (by decide) (by decide)
    (fun id hid => by simp [PlainGraph.empty] at hid)
    (fun id hid => by simp [PlainGraph.empty] at hid)
  refine ⟨db, hopen, fun hnodes hedges => ?_⟩
  exact run_refines hsync hcalls (by omega) (by omega)

end LayeredGraphDatabase

/-! ## Either storage adapter -/

/-- The storage that a database is opened with. -/
inductive StorageAdapter where
  | binary
  | json (serde : SerdeJson)

namespace StorageAdapter

def Storage : StorageAdapter → Type
  | binary => BinaryFileStorage
  | json serde => JsonFileStorage serde

instance fileStorage : (a : StorageAdapter) → FileStorage a.Storage
  | binary => inferInstanceAs (FileStorage BinaryFileStorage)
  | json serde => inferInstanceAs (FileStorage (JsonFileStorage serde))

/-! ### What it reads back -/

/-- The nodes that the adapter reads back as they were saved: lengths within the binary
format's prefixes, lines that read as the record. -/
def KeepsNode : StorageAdapter → Node → Prop
  | binary, n => NodeFits n
  | json serde, n => serde.Keeps (.upsertNode n)

def KeepsEdge : StorageAdapter → Edge → Prop
  | binary, e => EdgeFits e
  | json serde, e => serde.Keeps (.upsertEdge e)

/-- What is assumed of the code outside the repository. -/
def Documented : StorageAdapter → Prop
  | binary => True
  | json serde => serde.KeepsFloatless

theorem roundTripsOn_keeps {serde : SerdeJson} (hs : (json serde).Documented) :
    serde.RoundTripsOn (json serde).KeepsNode (json serde).KeepsEdge := by
  intro ord r hr
  cases r with
  | upsertNode n => exact hr ord
  | upsertEdge e => exact hr ord
  | deleteNode id => exact hs (.deleteNode id) trivial trivial ord
  | deleteEdge id => exact hs (.deleteEdge id) trivial trivial ord

def spec : (a : StorageAdapter) → a.Documented → StorageSpec a.Storage
  | binary, _ => BinaryFileStorage.spec
  | json _, hs => JsonFileStorage.storesSpec _ _ (roundTripsOn_keeps hs)

theorem spec_nodeStorable (a : StorageAdapter) (hs : a.Documented) :
    (a.spec hs).NodeStorable = a.KeepsNode := by
  cases a <;> rfl

theorem spec_edgeStorable (a : StorageAdapter) (hs : a.Documented) :
    (a.spec hs).EdgeStorable = a.KeepsEdge := by
  cases a <;> rfl

/-! ### With exact floats -/

/-- What is assumed of the code outside the repository when finite floats round-trip. -/
def Sound : StorageAdapter → Prop
  | binary => True
  | json serde => serde.RoundTrips

def soundSpec : (a : StorageAdapter) → a.Sound → StorageSpec a.Storage
  | binary, _ => BinaryFileStorage.spec
  | json _, hs => JsonFileStorage.storesSpec _ _ (JsonFileStorage.roundTripsOn hs)

theorem soundSpec_nodeStorable (a : StorageAdapter) (hs : a.Sound) {n : Node}
    (h : NodeStorable n) : (a.soundSpec hs).NodeStorable n := by
  cases a with
  | binary => exact h.fits
  | json serde => exact h

theorem soundSpec_edgeStorable (a : StorageAdapter) (hs : a.Sound) {e : Edge}
    (h : EdgeStorable e) : (a.soundSpec hs).EdgeStorable e := by
  cases a with
  | binary => exact h.fits
  | json serde => exact h

end StorageAdapter

open LayeredGraphDatabase

/-- A new database refines a plain graph that is empty at first, and its layers stay in step. -/
theorem opened_refines (a : StorageAdapter) (hs : a.Documented) (ord : HashOrder)
    (cache : CacheAdapter) (config : DatabaseConfig) (calls : List (HashOrder × Call))
    (hcalls : ∀ call ∈ calls, call.2.Inserts a.KeepsNode a.KeepsEdge) :
    ∃ db : LayeredGraphDatabase a.Storage (NoCache ⊕ LruCache),
      openWithConfig ord (FileStorage.openPath none) cache.new .new config = .ok db ∧
      (((run calls db).1.map Reply.newNodes).sum < 2 ^ 64 →
        ((run calls db).1.map Reply.newEdges).sum < 2 ^ 64 →
        ∃ g, Machine.Runs (fun g call => g.Answers call.2) PlainGraph.empty calls
          (run calls db).1 g ∧ Sync (a.spec hs) (run calls db).2 g) := by
  rw [← a.spec_nodeStorable hs, ← a.spec_edgeStorable hs] at hcalls
  exact openPath_refines (a.spec hs) ord cache config calls hcalls

/-- The database refines a plain graph. -/
theorem database_refines_plainGraph (a : StorageAdapter) (hs : a.Sound) (ord : HashOrder)
    (cache : CacheAdapter) (config : DatabaseConfig) (calls : List (HashOrder × Call))
    (hcalls : ∀ call ∈ calls, call.2.Storable) :
    ∃ db : LayeredGraphDatabase a.Storage (NoCache ⊕ LruCache),
      openWithConfig ord (FileStorage.openPath none) cache.new .new config = .ok db ∧
      (((run calls db).1.map Reply.newNodes).sum < 2 ^ 64 →
        ((run calls db).1.map Reply.newEdges).sum < 2 ^ 64 →
        ∃ g, Machine.Runs (fun g call => g.Answers call.2) PlainGraph.empty calls
          (run calls db).1 g) := by
  obtain ⟨db, hopen, hrun⟩ := openPath_refines (a.soundSpec hs) ord cache config calls
    fun call hc => (hcalls call hc).mono (fun _ h => a.soundSpec_nodeStorable hs h)
      fun _ h => a.soundSpec_edgeStorable hs h
  refine ⟨db, hopen, fun hnodes hedges => ?_⟩
  obtain ⟨g, hruns, -⟩ := hrun hnodes hedges
  exact ⟨g, hruns⟩

/-- A loop on a node; the node is deleted after a restart. -/
def loopCalls : List (HashOrder × Call) :=
  [(.sorted, .insertNode "A" ∅),
    (.sorted, .insertEdge ⟨0⟩ ⟨0⟩ "L" ⟨0x3ff0000000000000⟩ ∅),
    (.sorted, .neighborsIncoming ⟨0⟩),
    (.sorted, .reopen .noCache .unrestricted),
    (.sorted, .allEdges),
    (.sorted, .deleteNode ⟨0⟩),
    (.sorted, .edgeCount)]

theorem loopCalls_storable : ∀ call ∈ loopCalls, call.2.Storable := by
  have hlabels : StrFits "A" ∧ StrFits "L" := by decide
  have hprops : PropertiesFit ∅ ∧ PropertiesFinite ∅ := by decide
  intro call hc
  simp only [loopCalls, List.mem_cons, List.not_mem_nil, or_false] at hc
  rcases hc with rfl | rfl | rfl | rfl | rfl | rfl | rfl
  · exact fun _ => ⟨⟨hlabels.1, hprops.1⟩, hprops.2⟩
  · exact fun _ => ⟨⟨hlabels.2, hprops.1⟩, rfl, hprops.2⟩
  all_goals trivial

theorem database_refines_plainGraph_loop :
    ∃ db : LayeredGraphDatabase (JsonFileStorage SampleJson.serde) (NoCache ⊕ LruCache),
      openWithConfig .sorted (FileStorage.openPath none)
        (CacheAdapter.lruCache 1 1 Nat.one_pos Nat.one_pos).new .new ⟨some 2, .all⟩ = .ok db ∧
      ∃ g, Machine.Runs (fun g call => g.Answers call.2) PlainGraph.empty loopCalls
        (run loopCalls db).1 g := by
  obtain ⟨db, hopen, hrun⟩ := database_refines_plainGraph (.json SampleJson.serde)
    SampleJson.roundTrips .sorted (.lruCache 1 1 Nat.one_pos Nat.one_pos) ⟨some 2, .all⟩ loopCalls
    loopCalls_storable
  have hlen : loopCalls.length < 2 ^ 64 := by decide
  exact ⟨db, hopen, hrun ((sum_newNodes_run loopCalls db).trans_lt hlen)
    ((sum_newEdges_run loopCalls db).trans_lt hlen)⟩

end AdGraphDb
