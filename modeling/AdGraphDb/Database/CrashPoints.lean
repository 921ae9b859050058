import AdGraphDb.Database.StorageErrors
import AdGraphDb.Database.Refinement
import AdGraphDb.Storage.JsonReadBack

/-!
# Crashes between two records

A process that dies between two records leaves the file as a storage does that refuses
every later write. Whatever the cut, the file replays to a sound graph: the graph of the
finished calls, with the interrupted one done, not done, or, for the deletion of a node,
done for some of the incident edges.
-/

namespace AdGraphDb
open Std AdGraphDb.Action

/-! ## Graphs that a crash may leave -/

namespace PlainGraph

variable {g : PlainGraph}

theorem WellFormed.eraseEdges (h : g.WellFormed) (ids : List EdgeId) :
    WellFormed ⟨g.nodes, g.edges.eraseAll ids⟩ := by
  induction ids generalizing g with
  | nil => exact h
  | cons k ids ih => exact ih (h.deleteEdge k)

/-- What an interrupted operation may have made of the graph. -/
inductive Interrupts (g : PlainGraph) : LayeredGraphDatabase.Mutation → PlainGraph → Prop
  | nothing (m : LayeredGraphDatabase.Mutation) : Interrupts g m g
  | insertNode {id : NodeId} {label : String} {properties : Properties}
    (fresh : g.nodes[id]? = none) :
    Interrupts g (.insertNode label properties) (g.insertNode ⟨id, label, properties⟩)
  | insertEdge {id : EdgeId} {source target : NodeId} {label : String} {weight : F64}
    {properties : Properties} (hs : g.Live source) (ht : g.Live target)
    (fresh : g.edges[id]? = none) :
    Interrupts g (.insertEdge source target label weight properties)
      (g.insertEdge ⟨id, source, target, label, weight, properties⟩)
  | someEdges {id : NodeId} {ids : List EdgeId} (incident : ∀ k ∈ ids, ∃ e : Edge,
    g.edges[k]? = some e ∧ (e.source = id ∨ e.target = id)) :
    Interrupts g (.deleteNode id) ⟨g.nodes, g.edges.eraseAll ids⟩
  | deleteNode (id : NodeId) : Interrupts g (.deleteNode id) (g.deleteNode id)
  | deleteEdge (id : EdgeId) : Interrupts g (.deleteEdge id) (g.deleteEdge id)

theorem Interrupts.wellFormed {m : LayeredGraphDatabase.Mutation} {g' : PlainGraph}
    (h : g.Interrupts m g') (hg : g.WellFormed) : g'.WellFormed := by
  cases h with
  | nothing => exact hg
  | insertNode fresh => exact hg.insertNode _
  | insertEdge hs ht fresh => exact hg.insertEdge hs ht
  | someEdges incident => exact hg.eraseEdges _
  | deleteNode id => exact hg.deleteNode id
  | deleteEdge id => exact hg.deleteEdge id

end PlainGraph

namespace LayeredGraphDatabase

/-- What the operation inserts satisfies the predicates, whatever its id. -/
def Mutation.Inserts (N : Node → Prop) (E : Edge → Prop) : Mutation → Prop
  | insertNode label properties => ∀ id, N ⟨id, label, properties⟩
  | insertEdge source target label weight properties =>
    ∀ id, E ⟨id, source, target, label, weight, properties⟩
  | _ => True

section

variable {S C : Type} [StoragePort S] [CachePort C]

/-- The database over a storage that refuses every write after the first `n`. -/
def refusing (n : Nat) (db : LayeredGraphDatabase S C) : LayeredGraphDatabase (Faulty S) C :=
  { db with storage := ⟨db.storage, 0, .write n, .storageIo "interrupted"⟩ }

/-- The storage that an operation leaves when the process dies after its first `n` records. -/
def cutOff (ord : HashOrder) (m : Mutation) (n : Nat) (db : LayeredGraphDatabase S C) : S :=
  (mutate ord m (db.refusing n)).2.storage.inner

end

variable {S C : Type} [FileStorage S] [LawfulCachePort C] {L : StorageSpec S}
  {db : LayeredGraphDatabase S C} {g : PlainGraph}

namespace Sync

theorem incident (h : Sync L db g) {id : NodeId} {k : EdgeId}
    (hk : k ∈ db.incidentEdges id) :
    ∃ e : Edge, g.edges[k]? = some e ∧ (e.source = id ∨ e.target = id) := by
  have hlive := isSome_of_mem_incidentEdges h.engine h.wellFormed.edge hk
  obtain ⟨e, he⟩ := Option.isSome_iff_exists.mp hlive
  exact ⟨e, he, (h.engine.mem_incident h.wellFormed he).mp hk⟩

theorem graph_eq (h : Sync L db g) : L.graph db.storage = g := by
  rw [StorageSpec.graph, h.stored]

/-- What a record that has reached the file makes of the graph. -/
theorem graph_applyRecord (h : Sync L db g) {inner : S} {r : RecordData} {g' : PlainGraph}
    (hview : L.view inner = (L.view db.storage).applyRecord r)
    (hr : (⟨g.nodes, g.edges, none⟩ : ReplayState).applyRecord r = ⟨g'.nodes, g'.edges, none⟩) :
    L.graph inner = g' := by
  rw [h.stored, hr] at hview
  rw [StorageSpec.graph, hview]

theorem graph_deleteEdges (h : Sync L db g) {inner : S} {ids : List EdgeId}
    (hview : L.view inner = (L.view db.storage).run (ids.map .deleteEdge)) :
    L.graph inner = ⟨g.nodes, g.edges.eraseAll ids⟩ := by
  rw [h.stored, run_deleteEdges] at hview
  rw [StorageSpec.graph, hview]

/-- The edges are gone before the node is. -/
theorem graph_deleteNode (h : Sync L db g) {inner : S} {id : NodeId}
    (hview : L.view inner = ((L.view db.storage).run
      ((db.incidentEdges id).map .deleteEdge)).applyRecord (.deleteNode id)) :
    L.graph inner = g.deleteNode id := by
  have hincident : ∀ (k : EdgeId) (e : Edge), g.edges[k]? = some e →
      (k ∈ db.incidentEdges id ↔ e.source = id ∨ e.target = id) :=
    fun k e hk => h.engine.mem_incident h.wellFormed hk
  rw [h.stored, run_deleteEdges, ← PlainGraph.deleteNode_edges_eq hincident] at hview
  rw [StorageSpec.graph, hview]
  rfl

end Sync

/-! ## Where an operation is cut off -/

variable (L) in
/-- The file holds a graph that the operation may leave. -/
def Leaves (g : PlainGraph) (m : Mutation) (storage : S) : Prop :=
  L.Valid storage ∧ g.Interrupts m (L.graph storage)

theorem Sync.leaves (h : Sync L db g) (m : Mutation) : Leaves L g m db.storage := by
  refine ⟨h.valid, ?_⟩
  rw [h.graph_eq]
  exact .nothing m

theorem insertNode_cutOff (h : Sync L db g) (ord : HashOrder) (n : Nat) {label : String}
    {properties : Properties} (hm : ∀ id, L.NodeStorable ⟨id, label, properties⟩) :
    Leaves L g (.insertNode label properties)
      (cutOff ord (.insertNode label properties) n db) := by
  have hv₀ : L.Valid (db.refusing n).storage.inner := h.valid
  unfold cutOff
  rcases insertNode_faulty L ord label properties hv₀ (hm _) with
    ⟨e, hrun⟩ | ⟨id, db', hrun, rfl, inner, hview, hv, hg⟩
  · rw [mutate, bind_error hrun]
    exact h.leaves _
  · have hend : L.graph inner = g.insertNode ⟨_, label, properties⟩ :=
      h.graph_applyRecord hview rfl
    rw [mutate, bind_ok hrun]
    refine ⟨hv, ?_⟩
    rw [pure_apply, hg, hend]
    exact .insertNode h.ids.node_fresh

/-- Without one of its ends an edge is refused before anything is written. -/
theorem insertEdge_refused (h : Sync L db g) (ord : HashOrder) (n : Nat) {source target : NodeId}
    (label : String) (weight : F64) (properties : Properties)
    (hends : ¬ (g.Live source ∧ g.Live target)) :
    ∃ e, insertEdge ord source target label weight properties (db.refusing n) =
      (.error e, db.refusing n) := by
  have hsource := h.engine.containsNode source
  have htarget := h.engine.containsNode target
  by_cases hs : g.Live source
  · have hmiss : (db.refusing n).engine.containsNode target = false :=
      eq_false_of_ne_true (mt htarget.mp fun ht => hends ⟨hs, ht⟩)
    exact ⟨_, insertEdge_target_error label weight properties
      (show (db.refusing n).engine.containsNode source = true from hsource.mpr hs) hmiss⟩
  · have hmiss : (db.refusing n).engine.containsNode source = false :=
      eq_false_of_ne_true (mt hsource.mp hs)
    exact ⟨_, insertEdge_source_error target label weight properties hmiss⟩

theorem insertEdge_cutOff (h : Sync L db g) (ord : HashOrder) (n : Nat) {source target : NodeId}
    {label : String} {weight : F64} {properties : Properties}
    (hm : ∀ id, L.EdgeStorable ⟨id, source, target, label, weight, properties⟩) :
    Leaves L g (.insertEdge source target label weight properties)
      (cutOff ord (.insertEdge source target label weight properties) n db) := by
  have hv₀ : L.Valid (db.refusing n).storage.inner := h.valid
  unfold cutOff
  by_cases hends : g.Live source ∧ g.Live target
  · rcases insertEdge_faulty L ord label weight properties hv₀
        ((h.engine.containsNode source).mpr hends.1)
        ((h.engine.containsNode target).mpr hends.2) (hm _) with
      ⟨e, hrun⟩ | ⟨id, db', hrun, rfl, inner, hview, hv, hg⟩
    · rw [mutate, bind_error hrun]
      exact h.leaves _
    · have hend : L.graph inner = g.insertEdge ⟨_, source, target, label, weight, properties⟩ :=
        h.graph_applyRecord hview rfl
      rw [mutate, bind_ok hrun]
      refine ⟨hv, ?_⟩
      rw [pure_apply, hg, hend]
      exact .insertEdge hends.1 hends.2 h.ids.edge_fresh
  · obtain ⟨e, hrun⟩ := insertEdge_refused h ord n label weight properties hends
    rw [mutate, bind_error hrun]
    exact h.leaves _

/-- The records of the incident edges come before that of the node. -/
theorem deleteNode_cutOff (h : Sync L db g) (ord : HashOrder) (n : Nat) (id : NodeId) :
    Leaves L g (.deleteNode id) (cutOff ord (.deleteNode id) n db) := by
  have hends := deleteNode_ends L ord id (show L.Valid (db.refusing n).storage.inner from h.valid)
  unfold cutOff
  rw [mutate]
  generalize deleteNode ord id (db.refusing n) = r at hends
  cases hends with
  | edgeRefused k hk hpoint hvalid hview =>
    refine ⟨hvalid, ?_⟩
    rw [after, h.graph_deleteEdges hview]
    exact .someEdges fun k hk => h.incident (List.mem_of_mem_take hk)
  | lookupRefused hpoint => cases hpoint
  | @nodeRefused inner cache hpoint hvalid hview =>
    -- all edges are gone, the node is not
    have hstorage : (unindex (ord.sub 1) id (found L (db.refusing n) id) ((db.refusing n).after
        ((db.refusing n).incidentEdges id).length inner cache)).storage.inner = inner := by
      cases found L (db.refusing n) id <;> rfl
    rw [hstorage]
    refine ⟨hvalid, ?_⟩
    rw [h.graph_deleteEdges hview]
    exact .someEdges fun k hk => h.incident hk
  | done hpoint hload hview hvalid hgraph =>
    refine ⟨hvalid, ?_⟩
    rw [hgraph, h.graph_deleteNode hview]
    exact .deleteNode id

theorem deleteEdge_cutOff (h : Sync L db g) (ord : HashOrder) (n : Nat) (id : EdgeId) :
    Leaves L g (.deleteEdge id) (cutOff ord (.deleteEdge id) n db) := by
  unfold cutOff
  rcases deleteEdge_faulty L ord id (show L.Valid (db.refusing n).storage.inner from h.valid) with
    ⟨e, hrun⟩ | ⟨_, db', hrun, inner, hview, hv, hg⟩
  · rw [mutate, hrun]
    exact h.leaves _
  · have hend : L.graph inner = g.deleteEdge id := h.graph_applyRecord hview rfl
    rw [mutate, hrun]
    refine ⟨hv, ?_⟩
    rw [hg, hend]
    exact .deleteEdge id

/-- Wherever an operation is cut off, the file holds a graph that it may leave. -/
theorem cutOff_interrupts (h : Sync L db g) (ord : HashOrder) (n : Nat) {m : Mutation}
    (hm : m.Inserts L.NodeStorable L.EdgeStorable) :
    L.Valid (cutOff ord m n db) ∧ g.Interrupts m (L.graph (cutOff ord m n db)) := by
  cases m with
  | insertNode label properties => exact insertNode_cutOff h ord n hm
  | insertEdge source target label weight properties => exact insertEdge_cutOff h ord n hm
  | deleteNode id => exact deleteNode_cutOff h ord n id
  | deleteEdge id => exact deleteEdge_cutOff h ord n id

end LayeredGraphDatabase

/-! ## Either storage adapter -/

namespace StorageAdapter

/-- The private method that reads the whole file. -/
def replay : (a : StorageAdapter) → a.Storage → Except GraphError Contents
  | binary, s => BinaryFileStorage.replay s
  | json _, s => JsonFileStorage.replay s

theorem replay_eq (a : StorageAdapter) (hs : a.Documented) {s : a.Storage}
    (h : (a.spec hs).Valid s) : a.replay s =
      .ok (((a.spec hs).graph s).nodes, ((a.spec hs).graph s).edges) := by
  cases a with
  | binary => exact BinaryFileStorage.Valid.replay_eq h
  | json serde => exact JsonFileStorage.Stores.replay_eq h

end StorageAdapter

open LayeredGraphDatabase

/-- Some graph explains the replies of the run, and whenever the next operation is cut off,
replay returns a graph without dangling edges that it may leave. -/
def CrashSafe (a : StorageAdapter) (db : LayeredGraphDatabase a.Storage (NoCache ⊕ LruCache))
    (calls : List (HashOrder × Call)) (m : Mutation) : Prop :=
  ∃ g, Machine.Runs (fun g call => g.Answers call.2) PlainGraph.empty calls (run calls db).1 g ∧
    ∀ ord n, ∃ g' : PlainGraph,
      a.replay (cutOff ord m n (run calls db).2) = .ok (g'.nodes, g'.edges) ∧
      g'.WellFormed ∧ g.Interrupts m g'

/-- Every crash point of every run leaves a sound graph, as long as the file can hold what
is inserted. -/
theorem run_crashSafe (a : StorageAdapter) (hs : a.Documented) (ord : HashOrder)
    (cache : CacheAdapter) (config : DatabaseConfig) (calls : List (HashOrder × Call))
    (m : Mutation) (hcalls : ∀ call ∈ calls, call.2.Inserts a.KeepsNode a.KeepsEdge)
    (hm : m.Inserts a.KeepsNode a.KeepsEdge) :
    ∃ db : LayeredGraphDatabase a.Storage (NoCache ⊕ LruCache),
      openWithConfig ord (FileStorage.openPath none) cache.new .new config = .ok db ∧
      (((run calls db).1.map Reply.newNodes).sum < 2 ^ 64 →
        ((run calls db).1.map Reply.newEdges).sum < 2 ^ 64 → CrashSafe a db calls m) := by
  rw [← a.spec_nodeStorable hs, ← a.spec_edgeStorable hs] at hcalls hm
  obtain ⟨db, hopen, hrun⟩ :=
    openPath_refines (a.spec hs) ord cache config calls hcalls
  refine ⟨db, hopen, fun hnodes hedges => ?_⟩
  obtain ⟨g, hruns, hsync⟩ := hrun hnodes hedges
  refine ⟨g, hruns, fun ord n => ?_⟩
  obtain ⟨hvalid, hinterrupts⟩ := cutOff_interrupts hsync ord n hm
  exact ⟨_, a.replay_eq hs hvalid, hinterrupts.wellFormed hsync.wellFormed, hinterrupts⟩

/-- A node with a loop; its deletion is cut off anywhere. -/
theorem run_crashSafe_loop :
    ∃ db : LayeredGraphDatabase BinaryFileStorage (NoCache ⊕ LruCache),
      openWithConfig .sorted (FileStorage.openPath none) CacheAdapter.noCache.new .new
        .unrestricted = .ok db ∧
      CrashSafe .binary db
        [(.sorted, .insertNode "A" ∅),
          (.sorted, .insertEdge ⟨0⟩ ⟨0⟩ "L" ⟨0x3ff0000000000000⟩ ∅)] (.deleteNode ⟨0⟩) := by
  let calls : List (HashOrder × Call) :=
    [(.sorted, .insertNode "A" ∅), (.sorted, .insertEdge ⟨0⟩ ⟨0⟩ "L" ⟨0x3ff0000000000000⟩ ∅)]
  have hfits : StrFits "A" ∧ StrFits "L" ∧ PropertiesFit ∅ := by decide
  have hcalls : ∀ call ∈ calls, call.2.Inserts NodeFits EdgeFits :=
    List.forall_mem_cons.mpr ⟨fun _ => ⟨hfits.1, hfits.2.2⟩,
      List.forall_mem_singleton.mpr fun _ => ⟨hfits.2.1, hfits.2.2⟩⟩
  obtain ⟨db, hopen, hrun⟩ := run_crashSafe .binary trivial .sorted .noCache .unrestricted calls
    (.deleteNode ⟨0⟩) hcalls trivial
  have hlen : calls.length < 2 ^ 64 := by decide
  exact ⟨db, hopen, hrun ((sum_newNodes_run calls db).trans_lt hlen)
    ((sum_newEdges_run calls db).trans_lt hlen)⟩

def infiniteCalls : List (HashOrder × Call) :=
  [(.sorted, .insertNode "A" ∅), (.sorted, .insertEdge ⟨0⟩ ⟨0⟩ "L" ⟨0x7ff0000000000000⟩ ∅)]

/-- An edge of infinite weight is acknowledged; at no later crash does replay return a graph. -/
theorem infinite_weight_not_crashSafe :
    ∃ db : LayeredGraphDatabase (JsonFileStorage SampleJson.nullSerde) (NoCache ⊕ LruCache),
      openWithConfig .sorted (FileStorage.openPath none) CacheAdapter.noCache.new .new
        .unrestricted = .ok db ∧
      ((run infiniteCalls db).1.all fun reply => reply.isOk) = true ∧
      ¬ CrashSafe (.json SampleJson.nullSerde) db infiniteCalls (.deleteEdge ⟨0⟩) := by
  let db : LayeredGraphDatabase (JsonFileStorage SampleJson.nullSerde) (NoCache ⊕ LruCache) :=
    ⟨.new, CacheAdapter.noCache.new, ⟨[]⟩, .new, .new, .new, .unrestricted, 0⟩
  have hreplay : StorageAdapter.replay (.json SampleJson.nullSerde)
      (cutOff .sorted (.deleteEdge ⟨0⟩) 0 (run infiniteCalls db).2) =
      .error (.deserializationError "line 2: invalid type: null, expected f64") := by
    decide +kernel
  refine ⟨db, rfl, by decide +kernel, ?_⟩
  rintro ⟨g, -, hcut⟩
  obtain ⟨g', hok, -⟩ := hcut .sorted 0
  cases hreplay.symm.trans hok

end AdGraphDb
