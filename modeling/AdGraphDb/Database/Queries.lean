import AdGraphDb.Algorithms.Traversals
import AdGraphDb.Database.Plans

/-!
# What a query answers

The answer to a command is a function of the graph and the configuration, up to order: it
depends neither on the adapters nor on what was written before, although the planner is told
which fields the property index happens to know.
-/

namespace AdGraphDb
open Std AdGraphDb.Action QueryPlanner

namespace PlainGraph

/-! ## Statistics of a graph -/

/-- The fields that the nodes carry and the configuration selects. -/
def indexedFields (config : DatabaseConfig) (g : PlainGraph) : List String :=
  (g.nodes.vals.flatMap fun n => n.properties.toList.map Prod.fst).filter config.shouldIndexField

/-- What the planner is told when the indexes hold the graph and nothing else. -/
def stats (config : DatabaseConfig) (g : PlainGraph) : DatabaseStats where
  nodeCount := g.nodes.size
  edgeCount := g.edges.size
  labelCounts := HashMap.ofKeys (g.nodes.vals.map Node.label) fun l =>
    (g.nodes.vals.filter fun n => n.label = l).length
  indexedNodeFields := HashMap.ofKeys (g.indexedFields config) fun _ => ()

variable {g : PlainGraph} {config : DatabaseConfig} {field : String}

theorem mem_indexedFields : field ∈ g.indexedFields config ↔
    config.shouldIndexField field = true ∧ ∃ n ∈ g.nodes.vals, n.properties[field]?.isSome := by
  simp only [indexedFields, List.mem_filter, List.mem_flatMap, HashMap.mem_keys]
  exact and_comm

theorem contains_stats :
    (g.stats config).indexedNodeFields.contains field = true ↔ field ∈ g.indexedFields config := by
  rw [ExtTreeMap.contains_eq_isSome_getElem?]
  change (HashMap.ofKeys _ _)[field]?.isSome = true ↔ _
  rw [HashMap.getElem?_ofKeys]
  split_ifs with h <;> simp [h]

theorem labelCount_stats (label : String) :
    (g.stats config).labelCount label = (g.nodes.vals.filter fun n => n.label = label).length := by
  unfold DatabaseStats.labelCount
  change (HashMap.ofKeys _ _)[label]?.getD 0 = _
  rw [HashMap.getElem?_ofKeys]
  split_ifs with h
  · rfl
  · rw [List.filter_eq_nil_iff.mpr]
    · rfl
    · intro n hn hl
      exact h (of_decide_eq_true hl ▸ List.mem_map_of_mem hn)

/-! ## Answers -/

/-- The nodes that are found by looking a condition up in the index, if there is one, and
testing the rest of the filter. -/
def selectNodes (filter : NodeFilter) (c? : Option PropertyCondition) (g : PlainGraph) : List Node :=
  g.nodes.vals.filter fun n =>
    match c? with
    | some c => (remainingFilter filter c).matches n &&
        (PropertyIndex.nodeKey c.key n).any (FieldKey.admitted c.op c.value)
    | none => filter.matches n

/-- The answer to a query for nodes. -/
def matchNodes (log2Ceil : Nat → Nat) (config : DatabaseConfig) (filter : NodeFilter)
    (g : PlainGraph) : List Node :=
  g.selectNodes filter (indexedCondition log2Ceil filter (g.stats config))

/-- The answer to a lookup by a property: a configured field is compared as the index orders
its values, another one as filters do. -/
def nodesByProperty (config : DatabaseConfig) (field : String) (op : ComparisonOp) (value : Value)
    (g : PlainGraph) : List Node :=
  g.nodes.vals.filter fun n =>
    if config.shouldIndexField field then
      (PropertyIndex.nodeKey field n).any (FieldKey.admitted op value)
    else (n.properties[field]?.map fun v => op.compareValues v value).getD false

/-- Nothing is selected by a condition on a field that no node carries. -/
theorem selectNodes_eq_nil {filter : NodeFilter} {c : PropertyCondition}
    (hc : c ∈ filter.propertyConditions) (hnone : ∀ n ∈ g.nodes.vals, n.properties[c.key]? = none)
    {c? : Option PropertyCondition} (hc? : ∀ c' ∈ c?, c' = c ∨ c'.key ≠ c.key) :
    g.selectNodes filter c? = [] := by
  have hfails (n : Node) (hn : n ∈ g.nodes.vals) : c.matchesProperties n.properties = false := by
    rw [PropertyCondition.matchesProperties, hnone n hn]
  apply List.filter_eq_nil_iff.mpr
  intro n hn
  cases c? with
  | none =>
    dsimp only
    rw [matches_eq_remaining hc, hfails n hn, Bool.and_false]
    exact Bool.false_ne_true
  | some c' =>
    dsimp only
    rcases hc? c' rfl with rfl | hkey
    · rw [PropertyIndex.nodeKey, hnone n hn, Option.map_none, Option.any_none, Bool.and_false]
      exact Bool.false_ne_true
    · -- the condition is not the one that the index answers, so the rest still has it
      have hrest : c ∈ (remainingFilter filter c').propertyConditions := by
        refine List.mem_filter.mpr ⟨hc, ?_⟩
        rw [bne_iff_ne.mpr (Ne.symm hkey)]
        rfl
      have hrem : (remainingFilter filter c').matches n = false := by
        rw [matches_eq_remaining hrest, hfails n hn, Bool.and_false]
      rw [hrem, Bool.false_and]
      exact Bool.false_ne_true

end PlainGraph

/-! ## The choice of the planner -/

namespace QueryPlanner

variable {log2Ceil : Nat → Nat} {filter : NodeFilter} {stats stats' : DatabaseStats}

/-- With more fields to choose from the planner takes the same condition, or one of the others. -/
theorem indexedCondition_cases (log2Ceil : Nat → Nat) (filter : NodeFilter)
    (hcount : stats'.nodeCount = stats.nodeCount)
    (hlabel : ∀ l, stats'.labelCount l = stats.labelCount l)
    (hfields : ∀ field, stats'.indexedNodeFields.contains field = true →
      stats.indexedNodeFields.contains field = true) :
    indexedCondition log2Ceil filter stats' = indexedCondition log2Ceil filter stats ∨
      ∃ c, indexedCondition log2Ceil filter stats = some c ∧
        stats'.indexedNodeFields.contains c.key = false := by
  have hpays : IndexPays log2Ceil filter stats' ↔ IndexPays log2Ceil filter stats := by
    unfold IndexPays estimatedPropertyIndexCost
    rw [hcount, funext hlabel]
  unfold indexedCondition
  simp only [hpays]
  split_ifs
  · unfold bestIndexedCondition
    cases hbest : HashMap.minByKey (fun c => opSelectivityRank c.op)
        (filter.propertyConditions.filter fun c => stats.indexedNodeFields.contains c.key) with
    | none =>
      refine .inl ?_
      have hnil : (filter.propertyConditions.filter fun c =>
          stats.indexedNodeFields.contains c.key) = [] := by
        cases hl : filter.propertyConditions.filter fun c =>
            stats.indexedNodeFields.contains c.key with
        | nil => rfl
        | cons c l =>
          rw [hl] at hbest
          cases hbest
      have hnil' : (filter.propertyConditions.filter fun c =>
          stats'.indexedNodeFields.contains c.key) = [] := by
        apply List.filter_eq_nil_iff.mpr
        intro c hc hmem
        exact List.filter_eq_nil_iff.mp hnil c hc (hfields c.key hmem)
      rw [hnil']
      rfl
    | some c =>
      cases hmem : stats'.indexedNodeFields.contains c.key with
      | false => exact .inr ⟨c, rfl, hmem⟩
      | true => exact .inl (HashMap.minByKey_filter (fun d hd => hfields d.key hd) hbest hmem)
  · exact .inl rfl

end QueryPlanner

/-! ## Commands -/

/-- What a query may answer on a graph. -/
inductive PlainGraph.Replies (log2Ceil : Nat → Nat) (dijkstra : ShortestPathAlgorithm)
    (config : DatabaseConfig) (g : PlainGraph) : QueryCommand → QueryResult → Prop
  | matchNodes {filter : NodeFilter} {found : List Node}
    (h : found.Perm (g.matchNodes log2Ceil config filter)) :
    Replies log2Ceil dijkstra config g (.matchNodes filter) (.nodes found)
  | matchEdges {filter : EdgeFilter} {found : List Edge}
    (h : found.Perm (g.edges.vals.filter fun e => filter.matches e)) :
    Replies log2Ceil dijkstra config g (.matchEdges filter) (.edges found)
  | getNode (id : NodeId) :
    Replies log2Ceil dijkstra config g (.getNode id) (.singleNode g.nodes[id]?)
  | getEdge (id : EdgeId) :
    Replies log2Ceil dijkstra config g (.getEdge id) (.singleEdge g.edges[id]?)
  | traverseBfs {start : NodeId} {order : List NodeId} (h : g.BreadthFirst start order) :
    Replies log2Ceil dijkstra config g (.traverse .bfs start) (.traversal order)
  | traverseDfs {start : NodeId} {order : List NodeId} (h : g.DepthFirst start order) :
    Replies log2Ceil dijkstra config g (.traverse .dfs start) (.traversal order)
  | path {e : AdjacencyListEngine} (he : e.Represents g) {start goal : NodeId} {nodes : List NodeId}
    {weight : F64} (h : dijkstra e start goal = some (nodes, weight)) :
    Replies log2Ceil dijkstra config g (.shortestPath start goal) (.path nodes weight)
  | noPath {e : AdjacencyListEngine} (he : e.Represents g) {start goal : NodeId}
    (h : dijkstra e start goal = none) :
    Replies log2Ceil dijkstra config g (.shortestPath start goal) .empty
  | countNodes : Replies log2Ceil dijkstra config g .countNodes (.count g.nodes.size)
  | countEdges : Replies log2Ceil dijkstra config g .countEdges (.count g.edges.size)

/-- The searches of the repository next to a search for shortest paths. -/
def Algorithms.searches (dijkstra : ShortestPathAlgorithm) : Algorithms :=
  ⟨BreadthFirstSearch.search, DepthFirstSearch.search, dijkstra⟩

namespace LayeredGraphDatabase

/-! ## What a query may change -/

section

variable {S C : Type} [StoragePort S] [CachePort C]

/-- The database is the one of before, but for what it has cached. -/
def SameButCache (before db : LayeredGraphDatabase S C) : Prop :=
  ∃ cache, db = { before with cache := cache }

omit [StoragePort S] [CachePort C] in
theorem SameButCache.refl (db : LayeredGraphDatabase S C) : SameButCache db db := ⟨db.cache, rfl⟩

abbrev OnlyCaches {α : Type} (a : DatabaseAction S C α) : Prop :=
  ∀ before, Preserves a (SameButCache before)

omit [StoragePort S] [CachePort C] in
theorem sameButCache_set {before db : LayeredGraphDatabase S C} (h : SameButCache before db)
    (cache : C) : SameButCache before { db with cache := cache } := by
  obtain ⟨-, rfl⟩ := h
  exact ⟨cache, rfl⟩

theorem getNode_onlyCaches (ord : HashOrder) (id : NodeId) :
    OnlyCaches (getNode ord id : DatabaseAction S C (Option Node)) := by
  intro before
  apply Preserves.bind_on
  · exact fun cache _ h => sameButCache_set h cache
  intro cached
  cases cached with
  | some node => exact .pure _
  | none =>
    apply Preserves.bind
    · exact .tryRead _
    intro stored
    cases stored with
    | some node => exact .bind_modify (fun _ h => sameButCache_set h _) (.pure _)
    | none => exact .pure _

theorem getEdge_onlyCaches (ord : HashOrder) (id : EdgeId) :
    OnlyCaches (getEdge ord id : DatabaseAction S C (Option Edge)) := by
  intro before
  apply Preserves.bind_on
  · exact fun cache _ h => sameButCache_set h cache
  intro cached
  cases cached with
  | some edge => exact .pure _
  | none =>
    apply Preserves.bind
    · exact .tryRead _
    intro stored
    cases stored with
    | some edge => exact .bind_modify (fun _ h => sameButCache_set h _) (.pure _)
    | none => exact .pure _

theorem loadNodes_onlyCaches (ord : HashOrder) (ids : List NodeId) :
    OnlyCaches (loadNodes ord ids : DatabaseAction S C (List Node)) := fun before =>
  .filterMap (fun id => getNode_onlyCaches _ id before) ids

theorem loadEdges_onlyCaches (ord : HashOrder) (ids : List EdgeId) :
    OnlyCaches (loadEdges ord ids : DatabaseAction S C (List Edge)) := fun before =>
  .filterMap (fun id => getEdge_onlyCaches _ id before) ids

theorem allNodes_onlyCaches (ord : HashOrder) :
    OnlyCaches (allNodes ord : DatabaseAction S C (List Node)) := fun before =>
  .bind_read fun ids => loadNodes_onlyCaches _ ids before

theorem allEdges_onlyCaches (ord : HashOrder) :
    OnlyCaches (allEdges ord : DatabaseAction S C (List Edge)) := fun before =>
  .bind_read fun ids => loadEdges_onlyCaches _ ids before

theorem nodesByLabel_onlyCaches (ord : HashOrder) (label : String) :
    OnlyCaches (nodesByLabel ord label : DatabaseAction S C (List Node)) := fun before =>
  .bind_read fun ids => loadNodes_onlyCaches _ ids before

theorem nodesByProperty_onlyCaches (ord : HashOrder) (field : String) (op : ComparisonOp)
    (value : Value) :
    OnlyCaches (nodesByProperty ord field op value : DatabaseAction S C (List Node)) := by
  intro before
  apply Preserves.bind_read
  intro ids?
  cases ids? with
  | some ids => exact loadNodes_onlyCaches _ ids before
  | none => exact (allNodes_onlyCaches _ before).bind fun _ => .pure _

theorem executePlan_onlyCaches (algorithms : Algorithms) (ord : HashOrder) (plan : ExecutionPlan) :
    OnlyCaches (executePlan (context (S := S) (C := C) algorithms) ord plan) := by
  intro before
  cases plan with
  | propertyIndexScan field op value remainingFilter =>
    exact (nodesByProperty_onlyCaches ord field op value before).bind fun _ => .pure _
  | labelIndexScan label remainingFilter =>
    exact (nodesByLabel_onlyCaches ord _ before).bind fun _ => .pure _
  | fullNodeScan filter => exact (allNodes_onlyCaches ord before).bind fun _ => .pure _
  | fullEdgeScan filter => exact (allEdges_onlyCaches ord before).bind fun _ => .pure _
  | nodeLookup id => exact (getNode_onlyCaches ord id before).bind fun _ => .pure _
  | edgeLookup id => exact (getEdge_onlyCaches ord id before).bind fun _ => .pure _
  | traverse kind start => exact .read _
  | shortestPath start goal => exact .read _
  | countNodes => exact .read _
  | countEdges => exact .read _

end

/-! ## Answers from the graph -/

variable {S C : Type} [FileStorage S] [LawfulCachePort C] {L : StorageSpec S}
  {db : LayeredGraphDatabase S C} {g : PlainGraph}

namespace Sync

theorem labelCount_buildStats (h : Sync L db g) (ord : HashOrder) (label : String) :
    (db.buildStats ord).labelCount label =
      (g.nodes.vals.filter fun n => n.label = label).length := by
  rw [← h.labelCount label]
  unfold DatabaseStats.labelCount
  change (HashMap.ofKeys _ _)[label]?.getD 0 = _
  rw [HashMap.getElem?_ofKeys]
  split_ifs with hl
  · rfl
  · rw [LabelIndex.allLabels, (HashMap.keysIter_perm (ord.sub 0) db.labelIndex.index).mem_iff,
      HashMap.mem_keys, Option.not_isSome_iff_eq_none] at hl
    rw [LayeredGraphDatabase.labelCount, LabelIndex.labelCount, hl]
    rfl

/-- A field of the property index is configured. -/
theorem shouldIndexField (h : Sync L db g) {field : String}
    (hf : db.propertyIndex.fields[field]?.isSome) : db.config.shouldIndexField field = true := by
  have hcovers := h.properties field
  split_ifs at hcovers with hc
  · exact hc
  · rw [hcovers] at hf
    cases hf

/-- A configured field that the property index does not know is carried by no node. -/
theorem not_carried (h : Sync L db g) {field : String} (hf : db.propertyIndex.fields[field]? = none)
    (hc : db.config.shouldIndexField field = true) {n : Node} (hn : n ∈ g.nodes.vals) :
    n.properties[field]? = none := by
  have hcovers := h.properties field
  rw [if_pos hc] at hcovers
  cases hv : n.properties[field]? with
  | none => rfl
  | some v =>
    have hmem : n.id ∈ db.propertyIndex.bucket field (.of v) := by
      refine (Grouped.mem_iff hcovers).mpr ⟨n, hn, ?_, rfl⟩
      rw [PropertyIndex.nodeKey, hv, Option.map_some]
    rw [PropertyIndex.bucket, hf, Option.getD_none, FieldIndex.bucket_default] at hmem
    cases hmem

/-- What the planner chooses selects the nodes that it would choose from the statistics of the
graph. -/
theorem selectNodes_buildStats (h : Sync L db g) (log2Ceil : Nat → Nat) (ord : HashOrder)
    (filter : NodeFilter) :
    g.selectNodes filter (indexedCondition log2Ceil filter (db.buildStats ord)) =
      g.matchNodes log2Ceil db.config filter := by
  have hfields (field : String)
      (hf : (g.stats db.config).indexedNodeFields.contains field = true) :
      (db.buildStats ord).indexedNodeFields.contains field = true := by
    obtain ⟨hc, n, hn, hv⟩ := PlainGraph.mem_indexedFields.mp (PlainGraph.contains_stats.mp hf)
    rw [contains_indexedNodeFields, Option.isSome_iff_ne_none]
    intro hnone
    rw [h.not_carried hnone hc hn] at hv
    cases hv
  unfold PlainGraph.matchNodes
  rcases indexedCondition_cases log2Ceil filter
      h.engine.nodeCount.symm
      (fun l => (PlainGraph.labelCount_stats l).trans (h.labelCount_buildStats ord l).symm)
      hfields with heq | ⟨c, hc, hnot⟩
  · rw [heq]
  · -- the index knows a field that no node carries any more
    obtain ⟨hmem, hindexed⟩ := mem_of_indexedCondition hc
    rw [contains_indexedNodeFields] at hindexed
    have hnone (n : Node) (hn : n ∈ g.nodes.vals) : n.properties[c.key]? = none := by
      rw [← Option.not_isSome_iff_eq_none]
      intro hv
      refine absurd (PlainGraph.contains_stats.mpr (PlainGraph.mem_indexedFields.mpr ?_))
        (Bool.eq_false_iff.mp hnot)
      exact ⟨h.shouldIndexField hindexed, n, hn, hv⟩
    rw [hc, PlainGraph.selectNodes_eq_nil hmem hnone fun c' hc' => .inl (Option.some.inj hc').symm,
      PlainGraph.selectNodes_eq_nil hmem hnone fun c' hc' => .inr ?_]
    intro hkey
    have hcontains := (mem_of_indexedCondition hc').2
    rw [hkey, hnot] at hcontains
    cases hcontains

theorem nodesByProperty_selects (h : Sync L db g) (ord : HashOrder) (field : String)
    (op : ComparisonOp) (value : Value) :
    Returns (LayeredGraphDatabase.nodesByProperty ord field op value) db fun nodes db' =>
      nodes.Perm (g.nodesByProperty db.config field op value) ∧ Sync L db' g ∧
        db'.idGenerator = db.idGenerator := by
  cases hf : db.propertyIndex.fields[field]? with
  | some fi =>
    have hsome : db.propertyIndex.fields[field]?.isSome := by rw [hf]; rfl
    apply (h.nodesByProperty ord op value hsome).mono
    rintro nodes db' ⟨hp, hs⟩
    refine ⟨hp.trans (.of_eq (List.filter_congr fun n _ => ?_)), hs⟩
    rw [if_pos (h.shouldIndexField hsome)]
  | none =>
    have hquery : db.propertyIndex.query field op value = none := by
      rw [PropertyIndex.query, hf, Option.map_none]
    apply Returns.bind_read
    rw [hquery]
    apply (h.allNodes ord).bind
    rintro all db' ⟨hp, hs⟩
    refine .pure ⟨(hp.filter _).trans (.of_eq (List.filter_congr fun n hn => ?_)), hs⟩
    split_ifs with hc
    · rw [PropertyIndex.nodeKey, h.not_carried hf hc hn]
      rfl
    · rfl

theorem execute_matchNodes (h : Sync L db g) (algorithms : Algorithms) (log2Ceil : Nat → Nat)
    (ord : HashOrder) (filter : NodeFilter) :
    Returns (execute (context algorithms) log2Ceil ord (.matchNodes filter)) db fun r db' =>
      ∃ found, r = .nodes found ∧ found.Perm (g.matchNodes log2Ceil db.config filter) ∧
        Sync L db' g := by
  rw [← h.selectNodes_buildStats log2Ceil ord filter]
  cases hc : indexedCondition log2Ceil filter (db.buildStats ord) with
  | none => exact h.execute_of_not_indexed algorithms log2Ceil ord hc
  | some c => exact h.execute_of_indexed algorithms log2Ceil ord hc

/-- A plan of one lookup, whose result is wrapped up. -/
theorem returns_wrap {α : Type} {a : DatabaseAction S C α} {P : α → Prop} {r : α → QueryResult}
    {Q : QueryResult → Prop}
    (ha : Returns a db fun v db' => P v ∧ Sync L db' g ∧ db'.idGenerator = db.idGenerator)
    (hr : ∀ v, P v → Q (r v)) :
    Returns (do return r (← a)) db fun v db' => Q v ∧ Sync L db' g :=
  ha.bind fun v _ hv => .pure ⟨hr v hv.1, hv.2.1⟩

/-- Every command is answered from the graph, which it leaves as it is. -/
theorem execute_replies (h : Sync L db g) (log2Ceil : Nat → Nat) (dijkstra : ShortestPathAlgorithm)
    (ord : HashOrder) (command : QueryCommand) :
    Returns (execute (context (.searches dijkstra)) log2Ceil ord command) db fun r db' =>
      g.Replies log2Ceil dijkstra db.config command r ∧ Sync L db' g := by
  cases command with
  | matchNodes filter =>
    apply (h.execute_matchNodes (.searches dijkstra) log2Ceil ord filter).mono
    rintro _ db' ⟨found, rfl, hp, hs⟩
    exact ⟨.matchNodes hp, hs⟩
  | matchEdges filter =>
    exact .bind_read (returns_wrap (h.allEdges (ord.sub 0)) fun _ hp => .matchEdges (hp.filter _))
  | getNode id =>
    refine .bind_read (returns_wrap (h.getNode (ord.sub 0) id) ?_)
    rintro _ rfl
    exact .getNode id
  | getEdge id =>
    refine .bind_read (returns_wrap (h.getEdge (ord.sub 0) id) ?_)
    rintro _ rfl
    exact .getEdge id
  | traverse kind start =>
    refine .bind_read (.read ⟨?_, h⟩)
    cases kind with
    | bfs => exact .traverseBfs (h.engine.breadthFirst_search h.wellFormed start)
    | dfs => exact .traverseDfs (h.engine.depthFirst_search h.wellFormed start)
  | shortestPath start goal =>
    refine .bind_read (.read ⟨?_, h⟩)
    cases hp : (context (.searches dijkstra)).shortestPathDijkstra start goal db with
    | none => exact .noPath h.engine hp
    | some p => exact .path h.engine hp
  | countNodes =>
    refine .bind_read (.read ⟨?_, h⟩)
    change g.Replies log2Ceil dijkstra db.config .countNodes (.count db.engine.nodeCount)
    rw [h.engine.nodeCount]
    exact .countNodes
  | countEdges =>
    refine .bind_read (.read ⟨?_, h⟩)
    change g.Replies log2Ceil dijkstra db.config .countEdges (.count db.engine.edgeCount)
    rw [h.engine.edgeCount]
    exact .countEdges

end Sync
end LayeredGraphDatabase

/-! ## The two searches -/

open LayeredGraphDatabase

/-- After any calls, on whichever adapters, both searches end from every node, within a turn for
every node, or for every edge, of the graph. Each lists the nodes that can be reached, once: level
by level, or as the recursive search enters them. -/
theorem traversals_after_calls (a : StorageAdapter) (hs : a.Documented) (ord : HashOrder)
    (cache : CacheAdapter) (config : DatabaseConfig) (calls : List (HashOrder × Call))
    (hcalls : ∀ call ∈ calls, call.2.Inserts a.KeepsNode a.KeepsEdge) :
    ∃ db : LayeredGraphDatabase a.Storage (NoCache ⊕ LruCache),
      openWithConfig ord (FileStorage.openPath none) cache.new .new config = .ok db ∧
      (((run calls db).1.map Reply.newNodes).sum < 2 ^ 64 →
        ((run calls db).1.map Reply.newEdges).sum < 2 ^ 64 →
        ∃ g, Machine.Runs (fun g call => g.Answers call.2) PlainGraph.empty calls
            (run calls db).1 g ∧
          ∀ start, ∃ bfs dfs,
            BreadthFirstSearch.traverse (run calls db).2.engine start (g.nodes.size + 1) = some bfs ∧
            DepthFirstSearch.traverse (run calls db).2.engine start (g.edges.size + 2) = some dfs ∧
            g.BreadthFirst start bfs ∧ g.DepthFirst start dfs ∧ bfs.Perm dfs) := by
  obtain ⟨db, hopen, hrun⟩ := opened_refines a hs ord cache config calls hcalls
  refine ⟨db, hopen, fun hnodes hedges => ?_⟩
  obtain ⟨g, hruns, hsync⟩ := hrun hnodes hedges
  refine ⟨g, hruns, fun start => ?_⟩
  obtain ⟨bfs, hbfs, hlevels⟩ := hsync.engine.breadthFirst hsync.wellFormed start
  obtain ⟨dfs, hdfs, hpreorder⟩ := hsync.engine.depthFirst hsync.wellFormed start
  exact ⟨bfs, dfs, hbfs, hdfs, hlevels, hpreorder, hlevels.toVisits.perm hpreorder.toVisits⟩

theorem traversals_after_calls_loop :
    ∃ db : LayeredGraphDatabase (JsonFileStorage SampleJson.serde) (NoCache ⊕ LruCache),
      openWithConfig .sorted (FileStorage.openPath none)
        (CacheAdapter.lruCache 1 1 Nat.one_pos Nat.one_pos).new .new ⟨some 2, .all⟩ = .ok db ∧
      ∃ g, Machine.Runs (fun g call => g.Answers call.2) PlainGraph.empty (loopCalls.take 5)
          (run (loopCalls.take 5) db).1 g ∧
        ∀ start, ∃ bfs dfs,
          BreadthFirstSearch.traverse (run (loopCalls.take 5) db).2.engine start
            (g.nodes.size + 1) = some bfs ∧
          DepthFirstSearch.traverse (run (loopCalls.take 5) db).2.engine start
            (g.edges.size + 2) = some dfs ∧
          g.BreadthFirst start bfs ∧ g.DepthFirst start dfs ∧ bfs.Perm dfs := by
  obtain ⟨db, hopen, hrun⟩ := traversals_after_calls (.json SampleJson.serde)
    SampleJson.keepsFloatless .sorted (.lruCache 1 1 Nat.one_pos Nat.one_pos) ⟨some 2, .all⟩
    (loopCalls.take 5) fun call hc => (loopCalls_storable call (List.mem_of_mem_take hc)).mono
      (fun _ h => SampleJson.keeps h) fun _ h => SampleJson.keeps h
  have hlen : (loopCalls.take 5).length < 2 ^ 64 := by decide
  exact ⟨db, hopen, hrun ((sum_newNodes_run _ db).trans_lt hlen)
    ((sum_newEdges_run _ db).trans_lt hlen)⟩

end AdGraphDb
