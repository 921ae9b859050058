import AdGraphDb.Algorithms.DijkstraF64
import AdGraphDb.Query.Conjunction
import AdGraphDb.Database.Refinement
import AdGraphDb.Database.Statistics

/-!
# Whole sessions

Calls, statistics, commands and query texts in any order: everything is answered from the
graph and the configuration. A query changes nothing but the cache, whatever becomes of it.
-/

namespace AdGraphDb
open Std AdGraphDb.Action

/-- What the queries use without being defined by it. -/
structure QueryEnvironment where
  debug : CypherLite.DebugFormat
  unicode : Unicode
  log2Ceil : Nat → Nat
  dijkstra : ShortestPathAlgorithm

namespace Action

variable {ε S α : Type}

/-- A method that can only fail, called from code that may also panic. -/
def orStop (a : Action ε S α) : Action (Stop ε) S α := fun s => ((a s).1.mapError .error, (a s).2)

theorem orStop_ok {a : Action ε S α} {s s' : S} {v : α} (h : a s = (.ok v, s')) :
    orStop a s = (.ok v, s') := by
  rw [orStop, h]
  rfl

theorem orStop_map {β : Type} (a : Action ε S α) (r : α → β) (s : S) :
    orStop (do return r (← a)) s = (do return r (← orStop a)) s := by
  rw [bind_apply, orStop, orStop, bind_apply]
  cases a s with
  | mk v s' => cases v <;> rfl

theorem Preserves.orStop {a : Action ε S α} {I : S → Prop} (h : Preserves a I) :
    Preserves a.orStop I := h

end Action

namespace LayeredGraphDatabase

section

variable {S C : Type} [StoragePort S] [CachePort C]

/-- A query language parses the text and executes the command; the text that cannot be read
reaches nothing. -/
def executeQuery (env : QueryEnvironment) (ord : HashOrder) (language : QueryLanguage)
    (query : String) : Action (Stop GraphError) (LayeredGraphDatabase S C) QueryResult := do
  let command ← tryRead fun _ => language.parse env.debug env.unicode query
  orStop (execute (context (.searches env.dijkstra)) env.log2Ceil ord command)

theorem executeQuery_of_parse {env : QueryEnvironment} {ord : HashOrder}
    {language : QueryLanguage} {query : String} {command : QueryCommand}
    {db : LayeredGraphDatabase S C}
    (h : language.parse env.debug env.unicode query = .ok command) :
    executeQuery env ord language query db =
      orStop (execute (context (.searches env.dijkstra)) env.log2Ceil ord command) db :=
  bind_tryRead h

theorem executeQuery_onlyCaches (env : QueryEnvironment) (ord : HashOrder)
    (language : QueryLanguage) (query : String) (before : LayeredGraphDatabase S C) :
    Preserves (executeQuery env ord language query) (SameButCache before) := by
  apply Preserves.bind
  · exact .tryRead _
  intro command
  apply Preserves.orStop
  exact .bind_read fun stats => executePlan_onlyCaches _ _ _ before

/-- Queries without any write between them: whatever the two adapters do, and whether they
answer, fail or panic on the way, everything but the cache stays as it is. -/
theorem queries_change_only_the_cache (env : QueryEnvironment)
    (queries : List (HashOrder × QueryLanguage × String)) (db : LayeredGraphDatabase S C) :
    SameButCache db
      (Machine.run (fun q => executeQuery env q.1 q.2.1 q.2.2) queries db).2 := by
  apply Machine.run_preserves
  · exact fun q s hs => executeQuery_onlyCaches env q.1 q.2.1 q.2.2 db s hs
  · exact .refl db

end

end LayeredGraphDatabase

/-! ## Requests -/

/-- What an open database can be asked. -/
inductive Request where
  | call (call : Call)
  | nodesByProperty (field : String) (op : ComparisonOp) (value : Value)
  | labelStats
  | indexedFields
  | command (command : QueryCommand)
  | query (language : QueryLanguage) (text : String)

inductive Response where
  | reply (reply : Reply)
  | nodes (nodes : List Node)
  | labels (stats : List (String × Nat))
  | fields (fields : List String)
  | result (result : QueryResult)

/-- The number of node ids that a response hands out. -/
def Response.newNodes : Except (Stop GraphError) Response → Nat
  | .ok (.reply r) => Reply.newNodes (.ok r)
  | _ => 0

def Response.newEdges : Except (Stop GraphError) Response → Nat
  | .ok (.reply r) => Reply.newEdges (.ok r)
  | _ => 0

/-- What the request inserts satisfies the predicates, whatever its id. -/
def Request.Inserts (N : Node → Prop) (E : Edge → Prop) : Request → Prop
  | call c => c.Inserts N E
  | _ => True

/-- Nothing is inserted with a negative weight or a NaN. -/
abbrev Request.NonNegative (request : Request) : Prop :=
  request.Inserts (fun _ => True) fun x => F64.le F64.zero x.weight = true

/-- The command that is asked for, if any. -/
def Request.command? (env : QueryEnvironment) : Request → Option QueryCommand
  | command c => some c
  | query language text => (language.parse env.debug env.unicode text).toOption
  | _ => none

/-- The search for a path comes to an end, if one is asked for. -/
def Request.SearchEnds (env : QueryEnvironment) (e : AdjacencyListEngine) (request : Request) :
    Prop :=
  ∀ start goal, request.command? env = some (.shortestPath start goal) →
    DijkstraF64.Ends e start goal

/-- No edge has a negative weight or a NaN. -/
def PlainGraph.NonNegative (g : PlainGraph) : Prop :=
  ∀ (k : EdgeId) (x : Edge), g.edges[k]? = some x → F64.le F64.zero x.weight = true

/-- The answer to a query for a path. -/
def QueryResult.ofPath : Option (List NodeId × F64) → QueryResult
  | some (found, weight) => .path found weight
  | none => .empty

/-- The configuration after a call. -/
def Call.configAfter (config : DatabaseConfig) : Call → DatabaseConfig
  | reopen _ config' => config'
  | _ => config

/-- A graph, and the configuration that it is kept with. -/
structure PlainDatabase where
  graph : PlainGraph
  config : DatabaseConfig

namespace PlainDatabase

/-- What may be answered to a request, and what is there afterwards. The text of a query
counts only through the command that it is read as. -/
inductive Serves (env : QueryEnvironment) (p : PlainDatabase) :
    Request → Except (Stop GraphError) Response → PlainDatabase → Prop
  | call {c : Call} {reply : Except GraphError Reply} {g' : PlainGraph}
    (h : p.graph.Answers c reply g') :
    Serves env p (.call c) ((reply.map .reply).mapError .error) ⟨g', c.configAfter p.config⟩
  | nodesByProperty {field : String} {op : ComparisonOp} {value : Value} {nodes : List Node}
    (h : nodes.Perm (p.graph.nodesByProperty p.config field op value)) :
    Serves env p (.nodesByProperty field op value) (.ok (.nodes nodes)) p
  | labelStats {stats : List (String × Nat)} (h : p.graph.CountsLabels stats) :
    Serves env p .labelStats (.ok (.labels stats)) p
  | indexedFields {fields : List String} (h : p.graph.ListsFields p.config fields) :
    Serves env p .indexedFields (.ok (.fields fields)) p
  | command {command : QueryCommand} {result : QueryResult}
    (h : p.graph.Replies env.log2Ceil env.dijkstra p.config command result) :
    Serves env p (.command command) (.ok (.result result)) p
  | query {language : QueryLanguage} {text : String} {command : QueryCommand}
    {result : QueryResult} (hparse : language.parse env.debug env.unicode text = .ok command)
    (h : p.graph.Replies env.log2Ceil env.dijkstra p.config command result) :
    Serves env p (.query language text) (.ok (.result result)) p
  | rejected {language : QueryLanguage} {text : String} {stop : Stop GraphError}
    (hparse : language.parse env.debug env.unicode text = .error stop) :
    Serves env p (.query language text) (.error stop) p

/-- If a path is asked for, the response is what the search returns on the graph. -/
def Searched (env : QueryEnvironment) (p : PlainDatabase) (request : Request)
    (response : Except (Stop GraphError) Response) : Prop :=
  ∀ start goal, request.command? env = some (.shortestPath start goal) →
    ∃ e result, e.Represents p.graph ∧ DijkstraF64.Returns e start goal result ∧
      response = .ok (.result (.ofPath result))

/-- A session of a plain database, with its requests and responses. -/
abbrev Session (env : QueryEnvironment) :
    PlainDatabase → List (HashOrder × Request) → List (Except (Stop GraphError) Response) →
      PlainDatabase → Prop :=
  Machine.Runs fun p request => p.Serves env request.2

/-- A session in which every path that is asked for is searched for. -/
abbrev SearchedSession (env : QueryEnvironment) :
    PlainDatabase → List (HashOrder × Request) → List (Except (Stop GraphError) Response) →
      PlainDatabase → Prop :=
  Machine.Runs fun p request response p' =>
    p.Serves env request.2 response p' ∧ p.Searched env request.2 response

end PlainDatabase

namespace LayeredGraphDatabase

variable {S : Type} [FileStorage S]

def serve (env : QueryEnvironment) (ord : HashOrder) :
    Request → Action (Stop GraphError) (LayeredGraphDatabase S (NoCache ⊕ LruCache)) Response
  | .call call => orStop do return .reply (← perform ord call)
  | .nodesByProperty field op value => orStop do return .nodes (← nodesByProperty ord field op value)
  | .labelStats => read fun db => .labels (db.labelStats ord)
  | .indexedFields => read fun db => .fields (db.indexedFields ord)
  | .command command => orStop do
    return .result (← execute (context (.searches env.dijkstra)) env.log2Ceil ord command)
  | .query language text => do return .result (← executeQuery env ord language text)

/-- The responses to a list of requests, each with the order of the hash maps at the time. -/
def session (env : QueryEnvironment) (requests : List (HashOrder × Request))
    (db : LayeredGraphDatabase S (NoCache ⊕ LruCache)) :
    List (Except (Stop GraphError) Response) × LayeredGraphDatabase S (NoCache ⊕ LruCache) :=
  Machine.run (fun request => serve env request.1 request.2) requests db

/-! ## One request -/

/-- The layers are in step with the graph, and show nothing that is not in it. -/
structure InStep (L : StorageSpec S) (db : LayeredGraphDatabase S (NoCache ⊕ LruCache))
    (p : PlainDatabase) : Prop where
  sync : Sync L db p.graph
  tidy : Tidy p.config db

variable {L : StorageSpec S} {db : LayeredGraphDatabase S (NoCache ⊕ LruCache)}
  {p : PlainDatabase} {env : QueryEnvironment} {ord : HashOrder}

theorem tidy_reopen {cache : CacheAdapter} {config : DatabaseConfig}
    {db' : LayeredGraphDatabase S (NoCache ⊕ LruCache)}
    (h : reopen ord cache config db = (.ok (), db')) : Tidy config db' := by
  unfold reopen at h
  split at h
  · rename_i hopen
    cases h
    exact tidy_openWithConfig hopen
  · cases h

/-- Every call but the reopening keeps the configuration. -/
theorem perform_tidy (call : Call) (h : Sync L db p.graph) (ht : Tidy p.config db) :
    Tidy (call.configAfter p.config) (perform ord call db).2 := by
  cases call with
  | insertNode label properties =>
    exact ((keepsTidy_insertNode ord label properties p.config).bind fun _ => .pure _) db ht
  | insertEdge source target label weight properties =>
    exact ((keepsTidy_insertEdge ord source target label weight properties p.config).bind
      fun _ => .pure _) db ht
  | deleteNode id => exact ((keepsTidy_deleteNode ord id p.config).bind fun _ => .pure _) db ht
  | deleteEdge id => exact ((keepsTidy_deleteEdge ord id p.config).bind fun _ => .pure _) db ht
  | getNode id => exact (((getNode_onlyCaches ord id).keepsTidy p.config).bind fun _ => .pure _) db ht
  | getEdge id => exact (((getEdge_onlyCaches ord id).keepsTidy p.config).bind fun _ => .pure _) db ht
  | compact => exact ((keepsTidy_compact ord p.config).bind fun _ => .pure _) db ht
  | reopen cache config =>
    have hs : Stepped L db p.graph (.reopen cache config) (perform ord (.reopen cache config) db)
        p.graph := reopen_stepped h cache config
    have ha := hs.answers
    cases hr : reopen ord cache config db with
    | mk r db' =>
      cases r with
      | error e =>
        rw [perform, bind_error hr] at ha
        cases ha
      | ok v =>
        rw [perform, bind_ok hr]
        exact tidy_reopen hr
  | allNodes => exact (((allNodes_onlyCaches ord).keepsTidy p.config).bind fun _ => .pure _) db ht
  | allEdges => exact (((allEdges_onlyCaches ord).keepsTidy p.config).bind fun _ => .pure _) db ht
  | nodesByLabel label =>
    exact (((nodesByLabel_onlyCaches ord label).keepsTidy p.config).bind fun _ => .pure _) db ht
  | nodeCount => exact ht
  | edgeCount => exact ht
  | labelCount label => exact ht
  | neighborsOutgoing id => exact ht
  | neighborsIncoming id => exact ht

/-- One request, seen from both sides. -/
structure Served (L : StorageSpec S) (env : QueryEnvironment)
    (db : LayeredGraphDatabase S (NoCache ⊕ LruCache)) (p : PlainDatabase) (request : Request)
    (step : Except (Stop GraphError) Response × LayeredGraphDatabase S (NoCache ⊕ LruCache))
    (p' : PlainDatabase) : Prop where
  serves : p.Serves env request step.1 p'
  inStep : InStep L step.2 p'
  nextNode : step.2.idGenerator.nextNode.toNat ≤
    db.idGenerator.nextNode.toNat + Response.newNodes step.1
  nextEdge : step.2.idGenerator.nextEdge.toNat ≤
    db.idGenerator.nextEdge.toNat + Response.newEdges step.1

/-- A request that leaves the graph, answered by a method that changes only the cache. -/
theorem Served.of_onlyCaches {request : Request} (hp : InStep L db p)
    {step : Except (Stop GraphError) Response × LayeredGraphDatabase S (NoCache ⊕ LruCache)}
    (hserves : p.Serves env request step.1 p) (hsync : Sync L step.2 p.graph)
    (hcache : SameButCache db step.2) : Served L env db p request step p := by
  refine ⟨hserves, ⟨hsync, hcache.tidy hp.tidy⟩, ?_, ?_⟩ <;>
    obtain ⟨cache, hdb⟩ := hcache <;> rw [hdb] <;> exact Nat.le_add_right _ _

/-- A lookup that answers from the graph and changes only the cache. -/
theorem Served.of_returns {α : Type} {request : Request} {r : α → Response}
    {a : DatabaseAction S (NoCache ⊕ LruCache) α} (hp : InStep L db p)
    (hserve : serve env ord request db = orStop (do return r (← a)) db)
    (ha : Returns a db fun v db' => p.Serves env request (.ok (r v)) p ∧ Sync L db' p.graph)
    (hcaches : OnlyCaches a) :
    Served L env db p request (serve env ord request db) p := by
  obtain ⟨v, db', hrun, hserves, hsync⟩ := ha
  have hcache := hcaches db db (.refl db)
  rw [hrun] at hcache
  have hstep : serve env ord request db = (.ok (r v), db') := by
    rw [hserve]
    exact orStop_ok (bind_ok hrun)
  rw [hstep]
  exact .of_onlyCaches hp hserves hsync hcache

theorem serve_call (c : Call) : serve env ord (.call c) db =
    (((perform ord c db).1.map .reply).mapError .error, (perform ord c db).2) := by
  change orStop (do return Response.reply (← perform ord c)) db = _
  rw [orStop, bind_apply]
  cases perform ord c db with
  | mk r db' => cases r <;> rfl

theorem Response.newNodes_reply (r : Except GraphError Reply) :
    Response.newNodes ((r.map .reply).mapError .error) = Reply.newNodes r := by
  cases r <;> rfl

theorem Response.newEdges_reply (r : Except GraphError Reply) :
    Response.newEdges ((r.map .reply).mapError .error) = Reply.newEdges r := by
  cases r <;> rfl

theorem execute_onlyCaches (env : QueryEnvironment) (ord : HashOrder) (command : QueryCommand) :
    OnlyCaches (execute (context (S := S) (C := NoCache ⊕ LruCache) (.searches env.dijkstra))
      env.log2Ceil ord command) :=
  fun before => .bind_read fun _ => executePlan_onlyCaches _ _ _ before

/-- Either way to ask for a command executes it. -/
theorem serve_of_command {request : Request} {command : QueryCommand}
    (h : request.command? env = some command) :
    serve env ord request db =
      orStop (do
        return .result (← execute (context (.searches env.dijkstra)) env.log2Ceil ord command))
        db := by
  cases request with
  | command c =>
    cases h
    rfl
  | query language text =>
    have hparse : language.parse env.debug env.unicode text = .ok command := by
      cases hp : language.parse env.debug env.unicode text with
      | ok c => rw [Request.command?, hp] at h; exact congrArg _ (Option.some.inj h)
      | error stop => rw [Request.command?, hp] at h; cases h
    rw [orStop_map, bind_apply, ← executeQuery_of_parse hparse]
    rfl
  | _ => cases h

/-- Every request is answered from the graph and the configuration. -/
theorem serve_served (env : QueryEnvironment) (ord : HashOrder) {request : Request}
    (h : InStep L db p)
    (hrequest : request.Inserts L.NodeStorable L.EdgeStorable)
    (hn : db.idGenerator.nextNode.toNat + Response.newNodes (serve env ord request db).1 < 2 ^ 64)
    (he : db.idGenerator.nextEdge.toNat + Response.newEdges (serve env ord request db).1 < 2 ^ 64) :
    ∃ p', Served L env db p request (serve env ord request db) p' := by
  cases request with
  | call c =>
    rw [serve_call, Response.newNodes_reply] at hn
    rw [serve_call, Response.newEdges_reply] at he
    obtain ⟨g', hs⟩ : ∃ g', Stepped L db p.graph c (perform ord c db) g' :=
      perform_stepped h.sync hrequest hn he
    rw [serve_call]
    refine ⟨⟨g', c.configAfter p.config⟩, .call hs.answers, ⟨hs.sync, perform_tidy c h.sync h.tidy⟩,
      ?_, ?_⟩
    · rw [Response.newNodes_reply]
      exact hs.nextNode
    · rw [Response.newEdges_reply]
      exact hs.nextEdge
  | nodesByProperty field op value =>
    refine ⟨p, .of_returns h rfl ?_ (nodesByProperty_onlyCaches ord field op value)⟩
    apply (h.sync.nodesByProperty_selects ord field op value).mono
    rintro nodes db' ⟨hp, hs, -⟩
    rw [h.tidy.1] at hp
    exact ⟨.nodesByProperty hp, hs⟩
  | labelStats =>
    refine ⟨p, .of_onlyCaches h ?_ h.sync (.refl db)⟩
    exact .labelStats (labelStats_counts h.sync.labels h.tidy.2 ord)
  | indexedFields =>
    refine ⟨p, .of_onlyCaches h ?_ h.sync (.refl db)⟩
    have hlists := indexedFields_lists h.sync ord
    rw [h.tidy.1] at hlists
    exact .indexedFields hlists
  | command command =>
    refine ⟨p, .of_returns h rfl ?_ (execute_onlyCaches env ord command)⟩
    apply (h.sync.execute_replies env.log2Ceil env.dijkstra ord command).mono
    rintro result db' ⟨hr, hs⟩
    rw [h.tidy.1] at hr
    exact ⟨.command hr, hs⟩
  | query language text =>
    refine ⟨p, ?_⟩
    cases hparse : language.parse env.debug env.unicode text with
    | error stop =>
      -- the text is rejected before anything is looked up
      have hrun : serve env ord (.query language text) db = (.error stop, db) := by
        apply bind_error
        apply bind_error
        rw [tryRead, hparse]
      rw [hrun]
      exact .of_onlyCaches h (.rejected hparse) h.sync (.refl db)
    | ok command =>
      have hcommand : (Request.query language text).command? env = some command := by
        rw [Request.command?, hparse]
        rfl
      refine .of_returns h (serve_of_command hcommand) ?_ (execute_onlyCaches env ord command)
      · apply (h.sync.execute_replies env.log2Ceil env.dijkstra ord command).mono
        rintro result db' ⟨hr, hs⟩
        rw [h.tidy.1] at hr
        exact ⟨.query hparse hr, hs⟩

/-! ## Paths -/

theorem execute_shortestPath (start goal : NodeId) :
    execute (context (.searches env.dijkstra)) env.log2Ceil ord (.shortestPath start goal) db =
      (.ok (.ofPath (env.dijkstra db.engine start goal)), db) := by
  change (Except.ok (match env.dijkstra db.engine start goal with
    | some (nodes, weight) => QueryResult.path nodes weight
    | none => .empty), db) = _
  cases env.dijkstra db.engine start goal <;> rfl

/-- A path that is asked for comes from the search. -/
theorem serve_searched (hsearch : DijkstraF64.Implements env.dijkstra) {request : Request}
    (h : InStep L db p) (hends : request.SearchEnds env db.engine) :
    p.Searched env request (serve env ord request db).1 := by
  intro start goal hcommand
  obtain ⟨result, hresult⟩ := (hends start goal hcommand).returns
  refine ⟨db.engine, result, h.sync.engine, hresult, ?_⟩
  have hfound : env.dijkstra db.engine start goal = result := hsearch _ _ _ _ hresult
  have hrun : serve env ord request db = (.ok (.result (.ofPath result)), db) := by
    rw [serve_of_command hcommand, ← hfound]
    exact orStop_ok (bind_ok (execute_shortestPath start goal))
  rw [hrun]

/-! ## Sessions -/

theorem session_cons (request : HashOrder × Request) (requests : List (HashOrder × Request))
    (db : LayeredGraphDatabase S (NoCache ⊕ LruCache)) :
    (session env (request :: requests) db).1 = (serve env request.1 request.2 db).1 ::
      (session env requests (serve env request.1 request.2 db).2).1 := rfl

/-- The layers are in step, and the ids last for the requests to come. -/
structure Answerable (L : StorageSpec S) (env : QueryEnvironment)
    (requests : List (HashOrder × Request)) (db : LayeredGraphDatabase S (NoCache ⊕ LruCache))
    (p : PlainDatabase) : Prop where
  inStep : InStep L db p
  storable : ∀ request ∈ requests, request.2.Inserts L.NodeStorable L.EdgeStorable
  nodes : db.idGenerator.nextNode.toNat +
    ((session env requests db).1.map Response.newNodes).sum < 2 ^ 64
  edges : db.idGenerator.nextEdge.toNat +
    ((session env requests db).1.map Response.newEdges).sum < 2 ^ 64

theorem Answerable.step {request : HashOrder × Request} {requests : List (HashOrder × Request)}
    (h : Answerable L env (request :: requests) db p) :
    ∃ p', p.Serves env request.2 (serve env request.1 request.2 db).1 p' ∧
      Answerable L env requests (serve env request.1 request.2 db).2 p' := by
  have hn := h.nodes
  have he := h.edges
  rw [session_cons, List.map_cons, List.sum_cons] at hn he
  obtain ⟨p', hs⟩ := serve_served env request.1 h.inStep (h.storable request List.mem_cons_self)
    (by omega) (by omega)
  have hnext := hs.nextNode
  have hedge := hs.nextEdge
  exact ⟨p', hs.serves, hs.inStep, fun r hr => h.storable r (List.mem_cons_of_mem _ hr), by omega,
    by omega⟩

/-- A session of the plain database with the same requests and responses. -/
theorem session_refines {requests : List (HashOrder × Request)}
    (h : Answerable L env requests db p) :
    ∃ p', p.Session env requests (session env requests db).1 p' ∧
      InStep L (session env requests db).2 p' := by
  obtain ⟨p', hruns, hend⟩ := Machine.runs_of_simulation (fun _ _ _ _ hr => hr.step) h
  exact ⟨p', hruns, hend.inStep⟩

/-- If every search for a path ends, these are the paths that are found. -/
theorem session_searched (hsearch : DijkstraF64.Implements env.dijkstra)
    {requests : List (HashOrder × Request)} (h : Answerable L env requests db p)
    (hends : Machine.Along (fun request db => request.2.SearchEnds env db.engine)
      (fun request => serve env request.1 request.2) requests db) :
    ∃ p', p.SearchedSession env requests (session env requests db).1 p' := by
  let R (requests : List (HashOrder × Request))
      (db : LayeredGraphDatabase S (NoCache ⊕ LruCache)) (p : PlainDatabase) : Prop :=
    Answerable L env requests db p ∧
    Machine.Along (fun request db => request.2.SearchEnds env db.engine)
      (fun request => serve env request.1 request.2) requests db
  have hstep : ∀ request requests db p, R (request :: requests) db p →
      ∃ p', (p.Serves env request.2 (serve env request.1 request.2 db).1 p' ∧
        p.Searched env request.2 (serve env request.1 request.2 db).1) ∧
        R requests (serve env request.1 request.2 db).2 p' := by
    rintro request requests db p ⟨hready, hfirst, hrest⟩
    obtain ⟨p', hserves, hready'⟩ := hready.step
    exact ⟨p', ⟨hserves, serve_searched hsearch hready.inStep hfirst⟩, hready', hrest⟩
  have hruns : ∃ p', p.SearchedSession env requests (session env requests db).1 p' ∧
      R [] (session env requests db).2 p' := Machine.runs_of_simulation hstep ⟨h, hends⟩
  exact hruns.imp fun _ hp => hp.1

/-! ## Weights that are not negative -/

theorem nonNegative_of_represents {e : AdjacencyListEngine} {g : PlainGraph} (h : e.Represents g)
    (hg : g.NonNegative) : DijkstraF64.NonNegative e := by
  intro u n hn
  obtain ⟨k, x, hx, -, rfl⟩ :=
    PlainGraph.mem_neighbors.mp ((h.outgoing.neighbors_perm u).mem_iff.mp hn)
  exact hg k x hx

theorem answers_nonNegative {g g' : PlainGraph} {call : Call} {reply : Except GraphError Reply}
    (h : g.Answers call reply g') (hg : g.NonNegative)
    (hcall : call.Inserts (fun _ => True) fun x => F64.le F64.zero x.weight = true) :
    g'.NonNegative := by
  cases h with
  | insertEdge hs ht fresh =>
    intro k x hx
    rw [PlainGraph.insertEdge, HashMap.getElem?_insert'] at hx
    split_ifs at hx
    · obtain rfl := Option.some.inj hx
      exact hcall _
    · exact hg k x hx
  | deleteNode id =>
    intro k x hx
    rw [PlainGraph.deleteNode_edges, Option.filter_eq_some_iff] at hx
    exact hg k x hx.1
  | deleteEdge id =>
    intro k x hx
    rw [PlainGraph.deleteEdge, HashMap.getElem?_erase'] at hx
    split_ifs at hx
    exact hg k x hx
  | _ => exact hg

theorem serves_nonNegative {p p' : PlainDatabase} {request : Request}
    {response : Except (Stop GraphError) Response} (h : p.Serves env request response p')
    (hp : p.graph.NonNegative) (hrequest : request.NonNegative) : p'.graph.NonNegative := by
  cases h with
  | call h => exact answers_nonNegative h hp hrequest
  | _ => exact hp

/-- Where no weight is negative, every search of the session comes to an end. -/
theorem searchEnds_of_nonNegative {requests : List (HashOrder × Request)}
    (h : Answerable L env requests db p) (hp : p.graph.NonNegative)
    (hrequests : ∀ request ∈ requests, request.2.NonNegative) :
    Machine.Along (fun request db => request.2.SearchEnds env db.engine)
      (fun request => serve env request.1 request.2) requests db := by
  let R (requests : List (HashOrder × Request))
      (db : LayeredGraphDatabase S (NoCache ⊕ LruCache)) (p : PlainDatabase) : Prop :=
    Answerable L env requests db p ∧ p.graph.NonNegative ∧
    ∀ request ∈ requests, request.2.NonNegative
  apply Machine.along_of_simulation (R := R) ?_ ⟨h, hp, hrequests⟩
  rintro request requests db p ⟨hready, hp, hrequests⟩
  have hengine := nonNegative_of_represents hready.inStep.sync.engine hp
  obtain ⟨p', hserves, hready'⟩ := hready.step
  refine ⟨fun start goal _ => DijkstraF64.ends_of_nonNegative hengine start goal, p', hready', ?_,
    fun r hr => hrequests r (List.mem_cons_of_mem request hr)⟩
  exact serves_nonNegative hserves hp (hrequests request List.mem_cons_self)

/-- A new database holds the empty graph. -/
theorem openPath_inStep (L : StorageSpec S) (ord : HashOrder) (cache : CacheAdapter)
    (config : DatabaseConfig) : ∃ db : LayeredGraphDatabase S (NoCache ⊕ LruCache),
      openWithConfig ord (FileStorage.openPath none) cache.new .new config = .ok db ∧
      InStep L db ⟨.empty, config⟩ ∧ db.idGenerator.nextNode.toNat = 0 ∧
      db.idGenerator.nextEdge.toNat = 0 := by
  obtain ⟨db, hopen, hsync, hn, he⟩ := openWithConfig_sync L ord config L.valid_openPath .empty
    L.view_openPath cache.empty_new (N := 0) (M := 0) (by decide) (by decide)
    (fun id hid => by simp [PlainGraph.empty] at hid)
    (fun id hid => by simp [PlainGraph.empty] at hid)
  exact ⟨db, hopen, ⟨hsync, tidy_openWithConfig hopen⟩, Nat.le_zero.mp hn, Nat.le_zero.mp he⟩

end LayeredGraphDatabase

/-! ## Either storage adapter -/

open LayeredGraphDatabase

/-- Whatever is asked of a new database, and whichever adapters it has: it answers as a plain
graph and a configuration may answer, as long as the searches for paths come to an end. -/
theorem sessions_refine_plainDatabase (a : StorageAdapter) (hs : a.Documented)
    (env : QueryEnvironment) (hsearch : DijkstraF64.Implements env.dijkstra) (ord : HashOrder)
    (cache : CacheAdapter) (config : DatabaseConfig) (requests : List (HashOrder × Request))
    (hrequests : ∀ request ∈ requests, request.2.Inserts a.KeepsNode a.KeepsEdge) :
    ∃ db : LayeredGraphDatabase a.Storage (NoCache ⊕ LruCache),
      openWithConfig ord (FileStorage.openPath none) cache.new .new config = .ok db ∧
      (((session env requests db).1.map Response.newNodes).sum < 2 ^ 64 →
        ((session env requests db).1.map Response.newEdges).sum < 2 ^ 64 →
        Machine.Along (fun request db => request.2.SearchEnds env db.engine)
          (fun request => serve env request.1 request.2) requests db →
        ∃ p, PlainDatabase.SearchedSession env ⟨.empty, config⟩ requests
          (session env requests db).1 p) := by
  rw [← a.spec_nodeStorable hs, ← a.spec_edgeStorable hs] at hrequests
  obtain ⟨db, hopen, hstep, hn, he⟩ := openPath_inStep (a.spec hs) ord cache config
  refine ⟨db, hopen, fun hnodes hedges hends => ?_⟩
  exact session_searched hsearch ⟨hstep, hrequests, by omega, by omega⟩ hends

theorem Response.sum_newNodes (responses : List (Except (Stop GraphError) Response)) :
    (responses.map newNodes).sum ≤ responses.length := by
  rw [← List.length_map (f := newNodes), ← Nat.mul_one (List.length _)]
  apply List.sum_le_card_nsmul
  intro n hn
  obtain ⟨r, -, rfl⟩ := List.mem_map.mp hn
  unfold newNodes Reply.newNodes
  split
  · split <;> decide
  · decide

theorem Response.sum_newEdges (responses : List (Except (Stop GraphError) Response)) :
    (responses.map newEdges).sum ≤ responses.length := by
  rw [← List.length_map (f := newEdges), ← Nat.mul_one (List.length _)]
  apply List.sum_le_card_nsmul
  intro n hn
  obtain ⟨r, -, rfl⟩ := List.mem_map.mp hn
  unfold newEdges Reply.newEdges
  split
  · split <;> decide
  · decide

/-- A request hands out at most one id. -/
theorem LayeredGraphDatabase.sum_newNodes_session {S : Type} [FileStorage S]
    (env : QueryEnvironment) (requests : List (HashOrder × Request))
    (db : LayeredGraphDatabase S (NoCache ⊕ LruCache)) :
    ((session env requests db).1.map Response.newNodes).sum ≤ requests.length := by
  rw [← Machine.length_run (fun request => serve env request.1 request.2) requests db]
  exact Response.sum_newNodes _

theorem LayeredGraphDatabase.sum_newEdges_session {S : Type} [FileStorage S]
    (env : QueryEnvironment) (requests : List (HashOrder × Request))
    (db : LayeredGraphDatabase S (NoCache ⊕ LruCache)) :
    ((session env requests db).1.map Response.newEdges).sum ≤ requests.length := by
  rw [← Machine.length_run (fun request => serve env request.1 request.2) requests db]
  exact Response.sum_newEdges _

/-- Tables, formats and a search for shortest paths that know nothing. -/
def QueryEnvironment.plain : QueryEnvironment :=
  ⟨⟨id, fun _ => "0.0"⟩, .plain, Nat.clog 2, fun _ _ _ => none⟩

/-- The environment in which paths are searched for. -/
noncomputable def QueryEnvironment.searching : QueryEnvironment :=
  { QueryEnvironment.plain with dijkstra := DijkstraF64.search }

/-- A session on an edge, which is asked for in all ways. -/
def edgeRequests : List (HashOrder × Request) :=
  [(.sorted, .call (.insertNode "A" ∅)),
    (.sorted, .call (.insertNode "B" ∅)),
    (.sorted, .call (.insertEdge ⟨0⟩ ⟨1⟩ "L" ⟨0x3ff0000000000000⟩ ∅)),
    (.sorted, .query .simpleQuery "PATH FROM N0 TO N1"),
    (.sorted, .query .simpleQuery "TRAVERSE DFS FROM N0"),
    (.sorted, .query .cypherLite "COUNT N18446744073709551616"),
    (.sorted, .call (.reopen .noCache .unrestricted)),
    (.sorted, .command (.shortestPath ⟨1⟩ ⟨0⟩)),
    (.sorted, .nodesByProperty "k" .notEq .null),
    (.sorted, .call (.deleteNode ⟨0⟩)),
    (.sorted, .labelStats),
    (.sorted, .indexedFields)]

theorem edgeRequests_inserts {N : Node → Prop} {E : Edge → Prop}
    (hA : ∀ id, N ⟨id, "A", ∅⟩) (hB : ∀ id, N ⟨id, "B", ∅⟩)
    (hL : ∀ id, E ⟨id, ⟨0⟩, ⟨1⟩, "L", ⟨0x3ff0000000000000⟩, ∅⟩) :
    ∀ request ∈ edgeRequests, request.2.Inserts N E := by
  intro request hr
  simp only [edgeRequests, List.mem_cons, List.not_mem_nil, or_false] at hr
  rcases hr with rfl | rfl | rfl | rfl | rfl | rfl | rfl | rfl | rfl | rfl | rfl | rfl
  · exact hA
  · exact hB
  · exact hL
  all_goals trivial

theorem sessions_refine_plainDatabase_edge :
    ∃ db : LayeredGraphDatabase (JsonFileStorage SampleJson.serde) (NoCache ⊕ LruCache),
      openWithConfig .sorted (FileStorage.openPath none)
        (CacheAdapter.lruCache 1 1 Nat.one_pos Nat.one_pos).new .new ⟨some 2, .all⟩ = .ok db ∧
      ∃ p, PlainDatabase.SearchedSession .searching ⟨.empty, ⟨some 2, .all⟩⟩ edgeRequests
        (session .searching edgeRequests db).1 p := by
  have hdocumented : (StorageAdapter.json SampleJson.serde).Documented := SampleJson.keepsFloatless
  have hlabels : StrFits "A" ∧ StrFits "B" ∧ StrFits "L" := by decide
  have hprops : PropertiesFit ∅ ∧ PropertiesFinite ∅ := by decide
  have hinserts : ∀ request ∈ edgeRequests, request.2.Inserts
      (StorageAdapter.json SampleJson.serde).KeepsNode
      (StorageAdapter.json SampleJson.serde).KeepsEdge :=
    edgeRequests_inserts (fun _ => SampleJson.keeps ⟨⟨hlabels.1, hprops.1⟩, hprops.2⟩)
      (fun _ => SampleJson.keeps ⟨⟨hlabels.2.1, hprops.1⟩, hprops.2⟩)
      fun _ => SampleJson.keeps ⟨⟨hlabels.2.2, hprops.1⟩, rfl, hprops.2⟩
  have hweights : ∀ request ∈ edgeRequests, request.2.NonNegative :=
    edgeRequests_inserts (fun _ => trivial) (fun _ => trivial) fun _ => rfl
  obtain ⟨db, hopen, hrun⟩ := sessions_refine_plainDatabase (.json SampleJson.serde) hdocumented
    .searching DijkstraF64.implements_search .sorted (.lruCache 1 1 Nat.one_pos Nat.one_pos)
    ⟨some 2, .all⟩ edgeRequests hinserts
  have hlen : edgeRequests.length < 2 ^ 64 := by decide
  have hnodes := (sum_newNodes_session .searching edgeRequests db).trans_lt hlen
  have hedges := (sum_newEdges_session .searching edgeRequests db).trans_lt hlen
  -- the only weight is 1.0, so that both searches end
  obtain ⟨db', hopen', hstep, hn, he⟩ := openPath_inStep (StorageAdapter.spec _ hdocumented) .sorted
    (.lruCache 1 1 Nat.one_pos Nat.one_pos) ⟨some 2, .all⟩
  obtain rfl := Except.ok.inj (hopen.symm.trans hopen')
  rw [← StorageAdapter.spec_nodeStorable _ hdocumented,
    ← StorageAdapter.spec_edgeStorable _ hdocumented] at hinserts
  refine ⟨db, hopen, hrun hnodes hedges
    (searchEnds_of_nonNegative ⟨hstep, hinserts, by omega, by omega⟩ ?_ hweights)⟩
  intro k x hx
  simp [PlainGraph.empty] at hx

end AdGraphDb
