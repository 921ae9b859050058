import AdGraphDb.Database.Requests
import AdGraphDb.Foundation.Mutex
import AdGraphDb.Query.CypherSafety
import AdGraphDb.Query.SimpleSafety
import AdGraphDb.Server.Protocol

/-!
# One database, many threads

Every method of a handle holds the lock of the database while it runs. However the threads
and connections interleave, they are answered as by a plain graph that serves one request
after the other, until a query text panics: nobody is answered any more after that.
-/

namespace AdGraphDb
open Std AdGraphDb.Action

/-- What a call under the lock comes back with; `none` is a panic. -/
def Stop.outcome {ε α : Type} : Except (Stop ε) α → Option (Except ε α)
  | .ok v => some (.ok v)
  | .error (.error e) => some (.error e)
  | .error _ => none

/-- A method of the database, which the guard of `lock()` is held for. -/
def locked {ε D α : Type} (a : Action (Stop ε) D α) (db : D) : Option (Except ε α) × D :=
  (Stop.outcome (a db).1, (a db).2)

theorem Stop.outcome_eq_some {ε α : Type} {r : Except (Stop ε) α} {a : Except ε α}
    (h : outcome r = some a) : r = a.mapError .error := by
  cases r with
  | ok v =>
    cases h
    rfl
  | error stop =>
    cases stop <;> cases h
    rfl

theorem Stop.outcome_eq_none {ε α : Type} {r : Except (Stop ε) α} :
    outcome r = none ↔ ¬ Parsing.Returns r := by
  cases r with
  | ok v => exact ⟨fun h => (by cases h), fun h => absurd (Parsing.returns_ok v) h⟩
  | error stop =>
    cases stop with
    | error e => exact ⟨fun h => (by cases h), fun h => absurd (Parsing.returns_error e) h⟩
    | panicked =>
      refine ⟨fun _ h => ?_, fun _ => rfl⟩
      obtain ⟨e, he⟩ := h _ rfl
      cases he
    | outOfFuel =>
      refine ⟨fun _ h => ?_, fun _ => rfl⟩
      obtain ⟨e, he⟩ := h _ rfl
      cases he

/-! ## Which texts panic -/

namespace QueryLanguage

/-- The text has a reference that no `u64` holds, in the language that unwraps it. -/
def Panics (u : Unicode) : QueryLanguage → String → Prop
  | simpleQuery, _ => False
  | cypherLite, query => CypherLite.HasOversized u query.toList

theorem returns_parse_iff (fmt : CypherLite.DebugFormat) {u : Unicode} (hu : u.KeepsProps)
    (language : QueryLanguage) (query : String) :
    Parsing.Returns (language.parse fmt u query) ↔ ¬ language.Panics u query := by
  cases language with
  | simpleQuery => exact ⟨fun _ h => h, fun _ => SimpleQuery.returns_parse hu query⟩
  | cypherLite => exact CypherLite.returns_parse_iff fmt u query

end QueryLanguage

/-! ## Handles -/

namespace SharedDatabase

/-- The methods of a handle. -/
inductive Method where
  | executeQuery (language : QueryLanguage) (query : String)
  | insertNode (label : String) (properties : Properties)
  | getNode (id : NodeId)
  | nodeCount
  | edgeCount
  | compact

/-- What the method asks of the database. -/
def Method.request : Method → Request
  | executeQuery language query => .query language query
  | insertNode label properties => .call (.insertNode label properties)
  | getNode id => .call (.getNode id)
  | nodeCount => .call .nodeCount
  | edgeCount => .call .edgeCount
  | compact => .call .compact

variable {S : Type} [FileStorage S] {L : StorageSpec S}
  {db : LayeredGraphDatabase S (NoCache ⊕ LruCache)} {p : PlainDatabase} {env : QueryEnvironment}

def call (env : QueryEnvironment) (method : HashOrder × Method) :
    LayeredGraphDatabase S (NoCache ⊕ LruCache) →
      Option (Except GraphError Response) × LayeredGraphDatabase S (NoCache ⊕ LruCache) :=
  locked (LayeredGraphDatabase.serve env method.1 method.2.request)

/-- The calls that were let in, one after the other, are a session. -/
theorem run_call (methods : List (HashOrder × Method))
    (db : LayeredGraphDatabase S (NoCache ⊕ LruCache)) :
    Machine.run (call env) methods db =
      ((LayeredGraphDatabase.session env (methods.map fun m => (m.1, m.2.request)) db).1.map
          Stop.outcome,
        (LayeredGraphDatabase.session env (methods.map fun m => (m.1, m.2.request)) db).2) := by
  induction methods generalizing db with
  | nil => rfl
  | cons m methods ih =>
    rw [Machine.run, ih]
    rfl

variable {T : Type} [DecidableEq T]

/-- Whatever the threads do with their handles, and however they interleave: there is a session
of a plain database with the same calls, in which every thread is served in its own order and
gets its answers. -/
theorem interleavings_refine [Fintype T] (h : LayeredGraphDatabase.InStep L db p)
    (calls : T → List (HashOrder × Method))
    (hcalls : ∀ t, ∀ m ∈ calls t, m.2.request.Inserts L.NodeStorable L.EdgeStorable)
    (hn : db.idGenerator.nextNode.toNat + ∑ t, (calls t).length < 2 ^ 64)
    (he : db.idGenerator.nextEdge.toNat + ∑ t, (calls t).length < 2 ^ 64)
    {τ : Mutex.State T (LayeredGraphDatabase S (NoCache ⊕ LruCache)) (HashOrder × Method)
      (Except GraphError Response)}
    (hsteps : Mutex.Steps (call env) (.init db calls) τ) :
    ∃ served outcomes responses p',
      Mutex.Serves (call env) (.init db calls) τ served outcomes ∧
      outcomes.map Prod.snd = responses.map Stop.outcome ∧
      p.Session env (served.map fun c => (c.2.1, c.2.2.request)) responses p' ∧
      LayeredGraphDatabase.InStep L τ.value p' := by
  obtain ⟨served, outcomes, hserves⟩ := hsteps.serves (Mutex.State.sane_init db calls)
  have hlen : served.length ≤ ∑ t, (calls t).length := hserves.length_le
  have hrun := hserves.run_untagged
  rw [run_call, List.map_map] at hrun
  obtain ⟨hout, hvalue⟩ := Prod.mk.inj hrun
  have hnodes := LayeredGraphDatabase.sum_newNodes_session env
    (served.map fun c => (c.2.1, c.2.2.request)) db
  have hedges := LayeredGraphDatabase.sum_newEdges_session env
    (served.map fun c => (c.2.1, c.2.2.request)) db
  rw [List.length_map] at hnodes hedges
  have hinserts : ∀ request ∈ served.map fun c => (c.2.1, c.2.2.request),
      request.2.Inserts L.NodeStorable L.EdgeStorable := by
    intro request hr
    obtain ⟨c, hc, rfl⟩ := List.mem_map.mp hr
    exact hcalls c.1 c.2 (hserves.mem_calls hc)
  have hanswerable : LayeredGraphDatabase.Answerable L env
      (served.map fun c => (c.2.1, c.2.2.request)) db p := ⟨h, hinserts, by omega, by omega⟩
  obtain ⟨p', hsession, hstep⟩ := LayeredGraphDatabase.session_refines hanswerable
  exact ⟨served, outcomes, _, p', hserves, hout.symm, hsession, hvalue ▸ hstep⟩

/-- A thread that inserts a node while another one counts. -/
def insertAndCount : Bool → List (HashOrder × Method)
  | false => [(.sorted, .insertNode "A" ∅), (.sorted, .compact)]
  | true => [(.sorted, .executeQuery .simpleQuery "COUNT NODES"), (.sorted, .nodeCount)]

theorem interleavings_refine_insertAndCount :
    ∃ (db : LayeredGraphDatabase BinaryFileStorage (NoCache ⊕ LruCache))
      (τ : Mutex.State Bool (LayeredGraphDatabase BinaryFileStorage (NoCache ⊕ LruCache))
        (HashOrder × Method) (Except GraphError Response)),
      Mutex.Steps (call .plain) (.init db insertAndCount) τ ∧
      ∃ served outcomes responses p',
        Mutex.Serves (call .plain) (.init db insertAndCount) τ served outcomes ∧
        outcomes.map Prod.snd = responses.map Stop.outcome ∧
        PlainDatabase.Session .plain ⟨.empty, .default⟩
          (served.map fun c => (c.2.1, c.2.2.request)) responses p' ∧
        LayeredGraphDatabase.InStep BinaryFileStorage.spec τ.value p' := by
  obtain ⟨db, -, hstep, hn, he⟩ :=
    LayeredGraphDatabase.openPath_inStep BinaryFileStorage.spec .sorted .noCache .default
  obtain ⟨τ, hsteps, -⟩ := Mutex.exists_end (call .plain)
    (.init db insertAndCount : Mutex.State Bool _ _ (Except GraphError Response))
  have hlen : ∑ t, (insertAndCount t).length < 2 ^ 64 := by decide
  have hinserts : ∀ t, ∀ m ∈ insertAndCount t, m.2.request.Inserts
      BinaryFileStorage.spec.NodeStorable BinaryFileStorage.spec.EdgeStorable := by
    have hfits : StrFits "A" ∧ PropertiesFit ∅ := by decide
    intro t m hm
    cases t <;> simp only [insertAndCount, List.mem_cons, List.not_mem_nil, or_false] at hm <;>
      rcases hm with rfl | rfl
    · exact fun _ => hfits
    all_goals trivial
  exact ⟨db, τ, hsteps, interleavings_refine hstep insertAndCount hinserts (by omega) (by omega)
    hsteps⟩

end SharedDatabase

/-! ## Connections -/

namespace Server

def Lang.language : Lang → QueryLanguage
  | simple => .simpleQuery
  | cypher => .cypherLite

/-- What a line makes the thread of a connection do. -/
inductive Deed where
  | say (reply : Reply)
  | ask (lang : Lang) (query : String)

/-- The loop of `handle_connection`, up to the answers to its queries. -/
def script (u : Unicode) : List (Option String) → Lang → List Deed
  | [], _ => []
  | none :: _, _ => []
  | some rawLine :: rest, lang =>
    let line := trim rawLine
    if line = "" then script u rest lang
    else if eqIgnoreAsciiCase line ":quit" || eqIgnoreAsciiCase line ":exit" then [.say .bye]
    else
      match parseLangSwitch u line with
      | some newLang => .say (.language newLang) :: script u rest newLang
      | none =>
        let (effectiveLang, query) := parseLangPrefix line lang
        .ask effectiveLang query :: script u rest lang

/-- The queries of a connection. -/
def queries : List Deed → List (Lang × String)
  | [] => []
  | .say _ :: deeds => queries deeds
  | .ask lang query :: deeds => (lang, query) :: queries deeds

/-- What a connection has written when its queries have been answered so far. -/
def written : List Deed → List (HashOrder × Except GraphError QueryResult) → List Reply
  | [], _ => []
  | .say reply :: deeds, answers => reply :: written deeds answers
  | .ask _ _ :: deeds, a :: answers => .answer a.1 a.2 :: written deeds answers
  | .ask _ _ :: _, [] => []

variable {D : Type}

/-- The answers to the queries of a connection that has the database for itself. -/
def answers (executeQuery : HashOrder → Lang → String → Action GraphError D QueryResult) :
    HashOrder → List (Lang × String) → D → List (HashOrder × Except GraphError QueryResult)
  | _, [], _ => []
  | ord, q :: qs, db => (ord.sub 1, (executeQuery (ord.sub 0) q.1 q.2 db).1) ::
    answers executeQuery (ord.sub 2) qs (executeQuery (ord.sub 0) q.1 q.2 db).2

/-- The script is what the loop does. -/
theorem serve_eq_written (u : Unicode)
    (executeQuery : HashOrder → Lang → String → Action GraphError D QueryResult) (ord : HashOrder)
    (input : List (Option String)) (lang : Lang) (db : D) :
    serve u executeQuery ord input lang db =
      written (script u input lang)
        (answers executeQuery ord (queries (script u input lang)) db) := by
  induction input generalizing ord lang db with
  | nil => rfl
  | cons rawLine rest ih =>
    cases rawLine with
    | none => rfl
    | some rawLine =>
      rw [serve, script]
      dsimp only
      split_ifs
      · exact ih ord lang db
      · rfl
      · cases parseLangSwitch u (trim rawLine) with
        | some newLang => exact congrArg _ (ih ord newLang db)
        | none => exact congrArg _ (ih (ord.sub 2) lang _)

end Server

namespace GraphServer
open Server LayeredGraphDatabase

variable {S : Type} [FileStorage S] {L : StorageSpec S}
  {db : LayeredGraphDatabase S (NoCache ⊕ LruCache)} {p : PlainDatabase} {env : QueryEnvironment}

/-- `run_query`, up to the display of the result. -/
def runQuery (env : QueryEnvironment) (q : HashOrder × Lang × String) :
    LayeredGraphDatabase S (NoCache ⊕ LruCache) →
      Option (Except GraphError QueryResult) × LayeredGraphDatabase S (NoCache ⊕ LruCache) :=
  locked (executeQuery env q.1 q.2.1.language q.2.2)

/-- The database may answer a query so. -/
def Allows (env : QueryEnvironment) (p : PlainDatabase) (q : Lang × String)
    (a : Except GraphError QueryResult) : Prop :=
  p.Serves env (.query q.1.language q.2) ((a.map .result).mapError .error) p

/-- The search comes to an end, if the query asks for a path. -/
abbrev SearchEnds (env : QueryEnvironment) (e : AdjacencyListEngine) (q : Lang × String) : Prop :=
  (Request.query q.1.language q.2).SearchEnds env e

/-- A path that the query asks for is searched for on the graph. -/
abbrev Searched (env : QueryEnvironment) (p : PlainDatabase) (q : Lang × String)
    (a : Except GraphError QueryResult) : Prop :=
  p.Searched env (.query q.1.language q.2) ((a.map .result).mapError .error)

theorem eq_of_serves_query {language : QueryLanguage} {text : String}
    {response : Except (Stop GraphError) Response} {p' : PlainDatabase}
    (h : p.Serves env (.query language text) response p') : p' = p := by
  cases h <;> rfl

theorem serve_query (ord : HashOrder) (language : QueryLanguage) (text : String) :
    serve env ord (.query language text) db =
      ((executeQuery env ord language text db).1.map .result,
        (executeQuery env ord language text db).2) := by
  change (do return Response.result (← executeQuery env ord language text)) db = _
  rw [bind_apply]
  cases executeQuery env ord language text db with
  | mk r db' => cases r <;> rfl

/-- A query leaves the graph, and is answered from it. -/
theorem runQuery_allowed (env : QueryEnvironment) (h : InStep L db p)
    (q : HashOrder × Lang × String) :
    InStep L (runQuery env q db).2 p ∧ ∀ a ∈ (runQuery env q db).1, Allows env p q.2 a := by
  have hids (r : Except (Stop GraphError) QueryResult) :
      Response.newNodes (r.map .result) = 0 ∧ Response.newEdges (r.map .result) = 0 := by
    cases r <;> exact ⟨rfl, rfl⟩
  have hquery : (Request.query q.2.1.language q.2.2).Inserts L.NodeStorable L.EdgeStorable :=
    trivial
  obtain ⟨p', hserved⟩ := serve_served env q.1 h hquery
    (by rw [serve_query, (hids _).1]; exact UInt64.toNat_lt _)
    (by rw [serve_query, (hids _).2]; exact UInt64.toNat_lt _)
  rw [serve_query] at hserved
  have hp := eq_of_serves_query hserved.serves
  subst hp
  refine ⟨hserved.inStep, fun a ha => ?_⟩
  have hserves := hserved.serves
  rw [Stop.outcome_eq_some ha] at hserves
  cases a <;> exact hserves

theorem runQuery_searched (hsearch : DijkstraF64.Implements env.dijkstra) (h : InStep L db p)
    {q : HashOrder × Lang × String} (hends : SearchEnds env db.engine q.2) :
    ∀ a ∈ (runQuery env q db).1, Searched env p q.2 a := by
  intro a ha
  have hsearched : p.Searched env (.query q.2.1.language q.2.2)
      (serve env q.1 (.query q.2.1.language q.2.2) db).1 := serve_searched hsearch h hends
  rw [serve_query, Stop.outcome_eq_some ha] at hsearched
  cases a <;> exact hsearched

/-- A query leaves the engine. -/
theorem runQuery_engine (env : QueryEnvironment) (q : HashOrder × Lang × String)
    (db : LayeredGraphDatabase S (NoCache ⊕ LruCache)) :
    (runQuery env q db).2.engine = db.engine := by
  obtain ⟨cache, hdb⟩ := executeQuery_onlyCaches env q.1 q.2.1.language q.2.2 db db (.refl db)
  have hafter : (runQuery env q db).2 = { db with cache := cache } := hdb
  rw [hafter]

/-- What is shown of an answer, on an engine: with a search that implements the one of the
repository and ends, also that the path is the one found. -/
structure Answered (env : QueryEnvironment) (p : PlainDatabase) (e : AdjacencyListEngine)
    (q : Lang × String) (a : Except GraphError QueryResult) : Prop where
  allowed : Allows env p q a
  searched : DijkstraF64.Implements env.dijkstra → SearchEnds env e q → Searched env p q a

theorem runQuery_eq_none {env : QueryEnvironment} (hu : env.unicode.KeepsProps)
    (q : HashOrder × Lang × String) :
    (runQuery env q db).1 = none ↔ q.2.1.language.Panics env.unicode q.2.2 := by
  rw [← not_iff_not, ← QueryLanguage.returns_parse_iff env.debug hu, runQuery, locked,
    Stop.outcome_eq_none, not_not]
  cases hparse : q.2.1.language.parse env.debug env.unicode q.2.2 with
  | error stop =>
    have hrun : executeQuery env q.1 q.2.1.language q.2.2 db = (.error stop, db) :=
      bind_error (by rw [tryRead, hparse])
    rw [hrun]
    constructor <;> intro h s hs <;> cases hs <;> exact h _ rfl
  | ok command =>
    rw [executeQuery_of_parse hparse, orStop]
    refine ⟨fun _ => Parsing.returns_ok _, fun _ => ?_⟩
    cases (execute (context (.searches env.dijkstra)) env.log2Ceil q.1 command db).1 with
    | ok v => exact Parsing.returns_ok v
    | error e => exact Parsing.returns_error e

variable {T : Type} [DecidableEq T] {inputs : T → List (Option String)}
  {calls : T → List (HashOrder × Lang × String)}
  {τ : Mutex.State T (LayeredGraphDatabase S (NoCache ⊕ LruCache)) (HashOrder × Lang × String)
    (Except GraphError QueryResult)}

/-- The queries that a connection sends. -/
abbrev sent (env : QueryEnvironment) (inputs : T → List (Option String)) (t : T) :
    List (Lang × String) := queries (script env.unicode (inputs t) .simple)

theorem answers_forall₂ (h : InStep L db p)
    {served : List (T × HashOrder × Lang × String)}
    {outcomes : List (T × Option (Except GraphError QueryResult))}
    (hserves : Mutex.Serves (runQuery env) (.init db calls) τ served outcomes) (t : T) :
    ∃ done, done <+: (calls t).map Prod.snd ∧
      List.Forall₂ (Answered env p db.engine) done (τ.answers t) ∧
      (τ.poisoned = false → done = (Mutex.callsOf t served).map Prod.snd) := by
  have hsome := hserves.isSome_of_mem_dropLast
  have hclean := hserves.clean
  have hanswers : τ.answers t = Mutex.answersTo t outcomes := hserves.answers t
  have hrun : (Machine.run (Mutex.tagged (runQuery env)) served db).1 = outcomes :=
    congrArg Prod.fst hserves.run
  obtain ⟨rest, hcalls, -⟩ := hserves.calls t
  rw [hanswers]
  rw [← hrun] at hsome hclean ⊢
  have hstep (q : HashOrder × Lang × String) (s : LayeredGraphDatabase S (NoCache ⊕ LruCache))
      (hs : InStep L s p ∧ s.engine = db.engine) :
      (InStep L (runQuery env q s).2 p ∧ (runQuery env q s).2.engine = db.engine) ∧
        ∀ a ∈ (runQuery env q s).1, Answered env p db.engine q.2 a := by
    obtain ⟨hnext, hallowed⟩ := runQuery_allowed env hs.1 q
    refine ⟨⟨hnext, (runQuery_engine env q s).trans hs.2⟩, fun a ha => ⟨hallowed a ha, ?_⟩⟩
    intro hsearch hends
    rw [← hs.2] at hends
    exact runQuery_searched hsearch hs.1 hends a ha
  obtain ⟨done, hpre, hdone, hall⟩ := Mutex.forall₂_answersTo hstep served ⟨h, rfl⟩ hsome t
  refine ⟨done.map Prod.snd, ?_, List.forall₂_map_left_iff.mpr hdone, fun hp => ?_⟩
  · refine (hpre.trans ?_).map Prod.snd
    exact ⟨rest, hcalls.symm⟩
  · rw [hall (hclean hp)]

/-- However the connections interleave: each is answered its own queries, in their order, as the
graph allows that the server was started with. -/
theorem connections_answered (h : InStep L db p)
    (hcalls : ∀ t, (calls t).map Prod.snd = sent env inputs t)
    (hsteps : Mutex.Steps (runQuery env) (.init db calls) τ) (t : T) :
    ∃ done, done <+: sent env inputs t ∧ List.Forall₂ (Allows env p) done (τ.answers t) := by
  obtain ⟨served, outcomes, hserves⟩ := hsteps.serves (Mutex.State.sane_init db calls)
  obtain ⟨done, hpre, hdone, -⟩ := answers_forall₂ h hserves t
  exact ⟨done, hcalls t ▸ hpre, hdone.imp fun _ _ ha => ha.allowed⟩

/-- A text that panics, of whichever connection, is the only thing that poisons the lock, and
nobody is answered afterwards. -/
theorem poisoned_by_panic (hu : env.unicode.KeepsProps)
    (hcalls : ∀ t, (calls t).map Prod.snd = sent env inputs t)
    (hsteps : Mutex.Steps (runQuery env) (.init db calls) τ) (hp : τ.poisoned = true) :
    (∃ t, ∃ q ∈ sent env inputs t, q.1.language.Panics env.unicode q.2) ∧
      ∀ ρ, Mutex.Steps (runQuery env) τ ρ → ρ.answers = τ.answers := by
  have hsane := Mutex.State.sane_init (O := Except GraphError QueryResult) db calls
  obtain ⟨served, outcomes, hserves⟩ := hsteps.serves hsane
  refine ⟨?_, fun ρ hρ => hρ.answers_of_poisoned (hsteps.sane hsane) hp⟩
  obtain ⟨t, i, hi, s, hnone⟩ := hserves.exists_panic rfl hp
  exact ⟨t, i.2, hcalls t ▸ List.mem_map_of_mem hi, (runQuery_eq_none hu i).mp hnone⟩

/-- If no text panics, and the search ends for each path that is asked for, no connection waits
for ever: every interleaving can only end where each query of each connection is answered. -/
theorem connections_end_answered [Fintype T] (hu : env.unicode.KeepsProps)
    (hsearch : DijkstraF64.Implements env.dijkstra) (h : InStep L db p)
    (hcalls : ∀ t, (calls t).map Prod.snd = sent env inputs t)
    (hsafe : ∀ t, ∀ q ∈ sent env inputs t, ¬ q.1.language.Panics env.unicode q.2)
    (hends : ∀ t, ∀ q ∈ sent env inputs t, SearchEnds env db.engine q)
    (hsteps : Mutex.Steps (runQuery env) (.init db calls) τ) :
    (∃ ρ, Mutex.Steps (runQuery env) τ ρ ∧ ∀ ρ', ¬ Mutex.Step (runQuery env) ρ ρ') ∧
      ((∀ ρ', ¬ Mutex.Step (runQuery env) τ ρ') →
        ∀ t, List.Forall₂ (fun q a => Allows env p q a ∧ Searched env p q a)
          (sent env inputs t) (τ.answers t)) := by
  refine ⟨Mutex.exists_end _ τ, fun hend t => ?_⟩
  have hsane := Mutex.State.sane_init (O := Except GraphError QueryResult) db calls
  obtain ⟨served, outcomes, hserves⟩ := hsteps.serves hsane
  have hclean : τ.poisoned = false := by
    by_contra hp
    obtain ⟨t, i, hi, s, hnone⟩ := hserves.exists_panic rfl (Bool.eq_true_of_not_eq_false hp)
    exact hsafe t i.2 (hcalls t ▸ List.mem_map_of_mem hi) ((runQuery_eq_none hu i).mp hnone)
  obtain ⟨done, -, hdone, hall⟩ := answers_forall₂ h hserves t
  have hserved : calls t = Mutex.callsOf t served :=
    hserves.all_served (hsteps.sane hsane) hend hclean t
  rw [hall hclean, ← hserved, hcalls t] at hdone
  exact ((List.forall₂_and_left _ _).mpr ⟨hends t, hdone⟩).imp fun q a ha =>
    ⟨ha.2.allowed, ha.2.searched hsearch ha.1⟩

/-- Two connections that speak the two languages. -/
def twoInputs : Bool → List (Option String)
  | false => [some "COUNT NODES", some "", some ":quit"]
  | true => [some ":use cypher", some "MATCH (n) RETURN n", none]

def twoCalls : Bool → List (HashOrder × Lang × String)
  | false => [(.sorted, .simple, "COUNT NODES")]
  | true => [(.sorted, .cypher, "MATCH (n) RETURN n")]

theorem twoCalls_sent (t : Bool) :
    (twoCalls t).map Prod.snd = sent .plain twoInputs t := by
  cases t <;> decide +kernel

/-- A database that has just been opened. -/
theorem exists_inStep : ∃ db : LayeredGraphDatabase BinaryFileStorage (NoCache ⊕ LruCache),
    InStep BinaryFileStorage.spec db ⟨.empty, .default⟩ := by
  obtain ⟨db, -, hstep, -⟩ := openPath_inStep BinaryFileStorage.spec .sorted .noCache .default
  exact ⟨db, hstep⟩

theorem connections_answered_two :
    ∃ (db : LayeredGraphDatabase BinaryFileStorage (NoCache ⊕ LruCache))
      (τ : Mutex.State Bool (LayeredGraphDatabase BinaryFileStorage (NoCache ⊕ LruCache))
        (HashOrder × Lang × String) (Except GraphError QueryResult)),
      Mutex.Steps (runQuery .plain) (.init db twoCalls) τ ∧
      ∃ done, done <+: sent .plain twoInputs true ∧
        List.Forall₂ (Allows .plain ⟨.empty, .default⟩) done (τ.answers true) := by
  obtain ⟨db, hstep⟩ := exists_inStep
  obtain ⟨τ, hsteps, -⟩ := Mutex.exists_end (runQuery .plain)
    (.init db twoCalls : Mutex.State Bool _ _ (Except GraphError QueryResult))
  exact ⟨db, τ, hsteps, connections_answered hstep twoCalls_sent hsteps true⟩

/-- Two connections, one of which asks for a path. -/
def pathInputs : Bool → List (Option String)
  | false => [some "PATH FROM N0 TO N1", some "", some ":quit"]
  | true => [some ":use cypher", some "MATCH (n) RETURN n", none]

def pathCalls : Bool → List (HashOrder × Lang × String)
  | false => [(.sorted, .simple, "PATH FROM N0 TO N1")]
  | true => [(.sorted, .cypher, "MATCH (n) RETURN n")]

theorem pathCalls_sent (t : Bool) :
    (pathCalls t).map Prod.snd = sent .searching pathInputs t := by
  cases t <;> decide +kernel

theorem pathInputs_safe (t : Bool) :
    ∀ q ∈ sent .searching pathInputs t, ¬ q.1.language.Panics .plain q.2 := by
  have hlex : CypherLite.lex .plain "MATCH (n) RETURN n" ≠ .error .panicked := by decide +kernel
  intro q hq
  rw [← pathCalls_sent] at hq
  cases t <;> rw [List.mem_singleton.mp hq]
  · exact id
  · exact fun h => hlex (CypherLite.lex_eq_panicked.mpr h)

/-- A database with two nodes and an edge between them. -/
theorem exists_inStep_edge : ∃ (db : LayeredGraphDatabase BinaryFileStorage (NoCache ⊕ LruCache))
    (p : PlainDatabase), InStep BinaryFileStorage.spec db p ∧ p.graph.NonNegative ∧
      p.graph.nodes.size = 2 ∧ p.graph.edges.size = 1 := by
  obtain ⟨db, hopen, hstep, hn, he⟩ :=
    openPath_inStep BinaryFileStorage.spec .sorted .noCache .default
  have hfits : StrFits "A" ∧ StrFits "B" ∧ StrFits "L" ∧ PropertiesFit ∅ := by decide
  have hinserts : ∀ request ∈ edgeRequests.take 3, request.2.Inserts
      BinaryFileStorage.spec.NodeStorable BinaryFileStorage.spec.EdgeStorable := fun r hr =>
    edgeRequests_inserts (fun _ => ⟨hfits.1, hfits.2.2.2⟩) (fun _ => ⟨hfits.2.1, hfits.2.2.2⟩)
      (fun _ => ⟨hfits.2.2.1, hfits.2.2.2⟩) r (List.mem_of_mem_take hr)
  have hweights : ∀ request ∈ edgeRequests.take 3, request.2.NonNegative := fun r hr =>
    edgeRequests_inserts (fun _ => trivial) (fun _ => trivial) (fun _ => rfl) r
      (List.mem_of_mem_take hr)
  have hlen : (edgeRequests.take 3).length < 2 ^ 64 := by decide
  have hnodes := (sum_newNodes_session .plain (edgeRequests.take 3) db).trans_lt hlen
  have hedges := (sum_newEdges_session .plain (edgeRequests.take 3) db).trans_lt hlen
  have hanswerable : Answerable BinaryFileStorage.spec .plain (edgeRequests.take 3) db
      ⟨.empty, .default⟩ := ⟨hstep, hinserts, by omega, by omega⟩
  obtain ⟨p, hruns, hend⟩ := session_refines hanswerable
  obtain rfl := Except.ok.inj (hopen.symm.trans openWithConfig_newDatabase)
  refine ⟨_, p, hend, ?_, ?_, ?_⟩
  · have hkeeps (p : PlainDatabase) (request : HashOrder × Request)
        (response : Except (Stop GraphError) Response) (p' : PlainDatabase)
        (hserves : p.Serves .plain request.2 response p') (hr : request.2.NonNegative)
        (hp : p.graph.NonNegative) : p'.graph.NonNegative := serves_nonNegative hserves hp hr
    refine hruns.keeps hkeeps hweights ?_
    intro k x hx
    simp [PlainGraph.empty] at hx
  · rw [← hend.sync.engine.nodeCount]
    decide +kernel
  · rw [← hend.sync.engine.edgeCount]
    decide +kernel

theorem connections_end_answered_path :
    ∃ (db : LayeredGraphDatabase BinaryFileStorage (NoCache ⊕ LruCache)) (p : PlainDatabase)
      (τ : Mutex.State Bool (LayeredGraphDatabase BinaryFileStorage (NoCache ⊕ LruCache))
        (HashOrder × Lang × String) (Except GraphError QueryResult)),
      p.graph.nodes.size = 2 ∧ p.graph.edges.size = 1 ∧
      Mutex.Steps (runQuery .searching) (.init db pathCalls) τ ∧
      ∀ t, List.Forall₂ (fun q a => Allows .searching p q a ∧ Searched .searching p q a)
        (sent .searching pathInputs t) (τ.answers t) := by
  obtain ⟨db, p, hstep, hweights, hnodes, hedges⟩ := exists_inStep_edge
  obtain ⟨τ, hsteps, hend⟩ := Mutex.exists_end (runQuery .searching)
    (.init db pathCalls : Mutex.State Bool _ _ (Except GraphError QueryResult))
  have hends :=
    DijkstraF64.ends_of_nonNegative (nonNegative_of_represents hstep.sync.engine hweights)
  exact ⟨db, p, τ, hnodes, hedges, hsteps, (connections_end_answered Unicode.keepsProps_plain
    DijkstraF64.implements_search hstep pathCalls_sent pathInputs_safe
    (fun _ _ _ start goal _ => hends start goal) hsteps).2 hend⟩

/-- A connection with a reference of twenty digits. -/
def oversized : Unit → List (Option String) := fun _ => [some "cypher:COUNT N18446744073709551616"]

def oversizedCalls : Unit → List (HashOrder × Lang × String) := fun _ =>
  [(.sorted, .cypher, "COUNT N18446744073709551616")]

theorem poisoned_by_panic_oversized :
    ∃ (db : LayeredGraphDatabase BinaryFileStorage (NoCache ⊕ LruCache))
      (τ : Mutex.State Unit (LayeredGraphDatabase BinaryFileStorage (NoCache ⊕ LruCache))
        (HashOrder × Lang × String) (Except GraphError QueryResult)),
      Mutex.Steps (runQuery .plain) (.init db oversizedCalls) τ ∧ τ.poisoned = true ∧
      (∃ t, ∃ q ∈ sent .plain oversized t, q.1.language.Panics .plain q.2) ∧
      ∀ ρ, Mutex.Steps (runQuery .plain) τ ρ → ρ.answers = τ.answers := by
  obtain ⟨db, -⟩ := exists_inStep
  have hcalls (t : Unit) : (oversizedCalls t).map Prod.snd = sent .plain oversized t := by
    decide +kernel +revert
  have hu : QueryEnvironment.plain.unicode.KeepsProps := Unicode.keepsProps_plain
  have hlex : CypherLite.lex .plain "COUNT N18446744073709551616" = .error .panicked := by
    decide +kernel
  have hnone : (runQuery .plain (.sorted, .cypher, "COUNT N18446744073709551616") db).1 = none :=
    (runQuery_eq_none hu _).mpr (CypherLite.lex_eq_panicked.mp hlex)
  have hrun : runQuery .plain (.sorted, .cypher, "COUNT N18446744073709551616") db =
      (none, (runQuery .plain (.sorted, .cypher, "COUNT N18446744073709551616") db).2) :=
    Prod.ext hnone rfl
  -- the connection takes the lock, and its call panics
  let start : Mutex.State Unit (LayeredGraphDatabase BinaryFileStorage (NoCache ⊕ LruCache))
    (HashOrder × Lang × String) (Except GraphError QueryResult) := .init db oversizedCalls
  have hacquire : Mutex.Step (runQuery .plain) start { start with holder := some () } :=
    .acquire rfl rfl rfl
  have hpanic : Mutex.Step (runQuery .plain) { start with holder := some () } _ :=
    .panic rfl rfl hrun
  have hsteps := (Relation.ReflTransGen.single hacquire).tail hpanic
  exact ⟨db, _, hsteps, rfl, poisoned_by_panic Unicode.keepsProps_plain hcalls hsteps rfl⟩

end GraphServer

end AdGraphDb
