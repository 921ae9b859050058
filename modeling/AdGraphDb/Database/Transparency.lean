import AdGraphDb.Database.Coherence
import AdGraphDb.Database.Refinement
import AdGraphDb.Database.Sessions

/-!
# Can the cache be seen?

A session with a cache answers like one without as long as the cache is coherent. Inside
a transaction's bracket that is in the hands of the staged operations: the storage does
not show what waits in the bracket, and a commit that fails takes it back.
-/

namespace AdGraphDb
open Std AdGraphDb.Action ReplayState

namespace LayeredGraphDatabase

variable {S C : Type} [FileStorage S] [LawfulCachePort C] {L : StorageSpec S}
  {db : LayeredGraphDatabase S C}

/-- What keeps the cache unseen at a staged operation. What is inserted must not wait to be
deleted, a node that is deleted must not wait to be inserted unless it is stored already,
and an edge without its ends, which fails the commit, must not find any insertion waiting. -/
def Unseen (L : StorageSpec S) (db : LayeredGraphDatabase S C) : StagedOp → Prop
  | .insertNode node => L.NodeStorable node ∧ ¬(L.view db.storage).DropsNode node.id
  | .insertEdge edge =>
    if db.hasEnds edge.source edge.target then
      L.EdgeStorable edge ∧ ¬(L.view db.storage).DropsEdge edge.id
    else (L.view db.storage).AddsNothing
  | .deleteNode id => ∀ node, (L.view db.storage).committed.1[id]? = some node →
    (L.view db.storage).nodes[id]? = some node
  | .deleteEdge _ => True

/-- The same for the operations that the loop of a commit gets to. -/
def UnseenAlong (L : StorageSpec S) (txnId : UInt64) :
    HashOrder → CommitResult → List StagedOp → LayeredGraphDatabase S C → Prop
  | _, _, [], _ => True
  | ord, result, op :: ops, db => Unseen L db op ∧
    ∀ result' db', commitOp (ord.sub 0) txnId result op db = (.ok result', db') →
      UnseenAlong L txnId (ord.sub 1) result' ops db'

/-- The same for a transaction that is about to be committed. -/
def UnseenCommit (L : StorageSpec S) (ord : HashOrder) (txn : Transaction)
    (db : LayeredGraphDatabase S C) : Prop :=
  UnseenAlong L txn.txnId (ord.sub 0) .default txn.operations
    { db with storage := (StoragePort.beginWalTransaction txn.txnId db.storage).2 }

/-- The transaction whose bracket is open; a commit that fails closes its own. -/
def openAfter {ε α : Type} (txnId : UInt64) : Except ε α → Option UInt64
  | .ok _ => some txnId
  | .error _ => none

variable {txnId : UInt64}

theorem projects_commitInsertEdge (ord : HashOrder) (edge : Edge) (result : CommitResult) :
    Projects uncached (commitInsertEdge ord txnId edge result)
      (commitInsertEdge ord txnId edge result) db := by
  have notFound (id : NodeId) : Projects uncached (commitNodeNotFound txnId id)
      (commitNodeNotFound txnId id) db :=
    (projects_storage _).attempt.bind fun _ _ _ => .throw _
  apply Projects.bind_read
  change Projects uncached
    (if !db.engine.containsNode edge.source then _
      else if !db.engine.containsNode edge.target then _ else _)
    (if !db.engine.containsNode edge.source then _
      else if !db.engine.containsNode edge.target then _ else _) db
  split_ifs
  · exact notFound _
  · exact notFound _
  · apply (projects_storage _).bind
    intro _ _ _
    apply Projects.bind_modify
    · rfl
    exact .pure _

theorem projects_commitOp (ord : HashOrder) (result : CommitResult) {op : StagedOp}
    (h : Coherent L (some txnId) db.storage db.cache) (ht : Unseen L db op) :
    Projects uncached (commitOp ord txnId result op) (commitOp ord txnId result op) db := by
  cases op with
  | insertNode node =>
    apply (projects_storage _).bind
    intro _ _ _
    apply Projects.bind_modify
    · rfl
    exact .pure _
  | insertEdge edge => exact projects_commitInsertEdge ord edge result
  | deleteNode id =>
    -- the lookup finds what the storage shows
    have hvalue : nodeValue L db id = (L.view db.storage).nodes[id]? := by
      unfold nodeValue
      cases hc : LawfulCachePort.nodeAt db.cache id with
      | none => rfl
      | some n => exact (ht n (h.node id n hc)).symm
    apply (projects_deleteNode ord h.valid hvalue).bind
    intro _ _ _
    exact .pure _
  | deleteEdge id => exact (projects_deleteEdge ord id).bind fun _ _ _ => .pure _

/-- A coherent cache stays so if the storage will show the same. -/
theorem Coherent.of_committed {txnId? txnId?' : Option UInt64} {storage storage' : S} {cache : C}
    (h : Coherent L txnId? storage cache) (hv : L.Valid storage')
    (hbracket : ∀ b, (L.view storage').txnBuffer = some b → txnId?' = some b.txnId)
    (hcommitted : (L.view storage').committed = (L.view storage).committed) :
    Coherent L txnId?' storage' cache := by
  refine ⟨hv, hbracket, fun id n hn => ?_, fun id e he => ?_⟩ <;> rw [hcommitted]
  · exact h.node id n hn
  · exact h.edge id e he

/-- The marker of the bracket that opens. -/
theorem Coherent.begin (h : Coherent L none db.storage db.cache) (txnId : UInt64) :
    ∃ storage, StoragePort.beginWalTransaction txnId db.storage = (.ok (), storage) ∧
      Coherent L (some txnId) storage db.cache := by
  obtain ⟨_, storage, hrun, hv, hcommitted, hid, -⟩ := L.begin_returns txnId h.valid h.closed
  exact ⟨storage, hrun, h.of_committed hv (fun b hb => congrArg some (hid b hb).symm) hcommitted⟩

/-- The marker of the bracket that is committed. -/
theorem Coherent.commit (h : Coherent L (some txnId) db.storage db.cache) :
    ∃ storage, StoragePort.commitWalTransaction txnId db.storage = (.ok (), storage) ∧
      Coherent L none storage db.cache := by
  have hid : ∀ b, (L.view db.storage).txnBuffer = some b → b.txnId = txnId := fun b hb =>
    (Option.some.inj (h.bracket b hb)).symm
  obtain ⟨_, storage, hrun, hv, hcommitted, hclosed⟩ := L.commit_returns txnId h.valid hid
  refine ⟨storage, hrun, h.of_committed hv (fun b hb => ?_) hcommitted⟩
  rw [hclosed] at hb
  cases hb

/-- The marker of the bracket that is undone. Nothing that the cache holds is taken back. -/
theorem Coherent.rollback (h : Coherent L (some txnId) db.storage db.cache)
    (hadds : (L.view db.storage).AddsNothing) :
    ∃ storage, StoragePort.rollbackWalTransaction txnId db.storage = (.ok (), storage) ∧
      Coherent L none storage db.cache := by
  obtain ⟨_, storage, hrun, hv, hview⟩ := L.rollback_returns txnId h.valid
  refine ⟨storage, hrun, hv, fun b hb => ?_, fun id n hn => ?_, fun id e he => ?_⟩ <;>
    rw [hview] at *
  · cases hb
  · exact hadds.node id n (h.node id n hn)
  · exact hadds.edge id e (h.edge id e he)

theorem commitOp_coherent (ord : HashOrder) (result : CommitResult) {op : StagedOp}
    (h : Coherent L (some txnId) db.storage db.cache) (ht : Unseen L db op) :
    Coherent L (openAfter txnId (commitOp ord txnId result op db).1)
      (commitOp ord txnId result op db).2.storage (commitOp ord txnId result op db).2.cache := by
  -- an operation that succeeds leaves the bracket open
  have succeeds (hr : Returns (commitOp ord txnId result op) db fun _ db' =>
      Coherent L (some txnId) db'.storage db'.cache) :
      Coherent L (openAfter txnId (commitOp ord txnId result op db).1)
        (commitOp ord txnId result op db).2.storage
        (commitOp ord txnId result op db).2.cache := by
    obtain ⟨_, db', hrun, hdb'⟩ := hr
    rw [hrun]
    exact hdb'
  cases op with
  | insertNode node =>
    apply succeeds
    apply Returns.bind_on (L.write_plain (ord.sub 0) (r := .upsertNode node) rfl h.valid ht.1)
    rintro - storage ⟨hv, hview⟩
    apply Returns.bind_modify
    exact .pure (h.upsertNode (ord.sub 1) hv hview ht.2)
  | insertEdge edge =>
    cases hends : db.hasEnds edge.source edge.target with
    | true =>
      apply succeeds
      rw [Unseen, if_pos hends] at ht
      obtain ⟨_, storage, hsave, hv, hview⟩ :=
        L.write_plain (ord.sub 0) (r := .upsertEdge edge) rfl h.valid ht.1
      have hins := commitInsertEdge_of_hasEnds ord txnId edge result hends
      have hput := h.upsertEdge (ord.sub 1) hv hview ht.2
      have hok : on storageField (StoragePort.saveEdge (ord.sub 0) edge) db =
          (.ok (), { db with storage := storage }) := on_ok hsave
      exact ⟨_, _, hins.trans (bind_ok hok), hput⟩
    | false =>
      rw [Unseen, if_neg (Bool.eq_false_iff.mp hends)] at ht
      obtain ⟨id, herr⟩ := commitInsertEdge_of_not_hasEnds ord txnId edge result hends
      obtain ⟨storage, hmarker, hclosed⟩ := h.rollback ht
      have hfail : commitNodeNotFound txnId id db =
          ((.error (.nodeNotFound id) : Except GraphError CommitResult),
            { db with storage := storage }) := by
        change (_, storageField.set (StoragePort.rollbackWalTransaction txnId db.storage).2 db) = _
        rw [hmarker]
        rfl
      have heq : commitOp ord txnId result (.insertEdge edge) db = _ := herr.trans hfail
      rw [heq]
      exact hclosed
  | deleteNode id =>
    apply succeeds
    apply Returns.bind (deleteNode_coherent ord id h)
    intro _ _ hdb'
    exact .pure hdb'
  | deleteEdge id =>
    apply succeeds
    apply Returns.bind (deleteEdge_coherent ord id h)
    intro _ _ hdb'
    exact .pure hdb'

/-- The loop over the staged operations. -/
theorem commitOps_unseen {ord : HashOrder} {result : CommitResult} {ops : List StagedOp}
    (h : Coherent L (some txnId) db.storage db.cache)
    (ht : UnseenAlong L txnId ord result ops db.uncached) :
    Projects uncached (commitOps ord txnId result ops) (commitOps ord txnId result ops) db ∧
      Coherent L (openAfter txnId (commitOps ord txnId result ops db).1)
        (commitOps ord txnId result ops db).2.storage
        (commitOps ord txnId result ops db).2.cache := by
  induction ops generalizing ord result db with
  | nil => exact ⟨.pure result, h⟩
  | cons op ops ih =>
    obtain ⟨hop, hops⟩ := ht
    have hop' : Unseen L db op := by
      cases op <;> exact hop
    have hproj := projects_commitOp (ord.sub 0) result h hop'
    have hcoh := commitOp_coherent (ord.sub 0) result h hop'
    have hnext {result' : CommitResult} {db' : LayeredGraphDatabase S C}
        (hrun : commitOp (ord.sub 0) txnId result op db = (.ok result', db')) :
        Projects uncached (commitOps (ord.sub 1) txnId result' ops)
            (commitOps (ord.sub 1) txnId result' ops) db' ∧
          Coherent L (openAfter txnId (commitOps (ord.sub 1) txnId result' ops db').1)
            (commitOps (ord.sub 1) txnId result' ops db').2.storage
            (commitOps (ord.sub 1) txnId result' ops db').2.cache := by
      have hrun' : commitOp (ord.sub 0) txnId result op db.uncached =
          (.ok result', db'.uncached) := by
        rw [Projects, hrun] at hproj
        exact hproj
      rw [hrun] at hcoh
      exact ih hcoh (hops result' db'.uncached hrun')
    refine ⟨hproj.bind fun result' db' hrun => (hnext hrun).1, ?_⟩
    cases hrun : commitOp (ord.sub 0) txnId result op db with
    | mk r db' =>
      cases r with
      | ok result' =>
        have heq : commitOps ord txnId result (op :: ops) db = _ := bind_ok hrun
        rw [heq]
        exact (hnext hrun).2
      | error e =>
        have heq : commitOps ord txnId result (op :: ops) db = _ := bind_error hrun
        rw [hrun] at hcoh
        rw [heq]
        exact hcoh

theorem commitTransaction_unseen {ord : HashOrder} {txn : Transaction}
    (h : Coherent L none db.storage db.cache) (ht : UnseenCommit L ord txn db.uncached) :
    Projects uncached (commitTransaction ord txn) (commitTransaction ord txn) db ∧
      Coherent L none (commitTransaction ord txn db).2.storage
        (commitTransaction ord txn db).2.cache := by
  obtain ⟨storage, hbegin, hopen⟩ := h.begin txn.txnId
  have hstart : on storageField (StoragePort.beginWalTransaction txn.txnId) db =
      (.ok (), { db with storage := storage }) := on_ok hbegin
  have hbefore : UnseenAlong L txn.txnId (ord.sub 0) .default txn.operations
      (uncached { db with storage := storage }) := by
    have hstorage : (StoragePort.beginWalTransaction txn.txnId db.uncached.storage).2 = storage :=
      congrArg Prod.snd hbegin
    unfold UnseenCommit at ht
    rw [hstorage] at ht
    exact ht
  obtain ⟨hloop, hend⟩ := commitOps_unseen hopen hbefore
  constructor
  · apply (projects_storage _).bind
    intro _ db₁ hrun
    obtain ⟨-, rfl⟩ := Prod.mk.inj (hstart.symm.trans hrun)
    apply hloop.bind
    intro result _ _
    apply (projects_storage _).bind
    intro _ _ _
    exact (projects_onWrite _).bind fun _ _ _ => .pure result
  · rw [show commitTransaction ord txn db = _ from bind_ok hstart]
    cases hrun : commitOps (ord.sub 0) txn.txnId .default txn.operations
        { db with storage := storage } with
    | mk r db₁ =>
      rw [hrun] at hend
      cases r with
      | error e =>
        rw [bind_error hrun]
        exact hend
      | ok result =>
        rw [bind_ok hrun]
        obtain ⟨storage₁, hcommit, hclosed⟩ := hend.commit
        have hmarked : on storageField (StoragePort.commitWalTransaction txn.txnId) db₁ =
            (.ok (), { db₁ with storage := storage₁ }) := on_ok hcommit
        rw [bind_ok hmarked]
        have hv : L.Valid ({ db₁ with storage := storage₁ } : LayeredGraphDatabase S C).storage :=
          hclosed.valid
        obtain ⟨_, db₂, hwrite, hs⟩ := onWrite_returns L (ord.sub 1) hv
        rw [bind_ok hwrite]
        exact Coherent.settled hclosed hs

end LayeredGraphDatabase

/-- A query. -/
inductive Lookup where
  | getNode (id : NodeId)
  | getEdge (id : EdgeId)
  | allNodes
  | allEdges
  | nodesByLabel (label : String)
  | nodesByProperty (field : String) (op : ComparisonOp) (value : Value)
  | nodeCount
  | edgeCount
  | labelCount (label : String)
  | neighborsOutgoing (id : NodeId)
  | neighborsIncoming (id : NodeId)

namespace LayeredGraphDatabase

section

variable {S C : Type} [StoragePort S] [CachePort C]

def lookUp (ord : HashOrder) : Lookup → DatabaseAction S C Reply
  | .getNode id => do return .node (← getNode ord id)
  | .getEdge id => do return .edge (← getEdge ord id)
  | .allNodes => do return .nodes (← allNodes ord)
  | .allEdges => do return .edges (← allEdges ord)
  | .nodesByLabel label => do return .nodes (← nodesByLabel ord label)
  | .nodesByProperty field op value => do return .nodes (← nodesByProperty ord field op value)
  | .nodeCount => read fun db => .count db.nodeCount
  | .edgeCount => read fun db => .count db.edgeCount
  | .labelCount label => read fun db => .count (db.labelCount label)
  | .neighborsOutgoing id => read fun db => .neighbors (db.neighborsOutgoing id)
  | .neighborsIncoming id => read fun db => .neighbors (db.neighborsIncoming id)

end

variable {S C : Type} [FileStorage S] [LawfulCachePort C] {L : StorageSpec S}
  {db : LayeredGraphDatabase S C}

/-- A coherent database outside transactions. -/
abbrev AtRest (L : StorageSpec S) (db : LayeredGraphDatabase S C) : Prop :=
  Coherent L none db.storage db.cache

/-- The method answers as without the cache, and the database is at rest afterwards. -/
def Hides (L : StorageSpec S) {α : Type} (a : DatabaseAction S C α)
    (b : DatabaseAction S NoCache α) : Prop :=
  ∀ db : LayeredGraphDatabase S C, AtRest L db →
    Projects uncached a b db ∧ Returns a db fun _ db' => AtRest L db'

theorem Hides.pure {α : Type} (v : α) :
    Hides L (Pure.pure v : DatabaseAction S C α) (Pure.pure v) :=
  fun _ h => ⟨.pure v, .pure h⟩

theorem Hides.bind {α β : Type} {a : DatabaseAction S C α} {b : DatabaseAction S NoCache α}
    {f : α → DatabaseAction S C β} {g : α → DatabaseAction S NoCache β} (ha : Hides L a b)
    (hf : ∀ v, Hides L (f v) (g v)) : Hides L (a >>= f) (b >>= g) := by
  intro db h
  obtain ⟨hproj, hret⟩ := ha db h
  constructor
  · apply hproj.bind
    intro v db' hrun
    exact (hf v db' (hret.of_eq hrun)).1
  · apply hret.bind
    intro v db' h'
    exact (hf v db' h').2

theorem Hides.read {α : Type} {f : LayeredGraphDatabase S C → α}
    {g : LayeredGraphDatabase S NoCache → α} (h : ∀ db : LayeredGraphDatabase S C,
      g db.uncached = f db) : Hides L (Action.read f) (Action.read g) :=
  fun db hdb => ⟨.read (h db), .read hdb⟩

theorem Hides.filterMap {ι : Type*} {β : Type} {f : ι → DatabaseAction S C (Option β)}
    {g : ι → DatabaseAction S NoCache (Option β)} (hf : ∀ x, Hides L (f x) (g x)) (l : List ι) :
    Hides L (Action.filterMap f l) (Action.filterMap g l) := by
  induction l with
  | nil => exact .pure []
  | cons x l ih =>
    apply (hf x).bind
    intro y?
    apply ih.bind
    intro ys
    exact .pure _

theorem hides_getNode (ord : HashOrder) (id : NodeId) :
    Hides (C := C) L (getNode ord id) (getNode ord id) := fun _ h =>
  ⟨projects_getNode ord h.valid (h.nodeValue_eq id), getNode_coherent ord id h⟩

theorem hides_getEdge (ord : HashOrder) (id : EdgeId) :
    Hides (C := C) L (getEdge ord id) (getEdge ord id) := fun _ h =>
  ⟨projects_getEdge ord h.valid (h.edgeValue_eq id), getEdge_coherent ord id h⟩

theorem hides_allNodes (ord : HashOrder) : Hides (C := C) L (allNodes ord) (allNodes ord) := by
  apply Hides.bind (.read fun _ => rfl)
  intro ids
  exact .filterMap (fun _ => hides_getNode _ _) ids

/-- No query shows the cache of a database at rest. -/
theorem hides_lookUp (ord : HashOrder) (q : Lookup) :
    Hides (C := C) L (lookUp ord q) (lookUp ord q) := by
  cases q with
  | getNode id => exact (hides_getNode ord id).bind fun _ => .pure _
  | getEdge id => exact (hides_getEdge ord id).bind fun _ => .pure _
  | allNodes => exact (hides_allNodes ord).bind fun _ => .pure _
  | allEdges =>
    have hids : Hides (C := C) L (allEdges ord) (allEdges ord) := by
      apply Hides.bind (.read fun _ => rfl)
      intro ids
      exact .filterMap (fun _ => hides_getEdge _ _) ids
    exact hids.bind fun _ => .pure _
  | nodesByLabel label =>
    have hids : Hides (C := C) L (nodesByLabel ord label) (nodesByLabel ord label) := by
      apply Hides.bind (.read fun _ => rfl)
      intro ids
      exact .filterMap (fun _ => hides_getNode _ _) ids
    exact hids.bind fun _ => .pure _
  | nodesByProperty field op value =>
    have hids : Hides (C := C) L (nodesByProperty ord field op value)
        (nodesByProperty ord field op value) := by
      apply Hides.bind (.read fun _ => rfl)
      intro ids?
      cases ids? with
      | some ids => exact .filterMap (fun _ => hides_getNode _ _) ids
      | none => exact (hides_allNodes ord).bind fun _ => .pure _
    exact hids.bind fun _ => .pure _
  | nodeCount => exact .read fun _ => rfl
  | edgeCount => exact .read fun _ => rfl
  | labelCount label => exact .read fun _ => rfl
  | neighborsOutgoing id => exact .read fun _ => rfl
  | neighborsIncoming id => exact .read fun _ => rfl

end LayeredGraphDatabase

/-- A call of a session, a query or a compaction. -/
inductive ClientCall where
  | session (call : SessionCall)
  | lookUp (q : Lookup)
  | compact

inductive ClientReply where
  | session (reply : SessionReply)
  | found (reply : Except GraphError Reply)

/-- The number that a query answers. -/
def ClientReply.count? : ClientReply → Option Nat
  | .found (.ok (.count n)) => some n
  | _ => none

namespace Session

section

variable {S C : Type} [StoragePort S] [CachePort C]

def serve (call : HashOrder × ClientCall) (s : Session S C) : ClientReply × Session S C :=
  match call.2 with
  | .session c => (.session (perform call.1 c s).1, (perform call.1 c s).2)
  | .lookUp q => (.found (LayeredGraphDatabase.lookUp call.1 q s.db).1,
      { s with db := (LayeredGraphDatabase.lookUp call.1 q s.db).2 })
  | .compact =>
    (.session (onDb (LayeredGraphDatabase.compact call.1) (fun _ => .done) s).1,
      (onDb (LayeredGraphDatabase.compact call.1) (fun _ => .done) s).2)

def serveAll (calls : List (HashOrder × ClientCall)) (s : Session S C) :
    List ClientReply × Session S C := Machine.run serve calls s

end

def uncached {S C : Type} (s : Session S C) : Session S NoCache :=
  ⟨s.db.uncached, s.txnCounter, s.transactions⟩

/-- What keeps the cache unseen at a call. What is inserted must be storable, and a
transaction must keep the cache unseen while it is committed. -/
def Unseen {S : Type} [FileStorage S] (L : StorageSpec S) (call : HashOrder × ClientCall)
    (s : Session S NoCache) : Prop :=
  match call.2 with
  | .session (.insertNode label properties) =>
    L.NodeStorable ⟨⟨s.db.idGenerator.nextNode⟩, label, properties⟩
  | .session (.insertEdge source target label weight properties) =>
    s.db.hasEnds source target = true →
      L.EdgeStorable ⟨⟨s.db.idGenerator.nextEdge⟩, source, target, label, weight, properties⟩
  | .session (.commitTransaction t) => ∀ txn, s.transactions[t]? = some (txn, true) →
    s.db.UnseenCommit L call.1 txn
  | _ => True

variable {S C : Type} [FileStorage S] [LawfulCachePort C] {L : StorageSpec S} {s : Session S C}

/-- A call answers as without the cache, and the database is at rest afterwards. -/
def Hidden (L : StorageSpec S) {α : Type} (r : α × Session S C) (r' : α × Session S NoCache) :
    Prop := r' = (r.1, r.2.uncached) ∧ r.2.db.AtRest L

theorem hidden_onDb {α : Type} {a : DatabaseAction S C α} {b : DatabaseAction S NoCache α}
    (reply : α → SessionReply) (hproj : Projects LayeredGraphDatabase.uncached a b s.db)
    (hrest : (a s.db).2.AtRest L) : Hidden L (onDb a reply s) (onDb b reply s.uncached) := by
  unfold Hidden onDb
  rw [show b s.uncached.db = _ from hproj]
  cases hrun : a s.db with
  | mk r db =>
    rw [hrun] at hrest
    cases r <;> exact ⟨rfl, hrest⟩

theorem hidden_onOpen (t : Nat) (f : Transaction → SessionReply × Transaction)
    (h : s.db.AtRest L) : Hidden L (onOpen t f s) (onOpen t f s.uncached) := by
  unfold Hidden onOpen
  rw [show s.uncached.transactions = s.transactions from rfl]
  cases s.transactions[t]? with
  | none => exact ⟨rfl, h⟩
  | some p =>
    obtain ⟨txn, isOpen⟩ := p
    cases isOpen <;> exact ⟨rfl, h⟩

theorem hidden_onEnd (t : Nat) {f : Transaction → Session S C → SessionReply × Session S C}
    {g : Transaction → Session S NoCache → SessionReply × Session S NoCache}
    (h : s.db.AtRest L)
    (hf : ∀ txn, s.transactions[t]? = some (txn, true) →
      Hidden L (f txn { s with transactions := s.transactions.set t (txn, false) })
        (g txn (uncached { s with transactions := s.transactions.set t (txn, false) }))) :
    Hidden L (onEnd t f s) (onEnd t g s.uncached) := by
  unfold onEnd
  rw [show s.uncached.transactions = s.transactions from rfl]
  cases ht : s.transactions[t]? with
  | none => exact ⟨rfl, h⟩
  | some p =>
    obtain ⟨txn, isOpen⟩ := p
    cases isOpen with
    | true => exact hf txn ht
    | false => exact ⟨rfl, h⟩

/-- One call. -/
theorem serve_hidden (call : HashOrder × ClientCall) (h : s.db.AtRest L)
    (hcall : Unseen L call s.uncached) : Hidden L (serve call s) (serve call s.uncached) := by
  obtain ⟨ord, call⟩ := call
  -- the answer of the database is wrapped
  have wrapped {α β : Type} {f : α → β} {r : α × Session S C} {r' : α × Session S NoCache}
      (hr : Hidden L r r') : Hidden L (f r.1, r.2) (f r'.1, r'.2) := by
    obtain ⟨rfl, hrest⟩ := hr
    exact ⟨rfl, hrest⟩
  cases call with
  | lookUp q =>
    obtain ⟨hproj, _, db', hrun, hrest⟩ := LayeredGraphDatabase.hides_lookUp ord q s.db h
    have hrest' : (LayeredGraphDatabase.lookUp ord q s.db).2.AtRest L := by
      rw [hrun]
      exact hrest
    let answer (p : Except GraphError Reply × LayeredGraphDatabase S NoCache) :
        ClientReply × Session S NoCache := (.found p.1, ⟨p.2, s.txnCounter, s.transactions⟩)
    exact ⟨congrArg answer hproj, hrest'⟩
  | compact =>
    apply wrapped
    obtain ⟨_, db', hrun, hrest⟩ := LayeredGraphDatabase.compact_coherent ord h
    apply hidden_onDb _ (LayeredGraphDatabase.projects_compact ord)
    rw [hrun]
    exact hrest
  | session call =>
    apply wrapped
    cases call with
    | insertNode label properties =>
      obtain ⟨_, db', hrun, hrest⟩ := LayeredGraphDatabase.insertNode_coherent ord h hcall
      apply hidden_onDb _ (LayeredGraphDatabase.projects_insertNode ord label properties)
      rw [hrun]
      exact hrest
    | insertEdge source target label weight properties =>
      apply hidden_onDb _
        (LayeredGraphDatabase.projects_insertEdge ord source target label weight properties)
      exact LayeredGraphDatabase.insertEdge_coherent ord h hcall
    | deleteNode id =>
      obtain ⟨_, db', hrun, hrest⟩ := LayeredGraphDatabase.deleteNode_coherent ord id h
      apply hidden_onDb _
        (LayeredGraphDatabase.projects_deleteNode ord h.valid (h.nodeValue_eq id))
      rw [hrun]
      exact hrest
    | deleteEdge id =>
      obtain ⟨_, db', hrun, hrest⟩ := LayeredGraphDatabase.deleteEdge_coherent ord id h
      apply hidden_onDb _ (LayeredGraphDatabase.projects_deleteEdge ord id)
      rw [hrun]
      exact hrest
    | beginTransaction => exact ⟨rfl, h⟩
    | stageInsertNode t label properties => exact hidden_onOpen t _ h
    | stageInsertEdge t source target label weight properties => exact hidden_onOpen t _ h
    | stageDeleteNode t id => exact hidden_onOpen t _ h
    | stageDeleteEdge t id => exact hidden_onOpen t _ h
    | commitTransaction t =>
      apply hidden_onEnd t h
      intro txn ht
      obtain ⟨hproj, hrest⟩ := LayeredGraphDatabase.commitTransaction_unseen h (hcall txn ht)
      exact hidden_onDb _ hproj hrest
    | rollbackTransaction t =>
      change Hidden L (onEnd t (fun txn s => (_, { s with db := s.db.rollbackTransaction txn })) s)
        (onEnd t (fun txn s => (_, { s with db := s.db.rollbackTransaction txn })) s.uncached)
      apply hidden_onEnd t h
      intro txn ht
      exact ⟨rfl, h⟩

/-- A run of calls. -/
theorem serveAll_hidden {calls : List (HashOrder × ClientCall)} (h : s.db.AtRest L)
    (hcalls : Machine.Along (Unseen L) serve calls s.uncached) :
    serveAll calls s.uncached = ((serveAll calls s).1, (serveAll calls s).2.uncached) ∧
      (serveAll calls s).2.db.AtRest L := by
  have hstep (call : HashOrder × ClientCall) (s : Session S C) (h : s.db.AtRest L)
      (hcall : Unseen L call s.uncached) :
      serve call s.uncached = ((serve call s).1, (serve call s).2.uncached) ∧
        (serve call s).2.db.AtRest L := serve_hidden call h hcall
  exact Machine.run_project hstep h hcalls

end Session

namespace LayeredGraphDatabase

section

variable {S C : Type} [FileStorage S] (L : StorageSpec S)

/-- Opening does not look into the cache. -/
theorem openWithConfig_uncached (ord : HashOrder) {storage : S} (cache : C)
    (engine : AdjacencyListEngine) (config : DatabaseConfig) (hv : L.Valid storage) :
    ∃ db : LayeredGraphDatabase S C, openWithConfig ord storage cache engine config = .ok db ∧
      openWithConfig ord storage NoCache.mk engine config = .ok db.uncached ∧
      db.storage = storage ∧ db.cache = cache := by
  have hnodes (ord : HashOrder) (nodes : List Node) (db : LayeredGraphDatabase S C) :
      nodes.foldl (replayNode ord) db.uncached = (nodes.foldl (replayNode ord) db).uncached ∧
        (nodes.foldl (replayNode ord) db).storage = db.storage ∧
        (nodes.foldl (replayNode ord) db).cache = db.cache := by
    induction nodes generalizing db with
    | nil => exact ⟨rfl, rfl, rfl⟩
    | cons n nodes ih => exact ih (replayNode ord db n)
  have hedges (edges : List Edge) (db : LayeredGraphDatabase S C) :
      edges.foldl replayEdge db.uncached = (edges.foldl replayEdge db).uncached ∧
        (edges.foldl replayEdge db).storage = db.storage ∧
        (edges.foldl replayEdge db).cache = db.cache := by
    induction edges generalizing db with
    | nil => exact ⟨rfl, rfl, rfl⟩
    | cons e edges ih => exact ih (replayEdge db e)
  refine ⟨_, openWithConfig_eq L ord cache engine config hv, ?_, ?_, ?_⟩
  · rw [openWithConfig_eq L ord NoCache.mk engine config hv, ← (hedges _ _).1, ← (hnodes _ _ _).1]
    rfl
  · rw [(hedges _ _).2.1, (hnodes _ _ _).2.1]
  · rw [(hedges _ _).2.2, (hnodes _ _ _).2.2]

end

/-- Over a binary file without an open bracket, whatever its cache's capacities are: as long
as the calls keep the cache unseen, they are answered as without it. -/
theorem serveAll_lruCache (storage : BinaryFileStorage) (hv : storage.Valid)
    (hclosed : storage.view.txnBuffer = none) (ord : HashOrder) (config : DatabaseConfig)
    {nodeCapacity edgeCapacity : Nat} (hn : 0 < nodeCapacity) (he : 0 < edgeCapacity)
    (txnCounter : UInt64) (calls : List (HashOrder × ClientCall)) :
    ∃ db db', openWithConfig ord storage NoCache.mk .new config = .ok db ∧
      openWithConfig ord storage (LruCache.new nodeCapacity edgeCapacity hn he) .new config =
        .ok db' ∧
      (Machine.Along (Session.Unseen BinaryFileStorage.spec) Session.serve calls
          ⟨db, txnCounter, []⟩ →
        (Session.serveAll calls ⟨db', txnCounter, []⟩).1 =
          (Session.serveAll calls ⟨db, txnCounter, []⟩).1) := by
  obtain ⟨db', hopen', hopen, hstorage, hcache⟩ := openWithConfig_uncached BinaryFileStorage.spec
    ord (LruCache.new nodeCapacity edgeCapacity hn he) .new config hv
  refine ⟨db'.uncached, db', hopen, hopen', fun hcalls => ?_⟩
  have hrest : db'.AtRest BinaryFileStorage.spec := by
    unfold AtRest
    rw [hstorage, hcache]
    exact .of_empty hv hclosed (LruCache.empty_new _ _ hn he)
  have hrun := (Session.serveAll_hidden (s := ⟨db', txnCounter, []⟩) hrest hcalls).1
  exact (congrArg Prod.fst hrun).symm

/-! ## A node that one transaction inserts and deletes -/

/-- A database over a new binary file. -/
def emptyDatabase {C : Type} (cache : C) : LayeredGraphDatabase BinaryFileStorage C :=
  ⟨.new, cache, FileStorage.openPath none, .new, .new, .new, .default, 0⟩

/-- A node is inserted, looked up and deleted by a transaction. -/
def deletedCalls : List (HashOrder × ClientCall) :=
  [(.sorted, .session (.insertNode "A" ∅)),
    (.sorted, .lookUp (.getNode ⟨0⟩)),
    (.sorted, .session .beginTransaction),
    (.sorted, .session (.stageDeleteNode 0 ⟨0⟩)),
    (.sorted, .session (.commitTransaction 0)),
    (.sorted, .lookUp (.nodesByLabel "A"))]

theorem deletedCalls_lruCache :
    (Session.serveAll deletedCalls ⟨emptyDatabase (LruCache.new 1 1 Nat.one_pos Nat.one_pos), 1,
        []⟩).1 =
      (Session.serveAll deletedCalls ⟨emptyDatabase NoCache.mk, 1, []⟩).1 := by
  obtain ⟨db, db', hopen, hopen', hrun⟩ := serveAll_lruCache (FileStorage.openPath none)
    BinaryFileStorage.spec.valid_openPath rfl .sorted .default Nat.one_pos Nat.one_pos 1
    deletedCalls
  obtain rfl : emptyDatabase NoCache.mk = db := Except.ok.inj hopen
  obtain rfl : emptyDatabase (LruCache.new 1 1 Nat.one_pos Nat.one_pos) = db' :=
    Except.ok.inj hopen'
  apply hrun
  refine ⟨?_, trivial, trivial, trivial, ?_, trivial, trivial⟩
  · exact (by decide : NodeFits ⟨⟨0⟩, "A", ∅⟩)
  · intro txn htxn
    obtain rfl := (Prod.mk.inj (Option.some.inj htxn)).1
    have hdelete (db : LayeredGraphDatabase BinaryFileStorage NoCache)
        (h : (BinaryFileStorage.spec.view db.storage).committed =
          (BinaryFileStorage.spec.view db.storage).contents) :
        Unseen BinaryFileStorage.spec db (.deleteNode ⟨0⟩) := by
      intro node hnode
      rw [h] at hnode
      exact hnode
    exact ⟨hdelete _ (by decide +kernel), fun _ _ _ => trivial⟩

/-- The transaction inserts the node itself. -/
def insertedCalls : List (HashOrder × ClientCall) :=
  [(.sorted, .session .beginTransaction),
    (.sorted, .session (.stageInsertNode 0 "A" ∅)),
    (.sorted, .session (.stageDeleteNode 0 ⟨0⟩)),
    (.sorted, .session (.commitTransaction 0)),
    (.sorted, .lookUp (.labelCount "A"))]

/-- Without a cache the label of the node that is gone is counted. -/
theorem insertedCalls_lruCache :
    openWithConfig .sorted (FileStorage.openPath none) NoCache.mk .new .default =
        .ok (emptyDatabase NoCache.mk) ∧
      openWithConfig .sorted (FileStorage.openPath none)
          (LruCache.new 1 1 Nat.one_pos Nat.one_pos) .new .default =
        .ok (emptyDatabase (LruCache.new 1 1 Nat.one_pos Nat.one_pos)) ∧
      (Session.serveAll insertedCalls ⟨emptyDatabase (LruCache.new 1 1 Nat.one_pos Nat.one_pos), 1,
          []⟩).1 ≠
        (Session.serveAll insertedCalls ⟨emptyDatabase NoCache.mk, 1, []⟩).1 := by
  refine ⟨rfl, rfl, fun h => ?_⟩
  have hcount := congrArg (List.map ClientReply.count?) h
  exact absurd hcount (by decide +kernel)

end LayeredGraphDatabase

end AdGraphDb
