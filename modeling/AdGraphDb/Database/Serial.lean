import AdGraphDb.Database.Refinement
import AdGraphDb.Database.Atomic

/-!
# Transactions as single steps

Several transactions are staged side by side, next to direct calls. As long as no id is given
out twice and no commit fails, the database answers as a plain graph would on which every
transaction takes effect at once, when it is committed.
-/

namespace AdGraphDb
open Std AdGraphDb.Action

/-- A call on the `t`-th transaction. -/
inductive TransactionCall where
  | begin
  | insertNode (t : Nat) (label : String) (properties : Properties)
  | insertEdge (t : Nat) (source target : NodeId) (label : String) (weight : F64)
    (properties : Properties)
  | deleteNode (t : Nat) (id : NodeId)
  | deleteEdge (t : Nat) (id : EdgeId)
  | commit (t : Nat)
  | rollback (t : Nat)

namespace TransactionCall

def sessionCall : TransactionCall → SessionCall
  | begin => .beginTransaction
  | insertNode t label properties => .stageInsertNode t label properties
  | insertEdge t source target label weight properties =>
    .stageInsertEdge t source target label weight properties
  | deleteNode t id => .stageDeleteNode t id
  | deleteEdge t id => .stageDeleteEdge t id
  | commit t => .commitTransaction t
  | rollback t => .rollbackTransaction t

/-- The transaction that is called. -/
def target? : TransactionCall → Option Nat
  | begin => none
  | insertNode t _ _ | insertEdge t _ _ _ _ _ | deleteNode t _ | deleteEdge t _ | commit t
  | rollback t => some t

/-- What the call stages satisfies the predicates, whatever its id. -/
def Inserts (N : Node → Prop) (E : Edge → Prop) : TransactionCall → Prop
  | insertNode _ label properties => ∀ id, N ⟨id, label, properties⟩
  | insertEdge _ source target label weight properties =>
    ∀ id, E ⟨id, source, target, label, weight, properties⟩
  | _ => True

end TransactionCall

/-- A call on the database or on a transaction that was begun on it. -/
inductive Work where
  | call (call : Call)
  | transact (call : TransactionCall)

inductive WorkReply where
  | reply (reply : Except GraphError Reply)
  | session (reply : SessionReply)

def Work.Inserts (N : Node → Prop) (E : Edge → Prop) : Work → Prop
  | call c => c.Inserts N E
  | transact c => c.Inserts N E

namespace Session

variable {S : Type} [FileStorage S]

def work (ord : HashOrder) : Work → Session S (NoCache ⊕ LruCache) →
    WorkReply × Session S (NoCache ⊕ LruCache)
  | .call call, s =>
    (.reply (LayeredGraphDatabase.perform ord call s.db).1,
      { s with db := (LayeredGraphDatabase.perform ord call s.db).2 })
  | .transact call, s =>
    (.session (step (ord, call.sessionCall) s).1, (step (ord, call.sessionCall) s).2)

def works (inputs : List (HashOrder × Work)) (s : Session S (NoCache ⊕ LruCache)) :
    List WorkReply × Session S (NoCache ⊕ LruCache) :=
  Machine.run (fun w => work w.1 w.2) inputs s

end Session

/-! ## The plain graph with its transactions -/

/-- The id of a kind that a reply hands out. -/
def Reply.id : IdKind → Except GraphError Reply → Option ℕ
  | .node, .ok (.nodeId id) => some id.val.toNat
  | .edge, .ok (.edgeId id) => some id.val.toNat
  | _, _ => none

namespace PlainGraph

/-- A node or an edge of the graph has the id. -/
def Uses (g : PlainGraph) : IdKind → ℕ → Prop
  | .node, x => ∃ id : NodeId, g.nodes[id]?.isSome ∧ id.val.toNat = x
  | .edge, x => ∃ id : EdgeId, g.edges[id]?.isSome ∧ id.val.toNat = x

variable {g g' : PlainGraph} {kind : IdKind} {x : ℕ}

theorem uses_insertNode {n : Node} (h : (g.insertNode n).Uses kind x) :
    g.Uses kind x ∨ (StagedOp.insertNode n).insertedId kind = some x := by
  cases kind with
  | edge => exact .inl h
  | node =>
    obtain ⟨id, hid, rfl⟩ := h
    rw [insertNode, HashMap.getElem?_insert'] at hid
    split_ifs at hid with heq
    · subst heq
      exact .inr rfl
    · exact .inl ⟨id, hid, rfl⟩

theorem uses_insertEdge {e : Edge} (h : (g.insertEdge e).Uses kind x) :
    g.Uses kind x ∨ (StagedOp.insertEdge e).insertedId kind = some x := by
  cases kind with
  | node => exact .inl h
  | edge =>
    obtain ⟨id, hid, rfl⟩ := h
    rw [insertEdge, HashMap.getElem?_insert'] at hid
    split_ifs at hid with heq
    · subst heq
      exact .inr rfl
    · exact .inl ⟨id, hid, rfl⟩

theorem uses_deleteNode {id : NodeId} (h : (g.deleteNode id).Uses kind x) : g.Uses kind x := by
  cases kind with
  | node =>
    obtain ⟨j, hj, rfl⟩ := h
    exact ⟨j, deleteNode_nodes_sub hj, rfl⟩
  | edge =>
    obtain ⟨k, hk, rfl⟩ := h
    exact ⟨k, deleteNode_edges_sub hk, rfl⟩

theorem uses_deleteEdge {id : EdgeId} (h : (g.deleteEdge id).Uses kind x) : g.Uses kind x := by
  cases kind with
  | node => exact h
  | edge =>
    obtain ⟨k, hk, rfl⟩ := h
    rw [deleteEdge, HashMap.getElem?_erase'] at hk
    split_ifs at hk
    · cases hk
    · exact ⟨k, hk, rfl⟩

/-- A call brings into the graph only the id that it hands out. -/
theorem Answers.uses {c : Call} {r : Except GraphError Reply} (h : g.Answers c r g')
    (hx : g'.Uses kind x) : g.Uses kind x ∨ Reply.id kind r = some x := by
  cases h with
  | insertNode fresh =>
    refine (uses_insertNode hx).imp_right fun hid => ?_
    cases kind <;> exact hid
  | insertEdge hs ht fresh =>
    refine (uses_insertEdge hx).imp_right fun hid => ?_
    cases kind <;> exact hid
  | deleteNode id => exact .inl (uses_deleteNode hx)
  | deleteEdge id => exact .inl (uses_deleteEdge hx)
  | _ => exact .inl hx

theorem stage_uses {op : StagedOp} (h : g.stage op = .ok g') (hx : g'.Uses kind x) :
    g.Uses kind x ∨ op.insertedId kind = some x := by
  cases op with
  | insertNode n =>
    cases h
    exact uses_insertNode hx
  | insertEdge e =>
    rcases g.stage_insertEdge_cases e with ⟨-, he⟩ | ⟨-, -, he⟩ | ⟨-, -, he⟩ <;>
      cases he.symm.trans h
    exact uses_insertEdge hx
  | deleteNode id =>
    cases h
    exact .inl (uses_deleteNode hx)
  | deleteEdge id =>
    cases h
    exact .inl (uses_deleteEdge hx)

/-- A commit brings into the graph only the ids of its insertions. -/
theorem commit_uses {ops : List StagedOp} (h : g.commit ops = .ok g') (hx : g'.Uses kind x) :
    g.Uses kind x ∨ x ∈ ops.filterMap (StagedOp.insertedId kind) := by
  induction ops generalizing g with
  | nil =>
    cases h
    exact .inl hx
  | cons op ops ih =>
    rw [commit] at h
    cases hop : g.stage op with
    | error e =>
      rw [hop] at h
      cases h
    | ok g₁ =>
      rw [hop] at h
      rw [List.mem_filterMap]
      rcases ih h with hx | hx
      · exact (stage_uses hop hx).imp_right fun hid => ⟨op, List.mem_cons_self, hid⟩
      · obtain ⟨op', hmem, hid⟩ := List.mem_filterMap.mp hx
        exact .inr ⟨op', List.mem_cons_of_mem op hmem, hid⟩

end PlainGraph

theorem IdGenerator.Above.uses {ids : IdGenerator} {g : PlainGraph} (h : ids.Above g)
    {kind : IdKind} {x : ℕ} (hx : g.Uses kind x) : x < ids.counter kind := by
  cases kind with
  | node =>
    obtain ⟨id, hid, rfl⟩ := hx
    exact UInt64.lt_iff_toNat_lt.mp (h.node id hid)
  | edge =>
    obtain ⟨id, hid, rfl⟩ := hx
    exact UInt64.lt_iff_toNat_lt.mp (h.edge id hid)

/-- A plain graph, and for each transaction what it has staged and whether it is open. -/
structure PlainSession where
  graph : PlainGraph
  transactions : List (List StagedOp × Bool)

namespace PlainSession

def empty : PlainSession := ⟨.empty, []⟩

/-- The ids that an open transaction is to insert. -/
def stagedBy (kind : IdKind) (t : List StagedOp × Bool) : List ℕ :=
  if t.2 then t.1.filterMap (StagedOp.insertedId kind) else []

def staged (kind : IdKind) (p : PlainSession) : List ℕ := p.transactions.flatMap (stagedBy kind)

/-- Neither the graph nor an open transaction has the id. -/
def Fresh (p : PlainSession) (kind : IdKind) (x : ℕ) : Prop :=
  ¬p.graph.Uses kind x ∧ x ∉ p.staged kind

def put (t : Nat) (ops : List StagedOp) (isOpen : Bool) (p : PlainSession) : PlainSession :=
  { p with transactions := p.transactions.set t (ops, isOpen) }

/-- What may be answered, and what the graph and the transactions are then. Only a commit of a
transaction is seen in the graph. -/
inductive Answers (p : PlainSession) : Work → WorkReply → PlainSession → Prop
  | call {c : Call} {r : Except GraphError Reply} {g : PlainGraph} (h : p.graph.Answers c r g)
    (new : ∀ kind x, Reply.id kind r = some x → x ∉ p.staged kind) :
    Answers p (.call c) (.reply r) { p with graph := g }
  | begin : Answers p (.transact .begin) (.session .done)
      { p with transactions := p.transactions ++ [([], true)] }
  | insertNode {t : Nat} {ops : List StagedOp} {id : NodeId} {label : String}
    {properties : Properties} (ht : p.transactions[t]? = some (ops, true))
    (new : p.Fresh .node id.val.toNat) :
    Answers p (.transact (.insertNode t label properties)) (.session (.nodeId id))
      (p.put t (ops ++ [.insertNode ⟨id, label, properties⟩]) true)
  | insertEdge {t : Nat} {ops : List StagedOp} {id : EdgeId} {source target : NodeId}
    {label : String} {weight : F64} {properties : Properties}
    (ht : p.transactions[t]? = some (ops, true)) (new : p.Fresh .edge id.val.toNat) :
    Answers p (.transact (.insertEdge t source target label weight properties))
      (.session (.edgeId id))
      (p.put t (ops ++ [.insertEdge ⟨id, source, target, label, weight, properties⟩]) true)
  | deleteNode {t : Nat} {ops : List StagedOp} (ht : p.transactions[t]? = some (ops, true))
    (id : NodeId) : Answers p (.transact (.deleteNode t id)) (.session .done)
      (p.put t (ops ++ [.deleteNode id]) true)
  | deleteEdge {t : Nat} {ops : List StagedOp} (ht : p.transactions[t]? = some (ops, true))
    (id : EdgeId) : Answers p (.transact (.deleteEdge t id)) (.session .done)
      (p.put t (ops ++ [.deleteEdge id]) true)
  | commit {t : Nat} {ops : List StagedOp} {g : PlainGraph}
    (ht : p.transactions[t]? = some (ops, true)) (h : p.graph.commit ops = .ok g) :
    Answers p (.transact (.commit t)) (.session (.committed (ops.foldl .add .default)))
      { p.put t ops false with graph := g }
  | rollback {t : Nat} {ops : List StagedOp} (ht : p.transactions[t]? = some (ops, true)) :
    Answers p (.transact (.rollback t)) (.session .done) (p.put t ops false)
  | ended {c : TransactionCall} {t : Nat} (hc : c.target? = some t)
    (h : ∀ ops, p.transactions[t]? ≠ some (ops, true)) :
    Answers p (.transact c) (.session .done) p

/-! An id that waits to be inserted waits in one place only, and not in the graph. -/

def Apart (p : PlainSession) : Prop :=
  ∀ kind, (p.staged kind).Nodup ∧ ∀ x ∈ p.staged kind, ¬p.graph.Uses kind x

variable {p p' : PlainSession} {t : Nat} {ops : List StagedOp} {kind : IdKind}

/-- Where the ids of an open transaction stand. -/
theorem staged_put (ht : p.transactions[t]? = some (ops, true)) (kind : IdKind) :
    ∃ before after, p.staged kind =
        before ++ (ops.filterMap (StagedOp.insertedId kind) ++ after) ∧
      ∀ ops' isOpen, (p.put t ops' isOpen).staged kind =
        before ++ (stagedBy kind (ops', isOpen) ++ after) := by
  obtain ⟨hlt, hget⟩ := List.getElem?_eq_some_iff.mp ht
  refine ⟨(p.transactions.take t).flatMap (stagedBy kind),
    (p.transactions.drop (t + 1)).flatMap (stagedBy kind), ?_, fun ops' isOpen => ?_⟩
  · have hsplit : p.transactions =
        p.transactions.take t ++ (ops, true) :: p.transactions.drop (t + 1) := by
      rw [← hget, ← List.drop_eq_getElem_cons hlt, List.take_append_drop]
    rw [staged]
    conv_lhs => rw [hsplit]
    rw [List.flatMap_append, List.flatMap_cons]
    rfl
  · rw [staged, put]
    dsimp only
    rw [List.set_eq_take_append_cons_drop, if_pos hlt, List.flatMap_append, List.flatMap_cons]

theorem Apart.stage (h : p.Apart) (ht : p.transactions[t]? = some (ops, true)) {op : StagedOp}
    (hop : ∀ kind x, op.insertedId kind = some x → p.Fresh kind x) :
    (p.put t (ops ++ [op]) true).Apart := by
  intro kind
  obtain ⟨before, after, hold, hnew⟩ := staged_put ht kind
  have hperm : ((p.put t (ops ++ [op]) true).staged kind).Perm
      ((op.insertedId kind).toList ++ p.staged kind) := by
    rw [hnew, hold, stagedBy, if_pos rfl, List.filterMap_append]
    have hsingle : [op].filterMap (StagedOp.insertedId kind) = (op.insertedId kind).toList := by
      rw [List.filterMap_cons]
      cases op.insertedId kind <;> rfl
    have hmove := List.perm_append_comm_assoc
      (before ++ ops.filterMap (StagedOp.insertedId kind)) (op.insertedId kind).toList after
    rw [hsingle]
    simpa only [List.append_assoc] using hmove
  obtain ⟨hnodup, hunused⟩ := h kind
  cases hid : op.insertedId kind with
  | none =>
    rw [hid] at hperm
    exact ⟨hperm.nodup_iff.mpr hnodup, fun x hx => hunused x (hperm.mem_iff.mp hx)⟩
  | some x =>
    rw [hid] at hperm
    obtain ⟨hx, hstaged⟩ := hop kind x hid
    refine ⟨hperm.nodup_iff.mpr (List.nodup_cons.mpr ⟨hstaged, hnodup⟩), fun y hy => ?_⟩
    rcases List.mem_cons.mp (hperm.mem_iff.mp hy) with rfl | hy
    · exact hx
    · exact hunused y hy

/-- A transaction that ends leaves the others apart from each other and from its own ids. -/
theorem Apart.staged_close (h : p.Apart) (ht : p.transactions[t]? = some (ops, true))
    (kind : IdKind) : ((p.put t ops false).staged kind).Sublist (p.staged kind) ∧
      ∀ x ∈ (p.put t ops false).staged kind, x ∉ ops.filterMap (StagedOp.insertedId kind) := by
  obtain ⟨before, after, hold, hnew⟩ := staged_put ht kind
  have hclosed : (p.put t ops false).staged kind = before ++ after := hnew ops false
  have hnodup := (h kind).1
  rw [hold] at hnodup ⊢
  rw [hclosed]
  refine ⟨(List.sublist_append_right _ _).append_left before, fun x hx hmem => ?_⟩
  obtain ⟨-, hrest, hapart⟩ := List.nodup_append.mp hnodup
  rcases List.mem_append.mp hx with hx | hx
  · exact hapart x hx x (List.mem_append_left _ hmem) rfl
  · exact (List.nodup_append.mp hrest).2.2 x hmem x hx rfl

theorem Apart.close (h : p.Apart) (ht : p.transactions[t]? = some (ops, true)) :
    (p.put t ops false).Apart := by
  intro kind
  obtain ⟨hsub, -⟩ := h.staged_close ht kind
  exact ⟨(h kind).1.sublist hsub, fun x hx => (h kind).2 x (hsub.subset hx)⟩

theorem Apart.commit (h : p.Apart) (ht : p.transactions[t]? = some (ops, true)) {g : PlainGraph}
    (hg : p.graph.commit ops = .ok g) : Apart { p.put t ops false with graph := g } := by
  intro kind
  obtain ⟨hsub, hother⟩ := h.staged_close ht kind
  refine ⟨(h kind).1.sublist hsub, fun x hx huses => ?_⟩
  rcases PlainGraph.commit_uses hg huses with huses | hown
  · exact (h kind).2 x (hsub.subset hx) huses
  · exact hother x hx hown

theorem Answers.apart {w : Work} {r : WorkReply} (ha : p.Answers w r p') (h : p.Apart) :
    p'.Apart := by
  cases ha with
  | call hg new =>
    refine fun kind => ⟨(h kind).1, fun x hx huses => ?_⟩
    rcases hg.uses huses with huses | hid
    · exact (h kind).2 x hx huses
    · exact new kind x hid hx
  | begin =>
    intro kind
    have hstaged : staged kind { p with transactions := p.transactions ++ [([], true)] } =
        p.staged kind := by
      rw [staged, List.flatMap_append]
      exact List.append_nil _
    rw [hstaged]
    exact h kind
  | insertNode ht new =>
    refine h.stage ht fun kind x hx => ?_
    cases kind with
    | node =>
      cases hx
      exact new
    | edge => cases hx
  | insertEdge ht new =>
    refine h.stage ht fun kind x hx => ?_
    cases kind with
    | node => cases hx
    | edge =>
      cases hx
      exact new
  | deleteNode ht id => exact h.stage ht fun kind x hx => by cases kind <;> cases hx
  | deleteEdge ht id => exact h.stage ht fun kind x hx => by cases kind <;> cases hx
  | commit ht hg => exact h.commit ht hg
  | rollback ht => exact h.close ht
  | ended hc hclosed => exact h

end PlainSession

/-! ## One call on the database or on a transaction -/

def WorkReply.isFailure : WorkReply → Bool
  | session (.failed _) => true
  | _ => false

namespace Session

section

variable {S : Type}

/-- The counter that an id is allocated from. -/
def drawWork : IdKind → Work → Session S (NoCache ⊕ LruCache) → Option ℕ
  | kind, .transact c, s => draw kind c.sessionCall s
  | .node, .call (.insertNode label properties), s => draw .node (.insertNode label properties) s
  | .edge, .call (.insertEdge source target label weight properties), s =>
    draw .edge (.insertEdge source target label weight properties) s
  | _, .call _, _ => none

/-- The operations that are about to be committed. -/
def committing : Work → Session S (NoCache ⊕ LruCache) → List StagedOp
  | .transact (.commit t), s =>
    match s.transactions[t]? with
    | some (txn, true) => txn.operations
    | _ => []
  | _, _ => []

theorem committing_of_some {s : Session S (NoCache ⊕ LruCache)} {t : Nat} {txn : Transaction}
    (h : s.transactions[t]? = some (txn, true)) :
    committing (.transact (.commit t)) s = txn.operations := by
  rw [committing, h]

end

variable {S : Type} [FileStorage S]

/-- An id is allocated from a counter that no other one is ahead of, and a commit goes through,
none of its operations in the way of another. -/
structure Orderly (w : HashOrder × Work) (s : Session S (NoCache ⊕ LruCache)) : Prop where
  node : Counters.Leads (s.counters .node) (drawWork .node w.2 s)
  edge : Counters.Leads (s.counters .edge) (drawWork .edge w.2 s)
  apart : (committing w.2 s).Pairwise fun a b => a.Clashes b = false
  settles : LayeredGraphDatabase.Settles (committing w.2 s) s.db
  succeeds : (work w.1 w.2 s).1.isFailure = false

instance (w : HashOrder × Work) (s : Session S (NoCache ⊕ LruCache)) : Decidable (Orderly w s) :=
  decidable_of_iff (Counters.Leads (s.counters .node) (drawWork .node w.2 s) ∧
    Counters.Leads (s.counters .edge) (drawWork .edge w.2 s) ∧
    ((committing w.2 s).Pairwise fun a b => a.Clashes b = false) ∧
    LayeredGraphDatabase.Settles (committing w.2 s) s.db ∧
    (work w.1 w.2 s).1.isFailure = false)
    ⟨fun ⟨hn, he, ha, hs, hf⟩ => ⟨hn, he, ha, hs, hf⟩, fun ⟨hn, he, ha, hs, hf⟩ =>
      ⟨hn, he, ha, hs, hf⟩⟩

/-- The database with its transactions, seen from the plain graph; there is room for `n` more
ids. -/
structure Mirrors (L : StorageSpec S) (n : ℕ) (s : Session S (NoCache ⊕ LruCache))
    (p : PlainSession) : Prop where
  sync : LayeredGraphDatabase.Sync L s.db p.graph
  transactions : p.transactions = s.transactions.map fun t => (t.1.operations, t.2)
  apart : p.Apart
  wellStaged : s.WellStaged
  storable : ∀ t ∈ s.transactions, ∀ op ∈ t.1.operations,
    op.Storable L.NodeStorable L.EdgeStorable
  room : ∀ kind, ∀ c ∈ s.counters kind, c + n < 2 ^ 64

variable {L : StorageSpec S} {n : ℕ} {s s' : Session S (NoCache ⊕ LruCache)} {p : PlainSession}
  {kind : IdKind} {t : Nat} {txn : Transaction}

namespace Mirrors

theorem getElem?_transactions (h : Mirrors L n s p) (ht : s.transactions[t]? = some (txn, true)) :
    p.transactions[t]? = some (txn.operations, true) := by
  rw [h.transactions, List.getElem?_map, ht]
  rfl

/-- A staged id lies below the counter of its transaction. -/
theorem staged_lt (h : Mirrors L n s p) {x : ℕ} (hx : x ∈ p.staged kind) :
    ∃ c ∈ s.counters kind, x < c := by
  obtain ⟨q, hq, hx⟩ := List.mem_flatMap.mp hx
  rw [h.transactions] at hq
  obtain ⟨u, hu, rfl⟩ := List.mem_map.mp hq
  unfold PlainSession.stagedBy at hx
  split_ifs at hx
  · obtain ⟨op, hop, hid⟩ := List.mem_filterMap.mp hx
    exact ⟨u.1.idGen.counter kind, List.mem_cons_of_mem _ (List.mem_map.mpr ⟨u, hu, rfl⟩),
      h.wellStaged u hu op hop kind x hid⟩
  · cases hx

/-- What is drawn from a counter that leads is new. -/
theorem fresh_of_leads (h : Mirrors L n s p) {c : ℕ}
    (hl : Counters.Leads (s.counters kind) (some c)) : p.Fresh kind c := by
  constructor
  · intro huses
    have hlt := h.sync.ids.uses huses
    exact absurd (hl c rfl _ List.mem_cons_self) (Nat.not_le.mpr hlt)
  · intro hstaged
    obtain ⟨d, hd, hlt⟩ := h.staged_lt hstaged
    exact absurd (hl c rfl d hd) (Nat.not_le.mpr hlt)

end Mirrors

theorem Orderly.leads {w : HashOrder × Work} (h : Orderly w s) (kind : IdKind) :
    Counters.Leads (s.counters kind) (drawWork kind w.2 s) := by
  cases kind with
  | node => exact h.node
  | edge => exact h.edge

variable {ord : HashOrder}

/-- An id that a call hands out is the one it has drawn. -/
theorem drawWork_of_id {c : Call} {g g' : PlainGraph} {x : ℕ}
    (h : LayeredGraphDatabase.Sync L s.db g)
    (ha : g.Answers c (LayeredGraphDatabase.perform ord c s.db).1 g')
    (hx : Reply.id kind (LayeredGraphDatabase.perform ord c s.db).1 = some x) :
    drawWork kind (.call c) s = some x := by
  cases c with
  | insertNode label properties =>
    have hids := (LayeredGraphDatabase.insertNode_ids ord label properties s.db).2
    cases hrun : LayeredGraphDatabase.insertNode ord label properties s.db with
    | mk r db =>
      cases r with
      | error e =>
        rw [LayeredGraphDatabase.perform, bind_error hrun] at hx
        cases kind <;> cases hx
      | ok id =>
        rw [LayeredGraphDatabase.perform, bind_ok hrun] at hx
        obtain rfl := hids id (congrArg Prod.fst hrun)
        cases kind with
        | node => exact hx
        | edge => cases hx
  | insertEdge source target label weight properties =>
    cases hrun : LayeredGraphDatabase.insertEdge ord source target label weight properties s.db with
    | mk r db =>
      cases r with
      | error e =>
        rw [LayeredGraphDatabase.perform, bind_error hrun] at hx
        cases kind <;> cases hx
      | ok id =>
        rw [LayeredGraphDatabase.perform, bind_ok hrun] at hx ha
        -- the answer says that both ends are there
        cases ha with
        | insertEdge hs ht fresh =>
          have hends : s.db.hasEnds source target = true :=
            Bool.and_eq_true_iff.mpr ⟨(h.engine.containsNode source).mpr hs,
              (h.engine.containsNode target).mpr ht⟩
          have hids := (LayeredGraphDatabase.insertEdge_ids ord label weight properties hends).2
          obtain rfl := hids id (congrArg Prod.fst hrun)
          cases kind with
          | node => cases hx
          | edge =>
            rw [drawWork, draw, hends]
            exact hx
  | _ =>
    generalize (LayeredGraphDatabase.perform ord _ s.db).1 = r at ha hx
    cases kind <;> cases ha <;> cases hx

/-- A call on the database, whatever is staged meanwhile. -/
theorem call_mirrors {c : Call} (h : Mirrors L (n + 1) s p) (ho : Orderly (ord, .call c) s)
    (hc : c.Inserts L.NodeStorable L.EdgeStorable) :
    ∃ p', p.Answers (.call c) (work ord (.call c) s).1 p' ∧
      Mirrors L n (work ord (.call c) s).2 p' := by
  have hnew : ∀ r, Reply.newNodes r ≤ 1 ∧ Reply.newEdges r ≤ 1 := by
    intro r
    unfold Reply.newNodes Reply.newEdges
    constructor <;> split <;> decide
  have hdb : ∀ kind, s.db.idGenerator.counter kind + (n + 1) < 2 ^ 64 :=
    fun kind => h.room kind _ List.mem_cons_self
  obtain ⟨hn, he⟩ := hnew (LayeredGraphDatabase.perform ord c s.db).1
  have hnode : s.db.idGenerator.nextNode.toNat + (n + 1) < 2 ^ 64 := hdb .node
  have hedge : s.db.idGenerator.nextEdge.toNat + (n + 1) < 2 ^ 64 := hdb .edge
  obtain ⟨g, hs⟩ : ∃ g, LayeredGraphDatabase.Stepped L s.db p.graph c
      (LayeredGraphDatabase.perform ord c s.db) g :=
    LayeredGraphDatabase.perform_stepped h.sync hc (by omega) (by omega)
  have hanswers : p.Answers (.call c) (work ord (.call c) s).1 { p with graph := g } := by
    refine .call hs.answers fun kind x hx => ?_
    have hdraw := ho.leads kind
    rw [drawWork_of_id h.sync hs.answers hx] at hdraw
    exact (h.fresh_of_leads hdraw).2
  refine ⟨_, hanswers, hs.sync, h.transactions, hanswers.apart h.apart, h.wellStaged, h.storable,
    fun kind d hd => ?_⟩
  rcases List.mem_cons.mp hd with rfl | hd
  · have hnext := hs.nextNode
    have hnext' := hs.nextEdge
    cases kind with
    | node =>
      change (LayeredGraphDatabase.perform ord c s.db).2.idGenerator.nextNode.toNat + n < _
      omega
    | edge =>
      change (LayeredGraphDatabase.perform ord c s.db).2.idGenerator.nextEdge.toNat + n < _
      omega
  · have := h.room kind d (List.mem_cons_of_mem _ hd)
    omega

/-- What a call on a transaction does to the counters, and what is left to show. -/
theorem Mirrors.transact (h : Mirrors L (n + 1) s p) (ord : HashOrder) {c : TransactionCall}
    {r : WorkReply} {p' : PlainSession} (ha : p.Answers (.transact c) r p')
    (hs : (step (ord, c.sessionCall) s).2 = s')
    (hsync : LayeredGraphDatabase.Sync L s'.db p'.graph)
    (htxns : p'.transactions = s'.transactions.map fun t => (t.1.operations, t.2))
    (hops : ∀ t ∈ s'.transactions, ∀ op ∈ t.1.operations,
      op.Storable L.NodeStorable L.EdgeStorable) : Mirrors L n s' p' := by
  subst hs
  have hone : ∀ o : Option ℕ, o.toList.length ≤ 1 := fun o => by cases o <;> simp
  have hroom : ∀ kind, ∀ d ∈ s.counters kind,
      d + (draw kind c.sessionCall s).toList.length < 2 ^ 64 := by
    intro kind d hd
    have := h.room kind d hd
    have := hone (draw kind c.sessionCall s)
    omega
  refine ⟨hsync, htxns, ha.apart h.apart, h.wellStaged.step (ord, c.sessionCall) hroom, hops,
    fun kind d hd => ?_⟩
  have hbound := (step_counters (ord, c.sessionCall) h.wellStaged (hroom kind)).bound
    (n := 2 ^ 64 - (n + 2)) (fun d hd => by have := h.room kind d hd; omega) d hd
  have hdrawn : (draw kind (ord, c.sessionCall).2 s).toList.length ≤ 1 := hone _
  have := h.room kind _ List.mem_cons_self
  omega

/-- Other counters in the database, none behind the ones before. -/
theorem seeded {db : LayeredGraphDatabase S (NoCache ⊕ LruCache)} {g : PlainGraph}
    (h : LayeredGraphDatabase.Sync L db g) {ids : IdGenerator}
    (hle : ∀ kind, db.idGenerator.counter kind ≤ ids.counter kind) :
    LayeredGraphDatabase.Sync L { db with idGenerator := ids } g := by
  have hids : ids.Above g := by
    refine ⟨fun id hid => ?_, fun id hid => ?_⟩
    · exact UInt64.lt_of_lt_of_le (h.ids.node id hid) (UInt64.le_iff_toNat_le.mpr (hle .node))
    · exact UInt64.lt_of_lt_of_le (h.ids.edge id hid) (UInt64.le_iff_toNat_le.mpr (hle .edge))
  exact ⟨⟨h.wellFormed, h.engine, h.labels, h.properties, hids⟩, h.valid, h.stored, h.cached⟩

/-- A transaction that is replaced by one with the operations `ops`. -/
theorem Mirrors.transactions_set (h : Mirrors L n s p) (t : Nat) (txn : Transaction)
    (isOpen : Bool) : (p.put t txn.operations isOpen).transactions =
      (s.transactions.set t (txn, isOpen)).map fun t => (t.1.operations, t.2) := by
  rw [PlainSession.put, List.map_set, h.transactions]

theorem Mirrors.storable_set (h : Mirrors L n s p) (t : Nat) {txn : Transaction} {isOpen : Bool}
    (hops : ∀ op ∈ txn.operations, op.Storable L.NodeStorable L.EdgeStorable) :
    ∀ u ∈ s.transactions.set t (txn, isOpen), ∀ op ∈ u.1.operations,
      op.Storable L.NodeStorable L.EdgeStorable := by
  intro u hu
  rcases List.mem_or_eq_of_mem_set hu with hu | rfl
  · exact h.storable u hu
  · exact hops

/-- One more operation of an open transaction. -/
theorem Mirrors.stage (h : Mirrors L (n + 1) s p) (ht : s.transactions[t]? = some (txn, true))
    {c : TransactionCall} {f : Transaction → SessionReply × Transaction} {op : StagedOp}
    (hc : ∀ s : Session S (NoCache ⊕ LruCache), step (ord, c.sessionCall) s = onOpen t f s)
    (hf : (f txn).2.operations = txn.operations ++ [op])
    (hop : op.Storable L.NodeStorable L.EdgeStorable)
    (ha : p.Answers (.transact c) (.session (f txn).1) (p.put t (txn.operations ++ [op]) true)) :
    ∃ p', p.Answers (.transact c) (work ord (.transact c) s).1 p' ∧
      Mirrors L n (work ord (.transact c) s).2 p' := by
  have hstep := (hc s).trans (onOpen_of_some ht f)
  have htxn := h.storable _ (List.mem_of_getElem? ht)
  rw [work, hstep]
  rw [← hf] at ha
  refine ⟨_, ha,
    h.transact ord ha (congrArg Prod.snd hstep) h.sync (h.transactions_set t _ true) ?_⟩
  apply h.storable_set t
  rw [hf]
  exact List.forall_mem_append.mpr ⟨htxn, List.forall_mem_singleton.mpr hop⟩

/-- The operations of an open transaction suit a commit. -/
theorem Mirrors.suits (h : Mirrors L n s p) (ht : s.transactions[t]? = some (txn, true))
    (hsettles : LayeredGraphDatabase.Settles txn.operations s.db) :
    ∀ op ∈ txn.operations, op.Suits s.db.config L.NodeStorable L.EdgeStorable := by
  intro op hop
  have hmem := List.mem_of_getElem? ht
  refine ⟨h.storable _ hmem op hop, hsettles.1 op hop, fun kind x hx => ?_⟩
  have hlt := h.wellStaged _ hmem op hop kind x hx
  have hroom := h.room kind _ (List.mem_of_getElem? (getElem?_counters (k := kind) ht))
  omega

theorem Mirrors.onItsOwn (h : Mirrors L n s p) (ht : s.transactions[t]? = some (txn, true))
    (hapart : txn.operations.Pairwise fun a b => a.Clashes b = false) :
    LayeredGraphDatabase.OnItsOwn p.graph txn.operations := by
  have hunused : ∀ kind, ∀ op ∈ txn.operations, ∀ x, op.insertedId kind = some x →
      ¬p.graph.Uses kind x := by
    intro kind op hop x hx
    apply (h.apart kind).2
    apply List.mem_flatMap.mpr
    exact ⟨_, List.mem_of_getElem? (h.getElem?_transactions ht),
      List.mem_filterMap.mpr ⟨op, hop, hx⟩⟩
  refine ⟨hapart, fun n hn => ?_, fun e he => ?_⟩
  · apply Option.not_isSome_iff_eq_none.mp
    exact fun hs => hunused .node _ hn _ rfl ⟨n.id, hs, rfl⟩
  · apply Option.not_isSome_iff_eq_none.mp
    exact fun hs => hunused .edge _ he _ rfl ⟨e.id, hs, rfl⟩

/-- A commit is answered as the plain graph answers it. -/
theorem Mirrors.commit_cases (h : Mirrors L n s p) (ord : HashOrder)
    (ht : s.transactions[t]? = some (txn, true))
    (hapart : txn.operations.Pairwise fun a b => a.Clashes b = false)
    (hsettles : LayeredGraphDatabase.Settles txn.operations s.db) :
    (∃ g db, p.graph.commit txn.operations = .ok g ∧
      step (ord, .commitTransaction t) s = (.committed (txn.operations.foldl .add .default),
        { s with db := db, transactions := s.transactions.set t (txn, false) }) ∧
      LayeredGraphDatabase.Sync L db g ∧
      db.idGenerator = txn.operations.foldl StagedOp.seed s.db.idGenerator) ∨
    ∃ e, p.graph.commit txn.operations = .error e ∧
      (step (ord, .commitTransaction t) s).1 = .failed e := by
  have hstep : step (ord, .commitTransaction t) s =
      onDb (LayeredGraphDatabase.commitTransaction ord txn) .committed
        { s with transactions := s.transactions.set t (txn, false) } := onEnd_of_some ht _
  rw [hstep, onDb]
  dsimp only
  rcases h.sync.commitTransaction ord (h.suits ht hsettles) hsettles.2 (h.onItsOwn ht hapart) with
    ⟨g, hg, result, db, hrun, rfl, hsync, hids, -⟩ | ⟨e, hg, hrun⟩
  · rw [hrun]
    exact .inl ⟨g, db, hg, rfl, hsync, hids⟩
  · cases hdb : LayeredGraphDatabase.commitTransaction ord txn s.db with
    | mk r db =>
      rw [hdb] at hrun
      rw [show r = .error e from hrun]
      exact .inr ⟨e, hg, rfl⟩

theorem Mirrors.commits (h : Mirrors L n s p) (ht : s.transactions[t]? = some (txn, true))
    (ho : Orderly (ord, .transact (.commit t)) s) :
    ∃ g db, p.graph.commit txn.operations = .ok g ∧
      step (ord, .commitTransaction t) s = (.committed (txn.operations.foldl .add .default),
        { s with db := db, transactions := s.transactions.set t (txn, false) }) ∧
      LayeredGraphDatabase.Sync L db g ∧
      db.idGenerator = txn.operations.foldl StagedOp.seed s.db.idGenerator := by
  have hapart := ho.apart
  have hsettles := ho.settles
  have hpasses : WorkReply.isFailure (.session (step (ord, .commitTransaction t) s).1) = false :=
    ho.succeeds
  rw [committing_of_some ht] at hapart hsettles
  rcases h.commit_cases ord ht hapart hsettles with hdone | ⟨e, -, hfailed⟩
  · exact hdone
  · -- the commit would be answered with the error
    rw [hfailed] at hpasses
    cases hpasses

theorem commit_mirrors (h : Mirrors L (n + 1) s p) (ht : s.transactions[t]? = some (txn, true))
    (ho : Orderly (ord, .transact (.commit t)) s) :
    ∃ p', p.Answers (.transact (.commit t)) (work ord (.transact (.commit t)) s).1 p' ∧
      Mirrors L n (work ord (.transact (.commit t)) s).2 p' := by
  obtain ⟨g, db, hg, hdone, hsync, -⟩ := h.commits ht ho
  have hanswers : p.Answers (.transact (.commit t)) (.session _)
      { p.put t txn.operations false with graph := g } := .commit (h.getElem?_transactions ht) hg
  change ∃ p', p.Answers _ (.session (step (ord, .commitTransaction t) s).1) p' ∧
    Mirrors L n (step (ord, .commitTransaction t) s).2 p'
  rw [hdone]
  exact ⟨_, hanswers, h.transact ord hanswers (congrArg Prod.snd hdone) hsync
    (h.transactions_set t txn false) (h.storable_set t (h.storable _ (List.mem_of_getElem? ht)))⟩

theorem rollback_mirrors (h : Mirrors L (n + 1) s p)
    (ht : s.transactions[t]? = some (txn, true)) :
    ∃ p', p.Answers (.transact (.rollback t)) (work ord (.transact (.rollback t)) s).1 p' ∧
      Mirrors L n (work ord (.transact (.rollback t)) s).2 p' := by
  have hmem := List.mem_of_getElem? ht
  have hdone : step (ord, .rollbackTransaction t) s =
      (.done, { s with
        db := LayeredGraphDatabase.rollbackTransaction txn s.db
        transactions := s.transactions.set t (txn, false) }) :=
    onEnd_of_some ht fun txn s =>
      (.done, { s with db := LayeredGraphDatabase.rollbackTransaction txn s.db })
  have hanswers : p.Answers (.transact (.rollback t)) (.session .done)
      (p.put t txn.operations false) := .rollback (h.getElem?_transactions ht)
  have hsync : LayeredGraphDatabase.Sync L (LayeredGraphDatabase.rollbackTransaction txn s.db)
      p.graph := by
    refine seeded h.sync fun kind => ?_
    have hlt : txn.idGen.counter kind + (n + 1) < 2 ^ 64 :=
      h.room kind _ (List.mem_of_getElem? (getElem?_counters (k := kind) ht))
    exact (StagedOp.counter_foldl_seed (n := txn.idGen.counter kind) (by omega)
      (fun op hop => h.wellStaged _ hmem op hop kind) _).1
  change ∃ p', p.Answers _ (.session (step (ord, .rollbackTransaction t) s).1) p' ∧
    Mirrors L n (step (ord, .rollbackTransaction t) s).2 p'
  rw [hdone]
  exact ⟨_, hanswers, h.transact ord hanswers (congrArg Prod.snd hdone) hsync
    (h.transactions_set t txn false) (h.storable_set t (h.storable _ hmem))⟩

/-- A call on a transaction that has ended finds nothing to do. -/
theorem ended_mirrors (h : Mirrors L (n + 1) s p) {c : TransactionCall} (hc : c.target? = some t)
    (hclosed : ∀ k, s.openCounter k t = none) (hopen : ∀ f, onOpen t f s = (.done, s))
    (hend : ∀ f, onEnd t f s = (.done, s)) :
    ∃ p', p.Answers (.transact c) (work ord (.transact c) s).1 p' ∧
      Mirrors L n (work ord (.transact c) s).2 p' := by
  have hdone : step (ord, c.sessionCall) s = (.done, s) := by
    cases c with
    | begin => cases hc
    | insertNode | insertEdge | deleteNode | deleteEdge =>
      cases hc
      exact hopen _
    | commit =>
      cases hc
      exact hend _
    | rollback =>
      cases hc
      exact hend fun txn s =>
        (.done, { s with db := LayeredGraphDatabase.rollbackTransaction txn s.db })
  have hnone : ∀ ops, p.transactions[t]? ≠ some (ops, true) := by
    intro ops hops
    rw [h.transactions, List.getElem?_map, Option.map_eq_some_iff] at hops
    obtain ⟨⟨txn, isOpen⟩, ht, heq⟩ := hops
    obtain rfl : isOpen = true := congrArg Prod.snd heq
    have := hclosed .node
    rw [openCounter, ht] at this
    cases this
  have hanswers : p.Answers (.transact c) (.session .done) p := .ended hc hnone
  rw [work, hdone]
  exact ⟨p, hanswers, h.transact ord hanswers (congrArg Prod.snd hdone) h.sync h.transactions
    h.storable⟩

/-- Every call is answered as the plain graph with its transactions may answer it. -/
theorem work_mirrors {w : HashOrder × Work} (h : Mirrors L (n + 1) s p) (ho : Orderly w s)
    (hw : w.2.Inserts L.NodeStorable L.EdgeStorable) :
    ∃ p', p.Answers w.2 (work w.1 w.2 s).1 p' ∧ Mirrors L n (work w.1 w.2 s).2 p' := by
  obtain ⟨ord, w⟩ := w
  cases w with
  | call c => exact call_mirrors h ho hw
  | transact c =>
    -- a drawn id comes from a counter that leads
    have hnew : ∀ kind x, draw kind c.sessionCall s = some x → p.Fresh kind x := by
      intro kind x hx
      have hdraw : Counters.Leads (s.counters kind) (draw kind c.sessionCall s) := ho.leads kind
      rw [hx] at hdraw
      exact h.fresh_of_leads hdraw
    cases htarget : c.target? with
    | none =>
      cases c <;> cases htarget
      have hanswers : p.Answers (.transact .begin) (.session .done) _ := .begin
      refine ⟨_, hanswers, h.transact ord hanswers rfl h.sync ?_ ?_⟩
      · rw [h.transactions]
        change _ = List.map _ (s.transactions ++ [_])
        rw [List.map_append]
        rfl
      · rintro u hu op hop
        rcases List.mem_append.mp hu with hu | hu
        · exact h.storable u hu op hop
        · obtain rfl := List.mem_singleton.mp hu
          cases hop
    | some t =>
      rcases open_cases t s with ⟨txn, ht, hopen⟩ | ⟨hclosed, hopen, hend⟩
      · have hpt := h.getElem?_transactions ht
        cases c with
        | begin => cases htarget
        | insertNode _ label properties =>
          cases htarget
          exact h.stage ht (fun _ => rfl) rfl (hw _) (.insertNode hpt (hnew .node _ (hopen .node)))
        | insertEdge _ source target label weight properties =>
          cases htarget
          exact h.stage ht (fun _ => rfl) rfl (hw _) (.insertEdge hpt (hnew .edge _ (hopen .edge)))
        | deleteNode _ id =>
          cases htarget
          exact h.stage ht (fun _ => rfl) rfl trivial (.deleteNode hpt id)
        | deleteEdge _ id =>
          cases htarget
          exact h.stage ht (fun _ => rfl) rfl trivial (.deleteEdge hpt id)
        | commit =>
          cases htarget
          exact commit_mirrors h ht ho
        | rollback =>
          cases htarget
          exact rollback_mirrors h ht
      · exact ended_mirrors h htarget hclosed hopen hend

/-! ## Runs -/

theorem works_mirror {m : ℕ} {inputs : List (HashOrder × Work)}
    (h : Mirrors L (m + inputs.length) s p)
    (hinputs : ∀ w ∈ inputs, w.2.Inserts L.NodeStorable L.EdgeStorable)
    (ho : Machine.Along Orderly (fun w => work w.1 w.2) inputs s) :
    ∃ p', Machine.Runs (fun p w => p.Answers w.2) p inputs (works inputs s).1 p' ∧
      Mirrors L m (works inputs s).2 p' := by
  let R (inputs : List (HashOrder × Work)) (s : Session S (NoCache ⊕ LruCache))
      (p : PlainSession) : Prop :=
    Mirrors L (m + inputs.length) s p ∧
    (∀ w ∈ inputs, w.2.Inserts L.NodeStorable L.EdgeStorable) ∧
    Machine.Along Orderly (fun w => work w.1 w.2) inputs s
  have hstep : ∀ w inputs s p, R (w :: inputs) s p →
      ∃ p', p.Answers w.2 (work w.1 w.2 s).1 p' ∧ R inputs (work w.1 w.2 s).2 p' := by
    rintro w inputs s p ⟨h, hinputs, ho⟩
    obtain ⟨p', ha, hm⟩ := work_mirrors h ho.1 (hinputs w List.mem_cons_self)
    exact ⟨p', ha, hm, fun v hv => hinputs v (List.mem_cons_of_mem w hv), ho.2⟩
  obtain ⟨p', hruns, hend, -⟩ := Machine.runs_of_simulation hstep
    (show R inputs s p from ⟨h, hinputs, ho⟩)
  exact ⟨p', hruns, hend⟩

/-- A new database before any transaction. -/
theorem openPath_mirrors (L : StorageSpec S) (ord : HashOrder) (cache : CacheAdapter)
    (config : DatabaseConfig) (txnCounter : UInt64) (hn : n < 2 ^ 64) :
    ∃ db : LayeredGraphDatabase S (NoCache ⊕ LruCache),
      LayeredGraphDatabase.openWithConfig ord (FileStorage.openPath none) cache.new .new config =
        .ok db ∧ (∀ kind, db.idGenerator.counter kind = 0) ∧
        Mirrors L n ⟨db, txnCounter, []⟩ .empty := by
  obtain ⟨db, hopen, hsync, hnode, hedge⟩ := LayeredGraphDatabase.openWithConfig_sync L ord config
    L.valid_openPath .empty L.view_openPath cache.empty_new (N := 0) (M := 0) (by decide)
    (by decide) (fun id hid => by simp [PlainGraph.empty] at hid)
    (fun id hid => by simp [PlainGraph.empty] at hid)
  have hzero (kind : IdKind) : db.idGenerator.counter kind = 0 := by
    cases kind with
    | node => exact Nat.le_zero.mp hnode
    | edge => exact Nat.le_zero.mp hedge
  refine ⟨db, hopen, hzero, hsync, rfl, fun kind => ⟨List.nodup_nil, List.forall_mem_nil _⟩,
    List.forall_mem_nil _, List.forall_mem_nil _, fun kind c hc => ?_⟩
  obtain rfl := List.mem_singleton.mp hc
  rw [hzero, Nat.zero_add]
  exact hn

end Session

/-- Calls next to any number of open transactions are answered as if each of these took effect
at once when it is committed, on a plain graph. -/
theorem transactions_serialize (a : StorageAdapter) (hs : a.Documented) (ord : HashOrder)
    (cache : CacheAdapter) (config : DatabaseConfig) (txnCounter : UInt64)
    (inputs : List (HashOrder × Work))
    (hinputs : ∀ w ∈ inputs, w.2.Inserts a.KeepsNode a.KeepsEdge)
    (hlen : inputs.length < 2 ^ 64) :
    ∃ db : LayeredGraphDatabase a.Storage (NoCache ⊕ LruCache),
      LayeredGraphDatabase.openWithConfig ord (FileStorage.openPath none) cache.new .new config =
        .ok db ∧
      (Machine.Along Session.Orderly (fun w => Session.work w.1 w.2) inputs ⟨db, txnCounter, []⟩ →
        ∃ p, Machine.Runs (fun p w => p.Answers w.2) PlainSession.empty inputs
            (Session.works inputs ⟨db, txnCounter, []⟩).1 p ∧
          LayeredGraphDatabase.Sync (a.spec hs)
            (Session.works inputs ⟨db, txnCounter, []⟩).2.db p.graph) := by
  rw [← a.spec_nodeStorable hs, ← a.spec_edgeStorable hs] at hinputs
  obtain ⟨db, hopen, -, hstart⟩ :=
    Session.openPath_mirrors (a.spec hs) ord cache config txnCounter hlen
  refine ⟨db, hopen, fun ho => ?_⟩
  obtain ⟨p, hruns, hend⟩ := Session.works_mirror (m := 0)
    (by rwa [Nat.zero_add]) hinputs ho
  exact ⟨p, hruns, hend.sync⟩

/-- Two open transactions: one saves an edge, the other one a node, and deletes the first node
with the edge. -/
def twoTransactions : List (HashOrder × Work) :=
  [(.sorted, .call (.insertNode "A" ∅)),
    (.sorted, .transact .begin),
    (.sorted, .transact .begin),
    (.sorted, .transact (.insertEdge 1 ⟨0⟩ ⟨0⟩ "L" ⟨0x3ff0000000000000⟩ ∅)),
    (.sorted, .transact (.insertNode 0 "B" ∅)),
    (.sorted, .transact (.deleteNode 0 ⟨0⟩)),
    (.sorted, .call .allEdges),
    (.sorted, .transact (.commit 1)),
    (.sorted, .call (.neighborsOutgoing ⟨0⟩)),
    (.sorted, .transact (.commit 0)),
    (.sorted, .call .allNodes)]

theorem twoTransactions_inserts : ∀ w ∈ twoTransactions, w.2.Inserts NodeFits EdgeFits := by
  have hfits : StrFits "A" ∧ StrFits "B" ∧ StrFits "L" ∧ PropertiesFit ∅ := by decide
  intro w hw
  simp only [twoTransactions, List.mem_cons, List.not_mem_nil, or_false] at hw
  rcases hw with rfl | rfl | rfl | rfl | rfl | rfl | rfl | rfl | rfl | rfl | rfl
  · exact fun _ => ⟨hfits.1, hfits.2.2.2⟩
  · trivial
  · trivial
  · exact fun _ => ⟨hfits.2.2.1, hfits.2.2.2⟩
  · exact fun _ => ⟨hfits.2.1, hfits.2.2.2⟩
  all_goals trivial

theorem transactions_serialize_two :
    ∃ db : LayeredGraphDatabase (StorageAdapter.Storage .binary) (NoCache ⊕ LruCache),
      LayeredGraphDatabase.openWithConfig .sorted (FileStorage.openPath none)
        (CacheAdapter.lruCache 1 1 Nat.one_pos Nat.one_pos).new .new .unrestricted = .ok db ∧
      ∃ p, Machine.Runs (fun p w => p.Answers w.2) PlainSession.empty twoTransactions
          (Session.works twoTransactions ⟨db, 1, []⟩).1 p ∧
        LayeredGraphDatabase.Sync (StorageAdapter.spec .binary trivial)
          (Session.works twoTransactions ⟨db, 1, []⟩).2.db p.graph := by
  obtain ⟨db, hopen, hrun⟩ := transactions_serialize .binary trivial .sorted
    (.lruCache 1 1 Nat.one_pos Nat.one_pos) .unrestricted 1 twoTransactions twoTransactions_inserts
    (by decide)
  refine ⟨db, hopen, hrun ?_⟩
  have hnew : LayeredGraphDatabase.openWithConfig .sorted
      (FileStorage.openPath none : StorageAdapter.Storage .binary)
      (CacheAdapter.lruCache 1 1 Nat.one_pos Nat.one_pos).new .new .unrestricted =
      .ok ⟨.new, (CacheAdapter.lruCache 1 1 Nat.one_pos Nat.one_pos).new,
        BinaryFileStorage.mk header, .new, .new, .new, .unrestricted, 0⟩ := rfl
  obtain rfl := Except.ok.inj (hopen.symm.trans hnew)
  decide +kernel

end AdGraphDb
