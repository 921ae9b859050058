import AdGraphDb.Foundation.Allocation
import AdGraphDb.Database.Open
import AdGraphDb.Database.Commit

/-!
# Transactions next to direct writes

Any number of transactions may be open on a database while it is written to directly.
Each of them allocates from its own counters, which the database's learn about when the
transaction ends. The storage and the cache are arbitrary, and may fail.
-/

namespace AdGraphDb
open Std AdGraphDb.Action

/-- The two counters of an `IdGenerator`. -/
inductive IdKind where
  | node
  | edge

def IdGenerator.counter (ids : IdGenerator) : IdKind → ℕ
  | .node => ids.nextNode.toNat
  | .edge => ids.nextEdge.toNat

theorem IdGenerator.counter_nextNodeId {ids : IdGenerator} (h : ids.counter .node + 1 < 2 ^ 64) :
    ids.nextNodeId.2.counter .node = ids.counter .node + 1 := by
  change (ids.nextNode + 1).toNat = ids.nextNode.toNat + 1
  rw [UInt64.toNat_add, UInt64.toNat_one]
  exact Nat.mod_eq_of_lt h

theorem IdGenerator.counter_nextEdgeId {ids : IdGenerator} (h : ids.counter .edge + 1 < 2 ^ 64) :
    ids.nextEdgeId.2.counter .edge = ids.counter .edge + 1 := by
  change (ids.nextEdge + 1).toNat = ids.nextEdge.toNat + 1
  rw [UInt64.toNat_add, UInt64.toNat_one]
  exact Nat.mod_eq_of_lt h

/-- The id of a kind that an operation inserts. -/
def StagedOp.insertedId : IdKind → StagedOp → Option ℕ
  | .node, .insertNode node => some node.id.val.toNat
  | .edge, .insertEdge edge => some edge.id.val.toNat
  | _, _ => none

/-- A seed raises a counter no further than past the id. -/
theorem StagedOp.counter_seed {kind : IdKind} {op : StagedOp} {n : ℕ} (hn : n < 2 ^ 64)
    (h : ∀ x, op.insertedId kind = some x → x < n) (ids : IdGenerator) :
    ids.counter kind ≤ (op.seed ids).counter kind ∧
      (op.seed ids).counter kind ≤ max (ids.counter kind) n := by
  have unchanged {g : IdGenerator} (hg : g.counter kind = ids.counter kind) :
      ids.counter kind ≤ g.counter kind ∧ g.counter kind ≤ max (ids.counter kind) n := by
    omega
  cases op with
  | deleteNode id => exact unchanged rfl
  | deleteEdge id => exact unchanged rfl
  | insertNode node =>
    cases kind with
    | edge => exact unchanged (congrArg UInt64.toNat (ids.seedFromNode_nextEdge node.id))
    | node =>
      have hlt := h _ rfl
      have heq := ids.seedFromNode_nextNode node.id (by omega)
      dsimp only [IdGenerator.counter, seed]
      omega
  | insertEdge edge =>
    cases kind with
    | node => exact unchanged (congrArg UInt64.toNat (ids.seedFromEdge_nextNode edge.id))
    | edge =>
      have hlt := h _ rfl
      have heq := ids.seedFromEdge_nextEdge edge.id (by omega)
      dsimp only [IdGenerator.counter, seed]
      omega

/-- Seeding from any operations raises a counter no further than past the largest id. -/
theorem StagedOp.counter_foldl_seed {kind : IdKind} {ops : List StagedOp} {n : ℕ}
    (hn : n < 2 ^ 64) (h : ∀ op ∈ ops, ∀ x, op.insertedId kind = some x → x < n)
    (ids : IdGenerator) :
    ids.counter kind ≤ (ops.foldl seed ids).counter kind ∧
      (ops.foldl seed ids).counter kind ≤ max (ids.counter kind) n := by
  induction ops generalizing ids with
  | nil => exact ⟨le_rfl, le_max_left _ _⟩
  | cons op ops ih =>
    obtain ⟨h1, h2⟩ := counter_seed hn (h op List.mem_cons_self) ids
    obtain ⟨h3, h4⟩ := ih (fun op' hop => h op' (List.mem_cons_of_mem op hop)) (op.seed ids)
    rw [List.foldl_cons]
    omega

/-- Every id that is staged is behind the transaction's counters. -/
def Transaction.WellStaged (t : Transaction) : Prop :=
  ∀ op ∈ t.operations, ∀ kind x, op.insertedId kind = some x → x < t.idGen.counter kind

/-- Staging keeps this if it moves the counters past the id it stages. -/
theorem Transaction.WellStaged.stage {t : Transaction} {op : StagedOp} {ids : IdGenerator}
    (h : t.WellStaged) (hle : ∀ kind, t.idGen.counter kind ≤ ids.counter kind)
    (hop : ∀ kind x, op.insertedId kind = some x → x < ids.counter kind) :
    WellStaged { t with idGen := ids, operations := t.operations ++ [op] } := by
  intro op' hop' kind x hx
  rcases List.mem_append.mp hop' with hmem | hmem
  · exact (h op' hmem kind x hx).trans_le (hle kind)
  · obtain rfl := List.mem_singleton.mp hmem
    exact hop kind x hx

theorem Transaction.WellStaged.stageInsertNode {t : Transaction} (h : t.WellStaged)
    (hroom : t.idGen.counter .node + 1 < 2 ^ 64) (label : String) (properties : Properties) :
    (t.stageInsertNode label properties).2.WellStaged := by
  have hnext := IdGenerator.counter_nextNodeId hroom
  apply h.stage
  · intro kind
    cases kind with
    | node => exact hnext ▸ Nat.le_succ _
    | edge => exact le_rfl
  · intro kind x hx
    cases kind with
    | node =>
      obtain rfl := Option.some.inj hx
      exact hnext ▸ Nat.lt_succ_self _
    | edge => cases hx

theorem Transaction.WellStaged.stageInsertEdge {t : Transaction} (h : t.WellStaged)
    (hroom : t.idGen.counter .edge + 1 < 2 ^ 64) (source target : NodeId) (label : String)
    (weight : F64) (properties : Properties) :
    (t.stageInsertEdge source target label weight properties).2.WellStaged := by
  have hnext := IdGenerator.counter_nextEdgeId hroom
  apply h.stage
  · intro kind
    cases kind with
    | node => exact le_rfl
    | edge => exact hnext ▸ Nat.le_succ _
  · intro kind x hx
    cases kind with
    | node => cases hx
    | edge =>
      obtain rfl := Option.some.inj hx
      exact hnext ▸ Nat.lt_succ_self _

/-- A deletion stages no id. -/
theorem Transaction.WellStaged.stageDelete {t : Transaction} (h : t.WellStaged) {op : StagedOp}
    (hop : ∀ kind, op.insertedId kind = none) :
    WellStaged { t with operations := t.operations ++ [op] } := by
  refine h.stage (fun _ => le_rfl) ?_
  intro kind x hx
  rw [hop kind] at hx
  cases hx

/-- A database with the transactions begun on it, each open or ended, and the
process-wide counter of transactions. -/
structure Session (S C : Type) where
  db : LayeredGraphDatabase S C
  txnCounter : UInt64
  transactions : List (Transaction × Bool)

/-- A call on the database or on the `t`-th transaction. -/
inductive SessionCall where
  | insertNode (label : String) (properties : Properties)
  | insertEdge (source target : NodeId) (label : String) (weight : F64) (properties : Properties)
  | deleteNode (id : NodeId)
  | deleteEdge (id : EdgeId)
  | beginTransaction
  | stageInsertNode (t : Nat) (label : String) (properties : Properties)
  | stageInsertEdge (t : Nat) (source target : NodeId) (label : String) (weight : F64)
    (properties : Properties)
  | stageDeleteNode (t : Nat) (id : NodeId)
  | stageDeleteEdge (t : Nat) (id : EdgeId)
  | commitTransaction (t : Nat)
  | rollbackTransaction (t : Nat)

inductive SessionReply where
  | done
  | nodeId (id : NodeId)
  | edgeId (id : EdgeId)
  | committed (result : CommitResult)
  | failed (e : GraphError)

/-- The id of a kind that a reply gives to the caller. -/
def SessionReply.id : IdKind → SessionReply → Option ℕ
  | .node, .nodeId id => some id.val.toNat
  | .edge, .edgeId id => some id.val.toNat
  | _, _ => none

namespace Session

variable {S C : Type}

/-- A call of a method of the database. -/
def onDb {α : Type} (a : DatabaseAction S C α) (reply : α → SessionReply) (s : Session S C) :
    SessionReply × Session S C :=
  match a s.db with
  | (.ok v, db) => (reply v, { s with db := db })
  | (.error e, db) => (.failed e, { s with db := db })

/-- A staging call on a transaction; one that has ended is gone. -/
def onOpen (t : Nat) (f : Transaction → SessionReply × Transaction) (s : Session S C) :
    SessionReply × Session S C :=
  match s.transactions[t]? with
  | some (txn, true) =>
    ((f txn).1, { s with transactions := s.transactions.set t ((f txn).2, true) })
  | _ => (.done, s)

/-- The end of a transaction. -/
def onEnd (t : Nat) (f : Transaction → Session S C → SessionReply × Session S C)
    (s : Session S C) : SessionReply × Session S C :=
  match s.transactions[t]? with
  | some (txn, true) => f txn { s with transactions := s.transactions.set t (txn, false) }
  | _ => (.done, s)

section

variable [StoragePort S] [CachePort C]

def perform (ord : HashOrder) : SessionCall → Session S C → SessionReply × Session S C
  | .insertNode label properties =>
    onDb (LayeredGraphDatabase.insertNode ord label properties) .nodeId
  | .insertEdge source target label weight properties =>
    onDb (LayeredGraphDatabase.insertEdge ord source target label weight properties) .edgeId
  | .deleteNode id => onDb (LayeredGraphDatabase.deleteNode ord id) fun _ => .done
  | .deleteEdge id => onDb (LayeredGraphDatabase.deleteEdge ord id) fun _ => .done
  | .beginTransaction => fun s =>
    (.done, { s with
      txnCounter := s.txnCounter + 1
      transactions := s.transactions ++ [(s.db.beginTransaction s.txnCounter, true)] })
  | .stageInsertNode t label properties => onOpen t fun txn =>
    ((.nodeId (txn.stageInsertNode label properties).1), (txn.stageInsertNode label properties).2)
  | .stageInsertEdge t source target label weight properties => onOpen t fun txn =>
    ((.edgeId (txn.stageInsertEdge source target label weight properties).1),
      (txn.stageInsertEdge source target label weight properties).2)
  | .stageDeleteNode t id => onOpen t fun txn => (.done, txn.stageDeleteNode id)
  | .stageDeleteEdge t id => onOpen t fun txn => (.done, txn.stageDeleteEdge id)
  | .commitTransaction t => onEnd t fun txn =>
    onDb (LayeredGraphDatabase.commitTransaction ord txn) .committed
  | .rollbackTransaction t => onEnd t fun txn s =>
    (.done, { s with db := LayeredGraphDatabase.rollbackTransaction txn s.db })

def step (call : HashOrder × SessionCall) : Session S C → SessionReply × Session S C :=
  perform call.1 call.2

def run (calls : List (HashOrder × SessionCall)) (s : Session S C) :
    List SessionReply × Session S C := Machine.run step calls s

end

/-! ## Allocation -/

/-- The counters of a kind: the database's, then those of the transactions begun on it. -/
def counters (kind : IdKind) (s : Session S C) : List ℕ :=
  s.db.idGenerator.counter kind :: s.transactions.map fun t => t.1.idGen.counter kind

/-- The counter of a transaction that is still open. -/
def openCounter (kind : IdKind) (t : Nat) (s : Session S C) : Option ℕ :=
  match s.transactions[t]? with
  | some (txn, true) => some (txn.idGen.counter kind)
  | _ => none

/-- The counter that a call allocates an id from; `insertEdge` first looks for the ends. -/
def draw : IdKind → SessionCall → Session S C → Option ℕ
  | .node, .insertNode _ _, s => some (s.db.idGenerator.counter .node)
  | .edge, .insertEdge source target _ _ _, s =>
    if s.db.hasEnds source target then some (s.db.idGenerator.counter .edge) else none
  | .node, .stageInsertNode t _ _, s => s.openCounter .node t
  | .edge, .stageInsertEdge t _ _ _ _ _, s => s.openCounter .edge t
  | _, _, _ => none

section

variable {k : IdKind} {s : Session S C}

theorem onDb_snd {α : Type} (a : DatabaseAction S C α) (reply : α → SessionReply)
    (s : Session S C) : (onDb a reply s).2 = { s with db := (a s.db).2 } := by
  unfold onDb
  cases h : a s.db with
  | mk r db => cases r <;> rfl

theorem onOpen_of_some {t : Nat} {txn : Transaction} (h : s.transactions[t]? = some (txn, true))
    (f : Transaction → SessionReply × Transaction) : onOpen t f s =
      ((f txn).1, { s with transactions := s.transactions.set t ((f txn).2, true) }) := by
  rw [onOpen, h]

theorem onEnd_of_some {t : Nat} {txn : Transaction} (h : s.transactions[t]? = some (txn, true))
    (f : Transaction → Session S C → SessionReply × Session S C) :
    onEnd t f s = f txn { s with transactions := s.transactions.set t (txn, false) } := by
  rw [onEnd, h]

/-- A call on a transaction finds it open, or finds nothing to do. -/
theorem open_cases (t : Nat) (s : Session S C) :
    (∃ txn, s.transactions[t]? = some (txn, true) ∧
      ∀ k, s.openCounter k t = some (txn.idGen.counter k)) ∨
    ((∀ k, s.openCounter k t = none) ∧ (∀ f, onOpen t f s = (.done, s)) ∧
      ∀ f, onEnd t f s = (.done, s)) := by
  unfold openCounter onOpen onEnd
  cases h : s.transactions[t]? with
  | none => exact .inr ⟨fun _ => rfl, fun _ => rfl, fun _ => rfl⟩
  | some p =>
    obtain ⟨txn, isOpen⟩ := p
    cases isOpen with
    | true => exact .inl ⟨txn, rfl, fun _ => rfl⟩
    | false => exact .inr ⟨fun _ => rfl, fun _ => rfl, fun _ => rfl⟩

theorem counters_set (k : IdKind) (s : Session S C) (t : Nat) (p : Transaction × Bool) :
    counters k { s with transactions := s.transactions.set t p } =
      (s.counters k).set (t + 1) (p.1.idGen.counter k) := by
  rw [counters, List.map_set]
  rfl

theorem getElem?_counters {t : Nat} {p : Transaction × Bool} (h : s.transactions[t]? = some p) :
    (s.counters k)[t + 1]? = some (p.1.idGen.counter k) := by
  rw [counters, List.getElem?_cons_succ, List.getElem?_map, h]
  rfl

theorem counters_set_self {t : Nat} {p q : Transaction × Bool} (h : s.transactions[t]? = some p)
    (hq : q.1.idGen.counter k = p.1.idGen.counter k) :
    counters k { s with transactions := s.transactions.set t q } = s.counters k := by
  obtain ⟨hlt, hget⟩ := List.getElem?_eq_some_iff.mp (getElem?_counters (k := k) h)
  rw [counters_set, hq, ← hget]
  exact List.set_getElem_self hlt

open Counters (Step)

/-! ## One call -/

def WellStaged (s : Session S C) : Prop := ∀ t ∈ s.transactions, t.1.WellStaged

theorem counters_onDb {α : Type} (a : DatabaseAction S C α) (reply : α → SessionReply)
    (s : Session S C) : (onDb a reply s).2.counters k =
      (a s.db).2.idGenerator.counter k :: s.transactions.map fun t => t.1.idGen.counter k :=
  congrArg (counters k) (onDb_snd a reply s)

theorem skip_of_eq {cs cs' : List ℕ} (h : cs' = cs) : Step cs none cs' := h ▸ .skip cs

theorem skip_onDb {α : Type} {a : DatabaseAction S C α} (reply : α → SessionReply)
    (h : (a s.db).2.idGenerator.counter k = s.db.idGenerator.counter k) :
    Step (s.counters k) none ((onDb a reply s).2.counters k) := by
  apply skip_of_eq
  rw [counters_onDb, h]
  rfl

theorem draw_onDb {α : Type} {a : DatabaseAction S C α} (reply : α → SessionReply)
    (h : (a s.db).2.idGenerator.counter k = s.db.idGenerator.counter k + 1) :
    Step (s.counters k) (some (s.db.idGenerator.counter k))
      ((onDb a reply s).2.counters k) := by
  rw [counters_onDb, h]
  exact .draw (i := 0) rfl

theorem skip_onOpen (t : Nat) {f : Transaction → SessionReply × Transaction}
    (h : ∀ txn, (f txn).2.idGen.counter k = txn.idGen.counter k) :
    Step (s.counters k) none ((onOpen t f s).2.counters k) := by
  rcases open_cases t s with ⟨txn, ht, _⟩ | ⟨_, hid, _⟩
  · rw [onOpen_of_some ht]
    exact skip_of_eq (counters_set_self ht (h txn))
  · rw [hid f]
    exact .skip _

theorem draw_onOpen (t : Nat) {f : Transaction → SessionReply × Transaction}
    (hroom : ∀ c ∈ s.counters k, c + (s.openCounter k t).toList.length < 2 ^ 64)
    (h : ∀ txn, txn.idGen.counter k + 1 < 2 ^ 64 →
      (f txn).2.idGen.counter k = txn.idGen.counter k + 1) :
    Step (s.counters k) (s.openCounter k t) ((onOpen t f s).2.counters k) := by
  rcases open_cases t s with ⟨txn, ht, hcounter⟩ | ⟨hclosed, hid, _⟩
  · have hget := getElem?_counters (k := k) ht
    rw [hcounter k] at hroom ⊢
    have heq := h txn (hroom _ (List.mem_of_getElem? hget))
    rw [onOpen_of_some ht]
    change Step _ _ (counters k { s with transactions := _ })
    rw [counters_set, heq]
    exact .draw hget
  · rw [hclosed k, hid f]
    exact .skip _

theorem counters_of_ids {s' : Session S C} {ids : IdGenerator} (hids : s'.db.idGenerator = ids)
    (htxns : s'.transactions = s.transactions) :
    s'.counters k = (s.counters k).set 0 (ids.counter k) := by
  rw [counters, hids, htxns]
  rfl

/-- The end of a transaction raises the database's counters at most to its own. -/
theorem raise_onEnd (t : Nat) {f : Transaction → Session S C → SessionReply × Session S C}
    (hw : WellStaged s) (hroom : ∀ c ∈ s.counters k, c < 2 ^ 64)
    (hids : ∀ txn s, ∃ m, (f txn s).2.db.idGenerator =
      (txn.operations.take m).foldl StagedOp.seed s.db.idGenerator)
    (htxns : ∀ txn s, (f txn s).2.transactions = s.transactions) :
    Step (s.counters k) none ((onEnd t f s).2.counters k) := by
  rcases open_cases t s with ⟨txn, ht, _⟩ | ⟨_, _, hid⟩
  · rw [onEnd_of_some ht]
    have hmem := List.mem_of_getElem? (getElem?_counters (k := k) ht)
    have hset := counters_set_self (k := k) (q := (txn, false)) ht rfl
    obtain ⟨m, hm⟩ := hids txn { s with transactions := s.transactions.set t (txn, false) }
    have hbelow : ∀ op ∈ txn.operations.take m, ∀ x, op.insertedId k = some x →
        x < txn.idGen.counter k := fun op hop =>
      hw _ (List.mem_of_getElem? ht) op (List.mem_of_mem_take hop) k
    obtain ⟨hle, hmax⟩ := StagedOp.counter_foldl_seed (hroom _ hmem) hbelow s.db.idGenerator
    rw [counters_of_ids hm (htxns txn _), hset]
    refine .raise rfl hle ?_
    rcases le_max_iff.mp hmax with h | h
    · exact ⟨_, List.mem_cons_self, h⟩
    · exact ⟨_, hmem, h⟩
  · rw [hid f]
    exact .skip _

theorem WellStaged.set (hw : s.WellStaged) (t : Nat) {p : Transaction × Bool}
    (hp : p.1.WellStaged) :
    WellStaged { s with transactions := s.transactions.set t p } := by
  intro p' hp'
  rcases List.mem_or_eq_of_mem_set hp' with hmem | rfl
  · exact hw p' hmem
  · exact hp

theorem WellStaged.onDb (hw : s.WellStaged) {α : Type} (a : DatabaseAction S C α)
    (reply : α → SessionReply) : (onDb a reply s).2.WellStaged := by
  rw [onDb_snd]
  exact hw

theorem WellStaged.onOpen (hw : s.WellStaged) {t : Nat}
    {f : Transaction → SessionReply × Transaction}
    (h : ∀ txn, (∀ k, s.openCounter k t = some (txn.idGen.counter k)) →
      txn.WellStaged → (f txn).2.WellStaged) : (onOpen t f s).2.WellStaged := by
  rcases open_cases t s with ⟨txn, ht, hopen⟩ | ⟨_, hid, _⟩
  · rw [onOpen_of_some ht]
    exact hw.set t (h txn hopen (hw _ (List.mem_of_getElem? ht)))
  · rw [hid f]
    exact hw

theorem WellStaged.onEnd (hw : s.WellStaged) {t : Nat}
    {f : Transaction → Session S C → SessionReply × Session S C}
    (h : ∀ txn s, (f txn s).2.transactions = s.transactions) : (onEnd t f s).2.WellStaged := by
  rcases open_cases t s with ⟨txn, ht, _⟩ | ⟨_, _, hid⟩
  · rw [onEnd_of_some ht, WellStaged, h]
    have htxn : txn.WellStaged := hw _ (List.mem_of_getElem? ht)
    exact hw.set t htxn
  · rw [hid f]
    exact hw

/-- The counter of an open transaction has room for what is drawn from it. -/
theorem room_openCounter {t : Nat} {c : ℕ} (hopen : s.openCounter k t = some c)
    (hroom : ∀ c ∈ s.counters k, c + (s.openCounter k t).toList.length < 2 ^ 64) :
    c + 1 < 2 ^ 64 := by
  rw [hopen] at hroom
  apply hroom c
  rcases open_cases t s with ⟨txn, ht, hcounter⟩ | ⟨hclosed, _⟩
  · rw [hcounter k] at hopen
    exact Option.some.inj hopen ▸ List.mem_of_getElem? (getElem?_counters ht)
  · rw [hclosed k] at hopen
    cases hopen

theorem id_onDb {α : Type} {a : DatabaseAction S C α} {reply : α → SessionReply} {x : ℕ}
    (h : (onDb a reply s).1.id k = some x) :
    ∃ v, (a s.db).1 = .ok v ∧ (reply v).id k = some x := by
  unfold onDb at h
  cases hr : a s.db with
  | mk r db =>
    rw [hr] at h
    cases r with
    | ok v => exact ⟨v, rfl, h⟩
    | error e => cases k <;> cases h

theorem id_onOpen {t : Nat} {f : Transaction → SessionReply × Transaction} {x : ℕ}
    (h : (onOpen t f s).1.id k = some x) :
    ∃ txn, s.openCounter k t = some (txn.idGen.counter k) ∧ (f txn).1.id k = some x := by
  rcases open_cases t s with ⟨txn, ht, hopen⟩ | ⟨_, hid, _⟩
  · rw [onOpen_of_some ht] at h
    exact ⟨txn, hopen k, h⟩
  · rw [hid f] at h
    cases k <;> cases h

theorem id_onEnd {t : Nat} {f : Transaction → Session S C → SessionReply × Session S C} {x : ℕ}
    (h : (onEnd t f s).1.id k = some x) : ∃ txn s', (f txn s').1.id k = some x := by
  rcases open_cases t s with ⟨txn, ht, _⟩ | ⟨_, _, hid⟩
  · rw [onEnd_of_some ht] at h
    exact ⟨txn, _, h⟩
  · rw [hid f] at h
    cases k <;> cases h

variable [StoragePort S] [CachePort C]

/-- A call moves the counters of either k as a step of the parties does, and draws what
`draw` says. -/
theorem step_counters (call : HashOrder × SessionCall) (hw : WellStaged s)
    (hroom : ∀ c ∈ s.counters k, c + (draw k call.2 s).toList.length < 2 ^ 64) :
    Step (s.counters k) (draw k call.2 s) ((step call s).2.counters k) := by
  have hdb := hroom _ List.mem_cons_self
  have hlt : ∀ c ∈ s.counters k, c < 2 ^ 64 := fun c hc =>
    Nat.lt_of_le_of_lt (Nat.le_add_right _ _) (hroom c hc)
  obtain ⟨ord, call⟩ := call
  cases call with
  | insertNode label properties =>
    have h := (LayeredGraphDatabase.insertNode_ids ord label properties s.db).1
    cases k with
    | node => exact draw_onDb _ (h ▸ IdGenerator.counter_nextNodeId hdb)
    | edge => exact skip_onDb _ (h ▸ rfl)
  | insertEdge source target label weight properties =>
    -- without its ends the edge draws no id
    cases hends : s.db.hasEnds source target with
    | false =>
      obtain ⟨e, h⟩ := LayeredGraphDatabase.insertEdge_of_not_hasEnds ord label weight properties
        hends
      cases k with
      | node => exact skip_onDb _ (h ▸ rfl)
      | edge =>
        rw [draw, hends]
        exact skip_onDb _ (h ▸ rfl)
    | true =>
      have h := (LayeredGraphDatabase.insertEdge_ids ord label weight properties hends).1
      cases k with
      | node => exact skip_onDb _ (h ▸ rfl)
      | edge =>
        rw [draw, hends] at hdb ⊢
        exact draw_onDb _ (h ▸ IdGenerator.counter_nextEdgeId hdb)
  | deleteNode id =>
    have h := congrArg (·.counter k) (LayeredGraphDatabase.keepsIds_deleteNode ord id s.db)
    cases k <;> exact skip_onDb _ h
  | deleteEdge id =>
    have h := congrArg (·.counter k) (LayeredGraphDatabase.keepsIds_deleteEdge ord id s.db)
    cases k <;> exact skip_onDb _ h
  | beginTransaction =>
    -- the transaction starts with a copy of the counters
    have hclone : Step (s.counters k) none
        (s.counters k ++ [s.db.idGenerator.counter k]) := .clone rfl
    have heq : (step (ord, .beginTransaction) s).2.counters k =
        s.counters k ++ [s.db.idGenerator.counter k] :=
      congrArg (_ :: ·) List.map_append
    rw [heq]
    cases k <;> exact hclone
  | stageInsertNode t label properties =>
    cases k with
    | node => exact draw_onOpen t hroom fun txn => IdGenerator.counter_nextNodeId
    | edge => exact skip_onOpen t fun txn => rfl
  | stageInsertEdge t source target label weight properties =>
    cases k with
    | node => exact skip_onOpen t fun txn => rfl
    | edge => exact draw_onOpen t hroom fun txn => IdGenerator.counter_nextEdgeId
  | stageDeleteNode t id => cases k <;> exact skip_onOpen t fun txn => rfl
  | stageDeleteEdge t id => cases k <;> exact skip_onOpen t fun txn => rfl
  | commitTransaction t =>
    -- the ids of the operations that were applied raise the counters of the database
    have hend := raise_onEnd (k := k) (s := s) t
      (f := fun txn => onDb (LayeredGraphDatabase.commitTransaction ord txn) .committed) hw hlt
      (fun txn s => by
        rw [onDb_snd]
        exact LayeredGraphDatabase.commitTransaction_ids ord txn s.db)
      (fun txn s => by rw [onDb_snd])
    cases k <;> exact hend
  | rollbackTransaction t =>
    -- all staged ids raise them
    have hend := raise_onEnd (k := k) (s := s) t
      (f := fun txn s =>
        (.done, { s with db := LayeredGraphDatabase.rollbackTransaction txn s.db })) hw hlt
      (fun txn s => ⟨txn.operations.length, by rw [List.take_length]; rfl⟩)
      (fun _ _ => rfl)
    cases k <;> exact hend

theorem WellStaged.step (hw : s.WellStaged) (call : HashOrder × SessionCall)
    (hroom : ∀ k, ∀ c ∈ s.counters k, c + (draw k call.2 s).toList.length < 2 ^ 64) :
    (step call s).2.WellStaged := by
  obtain ⟨ord, call⟩ := call
  cases call with
  | insertNode label properties => exact hw.onDb _ _
  | insertEdge source target label weight properties => exact hw.onDb _ _
  | deleteNode id => exact hw.onDb _ _
  | deleteEdge id => exact hw.onDb _ _
  | beginTransaction =>
    intro p hp
    rcases List.mem_append.mp hp with hmem | hmem
    · exact hw p hmem
    · obtain rfl := List.mem_singleton.mp hmem
      exact fun op hop => absurd hop List.not_mem_nil
  | stageInsertNode t label properties =>
    exact hw.onOpen fun txn hopen h =>
      h.stageInsertNode (room_openCounter (hopen .node) (hroom .node)) label properties
  | stageInsertEdge t source target label weight properties =>
    exact hw.onOpen fun txn hopen h =>
      h.stageInsertEdge (room_openCounter (hopen .edge) (hroom .edge)) source target label weight
        properties
  | stageDeleteNode t id =>
    exact hw.onOpen fun txn _ h => h.stageDelete fun k => by cases k <;> rfl
  | stageDeleteEdge t id =>
    exact hw.onOpen fun txn _ h => h.stageDelete fun k => by cases k <;> rfl
  | commitTransaction t => exact hw.onEnd fun txn s => by rw [onDb_snd]
  | rollbackTransaction t => exact hw.onEnd fun _ _ => rfl

/-! ## Runs -/

/-- An id that a call returns has been drawn. -/
theorem draw_of_id {call : HashOrder × SessionCall} {x : ℕ}
    (h : (step call s).1.id k = some x) : draw k call.2 s = some x := by
  obtain ⟨ord, call⟩ := call
  cases call with
  | insertNode label properties =>
    obtain ⟨id, hok, hx⟩ := id_onDb h
    obtain rfl := (LayeredGraphDatabase.insertNode_ids ord label properties s.db).2 id hok
    cases k with
    | node => exact hx
    | edge => cases hx
  | insertEdge source target label weight properties =>
    obtain ⟨id, hok, hx⟩ := id_onDb h
    -- only an edge with both ends is answered with an id
    cases hends : s.db.hasEnds source target with
    | false =>
      obtain ⟨e, herr⟩ := LayeredGraphDatabase.insertEdge_of_not_hasEnds ord label weight
        properties hends
      rw [herr] at hok
      cases hok
    | true =>
      obtain rfl := (LayeredGraphDatabase.insertEdge_ids ord label weight properties hends).2 id hok
      cases k with
      | node => cases hx
      | edge =>
        rw [draw, hends]
        exact hx
  | deleteNode id =>
    obtain ⟨_, _, hx⟩ := id_onDb h
    cases k <;> cases hx
  | deleteEdge id =>
    obtain ⟨_, _, hx⟩ := id_onDb h
    cases k <;> cases hx
  | beginTransaction => cases k <;> cases h
  | stageInsertNode t label properties =>
    obtain ⟨txn, hopen, hx⟩ := id_onOpen h
    cases k with
    | node => exact hopen.trans hx
    | edge => cases hx
  | stageInsertEdge t source target label weight properties =>
    obtain ⟨txn, hopen, hx⟩ := id_onOpen h
    cases k with
    | node => cases hx
    | edge => exact hopen.trans hx
  | stageDeleteNode t id =>
    obtain ⟨_, _, hx⟩ := id_onOpen h
    cases k <;> cases hx
  | stageDeleteEdge t id =>
    obtain ⟨_, _, hx⟩ := id_onOpen h
    cases k <;> cases hx
  | commitTransaction t =>
    obtain ⟨txn, s', hx⟩ := id_onEnd h
    obtain ⟨_, _, hx⟩ := id_onDb hx
    cases k <;> cases hx
  | rollbackTransaction t =>
    obtain ⟨_, _, hx⟩ := id_onEnd h
    cases k <;> cases hx

/-- What a run allocates of a k, in order; an insertion that fails in the storage has
allocated, too. -/
def allocated (k : IdKind) (calls : List (HashOrder × SessionCall)) (s : Session S C) :
    List ℕ := Counters.draws (fun call s => draw k call.2 s) step calls s

/-- Every call that allocates does so from a counter that is not behind the database's nor
behind the one of any transaction begun on it, ended ones included. -/
def LeadsAlong (calls : List (HashOrder × SessionCall)) (s : Session S C) : Prop :=
  ∀ k, Machine.Along (fun call s => Counters.Leads (s.counters k) (draw k call.2 s)) step
    calls s

/-- Every id that is allocated is returned. -/
def NoneLost (calls : List (HashOrder × SessionCall)) (s : Session S C) : Prop :=
  ∀ k, Machine.Along (fun call s => (step call s).1.id k = draw k call.2 s) step calls s

/-- No id is returned twice. -/
def DistinctIds (replies : List SessionReply) : Prop :=
  ∀ k, (replies.filterMap (SessionReply.id k)).Nodup

theorem allocated_cons (call : HashOrder × SessionCall) (calls : List (HashOrder × SessionCall))
    (s : Session S C) : allocated k (call :: calls) s =
      (draw k call.2 s).toList ++ allocated k calls (step call s).2 :=
  Counters.draws_cons _ _ _

/-- The counters have room for what a run allocates. -/
def Room (calls : List (HashOrder × SessionCall)) (s : Session S C) : Prop :=
  ∀ k, ∀ c ∈ s.counters k, c + (allocated k calls s).length < 2 ^ 64

variable {call : HashOrder × SessionCall} {calls : List (HashOrder × SessionCall)}

theorem Room.head (h : Room (call :: calls) s) (k : IdKind) :
    ∀ c ∈ s.counters k, c + (draw k call.2 s).toList.length < 2 ^ 64 := by
  intro c hc
  have := h k c hc
  rw [allocated_cons, List.length_append] at this
  omega

theorem Room.tail (h : Room (call :: calls) s) (hw : s.WellStaged) :
    Room calls (step call s).2 := by
  intro k c hc
  have hlen := congrArg List.length (allocated_cons (k := k) call calls s)
  rw [List.length_append] at hlen
  have hle := (step_counters call hw (h.head k)).bound
    (n := 2 ^ 64 - 1 - (allocated k (call :: calls) s).length)
    (fun c hc => Nat.le_sub_of_add_le (Nat.le_sub_one_of_lt (h k c hc))) c hc
  have hfits := h k _ List.mem_cons_self
  omega

/-- Along a whole run the parties take steps of counters. -/
theorem along_step (h : Room calls s) (hw : s.WellStaged) (k : IdKind) :
    Machine.Along (fun call s => Step (s.counters k) (draw k call.2 s)
      ((step call s).2.counters k)) step calls s := by
  induction calls generalizing s with
  | nil => trivial
  | cons call calls ih =>
    exact ⟨step_counters call hw (h.head k), ih (h.tail hw) (hw.step call h.head)⟩

theorem returned_sublist (k : IdKind) (calls : List (HashOrder × SessionCall))
    (s : Session S C) :
    ((run calls s).1.filterMap (SessionReply.id k)).Sublist (allocated k calls s) := by
  induction calls generalizing s with
  | nil => exact .slnil
  | cons call calls ih =>
    have htail := ih (step call s).2
    rw [allocated_cons]
    change (((step call s).1 :: (run calls (step call s).2).1).filterMap _).Sublist _
    cases hid : (step call s).1.id k with
    | none =>
      rw [List.filterMap_cons_none hid]
      exact htail.trans (List.sublist_append_right _ _)
    | some x =>
      rw [List.filterMap_cons_some hid, draw_of_id hid]
      exact htail.cons_cons x

theorem returned_eq (h : NoneLost calls s) (k : IdKind) :
    (run calls s).1.filterMap (SessionReply.id k) = allocated k calls s := by
  induction calls generalizing s with
  | nil => rfl
  | cons call calls ih =>
    have htail := ih fun k => (h k).2
    have hhead := (h k).1
    rw [allocated_cons, ← htail, ← hhead]
    change ((step call s).1 :: (run calls (step call s).2).1).filterMap _ = _
    rw [List.filterMap_cons]
    cases (step call s).1.id k <;> rfl

/-- Before any transaction the run starts with one counter of each k. Ids are then
returned once if every allocation leads, and, unless a failed insertion loses one, only
then. -/
theorem distinctIds_iff_leadsAlong (calls : List (HashOrder × SessionCall)) (s : Session S C)
    (hnew : s.transactions = [])
    (hroom : ∀ k, s.db.idGenerator.counter k + (allocated k calls s).length < 2 ^ 64) :
    (LeadsAlong calls s → DistinctIds (run calls s).1) ∧
      (NoneLost calls s → DistinctIds (run calls s).1 → LeadsAlong calls s) := by
  have hcounters (k : IdKind) : s.counters k = [s.db.idGenerator.counter k] := by
    rw [counters, hnew, List.map_nil]
  have hr : Room calls s := by
    intro k c hc
    rw [hcounters k] at hc
    obtain rfl := List.mem_singleton.mp hc
    exact hroom k
  have hw : s.WellStaged := by
    intro t ht
    rw [hnew] at ht
    cases ht
  have hiff (k : IdKind) := Counters.nodup_draws_iff (hcounters k) (along_step hr hw k)
  constructor
  · intro hlead k
    exact ((hiff k).mpr (hlead k)).sublist (returned_sublist k calls s)
  · intro hlost hdistinct k
    apply (hiff k).mp
    have := hdistinct k
    rwa [returned_eq hlost k] at this

end

/-! ## A direct insertion next to an open transaction -/

/-- The first session on a new file. -/
def newSession : Session BinaryFileStorage (NoCache ⊕ LruCache) := ⟨.newDatabase, 1, []⟩

/-- A transaction is begun, a node inserted directly, and another one staged. -/
def overlappingCalls : List (HashOrder × SessionCall) :=
  [(.sorted, .beginTransaction), (.sorted, .insertNode "A" ∅),
    (.sorted, .stageInsertNode 0 "B" ∅)]

/-- The same, with the direct insertion behind the commit, and an edge. -/
def consecutiveCalls : List (HashOrder × SessionCall) :=
  [(.sorted, .beginTransaction), (.sorted, .stageInsertNode 0 "B" ∅),
    (.sorted, .commitTransaction 0), (.sorted, .insertNode "A" ∅),
    (.sorted, .insertEdge ⟨0⟩ ⟨1⟩ "E" (F64.ofInt 1) ∅)]

/-- Both nodes get the id 0. -/
theorem overlappingCalls_repeat_id :
    LayeredGraphDatabase.openWithConfig .sorted (FileStorage.openPath none) (.inl .mk) .new
        .default = .ok newSession.db ∧
      (∀ kind, newSession.db.idGenerator.counter kind +
        (allocated kind overlappingCalls newSession).length < 2 ^ 64) ∧
      ¬ DistinctIds (run overlappingCalls newSession).1 := by
  refine ⟨rfl, ?_, ?_⟩
  · intro kind
    cases kind <;> decide +kernel
  · intro h
    have hids : (run overlappingCalls newSession).1.filterMap (SessionReply.id .node) = [0, 0] := by
      decide +kernel
    have hnode := h .node
    rw [hids] at hnode
    exact absurd hnode (by decide)

theorem consecutiveCalls_distinctIds : DistinctIds (run consecutiveCalls newSession).1 := by
  apply (distinctIds_iff_leadsAlong consecutiveCalls newSession rfl _).1
  · intro kind
    cases kind <;> decide +kernel
  · intro kind
    cases kind <;> decide +kernel

end Session

end AdGraphDb
