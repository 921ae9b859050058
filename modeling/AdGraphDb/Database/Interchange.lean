import AdGraphDb.Database.Serial

/-!
# The adapters cannot be told apart

Two databases with storages, caches, indexed fields and hash orders of their own are given the
same calls and the same transactions. They draw the same ids, and answer the same up to the
order of a list.
-/

namespace AdGraphDb
open Std AdGraphDb.Action

/-- The same call, or a reopening with whatever cache and configuration. -/
inductive Call.Same : Call → Call → Prop
  | refl (c : Call) : Same c c
  | reopen {cache cache' : CacheAdapter} {config config' : DatabaseConfig} :
    Same (.reopen cache config) (.reopen cache' config')

inductive Work.Same : Work → Work → Prop
  | call {c c' : Call} (h : c.Same c') : Same (.call c) (.call c')
  | transact (c : TransactionCall) : Same (.transact c) (.transact c)

/-- Answers that differ in the order of a list at most. -/
inductive Reply.Alike : Except GraphError Reply → Except GraphError Reply → Prop
  | refl (r : Except GraphError Reply) : Alike r r
  | nodes {nodes nodes' : List Node} (h : nodes.Perm nodes') :
    Alike (.ok (.nodes nodes)) (.ok (.nodes nodes'))
  | edges {edges edges' : List Edge} (h : edges.Perm edges') :
    Alike (.ok (.edges edges)) (.ok (.edges edges'))
  | neighbors {neighbors neighbors' : List Neighbor} (h : neighbors.Perm neighbors') :
    Alike (.ok (.neighbors neighbors)) (.ok (.neighbors neighbors'))

namespace WorkReply

inductive Alike : WorkReply → WorkReply → Prop
  | reply {r r' : Except GraphError Reply} (h : Reply.Alike r r') : Alike (.reply r) (.reply r')
  | session (r : SessionReply) : Alike (.session r) (.session r)

/-- The id of a kind that the answer hands out. -/
def id (kind : IdKind) : WorkReply → Option ℕ
  | reply r => Reply.id kind r
  | session r => r.id kind

end WorkReply

/-! ## The plain graph leaves only the ids open -/

theorem NodeId.toNat_injective {id id' : NodeId} (h : id.val.toNat = id'.val.toNat) : id = id' := by
  cases id
  cases id'
  exact congrArg _ (UInt64.toNat_inj.mp h)

theorem EdgeId.toNat_injective {id id' : EdgeId} (h : id.val.toNat = id'.val.toNat) : id = id' := by
  cases id
  cases id'
  exact congrArg _ (UInt64.toNat_inj.mp h)

/-- Answers to the same call on one graph. -/
theorem PlainGraph.Answers.alike {g g₁ g₂ : PlainGraph} {c c' : Call}
    {r r' : Except GraphError Reply} (h : g.Answers c r g₁) (h' : g.Answers c' r' g₂)
    (hc : c.Same c')
    (hid : ∀ kind x y, Reply.id kind r = some x → Reply.id kind r' = some y → x = y) :
    Reply.Alike r r' ∧ g₁ = g₂ := by
  cases hc with
  | reopen =>
    cases h
    cases h'
    exact ⟨.refl _, rfl⟩
  | refl =>
    cases h with
    | insertNode fresh =>
      cases h' with
      | insertNode fresh' =>
        obtain rfl := NodeId.toNat_injective (hid .node _ _ rfl rfl)
        exact ⟨.refl _, rfl⟩
    | insertEdge hs ht fresh =>
      cases h' with
      | insertEdge hs' ht' fresh' =>
        obtain rfl := EdgeId.toNat_injective (hid .edge _ _ rfl rfl)
        exact ⟨.refl _, rfl⟩
      | noSource hs' => exact absurd hs hs'
      | noTarget hs' ht' => exact absurd ht ht'
    | noSource hs =>
      cases h' with
      | noSource hs' => exact ⟨.refl _, rfl⟩
      | insertEdge hs' ht' fresh' => exact absurd hs' hs
      | noTarget hs' ht' => exact absurd hs' hs
    | noTarget hs ht =>
      cases h' with
      | noTarget hs' ht' => exact ⟨.refl _, rfl⟩
      | insertEdge hs' ht' fresh' => exact absurd ht' ht
      | noSource hs' => exact absurd hs hs'
    | allNodes hp =>
      cases h' with
      | allNodes hp' => exact ⟨.nodes (hp.trans hp'.symm), rfl⟩
    | allEdges hp =>
      cases h' with
      | allEdges hp' => exact ⟨.edges (hp.trans hp'.symm), rfl⟩
    | nodesByLabel hp =>
      cases h' with
      | nodesByLabel hp' => exact ⟨.nodes (hp.trans hp'.symm), rfl⟩
    | neighborsOutgoing hp =>
      cases h' with
      | neighborsOutgoing hp' => exact ⟨.neighbors (hp.trans hp'.symm), rfl⟩
    | neighborsIncoming hp =>
      cases h' with
      | neighborsIncoming hp' => exact ⟨.neighbors (hp.trans hp'.symm), rfl⟩
    | nodeCount hn =>
      cases h' with
      | nodeCount hn' => exact ⟨hn ▸ hn' ▸ .refl _, rfl⟩
    | edgeCount hn =>
      cases h' with
      | edgeCount hn' => exact ⟨hn ▸ hn' ▸ .refl _, rfl⟩
    | labelCount hn =>
      cases h' with
      | labelCount hn' => exact ⟨hn ▸ hn' ▸ .refl _, rfl⟩
    | deleteNode | deleteEdge | getNode | getEdge | compact | reopen =>
      cases h'
      exact ⟨.refl _, rfl⟩

theorem PlainSession.transaction_unique {p : PlainSession} {t : Nat} {ops ops' : List StagedOp}
    (h : p.transactions[t]? = some (ops, true)) (h' : p.transactions[t]? = some (ops', true)) :
    ops = ops' := congrArg Prod.fst (Option.some.inj (h.symm.trans h'))

theorem PlainSession.Answers.alike {p p₁ p₂ : PlainSession} {w w' : Work} {r r' : WorkReply}
    (h : p.Answers w r p₁) (h' : p.Answers w' r' p₂) (hw : w.Same w')
    (hid : ∀ kind x y, r.id kind = some x → r'.id kind = some y → x = y) :
    r.Alike r' ∧ p₁ = p₂ := by
  cases hw with
  | call hc =>
    cases h with
    | call hg new =>
      cases h' with
      | call hg' new' =>
        obtain ⟨hr, rfl⟩ := hg.alike hg' hc hid
        exact ⟨.reply hr, rfl⟩
  | transact c =>
    cases h with
    | begin =>
      cases h' with
      | begin => exact ⟨.session _, rfl⟩
      | ended hc => cases hc
    | insertNode ht new =>
      cases h' with
      | insertNode ht' new' =>
        obtain rfl := NodeId.toNat_injective (hid .node _ _ rfl rfl)
        obtain rfl := transaction_unique ht ht'
        exact ⟨.session _, rfl⟩
      | ended hc hclosed =>
        cases hc
        exact absurd ht (hclosed _)
    | insertEdge ht new =>
      cases h' with
      | insertEdge ht' new' =>
        obtain rfl := EdgeId.toNat_injective (hid .edge _ _ rfl rfl)
        obtain rfl := transaction_unique ht ht'
        exact ⟨.session _, rfl⟩
      | ended hc hclosed =>
        cases hc
        exact absurd ht (hclosed _)
    | deleteNode ht id =>
      cases h' with
      | deleteNode ht' =>
        obtain rfl := transaction_unique ht ht'
        exact ⟨.session _, rfl⟩
      | ended hc hclosed =>
        cases hc
        exact absurd ht (hclosed _)
    | deleteEdge ht id =>
      cases h' with
      | deleteEdge ht' =>
        obtain rfl := transaction_unique ht ht'
        exact ⟨.session _, rfl⟩
      | ended hc hclosed =>
        cases hc
        exact absurd ht (hclosed _)
    | commit ht hg =>
      cases h' with
      | commit ht' hg' =>
        obtain rfl := transaction_unique ht ht'
        obtain rfl := Except.ok.inj (hg.symm.trans hg')
        exact ⟨.session _, rfl⟩
      | ended hc hclosed =>
        cases hc
        exact absurd ht (hclosed _)
    | rollback ht =>
      cases h' with
      | rollback ht' =>
        obtain rfl := transaction_unique ht ht'
        exact ⟨.session _, rfl⟩
      | ended hc hclosed =>
        cases hc
        exact absurd ht (hclosed _)
    | ended hc hclosed =>
      cases h' with
      | ended hc' hclosed' => exact ⟨.session _, rfl⟩
      | begin => cases hc
      | insertNode ht | insertEdge ht | deleteNode ht | deleteEdge ht | commit ht | rollback ht =>
        cases hc
        exact absurd ht (hclosed _)

/-! ## The counters of two databases on one graph -/

theorem IdGenerator.ext_counter {ids ids' : IdGenerator}
    (h : ∀ kind, ids.counter kind = ids'.counter kind) : ids = ids' := by
  have hn : ids.nextNode = ids'.nextNode := UInt64.toNat_inj.mp (h .node)
  have he : ids.nextEdge = ids'.nextEdge := UInt64.toNat_inj.mp (h .edge)
  cases ids
  cases ids'
  cases hn
  cases he
  rfl

namespace LayeredGraphDatabase.Sync

variable {S S' : Type} [FileStorage S] [FileStorage S'] {L : StorageSpec S} {L' : StorageSpec S'}
  {db : LayeredGraphDatabase S (NoCache ⊕ LruCache)}
  {db' : LayeredGraphDatabase S' (NoCache ⊕ LruCache)} {g : PlainGraph}

/-- After a reopening no counters above the stored ids are smaller. -/
theorem reopen_least (h : Sync L db g) (ord : HashOrder) (cache : CacheAdapter)
    (config : DatabaseConfig) :
    (perform ord (.reopen cache config) db).2.idGenerator.Above g ∧
      ∀ ids : IdGenerator, ids.Above g → ∀ kind,
        (perform ord (.reopen cache config) db).2.idGenerator.counter kind ≤ ids.counter kind := by
  have hopen (ids : IdGenerator) (hids : ids.Above g) := openWithConfig_sync L ord config
    (show L.Valid (FileStorage.reopen db.storage) from (L.reopen_eq db.storage).symm ▸ h.valid)
    h.wellFormed (by rw [L.reopen_eq, h.stored]) cache.empty_new (UInt64.toNat_lt _)
    (UInt64.toNat_lt _) (fun id hid => UInt64.lt_iff_toNat_lt.mp (hids.node id hid))
    fun id hid => UInt64.lt_iff_toNat_lt.mp (hids.edge id hid)
  obtain ⟨opened, hok, hsync, -⟩ := hopen db.idGenerator h.ids
  have hreopen : reopen ord cache config db = (.ok (), opened) := by
    rw [reopen, hok]
  rw [perform, bind_ok hreopen]
  refine ⟨hsync.ids, fun ids hids kind => ?_⟩
  obtain ⟨opened', hok', -, hn, he⟩ := hopen ids hids
  obtain rfl := Except.ok.inj (hok.symm.trans hok')
  cases kind with
  | node => exact hn
  | edge => exact he

/-- Both reopenings leave the least counters. -/
theorem reopen_ids (h : Sync L db g) (h' : Sync L' db' g) (ord ord' : HashOrder)
    (cache cache' : CacheAdapter) (config config' : DatabaseConfig) :
    (perform ord (.reopen cache config) db).2.idGenerator =
      (perform ord' (.reopen cache' config') db').2.idGenerator := by
  obtain ⟨habove, hleast⟩ := h.reopen_least ord cache config
  obtain ⟨habove', hleast'⟩ := h'.reopen_least ord' cache' config'
  exact IdGenerator.ext_counter fun kind =>
    Nat.le_antisymm (hleast _ habove' kind) (hleast' _ habove kind)

theorem hasEnds_eq (h : Sync L db g) (h' : Sync L' db' g) (source target : NodeId) :
    db.hasEnds source target = db'.hasEnds source target := by
  have hcontains (id : NodeId) : db.engine.containsNode id = db'.engine.containsNode id :=
    Bool.eq_iff_iff.mpr ((h.engine.containsNode id).trans (h'.engine.containsNode id).symm)
  rw [hasEnds, hasEnds, hcontains, hcontains]

/-- A call that neither inserts nor reopens. -/
theorem perform_keepsIds (h : Sync L db g) (ord : HashOrder) {c : Call}
    (hnode : ∀ label properties, c ≠ .insertNode label properties)
    (hedge : ∀ source target label weight properties,
      c ≠ .insertEdge source target label weight properties)
    (hopen : ∀ cache config, c ≠ .reopen cache config) :
    (perform ord c db).2.idGenerator = db.idGenerator := by
  have of_returns {α : Type} {a : DatabaseAction S (NoCache ⊕ LruCache) α} (r : α → Reply)
      (ha : Returns a db fun _ after => after.idGenerator = db.idGenerator) :
      ((do return r (← a) : DatabaseAction S (NoCache ⊕ LruCache) Reply) db).2.idGenerator =
        db.idGenerator := by
    obtain ⟨v, after, hrun, hids⟩ := ha
    rw [snd_bind_return, hrun]
    exact hids
  cases c with
  | insertNode label properties => exact absurd rfl (hnode label properties)
  | insertEdge source target label weight properties =>
    exact absurd rfl (hedge source target label weight properties)
  | reopen cache config => exact absurd rfl (hopen cache config)
  | deleteNode id =>
    exact of_returns (fun _ => .done) ((h.deleteNode ord id).mono fun _ _ hs => hs.2)
  | deleteEdge id =>
    exact of_returns (fun _ => .done) ((h.deleteEdge ord id).mono fun _ _ hs => hs.2)
  | compact => exact of_returns (fun _ => .done) ((h.compact ord).mono fun _ _ hs => hs.2)
  | getNode id => exact of_returns .node ((h.getNode ord id).mono fun _ _ hs => hs.2.2)
  | getEdge id => exact of_returns .edge ((h.getEdge ord id).mono fun _ _ hs => hs.2.2)
  | allNodes => exact of_returns .nodes ((h.allNodes ord).mono fun _ _ hs => hs.2.2)
  | allEdges => exact of_returns .edges ((h.allEdges ord).mono fun _ _ hs => hs.2.2)
  | nodesByLabel label =>
    exact of_returns .nodes ((h.nodesByLabel ord label).mono fun _ _ hs => hs.2.2)
  | nodeCount | edgeCount | labelCount | neighborsOutgoing | neighborsIncoming => rfl

/-- Equal counters stay equal. -/
theorem perform_ids (h : Sync L db g) (h' : Sync L' db' g) (ord ord' : HashOrder) {c c' : Call}
    (hc : c.Same c') (hids : db.idGenerator = db'.idGenerator) :
    (perform ord c db).2.idGenerator = (perform ord' c' db').2.idGenerator := by
  cases hc with
  | reopen => exact h.reopen_ids h' ord ord' _ _ _ _
  | refl =>
    cases c with
    | insertNode label properties =>
      rw [perform, perform, snd_bind_return, snd_bind_return, (insertNode_ids ord _ _ _).1,
        (insertNode_ids ord' _ _ _).1, hids]
    | insertEdge source target label weight properties =>
      rw [perform, perform, snd_bind_return, snd_bind_return]
      cases hends : db.hasEnds source target with
      | false =>
        obtain ⟨e, hrun⟩ := insertEdge_of_not_hasEnds ord label weight properties hends
        rw [h.hasEnds_eq h'] at hends
        obtain ⟨e', hrun'⟩ := insertEdge_of_not_hasEnds ord' label weight properties hends
        rw [hrun, hrun']
        exact hids
      | true =>
        have hdrawn := (insertEdge_ids ord label weight properties hends).1
        rw [h.hasEnds_eq h'] at hends
        rw [hdrawn, (insertEdge_ids ord' label weight properties hends).1, hids]
    | reopen cache config => exact h.reopen_ids h' ord ord' cache cache config config
    | _ =>
      rw [h.perform_keepsIds ord, h'.perform_keepsIds ord', hids]
      all_goals intros; intro heq; cases heq

end LayeredGraphDatabase.Sync

namespace Session

/-! ## Two sessions on one plain graph -/

section

variable {S : Type}

/-- What the transactions are about, whatever their numbers in the log. -/
def outline (s : Session S (NoCache ⊕ LruCache)) : List (IdGenerator × List StagedOp × Bool) :=
  s.transactions.map fun t => (t.1.idGen, t.1.operations, t.2)

theorem counters_eq (s : Session S (NoCache ⊕ LruCache)) (kind : IdKind) : s.counters kind =
    s.db.idGenerator.counter kind :: s.outline.map fun t => t.1.counter kind := by
  rw [counters, outline, List.map_map]
  rfl

theorem outline_set {s after : Session S (NoCache ⊕ LruCache)} {t : Nat} {txn : Transaction}
    {isOpen : Bool} (h : after.transactions = s.transactions.set t (txn, isOpen)) :
    after.outline = s.outline.set t (txn.idGen, txn.operations, isOpen) := by
  rw [outline, h, List.map_set]
  rfl

theorem onOpen_db (s : Session S (NoCache ⊕ LruCache)) (t : Nat)
    (f : Transaction → SessionReply × Transaction) : (onOpen t f s).2.db = s.db := by
  rcases open_cases t s with ⟨txn, ht, -⟩ | ⟨-, hid, -⟩
  · rw [onOpen_of_some ht]
  · rw [hid f]

end

variable {S S' : Type} [FileStorage S] [FileStorage S']

/-- Two databases with their transactions that are seen from one plain graph, with the same
counters. -/
structure Twins (L : StorageSpec S) (L' : StorageSpec S') (n : ℕ)
    (s : Session S (NoCache ⊕ LruCache)) (s' : Session S' (NoCache ⊕ LruCache))
    (p : PlainSession) : Prop where
  first : Mirrors L n s p
  second : Mirrors L' n s' p
  ids : s.db.idGenerator = s'.db.idGenerator
  outline : s.outline = s'.outline

variable {L : StorageSpec S} {L' : StorageSpec S'} {n : ℕ}
  {s : Session S (NoCache ⊕ LruCache)} {s' : Session S' (NoCache ⊕ LruCache)} {p : PlainSession}
  {w w' : Work} {ord ord' : HashOrder}

namespace Twins

theorem counters (h : Twins L L' n s s' p) (kind : IdKind) :
    s.counters kind = s'.counters kind := by
  rw [counters_eq, counters_eq, h.ids, h.outline]

/-- A transaction is missing in both, or the same in both but for its number. -/
theorem transaction_cases (h : Twins L L' n s s' p) (t : Nat) :
    (s.transactions[t]? = none ∧ s'.transactions[t]? = none) ∨
      ∃ i j ops gen isOpen, s.transactions[t]? = some (⟨i, ops, gen⟩, isOpen) ∧
        s'.transactions[t]? = some (⟨j, ops, gen⟩, isOpen) := by
  have ht := congrArg (·[t]?) h.outline
  simp only [Session.outline, List.getElem?_map] at ht
  cases hs : s.transactions[t]? with
  | none =>
    rw [hs] at ht
    exact .inl ⟨rfl, Option.map_eq_none_iff.mp ht.symm⟩
  | some u =>
    rw [hs] at ht
    obtain ⟨u', hs', heq⟩ := Option.map_eq_some_iff.mp ht.symm
    obtain ⟨⟨i, ops, gen⟩, isOpen⟩ := u
    obtain ⟨⟨j, ops', gen'⟩, isOpen'⟩ := u'
    cases heq
    exact .inr ⟨i, j, ops, gen, isOpen, rfl, hs'⟩

theorem openCounter (h : Twins L L' n s s' p) (kind : IdKind) (t : Nat) :
    s.openCounter kind t = s'.openCounter kind t := by
  unfold Session.openCounter
  rcases h.transaction_cases t with ⟨ht, ht'⟩ | ⟨i, j, ops, gen, isOpen, ht, ht'⟩
  · rw [ht, ht']
  · rw [ht, ht']
    cases isOpen <;> rfl

/-- Both draw the same ids. -/
theorem draw (h : Twins L L' n s s' p) (kind : IdKind) (c : SessionCall) :
    Session.draw kind c s = Session.draw kind c s' := by
  cases c with
  | insertNode label properties =>
    cases kind with
    | node => exact congrArg (fun ids => some (ids.counter .node)) h.ids
    | edge => rfl
  | insertEdge source target label weight properties =>
    cases kind with
    | node => rfl
    | edge =>
      rw [Session.draw, Session.draw, h.first.sync.hasEnds_eq h.second.sync, h.ids]
  | stageInsertNode t label properties =>
    cases kind with
    | node => exact h.openCounter .node t
    | edge => rfl
  | stageInsertEdge t source target label weight properties =>
    cases kind with
    | node => rfl
    | edge => exact h.openCounter .edge t
  | _ => cases kind <;> rfl

theorem drawWork (h : Twins L L' n s s' p) (hw : w.Same w') (kind : IdKind) :
    Session.drawWork kind w s = Session.drawWork kind w' s' := by
  cases hw with
  | transact c => cases kind <;> exact h.draw _ c.sessionCall
  | @call c c' hc =>
    cases hc with
    | reopen => cases kind <;> rfl
    | refl =>
      cases c with
      | insertNode label properties =>
        cases kind with
        | node => exact h.draw .node (.insertNode label properties)
        | edge => rfl
      | insertEdge source target label weight properties =>
        cases kind with
        | node => rfl
        | edge => exact h.draw .edge (.insertEdge source target label weight properties)
      | _ => cases kind <;> rfl

theorem committing (h : Twins L L' n s s' p) (hw : w.Same w') :
    Session.committing w s = Session.committing w' s' := by
  cases hw with
  | call hc => rfl
  | transact c =>
    cases c with
    | commit t =>
      rcases h.transaction_cases t with ⟨ht, ht'⟩ | ⟨i, j, ops, gen, isOpen, ht, ht'⟩
      · rw [Session.committing, Session.committing, ht, ht']
      · rw [Session.committing, Session.committing, ht, ht']
        cases isOpen <;> rfl
    | _ => rfl

/-- A transaction is open in both, or both have nothing to do for it. -/
theorem open_both (h : Twins L L' n s s' p) (t : Nat) :
    (∃ i j ops gen, s.transactions[t]? = some (⟨i, ops, gen⟩, true) ∧
      s'.transactions[t]? = some (⟨j, ops, gen⟩, true)) ∨
    ((∀ f, onOpen t f s = (.done, s)) ∧ ∀ f, onOpen t f s' = (.done, s')) ∧
      (∀ f, onEnd t f s = (.done, s)) ∧ ∀ f, onEnd t f s' = (.done, s') := by
  rcases open_cases t s with ⟨txn, ht, -⟩ | ⟨hclosed, hopen, hend⟩
  · rcases h.transaction_cases t with ⟨hnone, -⟩ | ⟨i, j, ops, gen, isOpen, hs, hs'⟩
    · cases hnone.symm.trans ht
    · cases hs.symm.trans ht
      exact .inl ⟨i, j, ops, gen, hs, hs'⟩
  · rcases open_cases t s' with ⟨txn, -, hcounter⟩ | ⟨-, hopen', hend'⟩
    · have hnone := hclosed .node
      rw [h.openCounter, hcounter] at hnone
      cases hnone
    · exact .inr ⟨⟨hopen, hopen'⟩, hend, hend'⟩

end Twins

/-- Only a commit can be answered with a failure. -/
theorem isFailure_work {c : TransactionCall} (hc : ∀ t, c ≠ .commit t) (ord : HashOrder)
    (s : Session S (NoCache ⊕ LruCache)) : (work ord (.transact c) s).1.isFailure = false := by
  have hstaged (t : Nat) (f : Transaction → SessionReply × Transaction)
      (hf : ∀ txn, WorkReply.isFailure (.session (f txn).1) = false) :
      WorkReply.isFailure (.session (onOpen t f s).1) = false := by
    rcases open_cases t s with ⟨txn, ht, -⟩ | ⟨-, hid, -⟩
    · rw [onOpen_of_some ht]
      exact hf txn
    · rw [hid f]
      rfl
  cases c with
  | begin => rfl
  | insertNode t label properties => exact hstaged t _ fun _ => rfl
  | insertEdge t source target label weight properties => exact hstaged t _ fun _ => rfl
  | deleteNode t id => exact hstaged t _ fun _ => rfl
  | deleteEdge t id => exact hstaged t _ fun _ => rfl
  | commit t => exact absurd rfl (hc t)
  | rollback t =>
    change WorkReply.isFailure (.session (onEnd t (fun txn s =>
      (.done, { s with db := LayeredGraphDatabase.rollbackTransaction txn s.db })) s).1) = false
    rcases open_cases t s with ⟨txn, ht, -⟩ | ⟨-, -, hid⟩
    · rw [onEnd_of_some ht]
      rfl
    · rw [hid]
      rfl

/-- What a configuration has to allow. -/
def Settles (w : HashOrder × Work) (s : Session S (NoCache ⊕ LruCache)) : Prop :=
  LayeredGraphDatabase.Settles (committing w.2 s) s.db

namespace Twins

/-- What is in order in the first is so in the second, if this can commit it. -/
theorem orderly (h : Twins L L' n s s' p) (hw : w.Same w') (ho : Orderly (ord, w) s)
    (hsettles : Settles (ord', w') s') : Orderly (ord', w') s' := by
  have hnode := ho.node
  have hedge := ho.edge
  have hapart := ho.apart
  rw [h.counters, h.drawWork hw] at hnode hedge
  rw [h.committing hw] at hapart
  refine ⟨hnode, hedge, hapart, hsettles, ?_⟩
  cases hw with
  | call hc => rfl
  | transact c =>
    by_cases hc : ∀ t, c ≠ .commit t
    · exact isFailure_work hc ord' s'
    push Not at hc
    obtain ⟨t, rfl⟩ := hc
    rcases h.open_both t with ⟨i, j, ops, gen, ht, ht'⟩ | ⟨-, -, hend'⟩
    · -- the plain graph commits, so the second does
      obtain ⟨g, db, hg, -⟩ := h.first.commits ht ho
      rw [committing_of_some ht'] at hapart
      rw [Settles, committing_of_some ht'] at hsettles
      rcases h.second.commit_cases ord' ht' hapart hsettles with ⟨g', db', -, hdone, -⟩ | ⟨e, he, -⟩
      · change WorkReply.isFailure (.session (step (ord', .commitTransaction t) s').1) = false
        rw [hdone]
        rfl
      · cases hg.symm.trans he
    · change WorkReply.isFailure (.session (onEnd t _ s').1) = false
      rw [hend']
      rfl

theorem onOpen (h : Twins L L' n s s' p) (t : Nat) {f : Transaction → SessionReply × Transaction}
    (hf : ∀ i j ops gen, (f ⟨i, ops, gen⟩).2.idGen = (f ⟨j, ops, gen⟩).2.idGen ∧
      (f ⟨i, ops, gen⟩).2.operations = (f ⟨j, ops, gen⟩).2.operations) :
    (Session.onOpen t f s).2.db.idGenerator = (Session.onOpen t f s').2.db.idGenerator ∧
      (Session.onOpen t f s).2.outline = (Session.onOpen t f s').2.outline := by
  refine ⟨by rw [onOpen_db, onOpen_db, h.ids], ?_⟩
  rcases h.open_both t with ⟨i, j, ops, gen, ht, ht'⟩ | ⟨⟨hopen, hopen'⟩, -⟩
  · obtain ⟨hgen, hops⟩ := hf i j ops gen
    rw [onOpen_of_some ht, onOpen_of_some ht']
    refine (outline_set rfl).trans ?_
    rw [h.outline, hgen, hops]
    exact (outline_set rfl).symm
  · rw [hopen, hopen']
    exact h.outline

/-- An end of the same transaction. -/
theorem closed (h : Twins L L' n s s' p) {after : Session S (NoCache ⊕ LruCache)}
    {after' : Session S' (NoCache ⊕ LruCache)} {t : Nat} {i j : UInt64}
    {ops : List StagedOp} {gen : IdGenerator}
    (ha : after.transactions = s.transactions.set t (⟨i, ops, gen⟩, false))
    (ha' : after'.transactions = s'.transactions.set t (⟨j, ops, gen⟩, false)) :
    after.outline = after'.outline := by
  rw [outline_set ha, outline_set ha', h.outline]

/-- The counters and the transactions stay the same in both. -/
theorem after (h : Twins L L' n s s' p) (hw : w.Same w') (ho : Orderly (ord, w) s)
    (ho' : Orderly (ord', w') s') :
    (work ord w s).2.db.idGenerator = (work ord' w' s').2.db.idGenerator ∧
      (work ord w s).2.outline = (work ord' w' s').2.outline := by
  cases hw with
  | call hc => exact ⟨h.first.sync.perform_ids h.second.sync ord ord' hc h.ids, h.outline⟩
  | transact c =>
    cases c with
    | begin =>
      refine ⟨h.ids, ?_⟩
      change List.map _ (s.transactions ++ [_]) = List.map _ (s'.transactions ++ [_])
      rw [List.map_append, List.map_append]
      exact congrArg₂ (· ++ ·) h.outline (congrArg (fun ids => [(ids, [], true)]) h.ids)
    | insertNode t label properties => exact h.onOpen t fun _ _ _ _ => ⟨rfl, rfl⟩
    | insertEdge t source target label weight properties =>
      exact h.onOpen t fun _ _ _ _ => ⟨rfl, rfl⟩
    | deleteNode t id => exact h.onOpen t fun _ _ _ _ => ⟨rfl, rfl⟩
    | deleteEdge t id => exact h.onOpen t fun _ _ _ _ => ⟨rfl, rfl⟩
    | commit t =>
      rcases h.open_both t with ⟨i, j, ops, gen, ht, ht'⟩ | ⟨-, hend, hend'⟩
      · obtain ⟨g, db, -, hdone, -, hids⟩ := h.first.commits ht ho
        obtain ⟨g', db', -, hdone', -, hids'⟩ := h.second.commits ht' ho'
        rw [h.ids] at hids
        change (step (ord, .commitTransaction t) s).2.db.idGenerator =
          (step (ord', .commitTransaction t) s').2.db.idGenerator ∧
          (step (ord, .commitTransaction t) s).2.outline =
            (step (ord', .commitTransaction t) s').2.outline
        rw [hdone, hdone']
        refine ⟨hids.trans hids'.symm, ?_⟩
        exact h.closed rfl rfl
      · change (Session.onEnd t _ s).2.db.idGenerator = (Session.onEnd t _ s').2.db.idGenerator ∧
          (Session.onEnd t _ s).2.outline = (Session.onEnd t _ s').2.outline
        rw [hend, hend']
        exact ⟨h.ids, h.outline⟩
    | rollback t =>
      let rollback {S : Type} (txn : Transaction) (s : Session S (NoCache ⊕ LruCache)) :
          SessionReply × Session S (NoCache ⊕ LruCache) :=
        (.done, { s with db := LayeredGraphDatabase.rollbackTransaction txn s.db })
      change (Session.onEnd t rollback s).2.db.idGenerator =
          (Session.onEnd t rollback s').2.db.idGenerator ∧
        (Session.onEnd t rollback s).2.outline = (Session.onEnd t rollback s').2.outline
      rcases h.open_both t with ⟨i, j, ops, gen, ht, ht'⟩ | ⟨-, hend, hend'⟩
      · rw [onEnd_of_some ht, onEnd_of_some ht']
        refine ⟨congrArg (ops.foldl StagedOp.seed) h.ids, ?_⟩
        exact h.closed rfl rfl
      · rw [hend, hend']
        exact ⟨h.ids, h.outline⟩

/-- An id that is answered has been drawn. -/
theorem drawWork_of_answer {r : WorkReply} {kind : IdKind} {x : ℕ} {p' : PlainSession}
    (h : Mirrors L n s p) (hr : (Session.work ord w s).1 = r) (ha : p.Answers w r p')
    (hx : r.id kind = some x) : Session.drawWork kind w s = some x := by
  subst hr
  cases w with
  | call c =>
    cases ha with
    | call hg new => exact drawWork_of_id h.sync hg hx
  | transact c => cases kind <;> exact draw_of_id hx

/-- One call, answered alike. -/
theorem work (h : Twins L L' (n + 1) s s' p) (hw : w.Same w') (ho : Orderly (ord, w) s)
    (hsettles : Settles (ord', w') s') (hi : w.Inserts L.NodeStorable L.EdgeStorable)
    (hi' : w'.Inserts L'.NodeStorable L'.EdgeStorable) :
    (Session.work ord w s).1.Alike (Session.work ord' w' s').1 ∧
      ∃ p', Twins L L' n (Session.work ord w s).2 (Session.work ord' w' s').2 p' := by
  have ho' := h.orderly hw ho hsettles
  obtain ⟨p₁, ha, hm⟩ := work_mirrors h.first ho hi
  obtain ⟨p₂, ha', hm'⟩ := work_mirrors h.second ho' hi'
  have hid : ∀ kind x y, (Session.work ord w s).1.id kind = some x →
      (Session.work ord' w' s').1.id kind = some y → x = y := by
    intro kind x y hx hy
    have hdraw := drawWork_of_answer h.first rfl ha hx
    have hdraw' := drawWork_of_answer h.second rfl ha' hy
    rw [h.drawWork hw] at hdraw
    exact Option.some.inj (hdraw.symm.trans hdraw')
  obtain ⟨halike, rfl⟩ := ha.alike ha' hw hid
  obtain ⟨hids, houtline⟩ := h.after hw ho ho'
  exact ⟨halike, p₁, hm, hm', hids, houtline⟩

theorem works {m : ℕ} {inputs inputs' : List (HashOrder × Work)}
    (h : Twins L L' (m + inputs.length) s s' p)
    (hsame : List.Forall₂ (fun w w' => w.2.Same w'.2) inputs inputs')
    (hinputs : ∀ w ∈ inputs, w.2.Inserts L.NodeStorable L.EdgeStorable)
    (hinputs' : ∀ w ∈ inputs', w.2.Inserts L'.NodeStorable L'.EdgeStorable)
    (ho : Machine.Along Orderly (fun w => Session.work w.1 w.2) inputs s)
    (hsettles : Machine.Along Settles (fun w => Session.work w.1 w.2) inputs' s') :
    List.Forall₂ WorkReply.Alike (Session.works inputs s).1 (Session.works inputs' s').1 ∧
      ∃ p', Twins L L' m (Session.works inputs s).2 (Session.works inputs' s').2 p' := by
  let R (inputs inputs' : List (HashOrder × Work)) (s : Session S (NoCache ⊕ LruCache))
      (s' : Session S' (NoCache ⊕ LruCache)) : Prop :=
    (∃ p, Twins L L' (m + inputs.length) s s' p) ∧
    (∀ w ∈ inputs, w.2.Inserts L.NodeStorable L.EdgeStorable) ∧
    (∀ w ∈ inputs', w.2.Inserts L'.NodeStorable L'.EdgeStorable) ∧
    Machine.Along Orderly (fun w => Session.work w.1 w.2) inputs s ∧
    Machine.Along Settles (fun w => Session.work w.1 w.2) inputs' s'
  have hstep : ∀ w w' inputs inputs' s s', w.2.Same w'.2 → R (w :: inputs) (w' :: inputs') s s' →
      (Session.work w.1 w.2 s).1.Alike (Session.work w'.1 w'.2 s').1 ∧
        R inputs inputs' (Session.work w.1 w.2 s).2 (Session.work w'.1 w'.2 s').2 := by
    rintro w w' inputs inputs' s s' hw ⟨⟨p, h⟩, hi, hi', ho, hsettles⟩
    obtain ⟨halike, hnext⟩ := h.work hw ho.1 hsettles.1 (hi w List.mem_cons_self)
      (hi' w' List.mem_cons_self)
    exact ⟨halike, hnext, fun v hv => hi v (List.mem_cons_of_mem w hv),
      fun v hv => hi' v (List.mem_cons_of_mem w' hv), ho.2, hsettles.2⟩
  obtain ⟨halike, hend, -⟩ := Machine.run_forall₂ hstep hsame
    (show R inputs inputs' s s' from ⟨⟨p, h⟩, hinputs, hinputs', ho, hsettles⟩)
  obtain ⟨p', hend⟩ := hend
  rw [List.length_nil, Nat.add_zero] at hend
  exact ⟨halike, p', hend⟩

end Twins

end Session

/-- Two new databases that are given the same work, each with its own storage, cache, indexed
fields and hash orders, and reopened with others at the same times: they answer alike, and end
with the same graph. -/
theorem adapters_answer_alike (a a' : StorageAdapter) (hs : a.Documented) (hs' : a'.Documented)
    (ord ord' : HashOrder) (cache cache' : CacheAdapter) (config config' : DatabaseConfig)
    (txnCounter txnCounter' : UInt64) (inputs inputs' : List (HashOrder × Work))
    (hsame : List.Forall₂ (fun w w' => w.2.Same w'.2) inputs inputs')
    (hinputs : ∀ w ∈ inputs, w.2.Inserts a.KeepsNode a.KeepsEdge)
    (hinputs' : ∀ w ∈ inputs', w.2.Inserts a'.KeepsNode a'.KeepsEdge)
    (hlen : inputs.length < 2 ^ 64) :
    ∃ (db : LayeredGraphDatabase a.Storage (NoCache ⊕ LruCache))
      (db' : LayeredGraphDatabase a'.Storage (NoCache ⊕ LruCache)),
      LayeredGraphDatabase.openWithConfig ord (FileStorage.openPath none) cache.new .new config =
        .ok db ∧
      LayeredGraphDatabase.openWithConfig ord' (FileStorage.openPath none) cache'.new .new
        config' = .ok db' ∧
      (Machine.Along Session.Orderly (fun w => Session.work w.1 w.2) inputs ⟨db, txnCounter, []⟩ →
        Machine.Along Session.Settles (fun w => Session.work w.1 w.2) inputs'
          ⟨db', txnCounter', []⟩ →
        List.Forall₂ WorkReply.Alike (Session.works inputs ⟨db, txnCounter, []⟩).1
            (Session.works inputs' ⟨db', txnCounter', []⟩).1 ∧
          ∃ g, LayeredGraphDatabase.Sync (a.spec hs)
              (Session.works inputs ⟨db, txnCounter, []⟩).2.db g ∧
            LayeredGraphDatabase.Sync (a'.spec hs')
              (Session.works inputs' ⟨db', txnCounter', []⟩).2.db g) := by
  rw [← a.spec_nodeStorable hs, ← a.spec_edgeStorable hs] at hinputs
  rw [← a'.spec_nodeStorable hs', ← a'.spec_edgeStorable hs'] at hinputs'
  obtain ⟨db, hopen, hzero, hstart⟩ :=
    Session.openPath_mirrors (a.spec hs) ord cache config txnCounter hlen
  obtain ⟨db', hopen', hzero', hstart'⟩ :=
    Session.openPath_mirrors (a'.spec hs') ord' cache' config' txnCounter' hlen
  refine ⟨db, db', hopen, hopen', fun ho hsettles => ?_⟩
  have hids : db.idGenerator = db'.idGenerator :=
    IdGenerator.ext_counter fun kind => (hzero kind).trans (hzero' kind).symm
  have htwins : Session.Twins (a.spec hs) (a'.spec hs') (0 + inputs.length) ⟨db, txnCounter, []⟩
      ⟨db', txnCounter', []⟩ .empty := by
    rw [Nat.zero_add]
    exact ⟨hstart, hstart', hids, rfl⟩
  obtain ⟨halike, p, hend⟩ := htwins.works hsame hinputs hinputs' ho hsettles
  exact ⟨halike, p.graph, hend.first.sync, hend.second.sync⟩

instance {S : Type} (w : HashOrder × Work) (s : Session S (NoCache ⊕ LruCache)) :
    Decidable (Session.Settles w s) :=
  inferInstanceAs (Decidable (LayeredGraphDatabase.Settles _ _))

/-- A committed node with a loop, opened again and deleted. -/
def reopenedInputs (cache : CacheAdapter) (config : DatabaseConfig) : List (HashOrder × Work) :=
  [(.sorted, .transact .begin),
    (.sorted, .transact (.insertNode 0 "A" ∅)),
    (.sorted, .transact (.commit 0)),
    (.sorted, .call (.insertEdge ⟨0⟩ ⟨0⟩ "L" ⟨0x3ff0000000000000⟩ ∅)),
    (.sorted, .call (.reopen cache config)),
    (.sorted, .call .allEdges),
    (.sorted, .call (.deleteNode ⟨0⟩)),
    (.sorted, .call .edgeCount)]

theorem reopenedInputs_inserts {N : Node → Prop} {E : Edge → Prop} (cache : CacheAdapter)
    (config : DatabaseConfig) (hn : ∀ id, N ⟨id, "A", ∅⟩)
    (he : ∀ id, E ⟨id, ⟨0⟩, ⟨0⟩, "L", ⟨0x3ff0000000000000⟩, ∅⟩) :
    ∀ w ∈ reopenedInputs cache config, w.2.Inserts N E := by
  intro w hw
  simp only [reopenedInputs, List.mem_cons, List.not_mem_nil, or_false] at hw
  rcases hw with rfl | rfl | rfl | rfl | rfl | rfl | rfl | rfl
  · trivial
  · exact hn
  · trivial
  · exact he
  all_goals trivial

theorem reopenedInputs_same (cache cache' : CacheAdapter) (config config' : DatabaseConfig) :
    List.Forall₂ (fun w w' => w.2.Same w'.2) (reopenedInputs cache config)
      (reopenedInputs cache' config') := by
  refine .cons (.transact _) (.cons (.transact _) (.cons (.transact _) (.cons ?_ (.cons ?_ ?_))))
  · exact .call (.refl _)
  · exact .call .reopen
  · exact .cons (.call (.refl _)) (.cons (.call (.refl _)) (.cons (.call (.refl _)) .nil))

/-- A binary log behind a small cache, and lines of JSON without one. -/
theorem adapters_answer_alike_reopened :
    ∃ (db : LayeredGraphDatabase (StorageAdapter.Storage .binary) (NoCache ⊕ LruCache))
      (db' : LayeredGraphDatabase (StorageAdapter.Storage (.json SampleJson.serde))
        (NoCache ⊕ LruCache)),
      LayeredGraphDatabase.openWithConfig .sorted (FileStorage.openPath none)
        (CacheAdapter.lruCache 1 1 Nat.one_pos Nat.one_pos).new .new .unrestricted = .ok db ∧
      LayeredGraphDatabase.openWithConfig .reversed (FileStorage.openPath none)
        CacheAdapter.noCache.new .new ⟨none, .none⟩ = .ok db' ∧
      List.Forall₂ WorkReply.Alike
        (Session.works (reopenedInputs .noCache .unrestricted) ⟨db, 1, []⟩).1
        (Session.works (reopenedInputs .noCache ⟨some 2, .all⟩) ⟨db', 7, []⟩).1 := by
  have hlabels : StrFits "A" ∧ StrFits "L" := by decide
  have hprops : PropertiesFit ∅ ∧ PropertiesFinite ∅ := by decide
  have hinputs : ∀ w ∈ reopenedInputs .noCache .unrestricted, w.2.Inserts NodeFits EdgeFits :=
    reopenedInputs_inserts _ _ (fun _ => ⟨hlabels.1, hprops.1⟩) fun _ => ⟨hlabels.2, hprops.1⟩
  have hinputs' : ∀ w ∈ reopenedInputs .noCache ⟨some 2, .all⟩,
      w.2.Inserts (StorageAdapter.json SampleJson.serde).KeepsNode
        (StorageAdapter.json SampleJson.serde).KeepsEdge :=
    reopenedInputs_inserts _ _ (fun _ => SampleJson.keeps ⟨⟨hlabels.1, hprops.1⟩, hprops.2⟩)
      fun _ => SampleJson.keeps ⟨⟨hlabels.2, hprops.1⟩, rfl, hprops.2⟩
  obtain ⟨db, db', hopen, hopen', hrun⟩ := adapters_answer_alike .binary (.json SampleJson.serde)
    trivial SampleJson.keepsFloatless .sorted .reversed (.lruCache 1 1 Nat.one_pos Nat.one_pos) .noCache
    .unrestricted ⟨none, .none⟩ 1 7 _ _ (reopenedInputs_same _ _ _ _) hinputs hinputs' (by decide)
  refine ⟨db, db', hopen, hopen', (hrun ?_ ?_).1⟩
  · have hnew : LayeredGraphDatabase.openWithConfig .sorted
        (FileStorage.openPath none : StorageAdapter.Storage .binary)
        (CacheAdapter.lruCache 1 1 Nat.one_pos Nat.one_pos).new .new .unrestricted =
        .ok ⟨.new, (CacheAdapter.lruCache 1 1 Nat.one_pos Nat.one_pos).new,
          BinaryFileStorage.mk header, .new, .new, .new, .unrestricted, 0⟩ := rfl
    obtain rfl := Except.ok.inj (hopen.symm.trans hnew)
    decide +kernel
  · have hnew : LayeredGraphDatabase.openWithConfig .reversed
        (FileStorage.openPath none : StorageAdapter.Storage (.json SampleJson.serde))
        CacheAdapter.noCache.new .new ⟨none, .none⟩ =
        .ok ⟨.new, CacheAdapter.noCache.new, JsonFileStorage.mk [], .new, .new, .new,
          ⟨none, .none⟩, 0⟩ := rfl
    obtain rfl := Except.ok.inj (hopen'.symm.trans hnew)
    decide +kernel

end AdGraphDb
