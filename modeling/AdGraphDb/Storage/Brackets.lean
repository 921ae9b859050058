import AdGraphDb.Storage.Log
import AdGraphDb.Foundation.Updates

/-!
# What records do to the replayed maps

Outside a bracket a record changes the maps at once, inside it waits for the commit.
So a run of records acts on each map as a sequence of keyed updates that depends on
the open bracket only.
-/

namespace AdGraphDb
open ReplayState

def RecordData.isMarker : RecordData → Bool
  | .beginTxn _ | .commitTxn _ | .rollbackTxn _ => true
  | _ => false

/-- What a record says about the nodes. -/
def RecordData.nodeUpdate? : RecordData → Option (Update NodeId Node)
  | .upsertNode n => some (.put n.id n)
  | .deleteNode id => some (.del id)
  | _ => none

/-- What a record says about the edges. -/
def RecordData.edgeUpdate? : RecordData → Option (Update EdgeId Edge)
  | .upsertEdge e => some (.put e.id e)
  | .deleteEdge id => some (.del id)
  | _ => none

/-- What a commit of the buffer does to the nodes: the insertions, then the deletions. -/
def TxnBuffer.nodeUpdates (b : TxnBuffer) : List (Update NodeId Node) :=
  b.nIns.map (fun p => .put p.1 p.2) ++ b.nDel.map .del

def TxnBuffer.edgeUpdates (b : TxnBuffer) : List (Update EdgeId Edge) :=
  b.eIns.map (fun p => .put p.1 p.2) ++ b.eDel.map .del

/-- The bracket after a record. -/
def stepBuffer (buf : Option TxnBuffer) (r : RecordData) : Option TxnBuffer :=
  (applyRecord ⟨∅, ∅, buf⟩ r).txnBuffer

/-- The changes a record makes to the nodes. -/
def nodeUpdates : Option TxnBuffer → RecordData → List (Update NodeId Node)
  | none, r => r.nodeUpdate?.toList
  | some b, .commitTxn txnId => if b.txnId = txnId then b.nodeUpdates else []
  | some _, _ => []

def edgeUpdates : Option TxnBuffer → RecordData → List (Update EdgeId Edge)
  | none, r => r.edgeUpdate?.toList
  | some b, .commitTxn txnId => if b.txnId = txnId then b.edgeUpdates else []
  | some _, _ => []

/-- The changes a run of records makes to the nodes. -/
def nodeEffects : Option TxnBuffer → List RecordData → List (Update NodeId Node)
  | _, [] => []
  | buf, r :: rs => nodeUpdates buf r ++ nodeEffects (stepBuffer buf r) rs

def edgeEffects : Option TxnBuffer → List RecordData → List (Update EdgeId Edge)
  | _, [] => []
  | buf, r :: rs => edgeUpdates buf r ++ edgeEffects (stepBuffer buf r) rs

theorem applyAll_puts {K V : Type} [Ord K] [Std.TransOrd K] (m : HashMap K V) (l : List (K × V)) :
    Update.applyAll m (l.map fun p => .put p.1 p.2) = m.insertAll l := by
  induction l generalizing m with
  | nil => rfl
  | cons p l ih => exact ih _

theorem applyAll_dels {K V : Type} [Ord K] [Std.TransOrd K] (m : HashMap K V) (l : List K) :
    Update.applyAll m (l.map .del) = l.foldl (fun m id => m.erase id) m := by
  induction l generalizing m with
  | nil => rfl
  | cons p l ih => exact ih _

/-! ## One record -/

theorem applyRecord_txnBuffer (st : ReplayState) (r : RecordData) :
    (st.applyRecord r).txnBuffer = stepBuffer st.txnBuffer r := by
  obtain ⟨nodes, edges, buf⟩ := st
  cases buf <;> cases r <;> simp only [stepBuffer, applyRecord, applyOrBuffer]
  split_ifs <;> rfl

theorem applyRecord_nodes (st : ReplayState) (r : RecordData) :
    (st.applyRecord r).nodes = Update.applyAll st.nodes (nodeUpdates st.txnBuffer r) := by
  obtain ⟨nodes, edges, buf⟩ := st
  cases buf with
  | none => cases r <;> rfl
  | some b =>
    cases r with
    | commitTxn txnId =>
      simp only [applyRecord, nodeUpdates]
      split_ifs
      · rw [TxnBuffer.nodeUpdates, Update.applyAll_append, applyAll_puts, applyAll_dels]
      · rfl
    | _ => rfl

theorem applyRecord_edges (st : ReplayState) (r : RecordData) :
    (st.applyRecord r).edges = Update.applyAll st.edges (edgeUpdates st.txnBuffer r) := by
  obtain ⟨nodes, edges, buf⟩ := st
  cases buf with
  | none => cases r <;> rfl
  | some b =>
    cases r with
    | commitTxn txnId =>
      simp only [applyRecord, edgeUpdates]
      split_ifs
      · rw [TxnBuffer.edgeUpdates, Update.applyAll_append, applyAll_puts, applyAll_dels]
      · rfl
    | _ => rfl

/-! ## Runs -/

theorem run_nodes (st : ReplayState) (rs : List RecordData) :
    (st.run rs).nodes = Update.applyAll st.nodes (nodeEffects st.txnBuffer rs) := by
  induction rs generalizing st with
  | nil => rfl
  | cons r rs ih =>
    rw [run_cons, ih, nodeEffects, Update.applyAll_append, applyRecord_nodes,
      applyRecord_txnBuffer]

theorem run_edges (st : ReplayState) (rs : List RecordData) :
    (st.run rs).edges = Update.applyAll st.edges (edgeEffects st.txnBuffer rs) := by
  induction rs generalizing st with
  | nil => rfl
  | cons r rs ih =>
    rw [run_cons, ih, edgeEffects, Update.applyAll_append, applyRecord_edges,
      applyRecord_txnBuffer]

/-! ## Records without markers -/

theorem stepBuffer_none {r : RecordData} (h : r.isMarker = false) : stepBuffer none r = none := by
  cases r <;> first | rfl | cases h

theorem stepBuffer_some {r : RecordData} (h : r.isMarker = false) (b : TxnBuffer) :
    ∃ b', stepBuffer (some b) r = some b' ∧ b'.txnId = b.txnId := by
  cases r <;> first | exact ⟨_, rfl, rfl⟩ | cases h

theorem nodeEffects_none {rs : List RecordData} (h : ∀ r ∈ rs, r.isMarker = false) :
    nodeEffects none rs = rs.filterMap RecordData.nodeUpdate? := by
  induction rs with
  | nil => rfl
  | cons r rs ih =>
    rw [nodeEffects, stepBuffer_none (h r List.mem_cons_self),
      ih fun s hs => h s (List.mem_cons_of_mem r hs), List.filterMap_cons]
    cases hu : r.nodeUpdate? <;> simp [nodeUpdates, hu]

theorem edgeEffects_none {rs : List RecordData} (h : ∀ r ∈ rs, r.isMarker = false) :
    edgeEffects none rs = rs.filterMap RecordData.edgeUpdate? := by
  induction rs with
  | nil => rfl
  | cons r rs ih =>
    rw [edgeEffects, stepBuffer_none (h r List.mem_cons_self),
      ih fun s hs => h s (List.mem_cons_of_mem r hs), List.filterMap_cons]
    cases hu : r.edgeUpdate? <;> simp [edgeUpdates, hu]

/-- Inside a bracket plain records change nothing yet, and the bracket stays open. -/
theorem effects_some {rs : List RecordData} (h : ∀ r ∈ rs, r.isMarker = false) (b : TxnBuffer) :
    nodeEffects (some b) rs = [] ∧ edgeEffects (some b) rs = [] := by
  induction rs generalizing b with
  | nil => exact ⟨rfl, rfl⟩
  | cons r rs ih =>
    have hr := h r List.mem_cons_self
    obtain ⟨b', hb, -⟩ := stepBuffer_some hr b
    obtain ⟨hn, he⟩ := ih (fun s hs => h s (List.mem_cons_of_mem r hs)) b'
    rw [nodeEffects, edgeEffects, hb, hn, he]
    cases r <;> first | exact ⟨rfl, rfl⟩ | cases hr

theorem run_txnBuffer_none {st : ReplayState} {rs : List RecordData} (hst : st.txnBuffer = none)
    (h : ∀ r ∈ rs, r.isMarker = false) : (st.run rs).txnBuffer = none := by
  induction rs generalizing st with
  | nil => exact hst
  | cons r rs ih =>
    refine ih ?_ fun s hs => h s (List.mem_cons_of_mem r hs)
    rw [applyRecord_txnBuffer, hst, stepBuffer_none (h r List.mem_cons_self)]

theorem contents_run_of_open {st : ReplayState} {rs : List RecordData}
    (hst : st.txnBuffer.isSome) (h : ∀ r ∈ rs, r.isMarker = false) :
    (st.run rs).contents = st.contents := by
  obtain ⟨b, hb⟩ := Option.isSome_iff_exists.mp hst
  obtain ⟨hn, he⟩ := effects_some h b
  rw [contents, run_nodes, run_edges, hb, hn, he]
  rfl

/-- Records of edges do not touch the nodes. -/
theorem run_nodes_eq_self {st : ReplayState} {rs : List RecordData}
    (h : ∀ r ∈ rs, r.isMarker = false ∧ r.nodeUpdate? = none) : (st.run rs).nodes = st.nodes := by
  have hplain : ∀ r ∈ rs, r.isMarker = false := fun r hr => (h r hr).1
  have hnone : nodeEffects st.txnBuffer rs = [] := by
    cases st.txnBuffer with
    | none =>
      rw [nodeEffects_none hplain]
      exact List.filterMap_eq_nil_iff.mpr fun r hr => (h r hr).2
    | some b => exact (effects_some hplain b).1
  rw [run_nodes, hnone, Update.applyAll_nil]

theorem run_deletedEdges_nodes (st : ReplayState) (ids : List EdgeId) :
    (st.run (ids.map .deleteEdge)).nodes = st.nodes := by
  apply run_nodes_eq_self
  intro r hr
  obtain ⟨k, -, rfl⟩ := List.mem_map.mp hr
  exact ⟨rfl, rfl⟩

/-- Outside a bracket the deletions of edges take effect at once. -/
theorem run_deleteEdges (nodes : HashMap NodeId Node) (edges : HashMap EdgeId Edge)
    (ids : List EdgeId) : (⟨nodes, edges, none⟩ : ReplayState).run (ids.map .deleteEdge) =
      ⟨nodes, edges.eraseAll ids, none⟩ := by
  induction ids generalizing edges with
  | nil => rfl
  | cons id ids ih => exact ih (edges.erase id)

/-! ## Invariants of the entries -/

/-- Every stored and every buffered entry has the property of its kind. -/
structure Holds (P : NodeId → Node → Prop) (Q : EdgeId → Edge → Prop) (st : ReplayState) :
    Prop where
  nodes : ∀ (id : NodeId) (n : Node), st.nodes[id]? = some n → P id n
  edges : ∀ (id : EdgeId) (e : Edge), st.edges[id]? = some e → Q id e
  nIns : ∀ b, st.txnBuffer = some b → ∀ p ∈ b.nIns, P p.1 p.2
  eIns : ∀ b, st.txnBuffer = some b → ∀ p ∈ b.eIns, Q p.1 p.2

/-- The record writes an entry with the property. -/
def RecordHolds (P : NodeId → Node → Prop) (Q : EdgeId → Edge → Prop) : RecordData → Prop
  | .upsertNode n => P n.id n
  | .upsertEdge e => Q e.id e
  | _ => True

/-- A commit of a buffer puts what it has buffered. -/
theorem put_mem_commit_iff {K V : Type} {ins : List (K × V)} {del : List K} {k : K} {v : V} :
    Update.put k v ∈ ins.map (fun p => Update.put p.1 p.2) ++ del.map .del ↔ (k, v) ∈ ins := by
  simp

/-- A bracket that is open after a record was opened by it, or takes up what the record
inserts. -/
theorem stepBuffer_eq_some {buf : Option TxnBuffer} {r : RecordData} {b' : TxnBuffer}
    (h : stepBuffer buf r = some b') :
    (∃ txnId, b' = ⟨txnId, [], [], [], []⟩) ∨ ∃ b, buf = some b ∧
      (b'.nIns = b.nIns ∨ ∃ n, r = .upsertNode n ∧ b'.nIns = b.nIns ++ [(n.id, n)]) ∧
      (b'.eIns = b.eIns ∨ ∃ e, r = .upsertEdge e ∧ b'.eIns = b.eIns ++ [(e.id, e)]) := by
  cases buf with
  | none =>
    cases r with
    | beginTxn txnId => exact .inl ⟨txnId, (Option.some.inj h).symm⟩
    | _ => cases h
  | some b =>
    cases r with
    | beginTxn txnId => exact .inl ⟨txnId, (Option.some.inj h).symm⟩
    | commitTxn txnId =>
      simp only [stepBuffer, applyRecord] at h
      split_ifs at h
    | rollbackTxn txnId => cases h
    | upsertNode n =>
      cases h
      exact .inr ⟨b, rfl, .inr ⟨n, rfl, rfl⟩, .inl rfl⟩
    | upsertEdge e =>
      cases h
      exact .inr ⟨b, rfl, .inl rfl, .inr ⟨e, rfl, rfl⟩⟩
    | deleteNode id =>
      cases h
      exact .inr ⟨b, rfl, .inl rfl, .inl rfl⟩
    | deleteEdge id =>
      cases h
      exact .inr ⟨b, rfl, .inl rfl, .inl rfl⟩

section

variable {P : NodeId → Node → Prop} {Q : EdgeId → Edge → Prop}

theorem nodeUpdates_holds {st : ReplayState} {r : RecordData} (hst : Holds P Q st)
    (hr : RecordHolds P Q r) (id : NodeId) (n : Node)
    (h : .put id n ∈ nodeUpdates st.txnBuffer r) : P id n := by
  cases hb : st.txnBuffer with
  | none =>
    rw [hb] at h
    cases r <;> simp only [nodeUpdates, RecordData.nodeUpdate?, Option.toList, List.mem_singleton,
      List.not_mem_nil, Update.put.injEq, reduceCtorEq] at h
    obtain ⟨rfl, rfl⟩ := h
    exact hr
  | some b =>
    rw [hb] at h
    cases r with
    | commitTxn txnId =>
      simp only [nodeUpdates, TxnBuffer.nodeUpdates] at h
      split_ifs at h
      · exact hst.nIns b hb _ (put_mem_commit_iff.mp h)
      · cases h
    | _ => cases h

theorem edgeUpdates_holds {st : ReplayState} {r : RecordData} (hst : Holds P Q st)
    (hr : RecordHolds P Q r) (id : EdgeId) (e : Edge)
    (h : .put id e ∈ edgeUpdates st.txnBuffer r) : Q id e := by
  cases hb : st.txnBuffer with
  | none =>
    rw [hb] at h
    cases r <;> simp only [edgeUpdates, RecordData.edgeUpdate?, Option.toList, List.mem_singleton,
      List.not_mem_nil, Update.put.injEq, reduceCtorEq] at h
    obtain ⟨rfl, rfl⟩ := h
    exact hr
  | some b =>
    rw [hb] at h
    cases r with
    | commitTxn txnId =>
      simp only [edgeUpdates, TxnBuffer.edgeUpdates] at h
      split_ifs at h
      · exact hst.eIns b hb _ (put_mem_commit_iff.mp h)
      · cases h
    | _ => cases h

/-- What a record adds to the buffered nodes. -/
theorem mem_nIns_stepBuffer {buf : Option TxnBuffer} {r : RecordData} {b' : TxnBuffer}
    {p : NodeId × Node} (h : stepBuffer buf r = some b') (hp : p ∈ b'.nIns) :
    (∃ b, buf = some b ∧ p ∈ b.nIns) ∨ (r = .upsertNode p.2 ∧ p.2.id = p.1) := by
  rcases stepBuffer_eq_some h with ⟨txnId, rfl⟩ | ⟨b, rfl, heq | ⟨n, rfl, heq⟩, -⟩
  · cases hp
  · exact .inl ⟨b, rfl, heq ▸ hp⟩
  · rw [heq] at hp
    refine (List.mem_append.mp hp).imp (fun hp => ⟨b, rfl, hp⟩) fun hp => ?_
    rw [List.mem_singleton.mp hp]
    exact ⟨rfl, rfl⟩

theorem mem_eIns_stepBuffer {buf : Option TxnBuffer} {r : RecordData} {b' : TxnBuffer}
    {p : EdgeId × Edge} (h : stepBuffer buf r = some b') (hp : p ∈ b'.eIns) :
    (∃ b, buf = some b ∧ p ∈ b.eIns) ∨ (r = .upsertEdge p.2 ∧ p.2.id = p.1) := by
  rcases stepBuffer_eq_some h with ⟨txnId, rfl⟩ | ⟨b, rfl, -, heq | ⟨e, rfl, heq⟩⟩
  · cases hp
  · exact .inl ⟨b, rfl, heq ▸ hp⟩
  · rw [heq] at hp
    refine (List.mem_append.mp hp).imp (fun hp => ⟨b, rfl, hp⟩) fun hp => ?_
    rw [List.mem_singleton.mp hp]
    exact ⟨rfl, rfl⟩

theorem Holds.empty : Holds P Q .empty :=
  ⟨fun id n h => by simp [ReplayState.empty] at h, fun id e h => by simp [ReplayState.empty] at h,
    nofun, nofun⟩

theorem Holds.applyRecord {st : ReplayState} {r : RecordData} (hst : Holds P Q st)
    (hr : RecordHolds P Q r) : Holds P Q (st.applyRecord r) := by
  refine ⟨?_, ?_, ?_, ?_⟩
  · intro id n h
    rw [applyRecord_nodes] at h
    exact Update.applyAll_entries hst.nodes (nodeUpdates_holds hst hr) id n h
  · intro id e h
    rw [applyRecord_edges] at h
    exact Update.applyAll_entries hst.edges (edgeUpdates_holds hst hr) id e h
  · intro b' hb' p hp
    rw [applyRecord_txnBuffer] at hb'
    rcases mem_nIns_stepBuffer hb' hp with ⟨b, hb, hp⟩ | ⟨rfl, hid⟩
    · exact hst.nIns b hb p hp
    · exact hid ▸ hr
  · intro b' hb' p hp
    rw [applyRecord_txnBuffer] at hb'
    rcases mem_eIns_stepBuffer hb' hp with ⟨b, hb, hp⟩ | ⟨rfl, hid⟩
    · exact hst.eIns b hb p hp
    · exact hid ▸ hr

theorem Holds.run {st : ReplayState} {rs : List RecordData} (hst : Holds P Q st)
    (hrs : ∀ r ∈ rs, RecordHolds P Q r) : Holds P Q (st.run rs) := by
  induction rs generalizing st with
  | nil => exact hst
  | cons r rs ih =>
    exact ih (hst.applyRecord (hrs r List.mem_cons_self)) fun s hs =>
      hrs s (List.mem_cons_of_mem r hs)

end

/-! ## Open brackets -/

/-- The last marker is a `BeginTxn`. -/
def LeavesOpen (rs : List RecordData) : Prop :=
  ∃ pre txnId post, rs = pre ++ RecordData.beginTxn txnId :: post ∧
    ∀ r ∈ post, r.isMarker = false

theorem leavesOpen_concat_marker {rs : List RecordData} {r : RecordData} (hr : r.isMarker) :
    LeavesOpen (rs ++ [r]) ↔ ∃ txnId, r = .beginTxn txnId := by
  constructor
  · rintro ⟨pre, txnId, post, h, hpost⟩
    rcases List.eq_nil_or_concat post with rfl | ⟨post, s, rfl⟩
    · obtain ⟨-, h⟩ := List.append_inj' h rfl
      exact ⟨txnId, (List.cons.inj h).1⟩
    · rw [List.concat_eq_append, ← List.cons_append, ← List.append_assoc] at h
      obtain ⟨-, h⟩ := List.append_inj' h rfl
      rw [(List.cons.inj h).1, hpost s (by simp)] at hr
      cases hr
  · rintro ⟨txnId, rfl⟩
    exact ⟨rs, txnId, [], rfl, nofun⟩

theorem leavesOpen_concat_plain {rs : List RecordData} {r : RecordData} (hr : r.isMarker = false) :
    LeavesOpen (rs ++ [r]) ↔ LeavesOpen rs := by
  constructor
  · rintro ⟨pre, txnId, post, h, hpost⟩
    rcases List.eq_nil_or_concat post with rfl | ⟨post, s, rfl⟩
    · obtain ⟨-, h⟩ := List.append_inj' h rfl
      rw [(List.cons.inj h).1] at hr
      cases hr
    · rw [List.concat_eq_append, ← List.cons_append, ← List.append_assoc] at h
      obtain ⟨h, -⟩ := List.append_inj' h rfl
      exact ⟨pre, txnId, post, h, fun q hq => hpost q (by simp [hq])⟩
  · rintro ⟨pre, txnId, post, rfl, hpost⟩
    refine ⟨pre, txnId, post ++ [r], by simp, fun q hq => ?_⟩
    rcases List.mem_append.mp hq with hq | hq
    · exact hpost q hq
    · rw [List.mem_singleton.mp hq, hr]

/-- A marker leaves a bracket open only if it opens one. -/
theorem stepBuffer_marker {r : RecordData} (hr : r.isMarker) (buf : Option TxnBuffer) :
    (stepBuffer buf r).isSome ↔ ∃ txnId, r = .beginTxn txnId := by
  cases r with
  | beginTxn txnId => simp [stepBuffer, applyRecord]
  | commitTxn txnId =>
    cases buf with
    | none => simp [stepBuffer, applyRecord]
    | some b =>
      simp only [stepBuffer, applyRecord, reduceCtorEq, exists_false, iff_false]
      split_ifs <;> simp
  | rollbackTxn txnId => simp [stepBuffer, applyRecord]
  | _ => cases hr

theorem stepBuffer_plain {r : RecordData} (hr : r.isMarker = false) (buf : Option TxnBuffer) :
    (stepBuffer buf r).isSome = buf.isSome := by
  cases buf with
  | none => rw [stepBuffer_none hr]
  | some b =>
    obtain ⟨b', hb', -⟩ := stepBuffer_some hr b
    rw [hb']
    rfl

/-- The loop holds a buffer exactly when the log leaves a bracket open. -/
theorem run_txnBuffer_isSome_iff (rs : List RecordData) :
    (empty.run rs).txnBuffer.isSome ↔ LeavesOpen rs := by
  induction rs using List.reverseRecOn with
  | nil => simp [empty, LeavesOpen]
  | append_singleton rs r ih =>
    rw [run_append, run_cons, run_nil, applyRecord_txnBuffer]
    by_cases hm : r.isMarker
    · rw [leavesOpen_concat_marker hm, stepBuffer_marker hm]
    · rw [Bool.not_eq_true] at hm
      rw [leavesOpen_concat_plain hm, stepBuffer_plain hm, ih]

end AdGraphDb
