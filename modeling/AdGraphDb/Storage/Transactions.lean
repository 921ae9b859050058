import AdGraphDb.Storage.Framing

/-!
# Replaying a committed transaction

The records between `BeginTxn` and its `CommitTxn` are applied group by group: the
insertions first, then the deletions. The same records without the markers are
applied one at a time.
-/

namespace AdGraphDb
open ReplayState BinaryFileStorage

/-- What a plain record adds to the open buffer. -/
def TxnBuffer.add (b : TxnBuffer) : RecordData → TxnBuffer
  | .upsertNode n => { b with nIns := b.nIns ++ [(n.id, n)] }
  | .upsertEdge e => { b with eIns := b.eIns ++ [(e.id, e)] }
  | .deleteNode id => { b with nDel := b.nDel ++ [id] }
  | .deleteEdge id => { b with eDel := b.eDel ++ [id] }
  | _ => b

/-- Inside a bracket `apply_or_buffer` buffers. -/
theorem applyRecord_open {r : RecordData} (h : r.isMarker = false) (nodes : HashMap NodeId Node)
    (edges : HashMap EdgeId Edge) (b : TxnBuffer) :
    (⟨nodes, edges, some b⟩ : ReplayState).applyRecord r = ⟨nodes, edges, some (b.add r)⟩ := by
  cases r <;> first | rfl | cases h

theorem run_buffered {rs : List RecordData} (h : ∀ r ∈ rs, r.isMarker = false)
    (nodes : HashMap NodeId Node) (edges : HashMap EdgeId Edge) (b : TxnBuffer) :
    (⟨nodes, edges, some b⟩ : ReplayState).run rs = ⟨nodes, edges, some (rs.foldl .add b)⟩ := by
  induction rs generalizing b with
  | nil => rfl
  | cons r rs ih =>
    rw [run_cons, applyRecord_open (h r List.mem_cons_self),
      ih fun s hs => h s (List.mem_cons_of_mem r hs)]
    rfl

theorem add_txnId (b : TxnBuffer) (rs : List RecordData) :
    (rs.foldl TxnBuffer.add b).txnId = b.txnId := by
  induction rs generalizing b with
  | nil => rfl
  | cons r rs ih =>
    rw [List.foldl_cons, ih]
    cases r <;> rfl

/-- The buffer keeps the two groups of node updates apart. -/
theorem add_nodes (b : TxnBuffer) (rs : List RecordData) :
    (rs.foldl TxnBuffer.add b).nIns.map (fun p => Update.put p.1 p.2) =
        b.nIns.map (fun p => .put p.1 p.2) ++
          (rs.filterMap RecordData.nodeUpdate?).filter (fun u => !u.isDel) ∧
      (rs.foldl TxnBuffer.add b).nDel.map (Update.del (V := Node)) =
        b.nDel.map .del ++ (rs.filterMap RecordData.nodeUpdate?).filter Update.isDel := by
  induction rs generalizing b with
  | nil => exact ⟨(List.append_nil _).symm, (List.append_nil _).symm⟩
  | cons r rs ih =>
    obtain ⟨hins, hdel⟩ := ih (b.add r)
    rw [List.foldl_cons, hins, hdel, List.filterMap_cons]
    cases r <;> simp [TxnBuffer.add, RecordData.nodeUpdate?, List.filter_cons]

theorem add_edges (b : TxnBuffer) (rs : List RecordData) :
    (rs.foldl TxnBuffer.add b).eIns.map (fun p => Update.put p.1 p.2) =
        b.eIns.map (fun p => .put p.1 p.2) ++
          (rs.filterMap RecordData.edgeUpdate?).filter (fun u => !u.isDel) ∧
      (rs.foldl TxnBuffer.add b).eDel.map (Update.del (V := Edge)) =
        b.eDel.map .del ++ (rs.filterMap RecordData.edgeUpdate?).filter Update.isDel := by
  induction rs generalizing b with
  | nil => exact ⟨(List.append_nil _).symm, (List.append_nil _).symm⟩
  | cons r rs ih =>
    obtain ⟨hins, hdel⟩ := ih (b.add r)
    rw [List.foldl_cons, hins, hdel, List.filterMap_cons]
    cases r <;> simp [TxnBuffer.add, RecordData.edgeUpdate?, List.filter_cons]

/-- A commit applies the updates of its buffer grouped. -/
theorem applyRecord_commit (rs : List RecordData) (nodes : HashMap NodeId Node)
    (edges : HashMap EdgeId Edge) (txnId : UInt64) :
    (⟨nodes, edges, some (rs.foldl .add ⟨txnId, [], [], [], []⟩)⟩ : ReplayState).applyRecord
        (.commitTxn txnId) =
      ⟨Update.applyAll nodes (Update.grouped (rs.filterMap RecordData.nodeUpdate?)),
        Update.applyAll edges (Update.grouped (rs.filterMap RecordData.edgeUpdate?)), none⟩ := by
  generalize hb : rs.foldl TxnBuffer.add ⟨txnId, [], [], [], []⟩ = b
  have hid : b.txnId = txnId := by rw [← hb, add_txnId]
  obtain ⟨hnIns, hnDel⟩ := add_nodes ⟨txnId, [], [], [], []⟩ rs
  obtain ⟨heIns, heDel⟩ := add_edges ⟨txnId, [], [], [], []⟩ rs
  rw [hb, List.map_nil, List.nil_append] at hnIns hnDel heIns heDel
  rw [Update.grouped, Update.grouped, ← hnIns, ← hnDel, ← heIns, ← heDel,
    Update.applyAll_append, Update.applyAll_append, applyAll_puts, applyAll_puts, applyAll_dels,
    applyAll_dels, applyRecord]
  exact if_pos hid

theorem applyRecord_commit_other {b : TxnBuffer} {txnId : UInt64} (h : b.txnId ≠ txnId)
    (nodes : HashMap NodeId Node) (edges : HashMap EdgeId Edge) :
    (⟨nodes, edges, some b⟩ : ReplayState).applyRecord (.commitTxn txnId) =
      ⟨nodes, edges, none⟩ := by
  rw [applyRecord]
  exact if_neg h

theorem run_transaction {rs : List RecordData} (h : ∀ r ∈ rs, r.isMarker = false)
    (nodes : HashMap NodeId Node) (edges : HashMap EdgeId Edge) (txnId : UInt64) :
    (⟨nodes, edges, none⟩ : ReplayState).run (.beginTxn txnId :: (rs ++ [.commitTxn txnId])) =
      ⟨Update.applyAll nodes (Update.grouped (rs.filterMap RecordData.nodeUpdate?)),
        Update.applyAll edges (Update.grouped (rs.filterMap RecordData.edgeUpdate?)), none⟩ := by
  have hbegin : (⟨nodes, edges, none⟩ : ReplayState).applyRecord (.beginTxn txnId) =
      ⟨nodes, edges, some ⟨txnId, [], [], [], []⟩⟩ := rfl
  rw [run_cons, hbegin, run_append, run_buffered h, run_cons, run_nil, applyRecord_commit]

theorem run_plain {rs : List RecordData} (h : ∀ r ∈ rs, r.isMarker = false)
    (nodes : HashMap NodeId Node) (edges : HashMap EdgeId Edge) :
    ((⟨nodes, edges, none⟩ : ReplayState).run rs).contents =
      (Update.applyAll nodes (rs.filterMap RecordData.nodeUpdate?),
        Update.applyAll edges (rs.filterMap RecordData.edgeUpdate?)) :=
  applyRecords_eq (c := (nodes, edges)) h

/-- A transaction of the log. -/
def bracket (ord : HashOrder) (txnId : UInt64) (ops : Log) : Log :=
  (ord, .beginTxn txnId) :: (ops ++ [(ord, .commitTxn txnId)])

theorem records_bracket (ord : HashOrder) (txnId : UInt64) (ops : Log) :
    Log.records (bracket ord txnId ops) = .beginTxn txnId :: (ops.records ++ [.commitTxn txnId]) := by
  rw [bracket, Log.records_cons, Log.records_append]
  rfl

theorem logFits_bracket {ord : HashOrder} {txnId : UInt64} {ops : Log} (h : LogFits ops) :
    LogFits (bracket ord txnId ops) := by
  intro p hp
  rcases List.mem_cons.mp hp with rfl | hp
  · trivial
  · rcases List.mem_append.mp hp with hp | hp
    · exact h p hp
    · cases List.mem_singleton.mp hp
      trivial

/-- The markers change nothing exactly when every id that the transaction deletes is
deleted by the last of its records on that id. -/
theorem replay_bracket_iff {l : Log} (hl : LogFits l) (hclosed : ¬LeavesOpen l.records)
    {ops : Log} (hops : LogFits ops) (hplain : PlainRecords ops) (ord : HashOrder)
    (txnId : UInt64) :
    replay (header ++ encodeLog (l ++ bracket ord txnId ops)) =
        replay (header ++ encodeLog (l ++ ops)) ↔
      Update.DeletesLast (ops.records.filterMap RecordData.nodeUpdate?) ∧
        Update.DeletesLast (ops.records.filterMap RecordData.edgeUpdate?) := by
  have hbuf : (stateOf l).txnBuffer = none := by
    rw [← Option.not_isSome_iff_eq_none, stateOf, run_txnBuffer_isSome_iff]
    exact hclosed
  rw [replay_log (hl.append (logFits_bracket hops)), replay_log (hl.append hops), stateOf_append,
    stateOf_append, records_bracket]
  generalize stateOf l = st at hbuf
  obtain ⟨nodes, edges, buf⟩ := st
  obtain rfl : buf = none := hbuf
  rw [run_transaction hplain, run_plain hplain, Outcome.ok.injEq, contents, Prod.mk.injEq]
  exact and_congr (Update.applyAll_grouped_iff nodes _) (Update.applyAll_grouped_iff edges _)

/-- A node is saved and deleted in one transaction. -/
theorem replay_bracket_example :
    replay (header ++ encodeLog ([(.sorted, .upsertNode ⟨⟨1⟩, "B", ∅⟩)] ++
        bracket .sorted 7 [(.sorted, .upsertNode ⟨⟨0⟩, "A", ∅⟩), (.sorted, .deleteNode ⟨0⟩)])) =
      replay (header ++ encodeLog ([(.sorted, .upsertNode ⟨⟨1⟩, "B", ∅⟩)] ++
        [(.sorted, .upsertNode ⟨⟨0⟩, "A", ∅⟩), (.sorted, .deleteNode ⟨0⟩)])) := by
  apply (replay_bracket_iff (by decide) ?_ (by decide) (by decide) .sorted 7).mpr (by decide)
  rw [← run_txnBuffer_isSome_iff]
  decide

/-- A deletion followed by an insertion of the same id: the transaction loses the node. -/
theorem bracket_loses_insertion :
    LogFits [] ∧ ¬LeavesOpen (Log.records []) ∧
      LogFits [(.sorted, .deleteNode ⟨0⟩), (.sorted, .upsertNode ⟨⟨0⟩, "A", ∅⟩)] ∧
      PlainRecords [(.sorted, .deleteNode ⟨0⟩), (.sorted, .upsertNode ⟨⟨0⟩, "A", ∅⟩)] ∧
      replay (header ++ encodeLog ([] ++ bracket .sorted 7
          [(.sorted, .deleteNode ⟨0⟩), (.sorted, .upsertNode ⟨⟨0⟩, "A", ∅⟩)])) ≠
        replay (header ++ encodeLog ([] ++
          [(.sorted, .deleteNode ⟨0⟩), (.sorted, .upsertNode ⟨⟨0⟩, "A", ∅⟩)])) := by
  refine ⟨by decide, ?_, by decide, by decide, by decide⟩
  rw [← run_txnBuffer_isSome_iff]
  decide

end AdGraphDb
