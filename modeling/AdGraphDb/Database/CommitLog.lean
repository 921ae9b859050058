import AdGraphDb.Storage.UnfinishedBracket
import AdGraphDb.Database.Queries
import AdGraphDb.Database.Serial

/-!
# What a commit leaves on the disk

A commit over the binary adapter appends one bracket of records. Until its last byte is written
the file shows the graph of before, and if the commit fails it shows that graph for good.
-/

namespace AdGraphDb
open Std AdGraphDb.Action BinaryFileStorage

theorem encodeLog_written (l rs : Log) (ord ord' : HashOrder) (txnId : UInt64) (r : RecordData) :
    header ++ encodeLog (l ++ (ord, .beginTxn txnId) :: rs) ++ encodeRecord ord' r =
      header ++ encodeLog (l ++ (ord, .beginTxn txnId) :: (rs ++ [(ord', r)])) := by
  have hlist : l ++ (ord, .beginTxn txnId) :: (rs ++ [(ord', r)]) =
      (l ++ (ord, .beginTxn txnId) :: rs) ++ [(ord', r)] := by
    rw [List.append_assoc, List.cons_append]
  rw [hlist, encodeLog_append _ [_], encodeLog_cons, encodeLog_nil, List.append_nil,
    List.append_assoc]

theorem logFits_written {l rs : Log} (hl : LogFits l) (hrs : LogFits rs) (txnId : UInt64)
    {last : RecordData} (hlast : RecordFits last) :
    LogFits (l ++ (.sorted, .beginTxn txnId) :: (rs ++ [(.sorted, last)])) := by
  have hbegin : RecordFits (.beginTxn txnId) := trivial
  exact hl.append (List.forall_mem_cons.mpr
    ⟨hbegin, hrs.append (List.forall_mem_singleton.mpr hlast)⟩)

namespace LayeredGraphDatabase

variable {C : Type} {l : Log} {txnId : UInt64}
  {db : LayeredGraphDatabase BinaryFileStorage C}

/-- Behind the log `l` stands a bracket that is still open, and no compaction will come. -/
def Writing (l : Log) (txnId : UInt64) (db : LayeredGraphDatabase BinaryFileStorage C) : Prop :=
  db.config.autoCompactAfterWrites = none ∧ ∃ rs : Log, LogFits rs ∧ PlainRecords rs ∧
    db.storage.file = header ++ encodeLog (l ++ (.sorted, .beginTxn txnId) :: rs)

abbrev KeepsWriting (l : Log) (txnId : UInt64) {α : Type}
    (a : DatabaseAction BinaryFileStorage C α) : Prop := Preserves a (Writing l txnId)

theorem Writing.valid (hl : LogFits l) (h : Writing l txnId db) : db.storage.Valid := by
  obtain ⟨-, rs, hrs, -, hfile⟩ := h
  have hbegin : RecordFits (.beginTxn txnId) := trivial
  exact ⟨_, hl.append (List.forall_mem_cons.mpr ⟨hbegin, hrs⟩), hfile⟩

/-- One more record is appended to the bracket. -/
theorem keepsWriting_write (ord : HashOrder) {r : RecordData} (hplain : r.isMarker = false)
    (hr : RecordFits r) : KeepsWriting l txnId
      (on storageField (StoragePort.write ord r) : DatabaseAction BinaryFileStorage C Unit) := by
  rintro db ⟨hconfig, rs, hrs, hrsp, hfile⟩
  have hwrite : (on storageField (StoragePort.write ord r) db).2 =
      { db with storage := ⟨db.storage.file ++ encodeRecord ord r⟩ } :=
    congrArg Prod.snd (on_ok (p := storageField) (write_apply ord r db.storage))
  rw [hwrite]
  refine ⟨hconfig, rs ++ [(ord, r)], hrs.append (List.forall_mem_singleton.mpr hr), ?_, ?_⟩
  · rw [PlainRecords, Log.records_append]
    exact List.forall_mem_append.mpr ⟨hrsp, List.forall_mem_singleton.mpr hplain⟩
  · change db.storage.file ++ encodeRecord ord r = _
    rw [hfile, encodeLog_written]

section

variable [CachePort C]

theorem onWrite_of_none (ord : HashOrder) (h : db.config.autoCompactAfterWrites = none) :
    onWrite ord db =
      (.ok (), { db with writesSinceCompact := (db.writesSinceCompact + 1) % 2 ^ 64 }) := by
  obtain ⟨engine, cache, storage, labels, properties, ids, ⟨threshold, fields⟩, writes⟩ := db
  obtain rfl : threshold = none := h
  rfl

theorem keepsWriting_onWrite (ord : HashOrder) : KeepsWriting l txnId
    (onWrite ord : DatabaseAction BinaryFileStorage C Unit) := by
  intro db h
  rw [onWrite_of_none ord h.1]
  exact h

theorem keepsWriting_getNode (ord : HashOrder) (id : NodeId) : KeepsWriting l txnId
    (getNode ord id : DatabaseAction BinaryFileStorage C (Option Node)) := by
  intro db h
  obtain ⟨cache, hcache⟩ := getNode_onlyCaches ord id db db (.refl db)
  rw [hcache]
  exact h

theorem keepsWriting_deleteEdge (ord : HashOrder) (id : EdgeId) : KeepsWriting l txnId
    (deleteEdge ord id : DatabaseAction BinaryFileStorage C Unit) := by
  apply (keepsWriting_write .sorted (r := .deleteEdge id) rfl trivial).bind
  intro _
  exact .bind_modify (fun _ h => h) (keepsWriting_onWrite _)

theorem keepsWriting_deleteNode (ord : HashOrder) (id : NodeId) : KeepsWriting l txnId
    (deleteNode ord id : DatabaseAction BinaryFileStorage C Unit) := by
  apply Preserves.bind_read
  intro incident
  apply Preserves.bind
  · apply Preserves.forEach
    intro edgeId
    apply (keepsWriting_write .sorted (r := .deleteEdge edgeId) rfl trivial).bind
    intro _
    exact .modify fun _ h => h
  intro _
  apply (keepsWriting_getNode _ id).bind
  intro found
  apply Preserves.bind_modify
  · intro db h
    cases found <;> exact h
  apply (keepsWriting_write .sorted (r := .deleteNode id) rfl trivial).bind
  intro _
  exact .bind_modify (fun _ h => h) (keepsWriting_onWrite _)

end

variable [LawfulCachePort C]

/-- An operation of a commit appends its records, or ends the commit without an end of its
edge. -/
theorem commitOp_writing (hl : LogFits l) (h : Writing l txnId db) {op : StagedOp}
    (hop : op.Storable NodeFits EdgeFits) (ord : HashOrder) (result : CommitResult) :
    (Returns (commitOp ord txnId result op) db fun _ db' => Writing l txnId db') ∨
      ∃ id, commitOp ord txnId result op db = commitNodeNotFound txnId id db := by
  have hv : BinaryFileStorage.spec.Valid db.storage := h.valid hl
  cases op with
  | insertNode n =>
    have hwrite := keepsWriting_write (ord.sub 0) (r := .upsertNode n) rfl hop db h
    have hrun := on_ok (p := storageField) (write_apply (ord.sub 0) (.upsertNode n) db.storage)
    rw [hrun] at hwrite
    exact .inl ⟨_, _, bind_ok hrun, hwrite⟩
  | insertEdge e =>
    cases hends : hasEnds e.source e.target db with
    | false => exact .inr (commitInsertEdge_of_not_hasEnds ord txnId e result hends)
    | true =>
      have hwrite := keepsWriting_write (ord.sub 0) (r := .upsertEdge e) rfl hop db h
      have hrun := on_ok (p := storageField) (write_apply (ord.sub 0) (.upsertEdge e) db.storage)
      rw [hrun] at hwrite
      exact .inl ⟨_, _, (commitInsertEdge_of_hasEnds ord txnId e result hends).trans (bind_ok hrun),
        hwrite⟩
  | deleteNode id =>
    left
    apply ((keepsWriting_deleteNode ord id).returns h (deleteNode_returns _ ord id hv)).bind
    rintro - db' ⟨-, hw⟩
    exact .pure hw
  | deleteEdge id =>
    left
    apply ((keepsWriting_deleteEdge ord id).returns h (deleteEdge_returns _ ord id hv)).bind
    rintro - db' ⟨-, hw⟩
    exact .pure hw

/-- The loop runs to its end, or stops where an edge lacks an end. -/
theorem commitOps_writing (hl : LogFits l) (h : Writing l txnId db) {ops : List StagedOp}
    (hops : ∀ op ∈ ops, op.Storable NodeFits EdgeFits) (ord : HashOrder)
    (result : CommitResult) :
    (Returns (commitOps ord txnId result ops) db fun _ db' => Writing l txnId db') ∨
      ∃ id db', Writing l txnId db' ∧
        commitOps ord txnId result ops db = commitNodeNotFound txnId id db' := by
  induction ops generalizing ord result db with
  | nil => exact .inl (.pure h)
  | cons op ops ih =>
    rcases commitOp_writing hl h (hops op List.mem_cons_self) (ord.sub 0) result with
      ⟨result', db', hrun, hw⟩ | ⟨id, hrun⟩
    · have hloop : commitOps ord txnId result (op :: ops) db =
          commitOps (ord.sub 1) txnId result' ops db' := bind_ok hrun
      rw [Returns, hloop]
      exact ih hw (fun op hop => hops op (List.mem_cons_of_mem _ hop)) (ord.sub 1) result'
    · exact .inr ⟨id, db, h, bind_error hrun⟩

/-- The file behind a bracket that a marker has closed. -/
def Wrote (l : Log) (txnId : UInt64) (last : RecordData)
    (db : LayeredGraphDatabase BinaryFileStorage C) : Prop :=
  ∃ rs : Log, LogFits rs ∧ PlainRecords rs ∧ db.storage.file =
    header ++ encodeLog (l ++ (.sorted, .beginTxn txnId) :: (rs ++ [(.sorted, last)]))

omit [LawfulCachePort C] in
theorem Writing.wrote (h : Writing l txnId db) (last : RecordData) :
    Wrote l txnId last { db with storage := ⟨db.storage.file ++ encodeRecord .sorted last⟩ } := by
  obtain ⟨-, rs, hrs, hplain, hfile⟩ := h
  refine ⟨rs, hrs, hplain, ?_⟩
  change db.storage.file ++ encodeRecord .sorted last = _
  rw [hfile, encodeLog_written]

/-- A commit writes one bracket, which ends as the commit does. -/
theorem commitTransaction_wrote (hl : LogFits l) (hfile : db.storage.file = header ++ encodeLog l)
    (hconfig : db.config.autoCompactAfterWrites = none) {txn : Transaction}
    (hops : ∀ op ∈ txn.operations, op.Storable NodeFits EdgeFits) (ord : HashOrder) :
    (Returns (commitTransaction ord txn) db fun _ db' =>
      Wrote l txn.txnId (.commitTxn txn.txnId) db') ∨
      ∃ e db', commitTransaction ord txn db = (.error e, db') ∧
        Wrote l txn.txnId (.rollbackTxn txn.txnId) db' := by
  have hbegin := on_ok (p := storageField)
    (write_apply .sorted (.beginTxn txn.txnId) db.storage)
  have hopened : Writing l txn.txnId { db with
      storage := ⟨db.storage.file ++ encodeRecord .sorted (.beginTxn txn.txnId)⟩ } := by
    refine ⟨hconfig, [], List.forall_mem_nil _, List.forall_mem_nil _, ?_⟩
    change db.storage.file ++ encodeRecord .sorted (.beginTxn txn.txnId) = _
    rw [hfile, encodeLog_append, encodeLog_cons, encodeLog_nil, List.append_nil, List.append_assoc]
  have hstart : commitTransaction ord txn db = _ := bind_ok hbegin
  rcases commitOps_writing hl hopened hops (ord.sub 0) .default with
    ⟨result, db₁, hloop, hw⟩ | ⟨id, db₁, hw, hloop⟩
  · left
    have hcommit := on_ok (p := storageField)
      (write_apply .sorted (.commitTxn txn.txnId) db₁.storage)
    have hdone : commitTransaction ord txn db = _ :=
      hstart.trans ((bind_ok hloop).trans ((bind_ok hcommit).trans
        (bind_ok (onWrite_of_none (ord.sub 1) hw.1))))
    exact ⟨_, _, hdone, hw.wrote _⟩
  · right
    have hfail : commitTransaction ord txn db = _ := hstart.trans (bind_error hloop)
    exact ⟨_, _, hfail, hw.wrote _⟩

/-- Up to a cut the file shows the same, unless the bytes of the record that is torn spell a marker
or a capacity that the allocator refuses. -/
def ShowsUntilEnd [Allocator] (start : Nat) (log : Log) (c : Contents) : Prop :=
  ∀ m, start ≤ m → m < (header ++ encodeLog log).length → Markerless (tornTail (m - 8) log) →
    replay ((header ++ encodeLog log).take m) = .ok c

/-- Seen from the disk the transaction happens at once, at the end of its commit, or not at all,
where the allocator has room for the records of the log. -/
structure AtomicCommit [Allocator] (g : PlainGraph) (ord : HashOrder) (txn : Transaction)
    (db : LayeredGraphDatabase BinaryFileStorage C) (log : Log) : Prop where
  fits : LogFits log
  file : (commitTransaction ord txn db).2.storage.file = header ++ encodeLog log
  unfinished : log.Granted → ShowsUntilEnd db.storage.file.length log (g.nodes, g.edges)
  failed : log.Granted → ∀ e, (commitTransaction ord txn db).1 = .error e →
    replay (header ++ encodeLog log) = .ok (g.nodes, g.edges)
  committed : log.Granted → ∀ result, (commitTransaction ord txn db).1 = .ok result →
    (txn.operations.Pairwise fun a b => a.Clashes b = false) → Settles txn.operations db →
    ∃ g', g.commit txn.operations = .ok g' ∧
      replay (header ++ encodeLog log) = .ok (g'.nodes, g'.edges)

variable {g : PlainGraph}

/-- The file of a database in step shows its graph, and no bracket is open. -/
theorem Sync.file_eq (h : Sync BinaryFileStorage.spec db g) : ∃ l, LogFits l ∧
    db.storage.file = header ++ encodeLog l ∧ stateOf l = ⟨g.nodes, g.edges, none⟩ := by
  obtain ⟨l, hl, hfile⟩ := h.valid
  refine ⟨l, hl, hfile, ?_⟩
  rw [← view_log hl, ← h.stored]
  exact congrArg (fun file => view ⟨file⟩) hfile.symm

/-- The log behind a commit that writes its bracket around `rs`. -/
def bracketLog (l : Log) (txnId : UInt64) (rs : Log) (last : RecordData) : Log :=
  l ++ (.sorted, .beginTxn txnId) :: (rs ++ [(.sorted, last)])

theorem showsUntilEnd [Allocator] {rs : Log} {last : RecordData}
    (hfits : LogFits (bracketLog l txnId rs last)) (hplain : PlainRecords rs)
    (hstate : stateOf l = ⟨g.nodes, g.edges, none⟩) (hg : (bracketLog l txnId rs last).Granted) :
    ShowsUntilEnd (header ++ encodeLog l).length (bracketLog l txnId rs last)
      (g.nodes, g.edges) := by
  intro m hm hlt htorn
  rw [bracketLog] at hlt htorn ⊢
  rw [replay_cut_bracket hfits hg (congrArg ReplayState.txnBuffer hstate) hplain hm hlt htorn,
    hstate]
  rfl

theorem contents_rollback {rs : Log} (hplain : PlainRecords rs)
    (hstate : stateOf l = ⟨g.nodes, g.edges, none⟩) :
    (stateOf (bracketLog l txnId rs (.rollbackTxn txnId))).contents = (g.nodes, g.edges) := by
  rw [bracketLog, stateOf_append, Log.records_cons, Log.records_append]
  change (ReplayState.run _ (.beginTxn txnId :: (rs.records ++ [.rollbackTxn txnId]))).contents = _
  rw [contents_rolledBack (congrArg ReplayState.txnBuffer hstate) txnId hplain, hstate]
  rfl

end LayeredGraphDatabase

open LayeredGraphDatabase

/-- An open transaction, committed at any time. -/
theorem Session.Mirrors.atomicCommit [Allocator] {n : ℕ}
    {s : Session BinaryFileStorage (NoCache ⊕ LruCache)} {p : PlainSession}
    (h : Mirrors BinaryFileStorage.spec n s p) {t : Nat} {txn : Transaction}
    (ht : s.transactions[t]? = some (txn, true))
    (hconfig : s.db.config.autoCompactAfterWrites = none) (ord : HashOrder) :
    ∃ log, AtomicCommit p.graph ord txn s.db log := by
  obtain ⟨l, hl, hfile, hstate⟩ := h.sync.file_eq
  have hops := h.storable _ (List.mem_of_getElem? ht)
  rcases commitTransaction_wrote hl hfile hconfig hops ord with
    ⟨result, db, hrun, rs, hrs, hplain, hwritten⟩ | ⟨e, db, hrun, rs, hrs, hplain, hwritten⟩
  · have hfits : LogFits (bracketLog l txn.txnId rs (.commitTxn txn.txnId)) :=
      logFits_written hl hrs txn.txnId trivial
    refine ⟨_, hfits, by rw [hrun]; exact hwritten, fun hg => ?_, fun _ e he => ?_,
      fun hg _ _ hapart hsettles => ?_⟩
    · rw [hfile]
      exact showsUntilEnd hfits hplain hstate hg
    · rw [hrun] at he
      cases he
    · rcases h.sync.commitTransaction ord (h.suits ht hsettles) hsettles.2
        (h.onItsOwn ht hapart) with
        ⟨g, hg', result', db', hrun', -, hsync, -, -⟩ | ⟨e, -, herr⟩
      · -- the log and the one that the database is in step with are the same bytes
        obtain ⟨l', hl', hfile', hstate'⟩ := hsync.file_eq
        rw [hrun] at hrun'
        obtain rfl := (Prod.mk.inj hrun').2
        have hsame := replay_log hl'
        rw [← hfile', hwritten] at hsame
        have hcontents := Outcome.ok.inj ((replay_log hfits).symm.trans hsame)
        refine ⟨g, hg', ?_⟩
        rw [replay_log_granted hfits hg, hcontents, hstate']
        rfl
      · rw [hrun] at herr
        cases herr
  · have hfits : LogFits (bracketLog l txn.txnId rs (.rollbackTxn txn.txnId)) :=
      logFits_written hl hrs txn.txnId trivial
    refine ⟨_, hfits, by rw [hrun]; exact hwritten, fun hg => ?_, fun hg _ _ => ?_,
      fun _ result hr => ?_⟩
    · rw [hfile]
      exact showsUntilEnd hfits hplain hstate hg
    · rw [replay_log_granted hfits hg, contents_rollback hplain hstate]
    · rw [hrun] at hr
      cases hr

/-- On the disk every commit of every session is all or nothing, as long as none compacts the
log. -/
theorem commits_all_or_nothing [Allocator] (ord : HashOrder) (cache : CacheAdapter)
    (config : DatabaseConfig) (txnCounter : UInt64) (inputs : List (HashOrder × Work))
    (hinputs : ∀ w ∈ inputs, w.2.Inserts NodeFits EdgeFits) (hlen : inputs.length < 2 ^ 64) :
    ∃ db : LayeredGraphDatabase BinaryFileStorage (NoCache ⊕ LruCache),
      openWithConfig ord (FileStorage.openPath none) cache.new .new config = .ok db ∧
      (Machine.Along Session.Orderly (fun w => Session.work w.1 w.2) inputs ⟨db, txnCounter, []⟩ →
        ∃ p, Machine.Runs (fun p w => p.Answers w.2) PlainSession.empty inputs
            (Session.works inputs ⟨db, txnCounter, []⟩).1 p ∧
          ∀ s, (Session.works inputs ⟨db, txnCounter, []⟩).2 = s →
            s.db.config.autoCompactAfterWrites = none →
            ∀ (t : Nat) (txn : Transaction), s.transactions[t]? = some (txn, true) →
              ∀ ord', ∃ log, AtomicCommit p.graph ord' txn s.db log) := by
  obtain ⟨db, hopen, -, hstart⟩ :=
    Session.openPath_mirrors BinaryFileStorage.spec ord cache config txnCounter hlen
  refine ⟨db, hopen, fun ho => ?_⟩
  obtain ⟨p, hruns, hend⟩ := Session.works_mirror (m := 0) (by rwa [Nat.zero_add]) hinputs ho
  refine ⟨p, hruns, ?_⟩
  rintro s rfl hconfig t txn ht ord'
  exact hend.atomicCommit ht hconfig ord'

/-- A node, and a transaction that hangs an edge with a missing end on it. -/
def missingEndInputs : List (HashOrder × Work) :=
  [(.sorted, .call (.insertNode "A" ∅)),
    (.sorted, .transact .begin),
    (.sorted, .transact (.insertNode 0 "B" ∅)),
    (.sorted, .transact (.insertEdge 0 ⟨0⟩ ⟨7⟩ "L" ⟨0x3ff0000000000000⟩ ∅))]

def missingEndTransaction : Transaction where
  txnId := 1
  operations := [.insertNode ⟨⟨1⟩, "B", ∅⟩,
    .insertEdge ⟨⟨0⟩, ⟨0⟩, ⟨7⟩, "L", ⟨0x3ff0000000000000⟩, ∅⟩]
  idGen := ⟨2, 1⟩

theorem commits_all_or_nothing_missingEnd :
    letI := Allocator.below 1000
    ∃ db : LayeredGraphDatabase BinaryFileStorage (NoCache ⊕ LruCache),
      openWithConfig .sorted (FileStorage.openPath none) CacheAdapter.noCache.new .new
        .unrestricted = .ok db ∧
      ∃ p, Machine.Runs (fun p w => p.Answers w.2) PlainSession.empty missingEndInputs
          (Session.works missingEndInputs ⟨db, 1, []⟩).1 p ∧
        (Session.works missingEndInputs ⟨db, 1, []⟩).2.transactions[0]? =
          some (missingEndTransaction, true) ∧
        ∃ log, AtomicCommit p.graph .sorted missingEndTransaction
          (Session.works missingEndInputs ⟨db, 1, []⟩).2.db log := by
  let _ := Allocator.below 1000
  have hfits : StrFits "A" ∧ StrFits "B" ∧ StrFits "L" ∧ PropertiesFit ∅ := by decide
  have hinputs : ∀ w ∈ missingEndInputs, w.2.Inserts NodeFits EdgeFits := by
    intro w hw
    simp only [missingEndInputs, List.mem_cons, List.not_mem_nil, or_false] at hw
    rcases hw with rfl | rfl | rfl | rfl
    · exact fun _ => ⟨hfits.1, hfits.2.2.2⟩
    · trivial
    · exact fun _ => ⟨hfits.2.1, hfits.2.2.2⟩
    · exact fun _ => ⟨hfits.2.2.1, hfits.2.2.2⟩
  obtain ⟨db, hopen, hrun⟩ := commits_all_or_nothing .sorted .noCache .unrestricted 1
    missingEndInputs hinputs (by decide)
  have hnew : openWithConfig .sorted (FileStorage.openPath none : BinaryFileStorage)
      CacheAdapter.noCache.new .new .unrestricted =
      .ok ⟨.new, CacheAdapter.noCache.new, ⟨header⟩, .new, .new, .new, .unrestricted, 0⟩ := rfl
  obtain rfl := Except.ok.inj (hopen.symm.trans hnew)
  refine ⟨_, hopen, ?_⟩
  obtain ⟨p, hruns, hall⟩ := hrun (by decide +kernel)
  exact ⟨p, hruns, by decide +kernel,
    hall _ rfl (by decide +kernel) 0 _ (by decide +kernel) .sorted⟩

end AdGraphDb
