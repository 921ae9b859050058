import AdGraphDb.Storage.BinaryFile
import AdGraphDb.Storage.Brackets

/-!
# Acknowledged writes and unfinished transactions

A write that returned `Ok` is durable when later replays contain it. Behind a
`BeginTxn` that no `CommitTxn` or `RollbackTxn` closes, replay buffers every later
record and drops the buffer at the end of the file.
-/

namespace AdGraphDb
namespace BinaryFileStorage

/-- Applying records in order to replayed maps. -/
def applyRecords (c : Contents) (rs : List RecordData) : Contents :=
  ((⟨c.1, c.2, none⟩ : ReplayState).run rs).contents

/-- Once the calls have returned `Ok`, replay is the earlier replay with the written
records applied in order. -/
def AppendsDurable (s : BinaryFileStorage) (calls : List Call) : Prop :=
  ∀ s', Action.forEach perform calls s = (.ok (), s') → ∀ c, s.replay = .ok c →
    s'.replay = .ok (applyRecords c (written calls).records)

/-- The records outside any transaction. -/
def PlainRecords (l : Log) : Prop := ∀ r ∈ l.records, r.isMarker = false

instance (l : Log) : Decidable (PlainRecords l) :=
  inferInstanceAs (Decidable (∀ r ∈ l.records, r.isMarker = false))

theorem applyRecords_eq {c : Contents} {rs : List RecordData} (h : ∀ r ∈ rs, r.isMarker = false) :
    applyRecords c rs = (Update.applyAll c.1 (rs.filterMap RecordData.nodeUpdate?),
      Update.applyAll c.2 (rs.filterMap RecordData.edgeUpdate?)) := by
  rw [applyRecords, ReplayState.contents, run_nodes, run_edges, nodeEffects_none h,
    edgeEffects_none h]

theorem replay_log_eq {l : Log} (hl : LogFits l) :
    BinaryFileStorage.replay ⟨header ++ encodeLog l⟩ = .ok (stateOf l).contents :=
  replay_eq_ok (replay_log hl)

/-- Appending to a log of whole records. -/
theorem replay_after_calls {l : Log} (hl : LogFits l) {calls : List Call}
    (hw : LogFits (written calls)) {s' : BinaryFileStorage}
    (h : Action.forEach perform calls ⟨header ++ encodeLog l⟩ = (.ok (), s')) :
    s'.replay = .ok ((stateOf l).run (written calls).records).contents := by
  rw [forEach_perform, List.append_assoc, ← encodeLog_append] at h
  obtain ⟨-, rfl⟩ := Prod.mk.inj h
  rw [replay_log_eq (hl.append hw), stateOf_append]

/-- Behind an open bracket the appended writes are lost, so they are durable only when
the last record of every id writes what the replay holds anyway. -/
theorem appendsDurable_after_unfinished_iff {l : Log} (hl : LogFits l)
    (hopen : LeavesOpen l.records) {calls : List Call} (hw : LogFits (written calls))
    (hplain : PlainRecords (written calls)) :
    AppendsDurable ⟨header ++ encodeLog l⟩ calls ↔
      Update.Settled (stateOf l).nodes ((written calls).records.filterMap RecordData.nodeUpdate?) ∧
      Update.Settled (stateOf l).edges ((written calls).records.filterMap RecordData.edgeUpdate?) := by
  have hbuf : (stateOf l).txnBuffer.isSome := (run_txnBuffer_isSome_iff l.records).mpr hopen
  have hrun : ∀ s', Action.forEach perform calls ⟨header ++ encodeLog l⟩ = (.ok (), s') →
      s'.replay = .ok (stateOf l).contents := by
    intro s' h
    rw [replay_after_calls hl hw h, contents_run_of_open hbuf hplain]
  have happly : applyRecords (stateOf l).contents (written calls).records = (stateOf l).contents ↔
      Update.Settled (stateOf l).nodes ((written calls).records.filterMap RecordData.nodeUpdate?) ∧
      Update.Settled (stateOf l).edges
        ((written calls).records.filterMap RecordData.edgeUpdate?) := by
    rw [applyRecords_eq hplain, ReplayState.contents, Prod.mk.injEq, Update.applyAll_eq_self_iff,
      Update.applyAll_eq_self_iff]
  rw [← happly]
  constructor
  · intro h
    have := h _ (forEach_perform calls _) _ (replay_log_eq hl)
    rw [hrun _ (forEach_perform calls _)] at this
    exact (Except.ok.inj this).symm
  · intro h s' hs' c hc
    rw [replay_log_eq hl] at hc
    rw [hrun s' hs', ← Except.ok.inj hc, h]

/-- A node is saved, a transaction begins and is never finished, and the same node is
saved once more: the last write changes nothing and is durable. -/
theorem appendsDurable_after_unfinished_example :
    AppendsDurable ⟨header ++ encodeLog
        [(.sorted, .upsertNode ⟨⟨0⟩, "A", ∅⟩), (.sorted, .beginTxn 1)]⟩
      [.reopen, .write .sorted (.upsertNode ⟨⟨0⟩, "A", ∅⟩)] :=
  (appendsDurable_after_unfinished_iff (by decide) ⟨[.upsertNode ⟨⟨0⟩, "A", ∅⟩], 1, [], rfl, nofun⟩
    (by decide) (by decide)).mpr (by decide)

/-- A node saved behind an unfinished transaction is not in the next replay. -/
theorem append_lost_after_unfinished :
    LogFits [(.sorted, .beginTxn 1)] ∧ LeavesOpen (Log.records [(.sorted, .beginTxn 1)]) ∧
      PlainRecords (written [.write .sorted (.upsertNode ⟨⟨0⟩, "A", ∅⟩)]) ∧
      ¬AppendsDurable ⟨header ++ encodeLog [(.sorted, .beginTxn 1)]⟩
        [.write .sorted (.upsertNode ⟨⟨0⟩, "A", ∅⟩)] := by
  refine ⟨by decide, ⟨[], 1, [], rfl, nofun⟩, by decide, fun h => ?_⟩
  have := h ⟨header ++ encodeLog [(.sorted, .beginTxn 1),
    (.sorted, .upsertNode ⟨⟨0⟩, "A", ∅⟩)]⟩ rfl (∅, ∅) (by decide)
  revert this
  decide

end BinaryFileStorage
end AdGraphDb
