import AdGraphDb.Storage.Compaction

/-!
# A compacted log is the shortest one

Every live node and edge has its record in the log, and compaction writes nothing else.
-/

namespace AdGraphDb

/-- Distinct elements of a list weigh no more than the list, and less if anything is left. -/
theorem sum_map_of_nodup_subset {α : Type} {l l' : List α} {f : α → ℕ} (hf : ∀ a, 0 < f a)
    (hl : l.Nodup) (h : l ⊆ l') :
    (l.map f).sum ≤ (l'.map f).sum ∧ ((l.map f).sum = (l'.map f).sum ↔ l'.Perm l) := by
  obtain ⟨m, hm, hsub⟩ := List.subperm_of_subset hl h
  obtain ⟨rest, hrest⟩ := hsub.exists_perm_append
  have hperm : l'.Perm (l ++ rest) := hrest.trans (hm.append_right rest)
  have hsum : (l'.map f).sum = (l.map f).sum + (rest.map f).sum := by
    rw [(hperm.map f).sum_eq, List.map_append, List.sum_append]
  refine ⟨by omega, fun heq => ?_, fun hp => (hp.map f).sum_eq.symm⟩
  cases rest with
  | nil => rwa [List.append_nil] at hperm
  | cons a rest =>
    have := hf a
    rw [List.map_cons, List.sum_cons] at hsum
    omega

/-! ## The size of a record -/

theorem length_writeProperties (ord ord' : HashOrder) (props : Properties) :
    (writeProperties ord props).length = (writeProperties ord' props).length := by
  have hperm : (props.iter ord).Perm (props.iter ord') :=
    (ord.perm 0 _).trans (ord'.perm 0 _).symm
  rw [writeProperties, writeProperties, List.length_append, List.length_append,
    (hperm.flatMap_right writeEntry).length_eq]

theorem length_payload (ord ord' : HashOrder) (r : RecordData) :
    (payload ord r).length = (payload ord' r).length := by
  cases r with
  | upsertNode node =>
    simp only [payload, List.length_append, length_writeProperties ord ord']
  | upsertEdge edge =>
    simp only [payload, List.length_append, length_writeProperties ord ord']
  | _ => rfl

/-- The bytes of a record, in whatever order its properties are written. -/
def recordSize (r : RecordData) : ℕ := (encodeRecord .sorted r).length

theorem length_encodeRecord (ord : HashOrder) (r : RecordData) :
    (encodeRecord ord r).length = recordSize r := by
  rw [recordSize, encodeRecord_length, encodeRecord_length, bodyBytes, bodyBytes,
    List.length_append, List.length_append, length_payload ord .sorted]

theorem recordSize_pos (r : RecordData) : 0 < recordSize r :=
  List.length_pos_iff.mpr (encodeRecord_ne_nil .sorted r)

theorem length_encodeLog (l : Log) : (encodeLog l).length = (l.records.map recordSize).sum := by
  induction l with
  | nil => rfl
  | cons p l ih =>
    rw [encodeLog_cons, List.length_append, ih, length_encodeRecord, Log.records_cons,
      List.map_cons, List.sum_cons]

/-! ## What is live -/

/-- What is in the maps was written by a record of the log. -/
theorem stateOf_written (l : Log) : Holds (fun _ n => .upsertNode n ∈ l.records)
    (fun _ e => .upsertEdge e ∈ l.records) (stateOf l) := by
  apply Holds.empty.run
  intro r hr
  cases r with
  | upsertNode n => exact hr
  | upsertEdge e => exact hr
  | _ => trivial

namespace BinaryFileStorage

/-- One upsert for each node and each edge. -/
def liveRecords (c : Contents) : List RecordData :=
  c.1.vals.map .upsertNode ++ c.2.vals.map .upsertEdge

theorem records_compactedLog_perm (ord : HashOrder) (c : Contents) :
    (compactedLog ord c).records.Perm (liveRecords c) := by
  have hrecords : (compactedLog ord c).records =
      (c.1.valuesIter ord).map .upsertNode ++ (c.2.valuesIter ord).map .upsertEdge := by
    simp [compactedLog, Log.records, Function.comp_def]
  rw [hrecords]
  exact ((HashMap.valuesIter_perm ord c.1).map _).append ((HashMap.valuesIter_perm ord c.2).map _)

theorem liveRecords_subset (l : Log) : liveRecords (stateOf l).contents ⊆ l.records := by
  have hwritten := stateOf_written l
  intro r hr
  rcases List.mem_append.mp hr with hr | hr
  · obtain ⟨n, hn, rfl⟩ := List.mem_map.mp hr
    obtain ⟨id, hid⟩ := HashMap.mem_vals.mp hn
    exact hwritten.nodes id n hid
  · obtain ⟨e, he, rfl⟩ := List.mem_map.mp hr
    obtain ⟨id, hid⟩ := HashMap.mem_vals.mp he
    exact hwritten.edges id e hid

theorem nodup_liveRecords {c : Contents} (hc : ContentsFit c) : (liveRecords c).Nodup := by
  have hnodes : c.1.vals.Nodup := HashMap.nodup_vals fun id n h => (hc.node id n h).1
  have hedges : c.2.vals.Nodup := HashMap.nodup_vals fun id e h => (hc.edge id e h).1
  refine List.Nodup.append (hnodes.map ?_) (hedges.map ?_) ?_
  · exact fun n n' h => RecordData.upsertNode.inj h
  · exact fun e e' h => RecordData.upsertEdge.inj h
  · intro r hn he
    obtain ⟨n, -, rfl⟩ := List.mem_map.mp hn
    obtain ⟨e, -, heq⟩ := List.mem_map.mp he
    cases heq

/-- No log that replays to the same maps is shorter than the compacted one, and as short are
only the logs of the live records, in whatever order. -/
theorem compact_shortest (ord : HashOrder) {l : Log} (hl : LogFits l) :
    ∃ s, compact ord ⟨header ++ encodeLog l⟩ = (.ok (), s) ∧
      AdGraphDb.replay s.file = AdGraphDb.replay (header ++ encodeLog l) ∧
      ∀ l', LogFits l' →
        AdGraphDb.replay (header ++ encodeLog l') = AdGraphDb.replay (header ++ encodeLog l) →
        s.file.length ≤ (header ++ encodeLog l').length ∧
          (s.file.length = (header ++ encodeLog l').length ↔
            l'.records.Perm (liveRecords (stateOf l).contents)) := by
  have hfit := ContentsFit.of_holds (stateOf_holds hl)
  refine ⟨_, compact_log ord hl, ?_, fun l' hl' hsame => ?_⟩
  · rw [replay_log (compactedLog_fits ord hfit), stateOf_compactedLog ord hfit, replay_log hl]
    rfl
  rw [replay_log hl', replay_log hl] at hsame
  have hperm := records_compactedLog_perm ord (stateOf l).contents
  have hsize : (encodeLog (compactedLog ord (stateOf l).contents)).length =
      ((liveRecords (stateOf l).contents).map recordSize).sum := by
    rw [length_encodeLog, (hperm.map recordSize).sum_eq]
  have hsubset := liveRecords_subset l'
  rw [Outcome.ok.inj hsame] at hsubset
  obtain ⟨hle, hiff⟩ := sum_map_of_nodup_subset recordSize_pos (nodup_liveRecords hfit) hsubset
  rw [List.length_append, List.length_append, hsize, length_encodeLog l', ← hiff]
  exact ⟨by omega, by omega⟩

/-- A node that is written twice, and a transaction that never ends. -/
def churnedLog : Log :=
  [(.sorted, .upsertNode ⟨⟨0⟩, "A", ∅⟩), (.sorted, .deleteNode ⟨0⟩),
    (.sorted, .upsertNode ⟨⟨0⟩, "A", ∅⟩), (.sorted, .beginTxn 1),
    (.sorted, .upsertNode ⟨⟨1⟩, "B", ∅⟩)]

theorem compact_shortest_churned :
    ∃ s, compact .sorted ⟨header ++ encodeLog churnedLog⟩ = (.ok (), s) ∧
      AdGraphDb.replay s.file = AdGraphDb.replay (header ++ encodeLog churnedLog) ∧
      ∀ l', LogFits l' →
        AdGraphDb.replay (header ++ encodeLog l') =
          AdGraphDb.replay (header ++ encodeLog churnedLog) →
        s.file.length ≤ (header ++ encodeLog l').length ∧
          (s.file.length = (header ++ encodeLog l').length ↔
            l'.records.Perm (liveRecords (stateOf churnedLog).contents)) :=
  compact_shortest .sorted (by decide)

end BinaryFileStorage
end AdGraphDb
