import AdGraphDb.Storage.Durability

/-!
# Compaction of the binary log

Compaction writes the replayed maps as a log of upserts. The new log replays to the
same maps, but an open bracket is not part of the maps and is forgotten.
-/

namespace AdGraphDb

/-! ## What a log of written records holds -/

/-- The node is stored under its own id and fits the format. -/
def NodeEntryFits (id : NodeId) (n : Node) : Prop := n.id = id ∧ NodeFits n

def EdgeEntryFits (id : EdgeId) (e : Edge) : Prop := e.id = id ∧ EdgeFits e

structure ContentsFit (c : Contents) : Prop where
  node : ∀ (id : NodeId) (n : Node), c.1[id]? = some n → NodeEntryFits id n
  edge : ∀ (id : EdgeId) (e : Edge), c.2[id]? = some e → EdgeEntryFits id e

theorem ContentsFit.of_holds {st : ReplayState} (h : Holds NodeEntryFits EdgeEntryFits st) :
    ContentsFit st.contents := ⟨h.nodes, h.edges⟩

theorem LogFits.records {l : Log} (hl : LogFits l) : ∀ r ∈ l.records, RecordFits r := by
  intro r hr
  obtain ⟨p, hp, rfl⟩ := List.mem_map.mp hr
  exact hl p hp

theorem RecordFits.holds {r : RecordData} (hr : RecordFits r) :
    RecordHolds NodeEntryFits EdgeEntryFits r := by
  cases r with
  | upsertNode n => exact ⟨rfl, hr⟩
  | upsertEdge e => exact ⟨rfl, hr⟩
  | _ => trivial

theorem stateOf_holds {l : Log} (hl : LogFits l) :
    Holds NodeEntryFits EdgeEntryFits (stateOf l) :=
  Holds.empty.run fun r hr => (hl.records r hr).holds

/-! ## The compacted log -/

namespace BinaryFileStorage

/-- The records that compaction writes. -/
def compactedLog (ord : HashOrder) (c : Contents) : Log :=
  ((c.1.valuesIter ord).map fun n => (ord.nth n.id.val.toNat, RecordData.upsertNode n)) ++
    (c.2.valuesIter ord).map fun e => (ord.nth e.id.val.toNat, RecordData.upsertEdge e)

theorem compactedFile_eq (ord : HashOrder) (c : Contents) :
    compactedFile ord c = header ++ encodeLog (compactedLog ord c) := by
  rw [compactedFile, compactedLog, encodeLog_append, List.append_assoc]
  simp only [encodeLog, List.flatMap_map]
  rfl

theorem compactedLog_fits (ord : HashOrder) {c : Contents} (hc : ContentsFit c) :
    LogFits (compactedLog ord c) := by
  intro p hp
  rcases List.mem_append.mp hp with hp | hp <;> obtain ⟨v, hv, rfl⟩ := List.mem_map.mp hp
  · obtain ⟨id, h⟩ := HashMap.mem_vals.mp ((HashMap.valuesIter_perm ord c.1).mem_iff.mp hv)
    exact (hc.node id v h).2
  · obtain ⟨id, h⟩ := HashMap.mem_vals.mp ((HashMap.valuesIter_perm ord c.2).mem_iff.mp hv)
    exact (hc.edge id v h).2

theorem compactedLog_plain (ord : HashOrder) (c : Contents) : PlainRecords (compactedLog ord c) := by
  intro r hr
  obtain ⟨p, hp, rfl⟩ := List.mem_map.mp hr
  rcases List.mem_append.mp hp with hp | hp <;> obtain ⟨v, -, rfl⟩ := List.mem_map.mp hp <;> rfl

/-- Upserts of all the values of a map, each under its own key, rebuild the map. -/
theorem applyAll_values {K V : Type} [Ord K] [Std.TransOrd K] [Std.LawfulEqOrd K] [DecidableEq K]
    (ord : HashOrder) {m : HashMap K V} {key : V → K} (h : ∀ k v, m[k]? = some v → key v = k) :
    Update.applyAll ∅ ((m.valuesIter ord).map fun v => .put (key v) v) = m := by
  have he : (m.valuesIter ord).map (fun v => Update.put (key v) v) =
      (m.iter ord).map fun p => .put p.1 p.2 := by
    rw [HashMap.valuesIter, List.map_map]
    refine List.map_congr_left fun p hp => ?_
    rw [Function.comp_apply, h p.1 p.2 (HashMap.mem_toList.mp (ord.mem_order.mp hp))]
  rw [he, applyAll_puts, HashMap.insertAll_iter]

theorem compactedLog_nodeUpdates (ord : HashOrder) (c : Contents) :
    (compactedLog ord c).records.filterMap RecordData.nodeUpdate? =
      (c.1.valuesIter ord).map fun n => .put n.id n := by
  simp [compactedLog, Log.records, Function.comp_def, RecordData.nodeUpdate?]

theorem compactedLog_edgeUpdates (ord : HashOrder) (c : Contents) :
    (compactedLog ord c).records.filterMap RecordData.edgeUpdate? =
      (c.2.valuesIter ord).map fun e => .put e.id e := by
  simp [compactedLog, Log.records, Function.comp_def, RecordData.edgeUpdate?]

/-- The compacted log replays to the maps it was written from, with no bracket open. -/
theorem stateOf_compactedLog_of_ids (ord : HashOrder) {c : Contents}
    (hnode : ∀ (id : NodeId) (n : Node), c.1[id]? = some n → n.id = id)
    (hedge : ∀ (id : EdgeId) (e : Edge), c.2[id]? = some e → e.id = id) :
    stateOf (compactedLog ord c) = ⟨c.1, c.2, none⟩ := by
  have hp := compactedLog_plain ord c
  have hb : (stateOf (compactedLog ord c)).txnBuffer = none := run_txnBuffer_none rfl hp
  have hn : (stateOf (compactedLog ord c)).nodes = c.1 := by
    refine (run_nodes _ _).trans ?_
    rw [ReplayState.empty, nodeEffects_none hp, compactedLog_nodeUpdates]
    exact applyAll_values ord hnode
  have he : (stateOf (compactedLog ord c)).edges = c.2 := by
    refine (run_edges _ _).trans ?_
    rw [ReplayState.empty, edgeEffects_none hp, compactedLog_edgeUpdates]
    exact applyAll_values ord hedge
  rw [← hn, ← he, ← hb]

theorem stateOf_compactedLog (ord : HashOrder) {c : Contents} (hc : ContentsFit c) :
    stateOf (compactedLog ord c) = ⟨c.1, c.2, none⟩ :=
  stateOf_compactedLog_of_ids ord (fun id n h => (hc.node id n h).1) fun id e h => (hc.edge id e h).1

theorem compact_log (ord : HashOrder) {l : Log} (hl : LogFits l) :
    compact ord ⟨header ++ encodeLog l⟩ =
      (.ok (), ⟨header ++ encodeLog (compactedLog ord (stateOf l).contents)⟩) := by
  rw [compact, Action.bind_tryRead (replay_log_eq hl), ← compactedFile_eq]
  rfl

/-! ## Continuations -/

/-- Whatever is written afterwards, replay does not tell a compacted log from the log. -/
def CompactionInvisible (l : Log) : Prop :=
  ∀ (ord : HashOrder) (calls : List Call), LogFits (written calls) →
    ∀ s s₁ s₂, compact ord ⟨header ++ encodeLog l⟩ = (.ok (), s) →
      Action.forEach perform calls s = (.ok (), s₁) →
      Action.forEach perform calls ⟨header ++ encodeLog l⟩ = (.ok (), s₂) →
      s₁.replay = s₂.replay

theorem compactionInvisible_iff_run {l : Log} (hl : LogFits l) : CompactionInvisible l ↔
    ∀ calls, LogFits (written calls) →
      (ReplayState.run ⟨(stateOf l).nodes, (stateOf l).edges, none⟩ (written calls).records).contents =
        ((stateOf l).run (written calls).records).contents := by
  have hfit := ContentsFit.of_holds (stateOf_holds hl)
  have hc (ord : HashOrder) := compactedLog_fits ord hfit
  constructor
  · intro h calls hw
    have := h .sorted calls hw _ _ _ (compact_log .sorted hl) (forEach_perform _ _)
      (forEach_perform _ _)
    rw [replay_after_calls hl hw (forEach_perform _ _),
      replay_after_calls (hc .sorted) hw (forEach_perform _ _), stateOf_compactedLog .sorted hfit]
      at this
    exact Except.ok.inj this
  · intro h ord calls hw s s₁ s₂ hs h₁ h₂
    rw [compact_log ord hl] at hs
    obtain ⟨-, rfl⟩ := Prod.mk.inj hs
    rw [replay_after_calls (hc ord) hw h₁, replay_after_calls hl hw h₂,
      stateOf_compactedLog ord hfit]
    exact congrArg Except.ok (h calls hw)

/-- A node that is stored nowhere yet. -/
theorem exists_node_ne (o : Option Node) : ∃ n : Node, n.id = ⟨0⟩ ∧ NodeFits n ∧ o ≠ some n := by
  by_cases h : o = some ⟨⟨0⟩, "", ∅⟩
  · exact ⟨⟨⟨0⟩, "A", ∅⟩, rfl, by decide, by rw [h]; decide⟩
  · exact ⟨⟨⟨0⟩, "", ∅⟩, rfl, by decide, h⟩

/-- Compaction keeps the meaning of a log exactly when no bracket is open. -/
theorem compactionInvisible_iff {l : Log} (hl : LogFits l) :
    CompactionInvisible l ↔ ¬LeavesOpen l.records := by
  rw [compactionInvisible_iff_run hl, ← run_txnBuffer_isSome_iff l.records]
  change _ ↔ ¬(stateOf l).txnBuffer.isSome
  constructor
  · intro h hopen
    obtain ⟨n, hid, hn, hne⟩ := exists_node_ne (stateOf l).nodes[(⟨0⟩ : NodeId)]?
    have hw : LogFits (written [.write .sorted (.upsertNode n)]) := by
      intro p hp
      cases List.mem_singleton.mp hp
      exact hn
    have := h [.write .sorted (.upsertNode n)] hw
    rw [contents_run_of_open hopen (by intro r hr; cases List.mem_singleton.mp hr; rfl)] at this
    have hput := congrArg (fun c : Contents => c.1[(⟨0⟩ : NodeId)]?) this
    change ((stateOf l).nodes.insert n.id n)[(⟨0⟩ : NodeId)]? = _ at hput
    rw [HashMap.getElem?_insert', if_pos hid] at hput
    exact hne hput.symm
  · intro h calls _
    have hb : (stateOf l).txnBuffer = none := Option.not_isSome_iff_eq_none.mp h
    rw [← hb]

/-- A node that a closed bracket deletes again, and another one behind it. -/
theorem compactionInvisible_example :
    CompactionInvisible [(.sorted, .upsertNode ⟨⟨0⟩, "A", ∅⟩), (.sorted, .beginTxn 1),
      (.sorted, .deleteNode ⟨0⟩), (.sorted, .commitTxn 1), (.sorted, .upsertNode ⟨⟨1⟩, "B", ∅⟩)] :=
  (compactionInvisible_iff (by decide)).mpr (by
    rw [← run_txnBuffer_isSome_iff]
    decide)

/-- Compaction inside a bracket turns the rest of the transaction into plain writes. -/
theorem compaction_forgets_bracket : LogFits [(.sorted, .beginTxn 1)] ∧
    ¬CompactionInvisible [(.sorted, .beginTxn 1)] := by
  refine ⟨by decide, fun h => ?_⟩
  have := h .sorted [.write .sorted (.upsertNode ⟨⟨0⟩, "A", ∅⟩)] (by decide) _ _ _ rfl rfl rfl
  revert this
  decide

end BinaryFileStorage
end AdGraphDb
