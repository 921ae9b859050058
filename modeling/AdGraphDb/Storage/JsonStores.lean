import AdGraphDb.Storage.JsonLog

/-!
# The JSON adapter on the records that its serialization carries

Whatever class of nodes and edges the serialization reads back, the adapter keeps: its
file replays to the records in order, and a compaction changes nothing.
-/

namespace AdGraphDb
open AdGraphDb.Action

/-- What the record stores satisfies the predicate of its kind. -/
def WalRecord.Carries (N : Node → Prop) (E : Edge → Prop) : WalRecord → Prop
  | upsertNode node => N node
  | upsertEdge edge => E edge
  | _ => True

/-- Serialization round-trips on the records of a class. -/
def SerdeJson.RoundTripsOn (serde : SerdeJson) (N : Node → Prop) (E : Edge → Prop) : Prop :=
  ∀ ord record, record.Carries N E →
    ∃ line, serde.toString ord record = .ok line ∧ serde.IsLine line record

variable {N : Node → Prop} {E : Edge → Prop}

theorem WalRecord.Carries.holds {r : WalRecord} (h : r.Carries N E) :
    RecordHolds (fun id n => n.id = id ∧ N n) (fun id e => e.id = id ∧ E e) r.toRecord := by
  cases r with
  | upsertNode n => exact ⟨rfl, h⟩
  | upsertEdge e => exact ⟨rfl, h⟩
  | _ => trivial

namespace JsonFileStorage

variable {serde : SerdeJson}

/-- Every line of the file reads as a record of the class. -/
def Stores (N : Node → Prop) (E : Edge → Prop) (s : JsonFileStorage serde) : Prop :=
  ∃ l : LineLog, (∀ p ∈ l, serde.IsLine p.1 p.2) ∧ (∀ p ∈ l, p.2.Carries N E) ∧
    s.file = encodeLines l

/-- JSON logs have no brackets. -/
def view (s : JsonFileStorage serde) : ReplayState :=
  match s.replay with
  | .ok c => ⟨c.1, c.2, none⟩
  | .error _ => .empty

theorem view_lines {l : LineLog} (hl : ∀ p ∈ l, serde.IsLine p.1 p.2) :
    view (⟨encodeLines l⟩ : JsonFileStorage serde) = ReplayState.empty.run l.records := by
  have hb : (ReplayState.empty.run l.records).txnBuffer = none :=
    run_txnBuffer_none rfl l.records_plain
  rw [view, replay_encodeLines hl]
  exact congrArg (ReplayState.mk _ _) hb.symm

namespace Stores

variable {s : JsonFileStorage serde}

theorem replay_eq (h : s.Stores N E) : s.replay = .ok (s.view.nodes, s.view.edges) := by
  obtain ⟨l, hl, -, hf⟩ := h
  obtain rfl : s = ⟨encodeLines l⟩ := congrArg JsonFileStorage.mk hf
  rw [replay_encodeLines hl, view_lines hl]
  rfl

theorem holds (h : s.Stores N E) :
    Holds (fun id n => n.id = id ∧ N n) (fun id e => e.id = id ∧ E e) s.view := by
  obtain ⟨l, hl, hc, hf⟩ := h
  obtain rfl : s = ⟨encodeLines l⟩ := congrArg JsonFileStorage.mk hf
  rw [view_lines hl]
  refine Holds.empty.run fun r hr => ?_
  obtain ⟨p, hp, rfl⟩ := List.mem_map.mp hr
  exact (hc p hp).holds

theorem unbuffered (h : s.Stores N E) : s.view.txnBuffer = none := by
  rw [view, h.replay_eq]

theorem empty : Stores N E (⟨[]⟩ : JsonFileStorage serde) := ⟨[], nofun, nofun, rfl⟩

theorem appendRecord (hs : serde.RoundTripsOn N E) (ord : HashOrder) {r : WalRecord}
    (h : s.Stores N E) (hr : r.Carries N E) :
    Returns (appendRecord ord r) s fun _ s' => s'.Stores N E ∧
      s'.view = s.view.applyRecord r.toRecord := by
  obtain ⟨l, hl, hc, hf⟩ := h
  obtain rfl : s = ⟨encodeLines l⟩ := congrArg JsonFileStorage.mk hf
  obtain ⟨line, ht, hline⟩ := hs ord r hr
  have hl' : ∀ p ∈ l ++ [(line, r)], serde.IsLine p.1 p.2 :=
    List.forall_mem_append.mpr ⟨hl, List.forall_mem_singleton.mpr hline⟩
  have hc' : ∀ p ∈ l ++ [(line, r)], p.2.Carries N E :=
    List.forall_mem_append.mpr ⟨hc, List.forall_mem_singleton.mpr hr⟩
  have he : encodeLines l ++ asBytes (line.push '\n') = encodeLines (l ++ [(line, r)]) := by
    rw [encodeLines, encodeLines, List.flatMap_append, List.flatMap_singleton]
  refine ⟨(), _, appendRecord_eq ht _, ?_⟩
  rw [he]
  refine ⟨⟨_, hl', hc', rfl⟩, ?_⟩
  rw [view_lines hl', view_lines hl, LineLog.records, List.map_append, ReplayState.run_append]
  rfl

theorem write (hs : serde.RoundTripsOn N E) (ord : HashOrder) {r : RecordData}
    (h : s.Stores N E) (hr : RecordHolds (fun _ => N) (fun _ => E) r) :
    Returns (StoragePort.write ord r) s fun _ s' => s'.Stores N E ∧
      s'.view = if r.isMarker then s.view else s.view.applyRecord r := by
  cases r with
  | upsertNode n => exact h.appendRecord hs ord (r := .upsertNode n) hr
  | upsertEdge e => exact h.appendRecord hs ord (r := .upsertEdge e) hr
  | deleteNode id => exact h.appendRecord hs .sorted (r := .deleteNode id.val) trivial
  | deleteEdge id => exact h.appendRecord hs .sorted (r := .deleteEdge id.val) trivial
  | _ => exact .pure ⟨h, rfl⟩

end Stores

/-! ## Compaction -/

theorem compactedLog_eq (ord : HashOrder) (c : Contents) :
    (BinaryFileStorage.compactedLog ord c).records =
      (liveRecords ord c).map fun p => p.2.toRecord := by
  simp [BinaryFileStorage.compactedLog, liveRecords, Log.records, WalRecord.toRecord,
    Function.comp_def]

theorem liveRecords_carry (ord : HashOrder) {c : Contents}
    (hn : ∀ (id : NodeId) (n : Node), c.1[id]? = some n → N n)
    (he : ∀ (id : EdgeId) (e : Edge), c.2[id]? = some e → E e) :
    ∀ p ∈ liveRecords ord c, p.2.Carries N E := by
  intro p hp
  rcases List.mem_append.mp hp with hp | hp <;> obtain ⟨v, hv, rfl⟩ := List.mem_map.mp hp
  · obtain ⟨id, h⟩ := HashMap.mem_vals.mp ((HashMap.valuesIter_perm ord c.1).mem_iff.mp hv)
    exact hn id v h
  · obtain ⟨id, h⟩ := HashMap.mem_vals.mp ((HashMap.valuesIter_perm ord c.2).mem_iff.mp hv)
    exact he id v h

/-- Records of the class are all written, each as a line that reads as the record. -/
theorem mapM_recordLine (hs : serde.RoundTripsOn N E) {rs : List (HashOrder × WalRecord)}
    (h : ∀ p ∈ rs, p.2.Carries N E) :
    ∃ l : LineLog, (∀ p ∈ l, serde.IsLine p.1 p.2) ∧ (∀ p ∈ l, p.2.Carries N E) ∧
      l.map Prod.snd = rs.map Prod.snd ∧
      (rs.mapM fun p => recordLine serde p.1 p.2) =
        .ok (l.map fun p => asBytes (p.1.push '\n')) := by
  induction rs with
  | nil => exact ⟨[], nofun, nofun, rfl, rfl⟩
  | cons p rs ih =>
    have hp := h p List.mem_cons_self
    obtain ⟨line, ht, hline⟩ := hs p.1 p.2 hp
    obtain ⟨l, hl, hc, hr, hm⟩ := ih fun q hq => h q (List.mem_cons_of_mem p hq)
    refine ⟨(line, p.2) :: l, List.forall_mem_cons.mpr ⟨hline, hl⟩,
      List.forall_mem_cons.mpr ⟨hp, hc⟩, congrArg (p.2 :: ·) hr, ?_⟩
    rw [List.mapM_cons, recordLine_eq ht, hm]
    rfl

theorem Stores.compact (hs : serde.RoundTripsOn N E) (ord : HashOrder) {s : JsonFileStorage serde}
    (h : s.Stores N E) : Returns (compact ord) s fun _ s' => s'.Stores N E ∧
      s'.view = ⟨s.view.nodes, s.view.edges, none⟩ := by
  have hn (id : NodeId) (n : Node) (hi : s.view.nodes[id]? = some n) := h.holds.nodes id n hi
  have he (id : EdgeId) (e : Edge) (hi : s.view.edges[id]? = some e) := h.holds.edges id e hi
  have hlive : ∀ p ∈ liveRecords ord (s.view.nodes, s.view.edges), p.2.Carries N E :=
    liveRecords_carry ord (fun id n hi => (hn id n hi).2) fun id e hi => (he id e hi).2
  obtain ⟨l, hl, hc, hr, hm⟩ := mapM_recordLine hs hlive
  have hrec : l.records =
      (BinaryFileStorage.compactedLog ord (s.view.nodes, s.view.edges)).records := by
    rw [compactedLog_eq, ← Function.comp_def, ← List.map_map, ← hr, List.map_map]
    rfl
  have hv : view (⟨encodeLines l⟩ : JsonFileStorage serde) = ⟨s.view.nodes, s.view.edges, none⟩ := by
    rw [view_lines hl, hrec]
    exact BinaryFileStorage.stateOf_compactedLog_of_ids ord (fun id n hi => (hn id n hi).1)
      fun id e hi => (he id e hi).1
  refine ⟨(), ⟨encodeLines l⟩, ?_, ⟨l, hl, hc, rfl⟩, hv⟩
  rw [JsonFileStorage.compact, bind_tryRead h.replay_eq, bind_tryRead (s := s) hm]
  rfl

end JsonFileStorage

end AdGraphDb
