import AdGraphDb.Storage.JsonStores

/-!
# What the database relies on in a storage adapter

An adapter is a store of records: every call that succeeds acts on the replayed maps as
the record it writes, and the maps survive a restart. Both adapters are such stores on
the records that they can write.
-/

namespace AdGraphDb
open AdGraphDb.Action

structure StorageSpec (S : Type) [FileStorage S] where
  Valid : S → Prop
  /-- The state of the replay loop at the end of the file. -/
  view : S → ReplayState
  NodeStorable : Node → Prop
  EdgeStorable : Edge → Prop
  /-- Whether transaction markers reach the file. -/
  recordsMarkers : Bool
  valid_openPath : Valid (FileStorage.openPath none)
  view_openPath : view (FileStorage.openPath none) = .empty
  reopen_eq : ∀ s : S, FileStorage.reopen s = s
  holds : ∀ {s}, Valid s → Holds (fun id n => n.id = id ∧ NodeStorable n)
    (fun id e => e.id = id ∧ EdgeStorable e) (view s)
  unbuffered : recordsMarkers = false → ∀ {s}, Valid s → (view s).txnBuffer = none
  write : ∀ (ord : HashOrder) (r : RecordData) {s : S}, Valid s →
    RecordHolds (fun _ => NodeStorable) (fun _ => EdgeStorable) r →
    Returns (StoragePort.write ord r) s fun _ s' => Valid s' ∧
      view s' = if r.isMarker && !recordsMarkers then view s else (view s).applyRecord r
  loadNode : ∀ (id : NodeId) {s : S}, Valid s →
    StoragePort.loadNode id s = .ok (view s).nodes[id]?
  loadEdge : ∀ (id : EdgeId) {s : S}, Valid s →
    StoragePort.loadEdge id s = .ok (view s).edges[id]?
  loadAllNodes : ∀ (ord : HashOrder) {s : S}, Valid s →
    StoragePort.loadAllNodes ord s = .ok ((view s).nodes.valuesIter ord)
  loadAllEdges : ∀ (ord : HashOrder) {s : S}, Valid s →
    StoragePort.loadAllEdges ord s = .ok ((view s).edges.valuesIter ord)
  compact : ∀ (ord : HashOrder) {s : S}, Valid s →
    Returns (StoragePort.compact ord) s fun _ s' => Valid s' ∧
      view s' = ⟨(view s).nodes, (view s).edges, none⟩

/-- Outside transactions every adapter acts as the record. -/
theorem StorageSpec.write_plain {S : Type} [FileStorage S] (L : StorageSpec S) (ord : HashOrder)
    {r : RecordData} (hr : r.isMarker = false) {s : S} (h : L.Valid s)
    (hs : RecordHolds (fun _ => L.NodeStorable) (fun _ => L.EdgeStorable) r) :
    Returns (StoragePort.write ord r) s fun _ s' => L.Valid s' ∧
      L.view s' = (L.view s).applyRecord r := by
  have := L.write ord r h hs
  rwa [hr, Bool.false_and] at this

/-! ## The binary adapter -/

namespace BinaryFileStorage

/-- The file is a log of whole records that fit the format. -/
def Valid (s : BinaryFileStorage) : Prop := ∃ l, LogFits l ∧ s.file = header ++ encodeLog l

def view (s : BinaryFileStorage) : ReplayState := ReplayState.empty.run (readLog (s.file.drop 8))

theorem view_log {l : Log} (hl : LogFits l) : view ⟨header ++ encodeLog l⟩ = stateOf l := by
  have h := readLog_encodeLog hl []
  rw [List.append_nil, readLog_nil, List.append_nil] at h
  rw [view, List.drop_left' (show header.length = 8 from rfl), h, stateOf]

theorem Valid.replay_eq {s : BinaryFileStorage} (h : s.Valid) :
    s.replay = .ok (s.view.nodes, s.view.edges) := by
  obtain ⟨l, hl, hf⟩ := h
  obtain rfl : s = ⟨header ++ encodeLog l⟩ := congrArg BinaryFileStorage.mk hf
  rw [replay_log_eq hl, view_log hl]
  rfl

theorem write_returns (ord : HashOrder) {r : RecordData} {s : BinaryFileStorage} (h : s.Valid)
    (hr : RecordFits r) : Returns (StoragePort.write ord r) s fun _ s' => s'.Valid ∧
      s'.view = s.view.applyRecord r := by
  obtain ⟨l, hl, hf⟩ := h
  obtain rfl : s = ⟨header ++ encodeLog l⟩ := congrArg BinaryFileStorage.mk hf
  have he : header ++ encodeLog l ++ encodeRecord ord r = header ++ encodeLog (l ++ [(ord, r)]) := by
    rw [encodeLog_append, encodeLog_cons, encodeLog_nil, List.append_nil, List.append_assoc]
  have hl' : LogFits (l ++ [(ord, r)]) :=
    hl.append fun p hp => by cases List.mem_singleton.mp hp; exact hr
  refine ⟨(), _, write_apply ord r _, ?_⟩
  rw [he]
  refine ⟨⟨_, hl', rfl⟩, ?_⟩
  rw [view_log hl', view_log hl, stateOf_append]
  rfl

theorem compact_returns (ord : HashOrder) {s : BinaryFileStorage} (h : s.Valid) :
    Returns (compact ord) s fun _ s' => s'.Valid ∧
      s'.view = ⟨s.view.nodes, s.view.edges, none⟩ := by
  obtain ⟨l, hl, hf⟩ := h
  obtain rfl : s = ⟨header ++ encodeLog l⟩ := congrArg BinaryFileStorage.mk hf
  have hfit := ContentsFit.of_holds (stateOf_holds hl)
  have hc := compactedLog_fits ord hfit
  refine ⟨(), _, compact_log ord hl, ⟨_, hc, rfl⟩, ?_⟩
  rw [view_log hc, view_log hl, stateOf_compactedLog ord hfit]
  rfl

theorem RecordFits.of_holds {r : RecordData}
    (h : RecordHolds (fun _ => NodeFits) (fun _ => EdgeFits) r) : RecordFits r := by
  cases r <;> exact h

def spec : StorageSpec BinaryFileStorage where
  Valid := Valid
  view := view
  NodeStorable := NodeFits
  EdgeStorable := EdgeFits
  recordsMarkers := true
  valid_openPath := ⟨[], nofun, rfl⟩
  view_openPath := rfl
  reopen_eq _ := rfl
  holds {s} h := by
    obtain ⟨l, hl, hf⟩ := h
    obtain rfl : s = ⟨header ++ encodeLog l⟩ := congrArg BinaryFileStorage.mk hf
    rw [view_log hl]
    exact stateOf_holds hl
  unbuffered h := nomatch h
  write ord r s h hr := by
    rw [Bool.not_true, Bool.and_false]
    exact write_returns ord h (RecordFits.of_holds hr)
  loadNode id s h := congrArg (fun c : Except GraphError Contents => do return (← c).1[id]?) h.replay_eq
  loadEdge id s h := congrArg (fun c : Except GraphError Contents => do return (← c).2[id]?) h.replay_eq
  loadAllNodes ord s h :=
    congrArg (fun c : Except GraphError Contents => do return (← c).1.valuesIter ord) h.replay_eq
  loadAllEdges ord s h :=
    congrArg (fun c : Except GraphError Contents => do return (← c).2.valuesIter ord) h.replay_eq
  compact ord s h := compact_returns ord h

end BinaryFileStorage

/-! ## The JSON adapter -/

namespace JsonFileStorage

variable {serde : SerdeJson}

theorem roundTripsOn (hs : serde.RoundTrips) : serde.RoundTripsOn NodeStorable EdgeStorable := by
  intro ord r hr
  apply hs ord r
  cases r <;> exact hr

/-- The store of the records of a class. -/
def storesSpec (N : Node → Prop) (E : Edge → Prop) (hs : serde.RoundTripsOn N E) :
    StorageSpec (JsonFileStorage serde) where
  Valid := Stores N E
  view := view
  NodeStorable := N
  EdgeStorable := E
  recordsMarkers := false
  valid_openPath := .empty
  view_openPath := rfl
  reopen_eq _ := rfl
  holds h := h.holds
  unbuffered _ _ h := h.unbuffered
  write ord r s h hr := by
    rw [Bool.not_false, Bool.and_true]
    exact h.write hs ord hr
  loadNode id s h :=
    congrArg (fun c : Except GraphError Contents => do return (← c).1[id]?) h.replay_eq
  loadEdge id s h :=
    congrArg (fun c : Except GraphError Contents => do return (← c).2[id]?) h.replay_eq
  loadAllNodes ord s h :=
    congrArg (fun c : Except GraphError Contents => do return (← c).1.valuesIter ord) h.replay_eq
  loadAllEdges ord s h :=
    congrArg (fun c : Except GraphError Contents => do return (← c).2.valuesIter ord) h.replay_eq
  compact ord s h := h.compact hs ord

end JsonFileStorage

end AdGraphDb
