import AdGraphDb.Storage.Visits

/-!
# Record boundaries

A frame is a stretch of bytes that one pass of the replay loop consumes exactly,
whatever follows it. The loop stays on the boundaries of a file made of frames.
-/

namespace AdGraphDb

/-- The frames that the passes of the replay loop find, each with the cursor behind it. -/
def passes (data : Bytes) : Nat → Nat → List (Frame × Nat)
  | 0, _ => []
  | fuel + 1, pos =>
    if pos < data.length then
      match nextFrame true data pos with
      | (.record r, pos) => (.record r, pos) :: passes data fuel pos
      | (.skipped, pos) => (.skipped, pos) :: passes data fuel pos
      | (found, pos) => [(found, pos)]
    else []

theorem scan_eq_passes (data : Bytes) (fuel pos : Nat) :
    scan data fuel pos = (passes data fuel pos).filterMap fun p => p.1.record? := by
  induction fuel generalizing pos with
  | zero => rfl
  | succ fuel ih =>
    rw [scan, passes]
    split_ifs
    · cases hf : nextFrame true data pos with
      | mk found p =>
        cases found with
        | record r => exact congrArg (r :: ·) (ih p)
        | skipped => exact ih p
        | stopped => rfl
        | panicked => rfl
    · rfl

/-- `b` is read as the frame `found`. -/
def ReadsAs (b : Bytes) (found : Frame) : Prop :=
  found.continues ∧ b ≠ [] ∧ ∀ rest, nextFrame true (b ++ rest) 0 = (found, b.length)

theorem readsAs_encodeRecord (ord : HashOrder) {r : RecordData} (hr : RecordFits r) :
    ReadsAs (encodeRecord ord r) (.record r) :=
  ⟨rfl, encodeRecord_ne_nil ord r, nextFrame_encode ord hr⟩

/-- The passes over frames that start at `pos`. -/
def boundaries : Nat → List (Bytes × Frame) → List (Frame × Nat)
  | _, [] => []
  | pos, c :: cs => (c.2, pos + c.1.length) :: boundaries (pos + c.1.length) cs

theorem nextFrame_at {pre b : Bytes} {found : Frame} (h : ReadsAs b found) (rest : Bytes) :
    nextFrame true (pre ++ (b ++ rest)) pre.length = (found, pre.length + b.length) := by
  have hpos : 0 < b.length := List.length_pos_iff.mpr h.2.1
  have hlt : pre.length + 0 < (pre ++ (b ++ rest)).length := by
    simp only [List.length_append]
    omega
  have hs := nextFrame_shift hlt
  rw [List.drop_left, h.2.2 rest, Nat.add_zero] at hs
  exact hs

/-- No pass leaves the boundaries, whatever precedes the frames. -/
theorem passes_frames {cs : List (Bytes × Frame)} (hcs : ∀ c ∈ cs, ReadsAs c.1 c.2) (pre : Bytes)
    {n : Nat} (hn : (cs.flatMap Prod.fst).length ≤ n) :
    passes (pre ++ cs.flatMap Prod.fst) n pre.length = boundaries pre.length cs := by
  induction cs generalizing pre n with
  | nil =>
    cases n with
    | zero => rfl
    | succ n => rw [List.flatMap_nil, List.append_nil, passes, if_neg (lt_irrefl _), boundaries]
  | cons c cs ih =>
    have hc := hcs c List.mem_cons_self
    have hpos : 0 < c.1.length := List.length_pos_iff.mpr hc.2.1
    rw [List.flatMap_cons] at hn ⊢
    rw [List.length_append] at hn
    obtain ⟨m, rfl⟩ : ∃ m, n = m + 1 := ⟨n - 1, by omega⟩
    have hlt : pre.length < (pre ++ (c.1 ++ cs.flatMap Prod.fst)).length := by
      simp only [List.length_append]
      omega
    have hnext := ih (fun d hd => hcs d (List.mem_cons_of_mem c hd)) (pre ++ c.1)
      (n := m) (by omega)
    rw [List.append_assoc, List.length_append] at hnext
    rw [passes, if_pos hlt, nextFrame_at hc, boundaries]
    cases hf : c.2 with
    | record r => exact congrArg ((Frame.record r, pre.length + c.1.length) :: ·) hnext
    | skipped => exact congrArg ((Frame.skipped, pre.length + c.1.length) :: ·) hnext
    | stopped => exact absurd (hf ▸ hc.1) nofun
    | panicked => exact absurd (hf ▸ hc.1) nofun

/-- The records of a file made of frames. -/
theorem readLog_frames {cs : List (Bytes × Frame)} (hcs : ∀ c ∈ cs, ReadsAs c.1 c.2) :
    readLog (cs.flatMap Prod.fst) = cs.filterMap fun c => c.2.record? := by
  have hpass := passes_frames hcs [] (le_refl _)
  rw [List.nil_append, List.length_nil] at hpass
  rw [readLog, scan_eq_passes, hpass]
  clear hpass
  generalize 0 = pos
  induction cs generalizing pos with
  | nil => rfl
  | cons c cs ih =>
    have htail := ih (fun d hd => hcs d (List.mem_cons_of_mem c hd)) (pos + c.1.length)
    rw [boundaries, List.filterMap_cons, List.filterMap_cons]
    dsimp only
    rw [htail]

/-! ## Written logs -/

/-- The frames of a log. -/
def Log.frames (l : Log) : List (Bytes × Frame) := l.map fun p => (encodeRecord p.1 p.2, .record p.2)

theorem encodeLog_eq_frames (l : Log) : encodeLog l = l.frames.flatMap Prod.fst := by
  rw [Log.frames, List.flatMap_map]
  rfl

theorem readsAs_frames {l : Log} (hl : LogFits l) : ∀ c ∈ l.frames, ReadsAs c.1 c.2 := by
  intro c hc
  obtain ⟨p, hp, rfl⟩ := List.mem_map.mp hc
  exact readsAs_encodeRecord p.1 (hl p hp)

/-- Applying one record to the maps. -/
def applyToMaps (c : Contents) : RecordData → Contents
  | .upsertNode n => (c.1.insert n.id n, c.2)
  | .upsertEdge e => (c.1, c.2.insert e.id e)
  | .deleteNode id => (c.1.erase id, c.2)
  | .deleteEdge id => (c.1, c.2.erase id)
  | _ => c

/-- Outside a bracket `apply_or_buffer` applies. -/
theorem applyRecord_closed {r : RecordData} (h : r.isMarker = false) (c : Contents) :
    (⟨c.1, c.2, none⟩ : ReplayState).applyRecord r =
      ⟨(applyToMaps c r).1, (applyToMaps c r).2, none⟩ := by
  cases r <;> first | rfl | cases h

theorem run_eq_applyToMaps {rs : List RecordData} (h : ∀ r ∈ rs, r.isMarker = false) (c : Contents) :
    (⟨c.1, c.2, none⟩ : ReplayState).run rs =
      ⟨(rs.foldl applyToMaps c).1, (rs.foldl applyToMaps c).2, none⟩ := by
  induction rs generalizing c with
  | nil => rfl
  | cons r rs ih =>
    rw [ReplayState.run_cons, applyRecord_closed (h r List.mem_cons_self),
      ih fun s hs => h s (List.mem_cons_of_mem r hs)]
    rfl

/-- Replaying written records meets every record at its own boundary, skips and stops
nowhere, and applies them in order. -/
theorem replay_undoes_encoding {l : Log} (hl : LogFits l) (hplain : BinaryFileStorage.PlainRecords l) :
    passes (header ++ encodeLog l) (header ++ encodeLog l).length 8 = boundaries 8 l.frames ∧
      replay (header ++ encodeLog l) = .ok (l.records.foldl applyToMaps (∅, ∅)) := by
  constructor
  · have hpass := passes_frames (readsAs_frames hl) header
      (n := (header ++ encodeLog l).length)
    rw [← encodeLog_eq_frames, List.length_append] at hpass
    rw [List.length_append]
    exact hpass (Nat.le_add_left _ _)
  · have hrun := run_eq_applyToMaps hplain (∅, ∅)
    rw [replay_log hl, stateOf, ReplayState.empty]
    rw [hrun]
    rfl

/-- An edge with a property, its source node and the deletion of the edge. -/
theorem replay_undoes_encoding_example :
    replay (header ++ encodeLog
      [(.sorted, .upsertEdge ⟨⟨4⟩, ⟨0⟩, ⟨1⟩, "E", ⟨0x7ff8000000000001⟩,
          (∅ : Properties).insert "k" (.float ⟨0x7ff0000000000000⟩)⟩),
        (.sorted, .upsertNode ⟨⟨0⟩, "A", ∅⟩), (.sorted, .deleteEdge ⟨4⟩)]) =
      .ok ((∅ : HashMap NodeId Node).insert ⟨0⟩ ⟨⟨0⟩, "A", ∅⟩, ∅) :=
  (replay_undoes_encoding (by decide) (by decide)).2.trans (by decide)

end AdGraphDb
