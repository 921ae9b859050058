import AdGraphDb.Storage.Compaction
import AdGraphDb.Storage.JsonFile

/-!
# The records of a JSON log

On the assumption that serialization writes a record as one object on one line and
reads it back, a file of written lines replays to the records in order.
-/

namespace AdGraphDb
open AdGraphDb.Action

/-! ## Records that JSON can carry -/

def ValueFinite : Value → Prop
  | .float f => f.isFinite = true
  | _ => True

def PropertiesFinite (props : Properties) : Prop := ∀ p ∈ props.toList, ValueFinite p.2

instance decidableValueFinite : (v : Value) → Decidable (ValueFinite v)
  | .float f => inferInstanceAs (Decidable (f.isFinite = true))
  | .integer _ | .text _ | .boolean _ | .null => .isTrue trivial

instance (props : Properties) : Decidable (PropertiesFinite props) :=
  inferInstanceAs (Decidable (∀ p ∈ props.toList, ValueFinite p.2))

/-- The node fits the binary format, and its floats are numbers. -/
structure NodeStorable (node : Node) : Prop where
  fits : NodeFits node
  finite : PropertiesFinite node.properties

structure EdgeStorable (edge : Edge) : Prop where
  fits : EdgeFits edge
  finite : edge.weight.isFinite = true ∧ PropertiesFinite edge.properties

instance (node : Node) : Decidable (NodeStorable node) :=
  decidable_of_iff (NodeFits node ∧ PropertiesFinite node.properties)
    ⟨fun h => ⟨h.1, h.2⟩, fun h => ⟨h.fits, h.finite⟩⟩

instance (edge : Edge) : Decidable (EdgeStorable edge) :=
  decidable_of_iff (EdgeFits edge ∧ edge.weight.isFinite = true ∧ PropertiesFinite edge.properties)
    ⟨fun h => ⟨h.1, h.2⟩, fun h => ⟨h.fits, h.finite⟩⟩

namespace WalRecord

def Storable : WalRecord → Prop
  | upsertNode node => NodeStorable node
  | upsertEdge edge => EdgeStorable edge
  | _ => True

/-- The same record of the binary log. -/
def toRecord : WalRecord → RecordData
  | upsertNode node => .upsertNode node
  | upsertEdge edge => .upsertEdge edge
  | deleteNode id => .deleteNode ⟨id⟩
  | deleteEdge id => .deleteEdge ⟨id⟩

theorem toRecord_plain (r : WalRecord) : r.toRecord.isMarker = false := by
  cases r <;> rfl

end WalRecord

/-- An object on one line that reads as the record. -/
structure SerdeJson.IsLine (serde : SerdeJson) (line : String) (record : WalRecord) : Prop where
  fromStr : serde.fromStr line = .ok record
  braced : ∃ inner, line = "\x7b" ++ inner ++ "\x7d"
  oneLine : newline ∉ asBytes line

/-- Text that stays on one line and is neither blank nor cut by a carriage return. -/
structure ObjectLine (line : String) : Prop where
  braced : ∃ inner, line = "\x7b" ++ inner ++ "\x7d"
  oneLine : newline ∉ asBytes line

theorem SerdeJson.IsLine.object {serde : SerdeJson} {line : String} {record : WalRecord}
    (h : serde.IsLine line record) : ObjectLine line := ⟨h.braced, h.oneLine⟩

/-- Serialization round-trips on records whose floats are finite. -/
def SerdeJson.RoundTrips (serde : SerdeJson) : Prop :=
  ∀ ord record, record.Storable →
    ∃ line, serde.toString ord record = .ok line ∧ serde.IsLine line record

/-- In whatever order its properties are met, the record is written as a line that reads as it. -/
def SerdeJson.Keeps (serde : SerdeJson) (record : WalRecord) : Prop :=
  ∀ ord, ∃ line, serde.toString ord record = .ok line ∧ serde.IsLine line record

/-- Neither a weight nor a property of the record is a float. -/
def WalRecord.Floatless : WalRecord → Prop
  | upsertNode node => ∀ p ∈ node.properties.toList, ∀ f, p.2 ≠ .float f
  | upsertEdge _ => False
  | _ => True

/-- Strings, integers, booleans and maps round-trip. Floats need not: what is read back may be
a neighbor of what was written. -/
def SerdeJson.KeepsFloatless (serde : SerdeJson) : Prop :=
  ∀ record : WalRecord, record.Floatless → RecordFits record.toRecord → serde.Keeps record

/-! ## Lines -/

theorem asBytes_push_newline (s : String) : asBytes (s.push '\n') = asBytes s ++ [newline] := by
  rw [← String.append_singleton, asBytes_append]
  rfl

namespace JsonFileStorage

variable {serde : SerdeJson} {line : String} {record : WalRecord}

theorem not_isBlank_braced (inner : String) : isBlank ("\x7b" ++ inner ++ "\x7d") = false := by
  have h : ("\x7b" ++ inner ++ "\x7d").toList = '{' :: (inner.toList ++ ['}']) := by simp
  rw [isBlank, h, List.all_cons]
  rfl

theorem isBlank_object (h : ObjectLine line) : isBlank line = false := by
  obtain ⟨inner, hi⟩ := h.braced
  exact hi ▸ not_isBlank_braced inner

theorem decodeLine_asBytes (h : serde.IsLine line record) (n : Nat) :
    decodeLine serde n (asBytes line) = .ok (some record) := by
  rw [decodeLine, fromUTF8?_asBytes]
  dsimp only
  rw [isBlank_object h.object, if_neg Bool.false_ne_true, h.fromStr]

theorem decodeLine_error (h : ObjectLine line) {e : String} (he : serde.fromStr line = .error e)
    (n : Nat) : decodeLine serde n (asBytes line) =
      .error (.deserializationError s!"line {n + 1}: {e}") := by
  rw [decodeLine, fromUTF8?_asBytes]
  dsimp only
  rw [isBlank_object h, if_neg Bool.false_ne_true, he]

theorem lines_asBytes (h : ObjectLine line) (rest : Bytes) :
    lines (asBytes (line.push '\n') ++ rest) = asBytes line :: lines rest := by
  obtain ⟨inner, hi⟩ := h.braced
  have hl : (asBytes line).getLast? ≠ some carriageReturn := by
    have hb : (asBytes "\x7d").getLast? = some 125 := by decide
    rw [hi, asBytes_append, List.getLast?_append, hb, Option.some_or]
    decide
  rw [asBytes_push_newline, List.append_assoc, List.singleton_append]
  exact lines_append h.oneLine hl rest

/-! ## Written files -/

/-- The lines of a log and what they say. -/
abbrev LineLog := List (String × WalRecord)

/-- Every line reads as its record. -/
structure Reads (serde : SerdeJson) (l : LineLog) : Prop where
  line : ∀ p ∈ l, serde.IsLine p.1 p.2
  storable : ∀ p ∈ l, p.2.Storable

def encodeLines (l : LineLog) : Bytes := l.flatMap fun p => asBytes (p.1.push '\n')

/-- The records of the log as records of the replay loop. -/
def LineLog.records (l : LineLog) : List RecordData := l.map fun p => p.2.toRecord

theorem encodeLines_append (l l' : LineLog) :
    encodeLines (l ++ l') = encodeLines l ++ encodeLines l' := List.flatMap_append

/-- Lines are told apart whatever follows them. -/
theorem lines_encodeLines_append {l : LineLog} (h : ∀ p ∈ l, ObjectLine p.1) (rest : Bytes) :
    lines (encodeLines l ++ rest) = (l.map fun p => asBytes p.1) ++ lines rest := by
  induction l with
  | nil => rfl
  | cons p l ih =>
    rw [encodeLines, List.flatMap_cons, List.append_assoc, lines_asBytes (h p List.mem_cons_self)]
    exact congrArg _ (ih fun q hq => h q (List.mem_cons_of_mem p hq))

theorem lines_encodeLines {l : LineLog} (h : ∀ p ∈ l, ObjectLine p.1) :
    lines (encodeLines l) = l.map fun p => asBytes p.1 := by
  have hl := lines_encodeLines_append h []
  rwa [List.append_nil, show lines [] = [] from rfl, List.append_nil] at hl

theorem LineLog.records_plain (l : LineLog) : ∀ r ∈ l.records, r.isMarker = false := by
  intro r hr
  obtain ⟨p, -, rfl⟩ := List.mem_map.mp hr
  exact p.2.toRecord_plain

theorem applyRecord_contents (st : ReplayState) (h : st.txnBuffer = none) (r : WalRecord) :
    applyRecord st.contents r = (st.applyRecord r.toRecord).contents := by
  obtain ⟨nodes, edges, buf⟩ := st
  obtain rfl : buf = none := h
  cases r <;> rfl

theorem replayLines_eq {l : LineLog} (hl : ∀ p ∈ l, serde.IsLine p.1 p.2) (n : Nat) {st : ReplayState}
    (h : st.txnBuffer = none) :
    replayLines serde n (l.map fun p => asBytes p.1) st.contents =
      .ok (st.run l.records).contents := by
  induction l generalizing n st with
  | nil => rfl
  | cons p l ih =>
    rw [List.map_cons, replayLines, decodeLine_asBytes (hl p List.mem_cons_self)]
    dsimp only
    rw [applyRecord_contents st h]
    refine ih (fun q hq => hl q (List.mem_cons_of_mem p hq)) (n + 1) ?_
    rw [applyRecord_txnBuffer, h, stepBuffer_none p.2.toRecord_plain]

/-- A file of written lines replays to its records in order. -/
theorem replay_encodeLines {l : LineLog} (hl : ∀ p ∈ l, serde.IsLine p.1 p.2) :
    replay (⟨encodeLines l⟩ : JsonFileStorage serde) =
      .ok (ReplayState.empty.run l.records).contents := by
  have h : ReplayState.empty.txnBuffer = none := rfl
  rw [replay, lines_encodeLines fun p hp => (hl p hp).object]
  exact replayLines_eq hl 0 h

/-! ## Writing -/

theorem recordLine_eq {ord : HashOrder} (h : serde.toString ord record = .ok line) :
    recordLine serde ord record = .ok (asBytes (line.push '\n')) := by
  rw [recordLine, h]

theorem appendRecord_eq {ord : HashOrder} (h : serde.toString ord record = .ok line)
    (s : JsonFileStorage serde) :
    appendRecord ord record s = (.ok (), ⟨s.file ++ asBytes (line.push '\n')⟩) := by
  rw [appendRecord, bind_tryRead (s := s) (recordLine_eq h)]
  rfl

end JsonFileStorage

end AdGraphDb
