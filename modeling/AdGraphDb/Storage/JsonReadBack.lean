import AdGraphDb.Storage.JsonLog

/-!
# Reading back what the JSON store accepted

A float that is no number is written as `null` and rejected when it is read. One such
record makes every later replay of the file fail.
-/

namespace AdGraphDb
open AdGraphDb.Action

/-- The floats of the record are numbers. -/
def WalRecord.Finite : WalRecord → Prop
  | .upsertNode node => PropertiesFinite node.properties
  | .upsertEdge edge => edge.weight.isFinite = true ∧ PropertiesFinite edge.properties
  | _ => True

instance decidableWalRecordFinite : (r : WalRecord) → Decidable r.Finite
  | .upsertNode node => inferInstanceAs (Decidable (PropertiesFinite node.properties))
  | .upsertEdge edge =>
    inferInstanceAs (Decidable (edge.weight.isFinite = true ∧ PropertiesFinite edge.properties))
  | .deleteNode _ | .deleteEdge _ => .isTrue trivial

/-- The record is written as an object on one line. It is read back when its floats are
numbers; otherwise there is a `null` in place of a float, and the line is rejected. -/
def SerdeJson.Documents (serde : SerdeJson) (ord : HashOrder) (record : WalRecord) : Prop :=
  ∃ line, serde.toString ord record = .ok line ∧ ObjectLine line ∧
    (record.Finite → serde.fromStr line = .ok record) ∧
    (¬record.Finite → ∃ e, serde.fromStr line = .error e)

namespace JsonFileStorage

variable {serde : SerdeJson}

inductive Save where
  | node (ord : HashOrder) (node : Node)
  | edge (ord : HashOrder) (edge : Edge)

def Save.ord : Save → HashOrder
  | node ord _ | edge ord _ => ord

def Save.record : Save → WalRecord
  | node _ n => .upsertNode n
  | edge _ e => .upsertEdge e

def save : Save → StorageAction (JsonFileStorage serde) Unit
  | .node ord n => StoragePort.saveNode ord n
  | .edge ord e => StoragePort.saveEdge ord e

theorem save_eq (c : Save) :
    (save c : StorageAction (JsonFileStorage serde) Unit) = appendRecord c.ord c.record := by
  cases c <;> rfl

/-- The node that the last save under `id` stored, if there is one. -/
def lastNode (id : NodeId) (calls : List Save) : Option Node :=
  (Update.last? id (calls.filterMap fun c => c.record.toRecord.nodeUpdate?)).join

def lastEdge (id : EdgeId) (calls : List Save) : Option Edge :=
  (Update.last? id (calls.filterMap fun c => c.record.toRecord.edgeUpdate?)).join

/-- Once the saves have returned `Ok`, replay succeeds and every id loads the value last
saved for it. -/
def ReadsBack (s : JsonFileStorage serde) (calls : List Save) : Prop :=
  ∀ s', Action.forEach save calls s = (.ok (), s') →
    (∃ c, s'.replay = .ok c) ∧
    (∀ id n, lastNode id calls = some n → StoragePort.loadNode id s' = .ok (some n)) ∧
    ∀ id e, lastEdge id calls = some e → StoragePort.loadEdge id s' = .ok (some e)

/-- A replay that succeeds has read every line. -/
theorem replayLines_ok {n : Nat} {ls : List Bytes} {c c' : Contents}
    (h : replayLines serde n ls c = .ok c') : ∀ line ∈ ls, ∃ m o, decodeLine serde m line = .ok o := by
  induction ls generalizing n c with
  | nil => nofun
  | cons line ls ih =>
    rw [replayLines] at h
    intro l hl
    cases hd : decodeLine serde n line with
    | error e => rw [hd] at h; cases h
    | ok o =>
      rw [hd] at h
      rcases List.mem_cons.mp hl with rfl | hl
      · exact ⟨n, o, hd⟩
      · cases o with
        | none => exact ih h l hl
        | some record => exact ih h l hl

/-- The saves append a line each. -/
theorem forEach_save {calls : List Save} (h : ∀ c ∈ calls, serde.Documents c.ord c.record)
    (s : JsonFileStorage serde) :
    ∃ l : LineLog, l.map Prod.snd = calls.map Save.record ∧
      Action.forEach save calls s = (.ok (), ⟨s.file ++ encodeLines l⟩) ∧
      ∀ p ∈ l, ObjectLine p.1 ∧ (p.2.Finite → serde.fromStr p.1 = .ok p.2) ∧
        (¬p.2.Finite → ∃ e, serde.fromStr p.1 = .error e) := by
  induction calls generalizing s with
  | nil => exact ⟨[], rfl, by rw [encodeLines, List.flatMap_nil, List.append_nil]; rfl, nofun⟩
  | cons c calls ih =>
    obtain ⟨line, ht, hline⟩ := h c List.mem_cons_self
    obtain ⟨l, hl, hrun, hlines⟩ := ih (fun d hd => h d (List.mem_cons_of_mem c hd))
      ⟨s.file ++ asBytes (line.push '\n')⟩
    refine ⟨(line, c.record) :: l, congrArg (c.record :: ·) hl, ?_, ?_⟩
    · have hstep : save c s = (.ok (), ⟨s.file ++ asBytes (line.push '\n')⟩) := by
        rw [save_eq, appendRecord_eq ht]
      rw [Action.forEach, bind_ok hstep, hrun, List.append_assoc]
      rfl
    · exact List.forall_mem_cons.mpr ⟨hline, hlines⟩

theorem filterMap_records {α : Type} {l : LineLog} {calls : List Save}
    (h : l.map Prod.snd = calls.map Save.record) (f : RecordData → Option α) :
    l.records.filterMap f = calls.filterMap fun c => f c.record.toRecord := by
  have hmap := congrArg (fun rs => (rs.map WalRecord.toRecord).filterMap f) h
  simp only [List.map_map, List.filterMap_map] at hmap
  rw [LineLog.records, List.filterMap_map]
  exact hmap

theorem loadNode_encodeLines {l : LineLog} (hl : ∀ p ∈ l, serde.IsLine p.1 p.2) (id : NodeId) :
    StoragePort.loadNode id (⟨encodeLines l⟩ : JsonFileStorage serde) =
      .ok (Update.last? id (l.records.filterMap RecordData.nodeUpdate?)).join := by
  have hload : StoragePort.loadNode id (⟨encodeLines l⟩ : JsonFileStorage serde) =
      .ok (ReplayState.empty.run l.records).nodes[id]? := by
    change (do return (← replay _).1[id]?) = _
    rw [replay_encodeLines hl]
    rfl
  rw [hload, run_nodes, ReplayState.empty, nodeEffects_none l.records_plain,
    Update.getElem?_applyAll]
  cases Update.last? id (l.records.filterMap RecordData.nodeUpdate?) <;> simp

theorem loadEdge_encodeLines {l : LineLog} (hl : ∀ p ∈ l, serde.IsLine p.1 p.2) (id : EdgeId) :
    StoragePort.loadEdge id (⟨encodeLines l⟩ : JsonFileStorage serde) =
      .ok (Update.last? id (l.records.filterMap RecordData.edgeUpdate?)).join := by
  have hload : StoragePort.loadEdge id (⟨encodeLines l⟩ : JsonFileStorage serde) =
      .ok (ReplayState.empty.run l.records).edges[id]? := by
    change (do return (← replay _).2[id]?) = _
    rw [replay_encodeLines hl]
    rfl
  rw [hload, run_edges, ReplayState.empty, edgeEffects_none l.records_plain,
    Update.getElem?_applyAll]
  cases Update.last? id (l.records.filterMap RecordData.edgeUpdate?) <;> simp

/-- Earlier records do not matter for an id that is saved later. -/
theorem last?_records_append {K V : Type} [DecidableEq K] {l l' : LineLog} {calls : List Save}
    (h : l'.map Prod.snd = calls.map Save.record) (f : RecordData → Option (Update K V)) {k : K}
    {v : V} (hlast : (Update.last? k (calls.filterMap fun c => f c.record.toRecord)).join = some v) :
    (Update.last? k ((LineLog.records (l ++ l')).filterMap f)).join = some v := by
  have hlater := filterMap_records h f
  rw [LineLog.records] at hlater
  rw [LineLog.records, List.map_append, List.filterMap_append, Update.last?_append, hlater,
    Option.join_eq_some_iff.mp hlast]
  rfl

/-- A line that is rejected makes the replay fail. -/
theorem replay_rejected {l : LineLog} (hobject : ∀ p ∈ l, ObjectLine p.1) {p : String × WalRecord}
    (hp : p ∈ l) {e : String} (he : serde.fromStr p.1 = .error e) (c : Contents) :
    replay (⟨encodeLines l⟩ : JsonFileStorage serde) ≠ .ok c := by
  intro h
  rw [replay, lines_encodeLines hobject] at h
  obtain ⟨n, o, hd⟩ := replayLines_ok h _ (List.mem_map.mpr ⟨p, hp, rfl⟩)
  rw [decodeLine_error (hobject p hp) he] at hd
  cases hd

/-- The store reads back what it accepted exactly when every saved float is a number. -/
theorem readsBack_iff {l : LineLog} (hl : ∀ p ∈ l, serde.IsLine p.1 p.2) {calls : List Save}
    (hserde : ∀ c ∈ calls, serde.Documents c.ord c.record) :
    ReadsBack (⟨encodeLines l⟩ : JsonFileStorage serde) calls ↔ ∀ c ∈ calls, c.record.Finite := by
  obtain ⟨l', hrecords, hrun, hlines⟩ := forEach_save hserde ⟨encodeLines l⟩
  dsimp only at hrun
  rw [← encodeLines_append] at hrun
  constructor
  · intro h c hc
    obtain ⟨⟨contents, hreplay⟩, -, -⟩ := h _ hrun
    have hobject : ∀ p ∈ l ++ l', ObjectLine p.1 := by
      intro p hp
      rcases List.mem_append.mp hp with hp | hp
      · exact (hl p hp).object
      · exact (hlines p hp).1
    have hmem : c.record ∈ l'.map Prod.snd := hrecords ▸ List.mem_map_of_mem hc
    obtain ⟨p, hp, hpc⟩ := List.mem_map.mp hmem
    by_contra hinf
    rw [← hpc] at hinf
    obtain ⟨e, he⟩ := (hlines p hp).2.2 hinf
    exact replay_rejected hobject (List.mem_append_right l hp) he contents hreplay
  · intro hfinite s' hs'
    rw [hrun] at hs'
    obtain ⟨-, rfl⟩ := Prod.mk.inj hs'
    have hall : ∀ p ∈ l ++ l', serde.IsLine p.1 p.2 := by
      intro p hp
      rcases List.mem_append.mp hp with hp | hp
      · exact hl p hp
      · have hmem : p.2 ∈ calls.map Save.record := hrecords ▸ List.mem_map_of_mem hp
        obtain ⟨c, hc, hpc⟩ := List.mem_map.mp hmem
        obtain ⟨hobject, hread, -⟩ := hlines p hp
        exact ⟨hread (hpc ▸ hfinite c hc), hobject.braced, hobject.oneLine⟩
    refine ⟨⟨_, replay_encodeLines hall⟩, fun id n hlast => ?_, fun id e hlast => ?_⟩
    · rw [loadNode_encodeLines hall, last?_records_append hrecords _ hlast]
    · rw [loadEdge_encodeLines hall, last?_records_append hrecords _ hlast]

end JsonFileStorage

/-! ## A serialization that round-trips

The lines that `serde_json` writes for a few records; every other record is written as
the bytes of its binary form, in letters.
-/

namespace SampleJson

/-- Two letters for a byte. -/
def letters (b : UInt8) : List Char :=
  [Char.ofNat (97 + b.toNat / 16), Char.ofNat (97 + b.toNat % 16)]

def unletters : List Char → Bytes
  | c :: d :: rest => UInt8.ofNat ((c.toNat - 97) * 16 + (d.toNat - 97)) :: unletters rest
  | _ => []

theorem toNat_letter {n : Nat} (h : n < 16) : (Char.ofNat (97 + n)).toNat = 97 + n := by
  interval_cases n <;> rfl

theorem unletters_letters (bytes : Bytes) :
    unletters (bytes.flatMap letters ++ ['}']) = bytes := by
  induction bytes with
  | nil => rfl
  | cons b bytes ih =>
    have hb := b.toNat_lt
    change UInt8.ofNat _ :: unletters (bytes.flatMap letters ++ ['}']) = _
    rw [ih, toNat_letter (by omega), toNat_letter (by omega)]
    congr 1
    apply UInt8.toNat_inj.mp
    rw [UInt8.toNat_ofNat']
    omega

theorem plain_letters (b : UInt8) :
    ∀ c ∈ letters b, c ≠ '"' ∧ newline ∉ String.utf8EncodeChar c := by
  have hb := b.toNat_lt
  have letter (n : Nat) (h : n < 16) : Char.ofNat (97 + n) ≠ '"' ∧
      newline ∉ String.utf8EncodeChar (Char.ofNat (97 + n)) := by
    interval_cases n <;> decide
  intro c hc
  rcases List.mem_pair.mp hc with rfl | rfl
  · exact letter _ (by omega)
  · exact letter _ (by omega)

/-- The lines as `serde_json` writes them. -/
def known : List (String × WalRecord) :=
  [("\x7b\"op\":\"UpsertNode\",\"node\":\x7b\"id\":0,\"label\":\"A\",\"properties\":\x7b\x7d\x7d\x7d",
      .upsertNode ⟨⟨0⟩, "A", ∅⟩),
    ("\x7b\"op\":\"UpsertEdge\",\"edge\":\x7b\"id\":0,\"source\":0,\"target\":0,\"label\":\"L\",\"weight\":1.0,\"properties\":\x7b\x7d\x7d\x7d",
      .upsertEdge ⟨⟨0⟩, ⟨0⟩, ⟨0⟩, "L", ⟨0x3ff0000000000000⟩, ∅⟩),
    ("\x7b\"op\":\"DeleteNode\",\"id\":0\x7d", .deleteNode 0),
    ("\x7b\"op\":\"DeleteEdge\",\"id\":0\x7d", .deleteEdge 0)]

def line (ord : HashOrder) (record : WalRecord) : String :=
  match known.find? fun p => p.2 = record with
  | some p => p.1
  | none => String.ofList ('{' :: (bodyBytes ord record.toRecord).flatMap letters ++ ['}'])

def fromRecord : RecordData → Except String WalRecord
  | .upsertNode node => .ok (.upsertNode node)
  | .upsertEdge edge => .ok (.upsertEdge edge)
  | .deleteNode id => .ok (.deleteNode id.val)
  | .deleteEdge id => .ok (.deleteEdge id.val)
  | _ => .error "unknown variant"

def read (line : String) : Except String WalRecord :=
  match known.find? fun p => p.1 = line with
  | some p => .ok p.2
  | none => match recordBody (unletters (line.toList.tail)) 0 with
    | (.ok r, _) => fromRecord r
    | (_, _) => .error "expected value"

def serde : SerdeJson := ⟨fun ord record => .ok (line ord record), read⟩

theorem fromRecord_toRecord (r : WalRecord) : fromRecord r.toRecord = .ok r := by
  cases r <;> rfl

theorem known_quote : ∀ p ∈ known, p.1.toList[1]? = some '"' := by decide

theorem find_known : ∀ p ∈ known, known.find? (fun q => q.1 = p.1) = some p := by decide

theorem known_isLine : ∀ p ∈ known, serde.IsLine p.1 p.2 := by
  have braced : ∀ p ∈ known, p.1 = "\x7b" ++ String.ofList p.1.toList.tail.dropLast ++ "\x7d" := by
    decide
  have oneLine : ∀ p ∈ known, newline ∉ asBytes p.1 := by decide
  intro p hp
  refine ⟨?_, ⟨_, braced p hp⟩, oneLine p hp⟩
  change read p.1 = _
  rw [read, find_known p hp]

theorem letters_isLine (ord : HashOrder) {record : WalRecord} (h : record.Storable) :
    serde.IsLine
      (String.ofList ('{' :: (bodyBytes ord record.toRecord).flatMap letters ++ ['}'])) record := by
  have hfits : RecordFits record.toRecord := by
    cases record with
    | upsertNode node => exact h.fits
    | upsertEdge edge => exact h.fits
    | _ => trivial
  have hread := (parses_recordBody ord hfits).decodes (bodyBytes ord record.toRecord) 0 []
    (Nat.zero_le _) (List.append_nil _).symm
  generalize bodyBytes ord record.toRecord = bytes at hread ⊢
  have hplain : ∀ c ∈ '{' :: bytes.flatMap letters ++ ['}'],
      c ≠ '"' ∧ newline ∉ String.utf8EncodeChar c := by
    intro c hc
    rw [List.cons_append, List.mem_cons, List.mem_append, List.mem_singleton,
      List.mem_flatMap] at hc
    obtain rfl | ⟨b, -, hc⟩ | rfl := hc
    · decide
    · exact plain_letters b c hc
    · decide
  refine ⟨?_, ⟨String.ofList (bytes.flatMap letters), by simp [String.append_assoc]⟩, ?_⟩
  · change read _ = _
    have hnone : known.find? (fun p => p.1 =
        String.ofList ('{' :: bytes.flatMap letters ++ ['}'])) = none := by
      apply List.find?_eq_none.mpr
      intro p hp heq
      have hq := known_quote p hp
      rw [of_decide_eq_true heq, String.toList_ofList] at hq
      exact (hplain _ (List.mem_of_getElem? hq)).1 rfl
    rw [read, hnone, String.toList_ofList, List.cons_append, List.tail_cons, unletters_letters,
      hread]
    exact fromRecord_toRecord record
  · rw [asBytes_ofList, List.mem_flatMap]
    rintro ⟨c, hc, hn⟩
    exact (hplain c hc).2 hn

theorem roundTrips : serde.RoundTrips := by
  intro ord record h
  refine ⟨line ord record, rfl, ?_⟩
  unfold line
  cases hf : known.find? fun p => p.2 = record with
  | none => exact letters_isLine ord h
  | some p =>
    have hp := List.find?_some hf
    obtain rfl : p.2 = record := of_decide_eq_true hp
    exact known_isLine p (List.mem_of_find?_eq_some hf)

theorem keeps {record : WalRecord} (h : record.Storable) : serde.Keeps record :=
  fun ord => roundTrips ord record h

theorem keepsFloatless : serde.KeepsFloatless := by
  intro record hfloats hfits
  apply keeps
  cases record with
  | upsertNode node =>
    refine ⟨hfits, fun p hp => ?_⟩
    cases hv : p.2 with
    | float f => exact absurd hv (hfloats p hp f)
    | _ => trivial
  | upsertEdge edge => cases hfloats
  | _ => trivial

theorem known_documents : ∀ p ∈ known, ∀ ord, serde.Documents ord p.2 := by
  have hfind : ∀ p ∈ known, known.find? (fun q => q.2 = p.2) = some p := by decide
  have hfinite : ∀ p ∈ known, p.2.Finite := by decide
  intro p hp ord
  have hline := known_isLine p hp
  refine ⟨p.1, ?_, hline.object, fun _ => hline.fromStr, fun h => absurd (hfinite p hp) h⟩
  change Except.ok (line ord p.2) = _
  rw [line, hfind p hp]

def infiniteEdge : Edge := ⟨⟨0⟩, ⟨0⟩, ⟨0⟩, "L", ⟨0x7ff0000000000000⟩, ∅⟩

/-- The edge of infinite weight, as `serde_json` writes it. -/
def nullLine : String :=
  "\x7b\"op\":\"UpsertEdge\",\"edge\":\x7b\"id\":0,\"source\":0,\"target\":0,\"label\":\"L\",\"weight\":null,\"properties\":\x7b\x7d\x7d\x7d"

/-- A serialization in which floats that are no numbers become `null`. -/
def nullSerde : SerdeJson where
  toString ord record := if record.Finite then serde.toString ord record else .ok nullLine
  fromStr line := if line = nullLine then .error "invalid type: null, expected f64" else read line

end SampleJson

namespace JsonFileStorage
open SampleJson

/-- An edge of weight 1.0 is saved behind a deleted node. -/
theorem readsBack_example :
    ReadsBack (⟨encodeLines [("\x7b\"op\":\"DeleteNode\",\"id\":0\x7d", .deleteNode 0)]⟩ :
        JsonFileStorage serde)
      [.edge .sorted ⟨⟨0⟩, ⟨0⟩, ⟨0⟩, "L", ⟨0x3ff0000000000000⟩, ∅⟩] := by
  refine (readsBack_iff ?_ ?_).mpr (by decide)
  · intro p hp
    rw [List.mem_singleton] at hp
    exact known_isLine p (by rw [hp]; decide)
  · intro c hc
    rw [List.mem_singleton] at hc
    subst hc
    exact known_documents (known.get ⟨1, by decide⟩) (List.get_mem known _) .sorted

/-- An edge of infinite weight is accepted and never read back. -/
theorem infinite_weight_not_read_back :
    (∀ c ∈ [Save.edge .sorted infiniteEdge], nullSerde.Documents c.ord c.record) ∧
      ¬ReadsBack (⟨encodeLines []⟩ : JsonFileStorage nullSerde) [.edge .sorted infiniteEdge] := by
  have hobject : ObjectLine nullLine := by
    refine ⟨⟨String.ofList nullLine.toList.tail.dropLast, by decide⟩, by decide⟩
  have hreject : nullSerde.fromStr nullLine = .error "invalid type: null, expected f64" := by
    change (if nullLine = nullLine then .error _ else read nullLine) = _
    rw [if_pos rfl]
  constructor
  · intro c hc
    rw [List.mem_singleton] at hc
    subst hc
    refine ⟨nullLine, rfl, hobject, fun h => absurd h (by decide), fun _ => ⟨_, hreject⟩⟩
  · intro h
    obtain ⟨⟨c, hc⟩, -, -⟩ := h ⟨encodeLines [(nullLine, .upsertEdge infiniteEdge)]⟩ rfl
    exact replay_rejected (by simpa using hobject) List.mem_cons_self hreject c hc

end JsonFileStorage

end AdGraphDb
