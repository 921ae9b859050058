import AdGraphDb.Foundation.Spans
import AdGraphDb.Storage.Frames

/-!
# The layout of the bytes

Lengths, counts, tags and type bytes alone say where a pass of the replay loop ends and what
comes of it: whether the bytes are whole, whether the allocator refuses a count, and whether four
bytes behind them are their checksum. No value is decoded for that.
-/

namespace AdGraphDb
open Reader

/-! ## Fields -/

def numberSpan (n : Nat) (bytes : Bytes) : Span :=
  if n ≤ bytes.length then ⟨n, .whole⟩ else ⟨0, .broken⟩

/-- A `u32` and what it asks for. -/
def prefixedSpan (f : Nat → Bytes → Span) (bytes : Bytes) : Span :=
  if 4 ≤ bytes.length then (f (leValue (bytes.take 4)) (bytes.drop 4)).behind 4 else ⟨0, .broken⟩

/-- A byte and what it announces. -/
def taggedSpan (f : UInt8 → Bytes → Span) : Bytes → Span
  | [] => ⟨0, .broken⟩
  | tag :: bytes => (f tag bytes).behind 1

def charsSpan (len : Nat) (bytes : Bytes) : Span :=
  if len ≤ bytes.length then
    ⟨len, if (String.fromUTF8? ⟨(bytes.take len).toArray⟩).isSome then .whole else .broken⟩
  else ⟨0, .broken⟩

def textSpan : Bytes → Span := prefixedSpan charsSpan

def valueSpan : Bytes → Span := taggedSpan fun tag =>
  if tag = valueNull then fun _ => ⟨0, .whole⟩
  else if tag = valueBoolean then numberSpan 1
  else if tag = valueInteger then numberSpan 8
  else if tag = valueFloat then numberSpan 8
  else if tag = valueText then textSpan
  else fun _ => ⟨0, .broken⟩

def entriesSpan : Nat → Bytes → Span
  | 0, _ => ⟨0, .whole⟩
  | count + 1, bytes =>
    (textSpan bytes).andThen (fun rest => (valueSpan rest).andThen (entriesSpan count) rest) bytes

/-- The capacity is asked for before the entries are read. -/
def propertiesSpan [Allocator] : Bytes → Span := prefixedSpan fun count =>
  if Allocator.grants count then entriesSpan count else fun _ => ⟨0, .refused⟩

/-- The type byte and the fields of a record. -/
def recordSpan [Allocator] : Bytes → Span := taggedSpan fun recordType =>
  if recordType = recordUpsertNode then .inOrder [numberSpan 8, textSpan, propertiesSpan]
  else if recordType = recordUpsertEdge then
    .inOrder [numberSpan 8, numberSpan 8, numberSpan 8, textSpan, numberSpan 8, propertiesSpan]
  else if recordType ∈ [recordDeleteNode, recordDeleteEdge, recordBeginTxn, recordCommitTxn,
      recordRollbackTxn] then numberSpan 8
  else fun _ => ⟨0, .broken⟩

/-! ## Stretches -/

/-- What comes of a pass of the replay loop. -/
inductive Verdict where
  | executed
  | mismatched
  | ended
  | refused
deriving DecidableEq

/-- The loop goes on behind the stretch. -/
def Verdict.continues : Verdict → Bool
  | .executed | .mismatched => true
  | .ended | .refused => false

structure Stretch where
  start : Nat
  recordType : Option UInt8
  verdict : Verdict
  next : Nat
deriving DecidableEq

section
variable [Allocator]

/-- The stretch that a pass at the cursor covers, with the checksum behind it. -/
def stretchAt (data : Bytes) (start : Nat) : Stretch :=
  let bytes := data.drop start
  let span := recordSpan bytes
  let behind := bytes.drop span.length
  if span.ending = .refused then ⟨start, data[start]?, .refused, start + span.length⟩
  else if behind.length < 4 then ⟨start, data[start]?, .ended, start + span.length⟩
  else ⟨start, data[start]?,
    if adler32 (bytes.take span.length) ≠ UInt32.ofNat (leValue (behind.take 4)) then .mismatched
    else if span.ending = .whole then .executed else .ended, start + span.length + 4⟩

def stretchesFrom (data : Bytes) : Nat → Nat → List Stretch
  | 0, _ => []
  | fuel + 1, start =>
    if start < data.length then
      let stretch := stretchAt data start
      stretch :: if stretch.verdict.continues then stretchesFrom data fuel stretch.next else []
    else []

/-- The stretches of the bytes from the first on. -/
def stretches (bytes : Bytes) : List Stretch := stretchesFrom bytes bytes.length 0

end

/-! ## The layout measures the readers -/

theorem measures_readU8_bind {α : Type} {g : UInt8 → Decoder α} {f : UInt8 → Bytes → Span}
    (hg : ∀ tag, Measures (g tag) (f tag)) : Measures (readU8 >>= g) (taggedSpan f) := by
  intro data pos hpos
  by_cases h : pos < data.length
  · obtain ⟨hending, hnext⟩ := hg data[pos] data (pos + 1) h
    rw [bind_ok (readU8_of_lt h), List.drop_eq_getElem_cons h]
    exact ⟨hending, hnext.trans (Nat.add_assoc _ _ _)⟩
  · have heof : readU8 data pos = (.err (eof "u8"), pos) := if_pos (not_lt.mp h)
    rw [bind_err heof, List.drop_eq_nil_of_le (not_lt.mp h)]
    exact ⟨rfl, rfl⟩

theorem measures_readU32_bind {α : Type} {g : UInt32 → Decoder α} {f : Nat → Bytes → Span}
    (hg : ∀ n : UInt32, Measures (g n) (f n.toNat)) :
    Measures (readU32 >>= g) (prefixedSpan f) := by
  intro data pos hpos
  have hread := readU32_eq data pos
  rw [prefixedSpan, List.length_drop]
  by_cases h : pos + 4 ≤ data.length
  · have hlt := leValue_lt ((data.drop pos).take 4)
    rw [List.length_take, List.length_drop, Nat.min_eq_left (by omega)] at hlt
    rw [if_pos h] at hread
    obtain ⟨hending, hnext⟩ := hg (UInt32.ofNat (leValue ((data.drop pos).take 4))) data (pos + 4) h
    rw [UInt32.toNat_ofNat_of_lt' (by exact hlt), ← List.drop_drop] at hending hnext
    rw [bind_ok hread, if_pos (by omega)]
    exact ⟨hending, hnext.trans (Nat.add_assoc _ _ _)⟩
  · rw [if_neg h] at hread
    rw [bind_err hread, if_neg (by omega)]
    exact ⟨rfl, rfl⟩

theorem measures_readLe (n : Nat) : Measures (readLe n) (numberSpan n) := by
  intro data pos hpos
  rw [readLe, numberSpan, List.length_drop]
  by_cases h : pos + n ≤ data.length
  · have hbytes : readBytes n data pos = (.ok ((data.drop pos).take n), pos + n) := by
      rw [readBytes, bytes, if_neg (by omega), slice?_of_le h]
    have hlen : ((data.drop pos).take n).length = n := by
      rw [List.length_take, List.length_drop]
      omega
    rw [bind_ok hbytes, fromLeBytes?_isSome hlen, if_pos (by omega)]
    exact ⟨rfl, rfl⟩
  · have hbytes : readBytes n data pos = (.err (eof s!"{n} bytes"), pos) := if_pos (not_le.mp h)
    rw [bind_err hbytes, if_neg (by omega)]
    exact ⟨rfl, rfl⟩

theorem measures_chars (len : Nat) : Measures (readBytes len >>= fromUtf8) (charsSpan len) := by
  intro data pos hpos
  rw [charsSpan, List.length_drop]
  by_cases h : pos + len ≤ data.length
  · have hbytes : readBytes len data pos = (.ok ((data.drop pos).take len), pos + len) := by
      rw [readBytes, bytes, if_neg (by omega), slice?_of_le h]
    rw [bind_ok hbytes, fromUtf8, if_pos (by omega)]
    cases String.fromUTF8? ⟨((data.drop pos).take len).toArray⟩ <;> exact ⟨rfl, rfl⟩
  · have hbytes : readBytes len data pos = (.err (eof s!"{len} bytes"), pos) := if_pos (not_le.mp h)
    rw [bind_err hbytes, if_neg (by omega)]
    exact ⟨rfl, rfl⟩

theorem measures_readStr : Measures readStr textSpan :=
  measures_readU32_bind fun len => measures_chars len.toNat

theorem measures_readValue : Measures readValue valueSpan := by
  refine measures_readU8_bind fun tag => ?_
  unfold readTagged
  split_ifs
  · exact .pure _
  · intro data pos hpos
    have hbyte := measures_readU8_bind (f := fun _ _ => ⟨0, .whole⟩)
      (fun tag => Measures.pure (Value.boolean (tag != 0))) data pos hpos
    rw [numberSpan, List.length_drop]
    cases hrest : data.drop pos with
    | nil =>
      rw [hrest] at hbyte
      rw [if_neg (by rw [← List.length_drop, hrest]; decide)]
      exact hbyte
    | cons b rest =>
      rw [hrest] at hbyte
      rw [if_pos (by rw [← List.length_drop, hrest, List.length_cons]; omega)]
      exact hbyte
  · exact ((measures_readLe 8).map _).map _
  · exact ((measures_readLe 8).map _).map _
  · exact measures_readStr.map _
  · exact .fail _

theorem measures_readEntries (count : Nat) (map : Properties) :
    Measures (readEntries count map) (entriesSpan count) := by
  induction count generalizing map with
  | zero => exact .pure _
  | succ count ih =>
    exact measures_readStr.bind regular_readStr.steady fun _ =>
      measures_readValue.bind regular_readValue.steady fun _ => ih _

theorem measures_readU64 : Measures readU64 (numberSpan 8) := (measures_readLe 8).map _

theorem measures_readF64 : Measures readF64 (numberSpan 8) := (measures_readLe 8).map _

section
variable [Allocator]

theorem measures_readProperties : Measures readProperties propertiesSpan := by
  refine measures_readU32_bind fun count => ?_
  rw [withCapacity]
  by_cases h : Allocator.grants count.toNat
  · rw [if_pos h, if_pos h]
    exact measures_readEntries count.toNat ∅
  · rw [if_neg h, if_neg h]
    exact fun _ _ _ => ⟨rfl, rfl⟩

theorem measures_decodeNode :
    Measures decodeNode (.inOrder [numberSpan 8, textSpan, propertiesSpan]) :=
  measures_readU64.bind regular_readU64.steady fun _ =>
    measures_readStr.bind regular_readStr.steady fun _ =>
      measures_readProperties.bind steady_readProperties fun _ => .pure _

theorem measures_decodeEdge : Measures decodeEdge
    (.inOrder [numberSpan 8, numberSpan 8, numberSpan 8, textSpan, numberSpan 8, propertiesSpan]) :=
  measures_readU64.bind regular_readU64.steady fun _ =>
    measures_readU64.bind regular_readU64.steady fun _ =>
      measures_readU64.bind regular_readU64.steady fun _ =>
        measures_readStr.bind regular_readStr.steady fun _ =>
          measures_readF64.bind regular_readF64.steady fun _ =>
            measures_readProperties.bind steady_readProperties fun _ => .pure _

theorem measures_recordBody : Measures recordBody recordSpan := by
  refine measures_readU8_bind fun recordType => ?_
  by_cases hnode : recordType = recordUpsertNode
  · rw [decodeRecord, if_pos hnode, if_pos hnode]
    exact measures_decodeNode.map _
  · by_cases hedge : recordType = recordUpsertEdge
    · rw [decodeRecord, if_neg hnode, if_pos hedge, if_neg hnode, if_pos hedge]
      exact measures_decodeEdge.map _
    · rw [decodeRecord, if_neg hnode, if_neg hedge, if_neg hnode, if_neg hedge]
      simp only [List.mem_cons, List.not_mem_nil, or_false]
      split_ifs
      all_goals first
        | exact measures_readU64.map _
        | exact .fail _
        | tauto

end

end AdGraphDb
