import AdGraphDb.Storage.Log

/-!
# Replaying any bytes

No file content makes the replay panic. Every reader, on success and on an error, leaves the
cursor between where it was and the end of the file; a pass of the loop that does not end it
moves the cursor over a type byte and a checksum at least.
-/

namespace AdGraphDb
open Reader

/-- The readers of the storage keep the cursor in the file. -/
structure SafeReaders : Prop where
  u8 : Safe readU8
  bytes : ∀ n, Safe (readBytes n)
  u32 : Safe readU32
  u64 : Safe readU64
  i64 : Safe readI64
  f64 : Safe readF64
  str : Safe readStr
  value : Safe readValue
  properties : Safe readProperties
  node : Safe decodeNode
  edge : Safe decodeEdge
  record : ∀ recordType, Safe (decodeRecord recordType)

theorem safeReaders : SafeReaders where
  u8 := regular_readU8.safe
  bytes n := (regular_readBytes n).safe
  u32 := regular_readU32.safe
  u64 := regular_readU64.safe
  i64 := regular_readI64.safe
  f64 := regular_readF64.safe
  str := regular_readStr.safe
  value := regular_readValue.safe
  properties := regular_readProperties.safe
  node := regular_decodeNode.safe
  edge := regular_decodeEdge.safe
  record recordType := (regular_decodeRecord recordType).safe

/-- A pass of the loop from a record start. The bytes that the checksum covers end four bytes
before the cursor that reading the checksum leaves. -/
structure SafePass (data : Bytes) (recordStart : Nat) : Prop where
  returns : (nextFrame true data recordStart).1 ≠ .panicked
  checksum : ∀ storedCsum pos,
    readU32 data (recordBody data recordStart).2 = (.ok storedCsum, pos) →
      4 ≤ pos ∧ recordStart < pos - 4 ∧ pos ≤ data.length
  inside : (nextFrame true data recordStart).2 ≤ data.length
  advances : (nextFrame true data recordStart).1 ≠ .stopped →
    recordStart + 5 ≤ (nextFrame true data recordStart).2

theorem safePass {data : Bytes} {recordStart : Nat} (h : recordStart < data.length) :
    SafePass data recordStart := by
  obtain ⟨hreturns, -, hinside, hadvances⟩ := nextFrame_safe h
  refine ⟨hreturns, fun storedCsum pos hread => ?_, hinside, hadvances⟩
  have hbody := lt_recordBody h
  rw [readU32_eq] at hread
  split_ifs at hread with hlen
  · obtain ⟨-, rfl⟩ := Prod.mk.inj hread
    refine ⟨Nat.le_add_left 4 _, ?_, hlen⟩
    rwa [Nat.add_sub_cancel]
  · cases hread

/-- The passes of the loop from a cursor on, up to the one that ends it. -/
inductive Passes (data : Bytes) : Nat → Nat → Prop where
  | start : Passes data 0 8
  | pass {n pos : Nat} (h : Passes data n pos) (hpos : pos < data.length)
      (hnext : (nextFrame true data pos).1 ≠ .stopped) :
      Passes data (n + 1) (nextFrame true data pos).2

theorem Passes.bounded {data : Bytes} (hdata : 8 ≤ data.length) {n pos : Nat}
    (h : Passes data n pos) : 8 + 5 * n ≤ pos ∧ pos ≤ data.length := by
  induction h with
  | start => exact ⟨le_rfl, hdata⟩
  | pass _ hpos hnext ih =>
    have hsafe := safePass hpos
    have hadvances := hsafe.advances hnext
    exact ⟨by omega, hsafe.inside⟩

/-- Replay returns on every file content, its loop makes at most one pass for each five bytes,
and no pass indexes outside the file. -/
theorem replay_safe (data : Bytes) :
    SafeReaders ∧ replay data ≠ .panicked ∧ (∀ pos < data.length, SafePass data pos) ∧
      (8 ≤ data.length → ∀ n pos, Passes data n pos → 8 + 5 * n ≤ pos ∧ pos ≤ data.length) :=
  ⟨safeReaders, replay_ne_panicked data, fun _ hpos => safePass hpos,
    fun hdata _ _ h => h.bounded hdata⟩

end AdGraphDb
