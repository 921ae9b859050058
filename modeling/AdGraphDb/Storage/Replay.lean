import AdGraphDb.Storage.Codec

/-!
# Replaying the binary log
-/

namespace AdGraphDb

/-- The records buffered since `BeginTxn`, by kind. -/
structure TxnBuffer where
  txnId : UInt64
  nIns : List (NodeId × Node)
  eIns : List (EdgeId × Edge)
  nDel : List NodeId
  eDel : List EdgeId
deriving DecidableEq

/-- The local variables of `replay`. -/
structure ReplayState where
  nodes : HashMap NodeId Node
  edges : HashMap EdgeId Edge
  txnBuffer : Option TxnBuffer
deriving DecidableEq

namespace ReplayState

def empty : ReplayState := ⟨∅, ∅, none⟩

/-- `apply_or_buffer`. -/
def applyOrBuffer (st : ReplayState) (record : RecordData) : ReplayState :=
  match st.txnBuffer with
  | none => match record with
    | .upsertNode n => { st with nodes := st.nodes.insert n.id n }
    | .upsertEdge e => { st with edges := st.edges.insert e.id e }
    | .deleteNode id => { st with nodes := st.nodes.erase id }
    | .deleteEdge id => { st with edges := st.edges.erase id }
    | _ => st
  | some b => match record with
    | .upsertNode n => { st with txnBuffer := some { b with nIns := b.nIns ++ [(n.id, n)] } }
    | .upsertEdge e => { st with txnBuffer := some { b with eIns := b.eIns ++ [(e.id, e)] } }
    | .deleteNode id => { st with txnBuffer := some { b with nDel := b.nDel ++ [id] } }
    | .deleteEdge id => { st with txnBuffer := some { b with eDel := b.eDel ++ [id] } }
    | _ => st

/-- The `match decoded` of the replay loop. -/
def applyRecord (st : ReplayState) : RecordData → ReplayState
  | .beginTxn txnId => { st with txnBuffer := some ⟨txnId, [], [], [], []⟩ }
  | .commitTxn txnId => match st.txnBuffer with
    | some b =>
      if b.txnId = txnId then
        { nodes := b.nDel.foldl (fun m id => m.erase id) (st.nodes.insertAll b.nIns)
          edges := b.eDel.foldl (fun m id => m.erase id) (st.edges.insertAll b.eIns)
          txnBuffer := none }
      else { st with txnBuffer := none }
    | none => st
  | .rollbackTxn _ => { st with txnBuffer := none }
  | record => st.applyOrBuffer record

end ReplayState

/-- What one pass of the replay loop finds at the cursor. -/
inductive Frame where
  | record (r : RecordData)
  | skipped
  | stopped
  | panicked
deriving DecidableEq

/-- The checksum test; `found` is what the payload decoded to. -/
def verifyChecksum (useChecksums : Bool) (data : Bytes) (recordStart : Nat) (found : Frame)
    (pos : Nat) : Frame × Nat :=
  if useChecksums then
    match readU32 data pos with
    | (.ok storedCsum, pos) => match slice? data recordStart (pos - 4) with
      | some payloadBytes =>
        if adler32 payloadBytes ≠ storedCsum then (.skipped, pos) else (found, pos)
      | none => (.panicked, pos)
    | (.err _, pos) => (.stopped, pos)
    | (.panicked, pos) => (.panicked, pos)
  else (found, pos)

/-- One pass of the replay loop, up to applying the record. -/
def nextFrame [Allocator] (useChecksums : Bool) (data : Bytes) (recordStart : Nat) : Frame × Nat :=
  match readU8 data recordStart with
  | (.ok recordType, pos) => match decodeRecord recordType data pos with
    | (.ok r, pos) => verifyChecksum useChecksums data recordStart (.record r) pos
    | (.err _, pos) => verifyChecksum useChecksums data recordStart .stopped pos
    | (.panicked, pos) => (.panicked, pos)
  | (.err _, pos) => (.stopped, pos)
  | (.panicked, pos) => (.panicked, pos)

/-- The `while pos < data.len()` loop. Running out of fuel counts as a panic, as does a refused
allocation. -/
def replayLoop [Allocator] (useChecksums : Bool) (data : Bytes) :
    Nat → Nat → ReplayState → Outcome GraphError ReplayState
  | 0, pos, st => if pos < data.length then .panicked else .ok st
  | fuel + 1, pos, st =>
    if pos < data.length then
      match nextFrame useChecksums data pos with
      | (.record r, pos) => replayLoop useChecksums data fuel pos (st.applyRecord r)
      | (.skipped, pos) => replayLoop useChecksums data fuel pos st
      | (.stopped, _) => .ok st
      | (.panicked, _) => .panicked
    else .ok st

def header : Bytes := magic ++ writeU32 version

abbrev Contents := HashMap NodeId Node × HashMap EdgeId Edge

/-- `replay` on the bytes of the file. An open bracket at the end is dropped. -/
def replay [Allocator] (data : Bytes) : Outcome GraphError Contents :=
  if data.length < 8 then .ok (∅, ∅)
  else match slice? data 0 4 with
    | none => .panicked
    | some fileMagic =>
      if fileMagic ≠ magic then
        .err (.deserializationError "invalid magic bytes — not an AGDB binary file")
      else match (slice? data 4 8).bind (fromLeBytes? 4) with
        | none => .panicked
        | some fileVersion =>
          if UInt32.ofNat fileVersion ≠ version then
            .err (.deserializationError s!"unsupported file version {fileVersion}")
          else
            match replayLoop (UInt32.ofNat fileVersion ≥ 2) data data.length 8 .empty with
            | .ok st => .ok (st.nodes, st.edges)
            | .err e => .err e
            | .panicked => .panicked

end AdGraphDb
