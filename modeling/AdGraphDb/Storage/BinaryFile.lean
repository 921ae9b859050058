import AdGraphDb.Storage.Log
import AdGraphDb.Storage.Port

/-!
# The binary storage adapter
-/

namespace AdGraphDb

/-- The adapter is determined by the file at its path, to which its writer appends. -/
structure BinaryFileStorage where
  file : Bytes
deriving DecidableEq

theorem Outcome.false_of_panicked_ne {ε α : Type} (h : (.panicked : Outcome ε α) ≠ .panicked) :
    False := h rfl

/-- A computation that does not panic as a `Result`. -/
def Outcome.toExcept {ε α : Type} (o : Outcome ε α) (h : o ≠ .panicked) : Except ε α :=
  match o with
  | .ok a => .ok a
  | .err e => .error e
  | .panicked => (Outcome.false_of_panicked_ne h).elim

namespace BinaryFileStorage

/-- `open`. The header is written to a new file only. -/
def openPath : Option Bytes → BinaryFileStorage
  | some file => ⟨file⟩
  | none => ⟨header⟩

def appendBytes (bytes : Bytes) : StorageAction BinaryFileStorage Unit :=
  .modify fun s => ⟨s.file ++ bytes⟩

def replay (s : BinaryFileStorage) : Except GraphError Contents :=
  (AdGraphDb.replay s.file).toExcept (replay_ne_panicked s.file)

def compactedFile (ord : HashOrder) (contents : Contents) : Bytes :=
  header ++
    (contents.1.valuesIter ord).flatMap (fun node => encodeNode (ord.nth node.id.val.toNat) node) ++
    (contents.2.valuesIter ord).flatMap (fun edge => encodeEdge (ord.nth edge.id.val.toNat) edge)

/-- `compact`. The temporary file replaces the old one in one step. -/
def compact (ord : HashOrder) : StorageAction BinaryFileStorage Unit := do
  let contents ← Action.tryRead replay
  Action.modify fun _ => ⟨compactedFile ord contents⟩

instance : FileStorage BinaryFileStorage where
  saveNode ord node := appendBytes (encodeNode ord node)
  loadNode id s := do return (← s.replay).1[id]?
  deleteNode id := appendBytes (encodeDeleteNode id)
  saveEdge ord edge := appendBytes (encodeEdge ord edge)
  loadEdge id s := do return (← s.replay).2[id]?
  deleteEdge id := appendBytes (encodeDeleteEdge id)
  loadAllNodes ord s := do return (← s.replay).1.valuesIter ord
  loadAllEdges ord s := do return (← s.replay).2.valuesIter ord
  compact := compact
  beginWalTransaction txnId := appendBytes (encodeTxnMarker recordBeginTxn txnId)
  commitWalTransaction txnId := appendBytes (encodeTxnMarker recordCommitTxn txnId)
  rollbackWalTransaction txnId := appendBytes (encodeTxnMarker recordRollbackTxn txnId)
  file s := s.file
  openPath := openPath

/-- What happens to the storage between two replays. -/
inductive Call where
  | write (ord : HashOrder) (record : RecordData)
  | reopen

def perform : Call → StorageAction BinaryFileStorage Unit
  | .write ord record => StoragePort.write ord record
  | .reopen => .modify FileStorage.reopen

/-- The records that a run of calls writes. -/
def written : List Call → Log
  | [] => []
  | .write ord record :: calls => (ord, record) :: written calls
  | .reopen :: calls => written calls

theorem write_apply (ord : HashOrder) (r : RecordData) (s : BinaryFileStorage) :
    StoragePort.write ord r s = (.ok (), ⟨s.file ++ encodeRecord ord r⟩) := by
  cases r <;> rfl

/-- Every call returns `Ok`, and the file grows by the written records. -/
theorem forEach_perform (calls : List Call) (s : BinaryFileStorage) :
    Action.forEach perform calls s = (.ok (), ⟨s.file ++ encodeLog (written calls)⟩) := by
  induction calls generalizing s with
  | nil => rw [written, encodeLog_nil, List.append_nil]; rfl
  | cons c calls ih =>
    cases c with
    | write ord r =>
      rw [Action.forEach, perform, Action.bind_ok (write_apply ord r s), ih, written,
        encodeLog_cons, List.append_assoc]
    | reopen => exact ih s

theorem replay_eq_ok {s : BinaryFileStorage} {c : Contents}
    (h : AdGraphDb.replay s.file = .ok c) : s.replay = .ok c := by
  rw [replay]
  simp only [h]
  rfl

end BinaryFileStorage

end AdGraphDb
