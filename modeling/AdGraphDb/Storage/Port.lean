import AdGraphDb.Storage.Codec
import AdGraphDb.Foundation.Action

/-!
# The storage port
-/

namespace AdGraphDb

abbrev StorageAction (S α : Type) := Action GraphError S α

/-- The methods of a storage adapter. A method that enumerates hash maps takes their
order; without overriding, the transaction markers do nothing. -/
class StoragePort (S : Type) where
  saveNode : HashOrder → Node → StorageAction S Unit
  loadNode : NodeId → S → Except GraphError (Option Node)
  deleteNode : NodeId → StorageAction S Unit
  saveEdge : HashOrder → Edge → StorageAction S Unit
  loadEdge : EdgeId → S → Except GraphError (Option Edge)
  deleteEdge : EdgeId → StorageAction S Unit
  loadAllNodes : HashOrder → S → Except GraphError (List Node)
  loadAllEdges : HashOrder → S → Except GraphError (List Edge)
  compact : HashOrder → StorageAction S Unit
  beginWalTransaction : UInt64 → StorageAction S Unit := fun _ => pure ()
  commitWalTransaction : UInt64 → StorageAction S Unit := fun _ => pure ()
  rollbackWalTransaction : UInt64 → StorageAction S Unit := fun _ => pure ()

/-- The call that stores what a record says. -/
def StoragePort.write {S : Type} [StoragePort S] (ord : HashOrder) :
    RecordData → StorageAction S Unit
  | .upsertNode node => StoragePort.saveNode ord node
  | .upsertEdge edge => StoragePort.saveEdge ord edge
  | .deleteNode id => StoragePort.deleteNode id
  | .deleteEdge id => StoragePort.deleteEdge id
  | .beginTxn txnId => StoragePort.beginWalTransaction txnId
  | .commitTxn txnId => StoragePort.commitWalTransaction txnId
  | .rollbackTxn txnId => StoragePort.rollbackWalTransaction txnId

/-- A storage adapter over a file, with the associated function `open`. -/
class FileStorage (S : Type) extends StoragePort S where
  /-- The bytes of the file at the adapter's path. -/
  file : S → List UInt8
  /-- `none` when there is no file yet. -/
  openPath : Option (List UInt8) → S

/-- Dropping the adapter and opening its path again. -/
def FileStorage.reopen {S : Type} [FileStorage S] (s : S) : S := openPath (some (file s))

end AdGraphDb
