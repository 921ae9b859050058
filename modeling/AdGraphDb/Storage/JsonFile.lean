import AdGraphDb.Foundation.Text
import AdGraphDb.Storage.BinaryFile

/-!
# The JSON storage adapter

One record a line. Serialization is a parameter, with its errors as texts.
-/

namespace AdGraphDb

inductive WalRecord where
  | upsertNode (node : Node)
  | upsertEdge (edge : Edge)
  | deleteNode (id : UInt64)
  | deleteEdge (id : UInt64)
deriving DecidableEq

/-- `serde_json` at `WalRecord`. -/
structure SerdeJson where
  /-- `to_string`, which meets the properties in some order. -/
  toString : HashOrder → WalRecord → Except String String
  fromStr : String → Except String WalRecord

/-- The adapter is determined by the file at its path, to which its writer appends. -/
structure JsonFileStorage (serde : SerdeJson) where
  file : Bytes
deriving DecidableEq

namespace JsonFileStorage

variable {serde : SerdeJson}

/-- `open`. A new file is empty. -/
def openPath : Option Bytes → JsonFileStorage serde
  | some file => ⟨file⟩
  | none => ⟨[]⟩

/-- `serde_json::to_string(record)?` with the newline. -/
def recordLine (serde : SerdeJson) (ord : HashOrder) (record : WalRecord) :
    Except GraphError Bytes :=
  match serde.toString ord record with
  | .ok line => .ok (asBytes (line.push '\n'))
  | .error e => .error (.serializationError e)

def appendRecord (ord : HashOrder) (record : WalRecord) :
    StorageAction (JsonFileStorage serde) Unit := do
  let line ← Action.tryRead fun _ => recordLine serde ord record
  Action.modify fun s => ⟨s.file ++ line⟩

/-- The `match record` of the replay loop. -/
def applyRecord (c : Contents) : WalRecord → Contents
  | .upsertNode node => (c.1.insert node.id node, c.2)
  | .upsertEdge edge => (c.1, c.2.insert edge.id edge)
  | .deleteNode id => (c.1.erase ⟨id⟩, c.2)
  | .deleteEdge id => (c.1, c.2.erase ⟨id⟩)

/-- What a line says; a blank one says nothing. -/
def decodeLine (serde : SerdeJson) (lineNumber : Nat) (line : Bytes) :
    Except GraphError (Option WalRecord) :=
  match String.fromUTF8? ⟨line.toArray⟩ with
  | none => .error (.storageIo "stream did not contain valid UTF-8")
  | some line =>
    if isBlank line then .ok none
    else match serde.fromStr line with
      | .ok record => .ok (some record)
      | .error e => .error (.deserializationError s!"line {lineNumber + 1}: {e}")

def replayLines (serde : SerdeJson) : Nat → List Bytes → Contents → Except GraphError Contents
  | _, [], c => .ok c
  | lineNumber, line :: rest, c => match decodeLine serde lineNumber line with
    | .ok (some record) => replayLines serde (lineNumber + 1) rest (applyRecord c record)
    | .ok none => replayLines serde (lineNumber + 1) rest c
    | .error e => .error e

def replay (s : JsonFileStorage serde) : Except GraphError Contents :=
  replayLines serde 0 (lines s.file) (∅, ∅)

/-- The records that compaction writes. -/
def liveRecords (ord : HashOrder) (c : Contents) : List (HashOrder × WalRecord) :=
  (c.1.valuesIter ord).map (fun node => (ord.nth node.id.val.toNat, .upsertNode node)) ++
    (c.2.valuesIter ord).map fun edge => (ord.nth edge.id.val.toNat, .upsertEdge edge)

/-- `compact`. An error leaves the old file in place. -/
def compact (ord : HashOrder) : StorageAction (JsonFileStorage serde) Unit := do
  let contents ← Action.tryRead replay
  let written ← Action.tryRead fun _ =>
    (liveRecords ord contents).mapM fun p => recordLine serde p.1 p.2
  Action.modify fun _ => ⟨written.flatten⟩

instance : FileStorage (JsonFileStorage serde) where
  saveNode ord node := appendRecord ord (.upsertNode node)
  loadNode id s := do return (← s.replay).1[id]?
  deleteNode id := appendRecord .sorted (.deleteNode id.val)
  saveEdge ord edge := appendRecord ord (.upsertEdge edge)
  loadEdge id s := do return (← s.replay).2[id]?
  deleteEdge id := appendRecord .sorted (.deleteEdge id.val)
  loadAllNodes ord s := do return (← s.replay).1.valuesIter ord
  loadAllEdges ord s := do return (← s.replay).2.valuesIter ord
  compact := compact
  file s := s.file
  openPath := openPath

end JsonFileStorage

end AdGraphDb
