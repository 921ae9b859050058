import AdGraphDb.Core.Graph
import AdGraphDb.Foundation.Cursor

/-!
# The record codec of the binary log

Every record is a type byte, a payload and the Adler-32 checksum of both.
-/

namespace AdGraphDb

def magic : Bytes := [0x41, 0x47, 0x44, 0x42]

def version : UInt32 := 2

def recordUpsertNode : UInt8 := 0x01
def recordUpsertEdge : UInt8 := 0x02
def recordDeleteNode : UInt8 := 0x03
def recordDeleteEdge : UInt8 := 0x04
def recordBeginTxn : UInt8 := 0x05
def recordCommitTxn : UInt8 := 0x06
def recordRollbackTxn : UInt8 := 0x07

def adler32 (data : Bytes) : UInt32 :=
  let (a, b) := data.foldl
    (fun (a, b) byte =>
      let a := (a + byte.toUInt32) % 65521
      (a, (b + a) % 65521))
    ((1, 0) : UInt32 × UInt32)
  (b <<< 16) ||| a

def valueNull : UInt8 := 0x00
def valueBoolean : UInt8 := 0x01
def valueInteger : UInt8 := 0x02
def valueFloat : UInt8 := 0x03
def valueText : UInt8 := 0x04

/-! ## Writing -/

def writeU8 (v : UInt8) : Bytes := [v]

def writeU32 (v : UInt32) : Bytes := leBytes 4 v.toNat

def writeU64 (v : UInt64) : Bytes := leBytes 8 v.toNat

def writeI64 (v : Int64) : Bytes := leBytes 8 v.toUInt64.toNat

def writeF64 (v : F64) : Bytes := leBytes 8 v.bits.toNat

/-- `str::as_bytes`. -/
def asBytes (s : String) : Bytes := s.toByteArray.data.toList

theorem asBytes_append (s t : String) : asBytes (s ++ t) = asBytes s ++ asBytes t := by
  simp [asBytes, String.toByteArray_append]

theorem asBytes_ofList (l : List Char) :
    asBytes (String.ofList l) = l.flatMap String.utf8EncodeChar := by
  simp [asBytes, String.toByteArray_ofList, List.utf8Encode]

/-- The length is cast to `u32`, so only its low 32 bits are kept. -/
def writeStr (s : String) : Bytes := writeU32 (UInt32.ofNat (asBytes s).length) ++ asBytes s

def writeValue : Value → Bytes
  | .null => writeU8 valueNull
  | .boolean b => writeU8 valueBoolean ++ writeU8 (if b then 1 else 0)
  | .integer i => writeU8 valueInteger ++ writeI64 i
  | .float f => writeU8 valueFloat ++ writeF64 f
  | .text s => writeU8 valueText ++ writeStr s

def writeEntry (p : String × Value) : Bytes := writeStr p.1 ++ writeValue p.2

def writeProperties (ord : HashOrder) (props : Properties) : Bytes :=
  writeU32 (UInt32.ofNat props.size) ++ (props.iter ord).flatMap writeEntry

/-! ## Reading -/

def eof (what : String) : GraphError :=
  .deserializationError s!"unexpected end of file reading {what}"

abbrev Decoder := Reader GraphError

def readU8 : Decoder UInt8 := Reader.byte (eof "u8")

def readBytes (n : Nat) : Decoder Bytes := Reader.bytes (eof s!"{n} bytes") n

/-- `try_into` an array of `n` bytes, then `from_le_bytes`. -/
def fromLeBytes? (n : Nat) (bytes : Bytes) : Option Nat :=
  if bytes.length = n then some (leValue bytes) else none

/-- An `n`-byte little-endian number. -/
def readLe (n : Nat) : Decoder Nat := do
  let bytes ← readBytes n
  Reader.unwrap (fromLeBytes? n bytes)

def readU32 : Decoder UInt32 := do return UInt32.ofNat (← readLe 4)

def readU64 : Decoder UInt64 := do return UInt64.ofNat (← readLe 8)

def readI64 : Decoder Int64 := do return (UInt64.ofNat (← readLe 8)).toInt64

def readF64 : Decoder F64 := do return ⟨UInt64.ofNat (← readLe 8)⟩

/-- `String::from_utf8`. -/
def fromUtf8 (bytes : Bytes) : Decoder String :=
  match String.fromUTF8? ⟨bytes.toArray⟩ with
  | some s => pure s
  | none => Reader.fail (.deserializationError "invalid UTF-8")

def readStr : Decoder String := do
  let len ← readU32
  let bytes ← readBytes len.toNat
  fromUtf8 bytes

/-- `{b:02x}`. -/
def hex02 (b : UInt8) : String :=
  String.ofList [Nat.digitChar (b.toNat / 16), Nat.digitChar (b.toNat % 16)]

/-- The `match tag` of `read_value`. -/
def readTagged (tag : UInt8) : Decoder Value :=
  if tag = valueNull then return .null
  else if tag = valueBoolean then do return .boolean ((← readU8) != 0)
  else if tag = valueInteger then do return .integer (← readI64)
  else if tag = valueFloat then do return .float (← readF64)
  else if tag = valueText then do return .text (← readStr)
  else Reader.fail (.deserializationError s!"unknown value tag: 0x{hex02 tag}")

def readValue : Decoder Value := do
  let tag ← readU8
  readTagged tag

/-- The `for _ in 0..count` loop. -/
def readEntries : Nat → Properties → Decoder Properties
  | 0, map => pure map
  | count + 1, map => do
    let key ← readStr
    let value ← readValue
    readEntries count (map.insert key value)

/-- Which capacities the allocator has room for. -/
class Allocator where
  grants : Nat → Bool

/-- Where no allocator is named, no allocation is refused. -/
instance (priority := low) Allocator.unlimited : Allocator := ⟨fun _ => true⟩

/-- An allocator that grants fewer than `bound` entries. -/
@[reducible] def Allocator.below (bound : Nat) : Allocator where
  grants capacity := decide (capacity < bound)

section
variable [Allocator]

/-- `HashMap::with_capacity`. A refused allocation aborts the process. -/
def withCapacity (capacity : Nat) : Decoder Properties :=
  Reader.unwrap (if Allocator.grants capacity then some ∅ else none)

def readProperties : Decoder Properties := do
  let count ← readU32
  let map ← withCapacity count.toNat
  readEntries count.toNat map

end

/-! ## Records -/

def withChecksum (buf : Bytes) : Bytes := buf ++ writeU32 (adler32 buf)

def encodeNode (ord : HashOrder) (node : Node) : Bytes :=
  withChecksum (writeU8 recordUpsertNode ++ (writeU64 node.id.val ++
    (writeStr node.label ++ writeProperties ord node.properties)))

def encodeEdge (ord : HashOrder) (edge : Edge) : Bytes :=
  withChecksum (writeU8 recordUpsertEdge ++ (writeU64 edge.id.val ++
    (writeU64 edge.source.val ++ (writeU64 edge.target.val ++
      (writeStr edge.label ++ (writeF64 edge.weight ++ writeProperties ord edge.properties))))))

def encodeDeleteNode (id : NodeId) : Bytes :=
  withChecksum (writeU8 recordDeleteNode ++ writeU64 id.val)

def encodeDeleteEdge (id : EdgeId) : Bytes :=
  withChecksum (writeU8 recordDeleteEdge ++ writeU64 id.val)

def encodeTxnMarker (recordType : UInt8) (txnId : UInt64) : Bytes :=
  withChecksum (writeU8 recordType ++ writeU64 txnId)

section
variable [Allocator]

def decodeNode : Decoder Node := do
  let id ← readU64
  let label ← readStr
  let properties ← readProperties
  return ⟨⟨id⟩, label, properties⟩

def decodeEdge : Decoder Edge := do
  let id ← readU64
  let source ← readU64
  let target ← readU64
  let label ← readStr
  let weight ← readF64
  let properties ← readProperties
  return ⟨⟨id⟩, ⟨source⟩, ⟨target⟩, label, weight, properties⟩

end

inductive RecordData where
  | upsertNode (node : Node)
  | upsertEdge (edge : Edge)
  | deleteNode (id : NodeId)
  | deleteEdge (id : EdgeId)
  | beginTxn (txnId : UInt64)
  | commitTxn (txnId : UInt64)
  | rollbackTxn (txnId : UInt64)
deriving DecidableEq

def decodeRecord [Allocator] (recordType : UInt8) : Decoder RecordData :=
  if recordType = recordUpsertNode then do return .upsertNode (← decodeNode)
  else if recordType = recordUpsertEdge then do return .upsertEdge (← decodeEdge)
  else if recordType = recordDeleteNode then do return .deleteNode ⟨← readU64⟩
  else if recordType = recordDeleteEdge then do return .deleteEdge ⟨← readU64⟩
  else if recordType = recordBeginTxn then do return .beginTxn (← readU64)
  else if recordType = recordCommitTxn then do return .commitTxn (← readU64)
  else if recordType = recordRollbackTxn then do return .rollbackTxn (← readU64)
  else Reader.fail (.deserializationError s!"unknown record type 0x{hex02 recordType}")

/-- What the storage appends for a record; `ord` orders the properties. -/
def encodeRecord (ord : HashOrder) : RecordData → Bytes
  | .upsertNode node => encodeNode ord node
  | .upsertEdge edge => encodeEdge ord edge
  | .deleteNode id => encodeDeleteNode id
  | .deleteEdge id => encodeDeleteEdge id
  | .beginTxn txnId => encodeTxnMarker recordBeginTxn txnId
  | .commitTxn txnId => encodeTxnMarker recordCommitTxn txnId
  | .rollbackTxn txnId => encodeTxnMarker recordRollbackTxn txnId

end AdGraphDb
