import AdGraphDb.Storage.Codec

/-!
# What the codec writes, it reads

Strings and property maps are written with `u32` lengths, so values round-trip when
their lengths fit.
-/

namespace AdGraphDb
open Reader

/-! ## Lengths that fit their `u32` prefix -/

def StrFits (s : String) : Prop := (asBytes s).length < 2 ^ 32

def ValueFits : Value → Prop
  | .text s => StrFits s
  | _ => True

def PropertiesFit (props : Properties) : Prop :=
  props.size < 2 ^ 32 ∧ ∀ p ∈ props.toList, StrFits p.1 ∧ ValueFits p.2

def NodeFits (node : Node) : Prop := StrFits node.label ∧ PropertiesFit node.properties

def EdgeFits (edge : Edge) : Prop := StrFits edge.label ∧ PropertiesFit edge.properties

def RecordFits : RecordData → Prop
  | .upsertNode node => NodeFits node
  | .upsertEdge edge => EdgeFits edge
  | _ => True

instance (s : String) : Decidable (StrFits s) :=
  inferInstanceAs (Decidable ((asBytes s).length < 2 ^ 32))

instance (v : Value) : Decidable (ValueFits v) := by
  cases v <;> unfold ValueFits <;> infer_instance

instance (props : Properties) : Decidable (PropertiesFit props) :=
  inferInstanceAs (Decidable (props.size < 2 ^ 32 ∧ ∀ p ∈ props.toList, StrFits p.1 ∧ ValueFits p.2))

instance (node : Node) : Decidable (NodeFits node) :=
  inferInstanceAs (Decidable (StrFits node.label ∧ PropertiesFit node.properties))

instance (edge : Edge) : Decidable (EdgeFits edge) :=
  inferInstanceAs (Decidable (StrFits edge.label ∧ PropertiesFit edge.properties))

instance (r : RecordData) : Decidable (RecordFits r) := by
  cases r <;> unfold RecordFits <;> infer_instance

/-! ## Every reader is regular -/

theorem regular_readU8 : Regular readU8 := .byte _

theorem regular_readBytes (n : Nat) : Regular (readBytes n) := .bytes _ _

theorem fromLeBytes?_isSome {n : Nat} {bytes : Bytes} (h : bytes.length = n) :
    fromLeBytes? n bytes = some (leValue bytes) := if_pos h

theorem regular_readLe (n : Nat) : Regular (readLe n) :=
  (regular_readBytes n).bind_returns fun bytes h =>
    .unwrap (by rw [fromLeBytes?_isSome (length_of_returns_bytes h)]; rfl)

theorem regular_readU32 : Regular readU32 := (regular_readLe 4).bind fun _ => .pure _

theorem regular_readU64 : Regular readU64 := (regular_readLe 8).bind fun _ => .pure _

theorem regular_readI64 : Regular readI64 := (regular_readLe 8).bind fun _ => .pure _

theorem regular_readF64 : Regular readF64 := (regular_readLe 8).bind fun _ => .pure _

theorem regular_fromUtf8 (bytes : Bytes) : Regular (fromUtf8 bytes) := by
  unfold fromUtf8
  split
  · exact .pure _
  · exact .fail _

theorem regular_readStr : Regular readStr :=
  regular_readU32.bind fun len => (regular_readBytes len.toNat).bind regular_fromUtf8

theorem regular_readTagged (tag : UInt8) : Regular (readTagged tag) := by
  unfold readTagged
  split_ifs
  · exact .pure _
  · exact regular_readU8.bind fun _ => .pure _
  · exact regular_readI64.bind fun _ => .pure _
  · exact regular_readF64.bind fun _ => .pure _
  · exact regular_readStr.bind fun _ => .pure _
  · exact .fail _

theorem regular_readValue : Regular readValue := regular_readU8.bind regular_readTagged

theorem regular_readEntries (n : Nat) (map : Properties) : Regular (readEntries n map) := by
  induction n generalizing map with
  | zero => exact .pure _
  | succ n ih => exact regular_readStr.bind fun _ => regular_readValue.bind fun _ => ih _

theorem regular_withCapacity (capacity : Nat) : Regular (withCapacity capacity) := .pure ∅

theorem regular_readProperties : Regular readProperties :=
  regular_readU32.bind fun count => (regular_withCapacity _).bind (regular_readEntries count.toNat)

theorem regular_decodeNode : Regular decodeNode :=
  regular_readU64.bind fun _ => regular_readStr.bind fun _ =>
    regular_readProperties.bind fun _ => .pure _

theorem regular_decodeEdge : Regular decodeEdge :=
  regular_readU64.bind fun _ => regular_readU64.bind fun _ => regular_readU64.bind fun _ =>
    regular_readStr.bind fun _ => regular_readF64.bind fun _ =>
      regular_readProperties.bind fun _ => .pure _

theorem regular_decodeRecord (recordType : UInt8) : Regular (decodeRecord recordType) := by
  unfold decodeRecord
  split_ifs
  · exact regular_decodeNode.bind fun _ => .pure _
  · exact regular_decodeEdge.bind fun _ => .pure _
  all_goals first
    | exact regular_readU64.bind fun _ => .pure _
    | exact .fail _

section
variable [Allocator]

theorem steady_readProperties : Steady readProperties :=
  regular_readU32.steady.bind fun count => (Steady.unwrap _).bind fun map =>
    (regular_readEntries count.toNat map).steady

theorem steady_decodeNode : Steady decodeNode :=
  regular_readU64.steady.bind fun _ => regular_readStr.steady.bind fun _ =>
    steady_readProperties.bind fun _ => (Regular.pure _).steady

theorem steady_decodeEdge : Steady decodeEdge :=
  regular_readU64.steady.bind fun _ => regular_readU64.steady.bind fun _ =>
    regular_readU64.steady.bind fun _ => regular_readStr.steady.bind fun _ =>
      regular_readF64.steady.bind fun _ => steady_readProperties.bind fun _ =>
        (Regular.pure _).steady

/-- Whatever the allocator refuses, the cursor moves forward inside the input. -/
theorem steady_decodeRecord (recordType : UInt8) : Steady (decodeRecord recordType) := by
  unfold decodeRecord
  split_ifs
  · exact steady_decodeNode.bind fun _ => (Regular.pure _).steady
  · exact steady_decodeEdge.bind fun _ => (Regular.pure _).steady
  all_goals first
    | exact regular_readU64.steady.bind fun _ => (Regular.pure _).steady
    | exact (Regular.fail _).steady

end

/-! ## Every reader parses what the writer of its type writes -/

theorem parses_readU8 (v : UInt8) : Parses readU8 (writeU8 v) v := .byte _ v

theorem parses_readBytes (w : Bytes) : Parses (readBytes w.length) w w := .bytes _ w rfl

theorem parses_readLe {n v : Nat} (hv : v < 256 ^ n) : Parses (readLe n) (leBytes n v) v := by
  have hw : (leBytes n v).length = n := leBytes_length n v
  have hu : fromLeBytes? n (leBytes n v) = some v := by
    rw [fromLeBytes?_isSome hw, leValue_leBytes, Nat.mod_eq_of_lt hv]
  have hb : Parses (readBytes n) (leBytes n v) (leBytes n v) := .bytes _ _ hw
  have h := hb.bind (regular_readBytes n) (f := fun bytes => unwrap (fromLeBytes? n bytes))
    (b := v) (w := [])
    (fun bytes h => .unwrap (by rw [fromLeBytes?_isSome (length_of_returns_bytes h)]; rfl))
    (by rw [hu]; exact .pure v)
  rwa [List.append_nil] at h

theorem parses_readU32 (v : UInt32) : Parses readU32 (writeU32 v) v := by
  have h := (parses_readLe (n := 4) (v := v.toNat) v.toNat_lt).map (regular_readLe 4) UInt32.ofNat
  rwa [UInt32.ofNat_toNat] at h

theorem parses_readU64 (v : UInt64) : Parses readU64 (writeU64 v) v := by
  have h := (parses_readLe (n := 8) (v := v.toNat) v.toNat_lt).map (regular_readLe 8) UInt64.ofNat
  rwa [UInt64.ofNat_toNat] at h

theorem parses_readI64 (v : Int64) : Parses readI64 (writeI64 v) v := by
  have h := (parses_readLe (n := 8) (v := v.toUInt64.toNat) v.toUInt64.toNat_lt).map
    (regular_readLe 8) fun n => (UInt64.ofNat n).toInt64
  rwa [UInt64.ofNat_toNat] at h

theorem parses_readF64 (v : F64) : Parses readF64 (writeF64 v) v := by
  have h := (parses_readLe (n := 8) (v := v.bits.toNat) v.bits.toNat_lt).map
    (regular_readLe 8) fun n => F64.mk (UInt64.ofNat n)
  rwa [UInt64.ofNat_toNat] at h

theorem fromUTF8?_asBytes (s : String) : String.fromUTF8? ⟨(asBytes s).toArray⟩ = some s := by
  have h : (⟨(asBytes s).toArray⟩ : ByteArray) = s.toByteArray := rfl
  rw [h, String.fromUTF8?, dif_pos s.isValidUTF8]
  rfl

theorem fromUtf8_asBytes (s : String) : fromUtf8 (asBytes s) = pure s := by
  rw [fromUtf8, fromUTF8?_asBytes]

theorem toNat_ofNat_of_lt {n : Nat} (h : n < 2 ^ 32) : (UInt32.ofNat n).toNat = n := by
  rw [UInt32.toNat_ofNat', Nat.mod_eq_of_lt h]

theorem parses_readStr {s : String} (hs : StrFits s) : Parses readStr (writeStr s) s := by
  refine (parses_readU32 _).bind regular_readU32
    (fun len _ => (regular_readBytes len.toNat).bind regular_fromUtf8) ?_
  rw [toNat_ofNat_of_lt hs]
  have h := (parses_readBytes (asBytes s)).bind (regular_readBytes _) (f := fromUtf8) (b := s)
    (w := []) (fun bytes _ => regular_fromUtf8 bytes) (by rw [fromUtf8_asBytes]; exact .pure s)
  rwa [List.append_nil] at h

theorem parses_readValue {v : Value} (hv : ValueFits v) : Parses readValue (writeValue v) v := by
  have tagged {tag : UInt8} {w : Bytes} (h : Parses (readTagged tag) w v) :
      Parses readValue (writeU8 tag ++ w) v :=
    (parses_readU8 tag).bind regular_readU8 (fun t _ => regular_readTagged t) h
  cases v with
  | null => exact tagged (.pure _)
  | boolean b =>
    have h := (parses_readU8 (if b then 1 else 0)).map regular_readU8 fun x => Value.boolean (x != 0)
    refine tagged ?_
    cases b <;> exact h
  | integer i => exact tagged ((parses_readI64 i).map regular_readI64 Value.integer)
  | float f => exact tagged ((parses_readF64 f).map regular_readF64 Value.float)
  | text s => exact tagged ((parses_readStr hv).map regular_readStr Value.text)

theorem parses_readEntries {l : List (String × Value)}
    (hl : ∀ p ∈ l, StrFits p.1 ∧ ValueFits p.2) (map : Properties) :
    Parses (readEntries l.length map) (l.flatMap writeEntry) (HashMap.insertAll map l) := by
  induction l generalizing map with
  | nil => exact .pure _
  | cons p l ih =>
    obtain ⟨hk, hv⟩ := hl p List.mem_cons_self
    rw [List.flatMap_cons, writeEntry, List.append_assoc]
    refine (parses_readStr hk).bind regular_readStr
      (fun _ _ => regular_readValue.bind fun _ => regular_readEntries _ _) ?_
    refine (parses_readValue hv).bind regular_readValue (fun _ _ => regular_readEntries _ _) ?_
    exact ih (fun q hq => hl q (List.mem_cons_of_mem p hq)) _

theorem parses_entries (ord : HashOrder) {props : Properties} (h : PropertiesFit props) :
    Parses (readEntries (UInt32.ofNat props.size).toNat ∅) ((props.iter ord).flatMap writeEntry)
      props := by
  have hlen : (props.iter ord).length = props.size := by
    rw [HashMap.iter, HashOrder.length_order, Std.ExtTreeMap.length_toList]
  have hfit : ∀ p ∈ props.iter ord, StrFits p.1 ∧ ValueFits p.2 := fun p hp =>
    h.2 p (ord.mem_order.mp hp)
  have := parses_readEntries hfit ∅
  rwa [hlen, HashMap.insertAll_iter, ← toNat_ofNat_of_lt h.1] at this

theorem parses_readProperties (ord : HashOrder) {props : Properties} (h : PropertiesFit props) :
    Parses readProperties (writeProperties ord props) props :=
  (parses_readU32 _).bind regular_readU32
    (fun _ _ => (regular_withCapacity _).bind (regular_readEntries _)) (parses_entries ord h)

theorem parses_decodeNode (ord : HashOrder) {node : Node} (h : NodeFits node) :
    Parses decodeNode
      (writeU64 node.id.val ++ (writeStr node.label ++ writeProperties ord node.properties)) node :=
  (parses_readU64 _).bind regular_readU64
    (fun _ _ => regular_readStr.bind fun _ => regular_readProperties.bind fun _ => .pure _) <|
  (parses_readStr h.1).bind regular_readStr (fun _ _ => regular_readProperties.bind fun _ => .pure _) <|
  (parses_readProperties ord h.2).map regular_readProperties fun props =>
    Node.mk node.id node.label props

theorem parses_decodeEdge (ord : HashOrder) {edge : Edge} (h : EdgeFits edge) :
    Parses decodeEdge (writeU64 edge.id.val ++ (writeU64 edge.source.val ++
      (writeU64 edge.target.val ++ (writeStr edge.label ++
        (writeF64 edge.weight ++ writeProperties ord edge.properties))))) edge := by
  have last (w : F64) : ∀ id source target label, Regular (do
      let properties ← readProperties
      return Edge.mk id source target label w properties : Decoder Edge) := fun _ _ _ _ =>
    regular_readProperties.bind fun _ => .pure _
  refine (parses_readU64 _).bind regular_readU64 (fun _ _ => regular_readU64.bind fun _ =>
    regular_readU64.bind fun _ => regular_readStr.bind fun _ => regular_readF64.bind fun _ =>
      last _ _ _ _ _) ?_
  refine (parses_readU64 _).bind regular_readU64 (fun _ _ => regular_readU64.bind fun _ =>
    regular_readStr.bind fun _ => regular_readF64.bind fun _ => last _ _ _ _ _) ?_
  refine (parses_readU64 _).bind regular_readU64 (fun _ _ => regular_readStr.bind fun _ =>
    regular_readF64.bind fun _ => last _ _ _ _ _) ?_
  refine (parses_readStr h.1).bind regular_readStr (fun _ _ => regular_readF64.bind fun _ =>
    last _ _ _ _ _) ?_
  refine (parses_readF64 _).bind regular_readF64 (fun _ _ => last _ _ _ _ _) ?_
  exact (parses_readProperties ord h.2).map regular_readProperties fun props =>
    Edge.mk edge.id edge.source edge.target edge.label edge.weight props

/-! ## Records -/

/-- The type byte of a record. -/
def typeByte : RecordData → UInt8
  | .upsertNode _ => recordUpsertNode
  | .upsertEdge _ => recordUpsertEdge
  | .deleteNode _ => recordDeleteNode
  | .deleteEdge _ => recordDeleteEdge
  | .beginTxn _ => recordBeginTxn
  | .commitTxn _ => recordCommitTxn
  | .rollbackTxn _ => recordRollbackTxn

/-- The payload of a record. -/
def payload (ord : HashOrder) : RecordData → Bytes
  | .upsertNode node =>
    writeU64 node.id.val ++ (writeStr node.label ++ writeProperties ord node.properties)
  | .upsertEdge edge =>
    writeU64 edge.id.val ++ (writeU64 edge.source.val ++ (writeU64 edge.target.val ++
      (writeStr edge.label ++ (writeF64 edge.weight ++ writeProperties ord edge.properties))))
  | .deleteNode id => writeU64 id.val
  | .deleteEdge id => writeU64 id.val
  | .beginTxn txnId => writeU64 txnId
  | .commitTxn txnId => writeU64 txnId
  | .rollbackTxn txnId => writeU64 txnId

theorem encodeRecord_eq (ord : HashOrder) (r : RecordData) :
    encodeRecord ord r = withChecksum (writeU8 (typeByte r) ++ payload ord r) := by
  cases r <;> rfl

theorem parses_decodeRecord (ord : HashOrder) {r : RecordData} (h : RecordFits r) :
    Parses (decodeRecord (typeByte r)) (payload ord r) r := by
  cases r with
  | upsertNode node => exact (parses_decodeNode ord h).map regular_decodeNode RecordData.upsertNode
  | upsertEdge edge => exact (parses_decodeEdge ord h).map regular_decodeEdge RecordData.upsertEdge
  | deleteNode id =>
    exact (parses_readU64 id.val).map regular_readU64 fun v => RecordData.deleteNode ⟨v⟩
  | deleteEdge id =>
    exact (parses_readU64 id.val).map regular_readU64 fun v => RecordData.deleteEdge ⟨v⟩
  | beginTxn t => exact (parses_readU64 t).map regular_readU64 RecordData.beginTxn
  | commitTxn t => exact (parses_readU64 t).map regular_readU64 RecordData.commitTxn
  | rollbackTxn t => exact (parses_readU64 t).map regular_readU64 RecordData.rollbackTxn

/-! ## Records that the allocator has room for -/

section
variable [Allocator]

/-- The allocator grants the capacity for the properties of the record. -/
def RecordData.Granted : RecordData → Prop
  | .upsertNode node => Allocator.grants node.properties.size = true
  | .upsertEdge edge => Allocator.grants edge.properties.size = true
  | _ => True

instance (r : RecordData) : Decidable r.Granted := by
  cases r <;> unfold RecordData.Granted <;> infer_instance

theorem decodes_readProperties (ord : HashOrder) {props : Properties} (h : PropertiesFit props)
    (hg : Allocator.grants props.size = true) :
    Decodes readProperties (writeProperties ord props) props := by
  refine (parses_readU32 _).decodes.bind ?_
  have hparse := parses_entries ord h
  rw [toNat_ofNat_of_lt h.1] at hparse ⊢
  have hcap : withCapacity props.size = pure ∅ := by rw [withCapacity, hg, if_pos rfl]; rfl
  rw [hcap]
  exact (Decodes.pure ∅).bind hparse.decodes

theorem decodes_decodeRecord (ord : HashOrder) {r : RecordData} (h : RecordFits r)
    (hg : r.Granted) : Decodes (decodeRecord (typeByte r)) (payload ord r) r := by
  have map {α β : Type} {p : Decoder α} {w : Bytes} {a : α} (hp : Decodes p w a) (g : α → β) :
      Decodes (p >>= fun c => pure (g c)) w (g a) := by
    have hbind := hp.bind (f := fun c => (pure (g c) : Decoder β)) (.pure (g a))
    rwa [List.append_nil] at hbind
  cases r with
  | upsertNode node =>
    exact map ((parses_readU64 _).decodes.bind ((parses_readStr h.1).decodes.bind
      (map (decodes_readProperties ord h.2 hg) (Node.mk node.id node.label)))) RecordData.upsertNode
  | upsertEdge edge =>
    exact map ((parses_readU64 _).decodes.bind ((parses_readU64 _).decodes.bind
      ((parses_readU64 _).decodes.bind ((parses_readStr h.1).decodes.bind
        ((parses_readF64 _).decodes.bind (map (decodes_readProperties ord h.2 hg)
          (Edge.mk edge.id edge.source edge.target edge.label edge.weight)))))))
      RecordData.upsertEdge
  | deleteNode id => exact map (parses_readU64 id.val).decodes fun v => RecordData.deleteNode ⟨v⟩
  | deleteEdge id => exact map (parses_readU64 id.val).decodes fun v => RecordData.deleteEdge ⟨v⟩
  | beginTxn t => exact map (parses_readU64 t).decodes RecordData.beginTxn
  | commitTxn t => exact map (parses_readU64 t).decodes RecordData.commitTxn
  | rollbackTxn t => exact map (parses_readU64 t).decodes RecordData.rollbackTxn

end

/-- An unlimited allocator refuses no record. -/
theorem granted_unlimited (r : RecordData) : r.Granted := by
  cases r <;> first | rfl | trivial

end AdGraphDb
