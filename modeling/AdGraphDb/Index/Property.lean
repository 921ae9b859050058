import AdGraphDb.Index.Label
import AdGraphDb.Index.OrderedF64
import AdGraphDb.Query.Ast

/-!
# The property index

Each field has one sorted sub-index for every type of value, so a query only meets
stored values of the type it asks for.
-/

namespace AdGraphDb
open Std

structure FieldIndex where
  integers : HashMap Int64 (List NodeId)
  floats : HashMap OrderedF64 (List NodeId)
  texts : HashMap String (List NodeId)
  bools : HashMap Bool (List NodeId)
  nulls : List NodeId
deriving DecidableEq

/-- `range_query_btree`; a sorted map is met in the order of its keys. -/
def rangeQueryBtree {K : Type} [Ord K] [TransOrd K] [BEq K] (map : HashMap K (List NodeId))
    (op : ComparisonOp) (key : K) : List NodeId :=
  match op with
  | .eq => map.bucket key
  | .notEq => ((map.toList.filter fun p => p.1 != key).map Prod.snd).flatten
  | op => ((map.toList.filter fun p => op.admits (compare p.1 key)).map Prod.snd).flatten

namespace FieldIndex

/-- `Default::default()`. -/
def default : FieldIndex := ⟨∅, ∅, ∅, ∅, []⟩

def insert (id : NodeId) (value : Value) (i : FieldIndex) : FieldIndex :=
  match value with
  | .integer v => { i with integers := i.integers.bucketInsert v id }
  | .float v => { i with floats := i.floats.bucketInsert (.mk v) id }
  | .text v => { i with texts := i.texts.bucketInsert v id }
  | .boolean v => { i with bools := i.bools.bucketInsert v id }
  | .null => { i with nulls := i.nulls ++ [id] }

def remove (id : NodeId) (value : Value) (i : FieldIndex) : FieldIndex :=
  match value with
  | .integer v => { i with integers := i.integers.bucketRemove v id }
  | .float v => { i with floats := i.floats.bucketRemove (.mk v) id }
  | .text v => { i with texts := i.texts.bucketRemove v id }
  | .boolean v => { i with bools := i.bools.bucketRemove v id }
  | .null => { i with nulls := i.nulls.filter fun n => n ≠ id }

def query (op : ComparisonOp) (value : Value) (i : FieldIndex) : List NodeId :=
  match value with
  | .integer v => rangeQueryBtree i.integers op v
  | .float v => rangeQueryBtree i.floats op (.mk v)
  | .text v => rangeQueryBtree i.texts op v
  | .boolean v => rangeQueryBtree i.bools op v
  | .null => if op = .eq then i.nulls else []

end FieldIndex

structure PropertyIndex where
  fields : HashMap String FieldIndex
deriving DecidableEq

namespace PropertyIndex

def new : PropertyIndex := ⟨∅⟩

def insertNode (ord : HashOrder) (id : NodeId) (props : Properties) (i : PropertyIndex) :
    PropertyIndex :=
  ⟨(props.iter ord).foldl
    (fun fields p => fields.entryOrDefault p.1 .default fun fi => fi.insert id p.2) i.fields⟩

def removeNode (ord : HashOrder) (id : NodeId) (props : Properties) (i : PropertyIndex) :
    PropertyIndex :=
  ⟨(props.iter ord).foldl (fun fields p => fields.modify p.1 fun fi => fi.remove id p.2) i.fields⟩

/-- `none` when there is no index for the field. -/
def query (field : String) (op : ComparisonOp) (value : Value) (i : PropertyIndex) :
    Option (List NodeId) := i.fields[field]?.map fun fi => fi.query op value

def isIndexed (field : String) (i : PropertyIndex) : Bool := i.fields[field]?.isSome

def indexedFields (ord : HashOrder) (i : PropertyIndex) : List String := i.fields.keysIter ord

end PropertyIndex

/-! ## Buckets of a field -/

/-- The key of a value in the sub-indexes of its field. -/
inductive FieldKey where
  | integer (v : Int64)
  | float (v : OrderedF64)
  | text (v : String)
  | boolean (v : Bool)
  | null
deriving DecidableEq

def FieldKey.of : Value → FieldKey
  | .integer v => integer v
  | .float v => float (.mk v)
  | .text v => text v
  | .boolean v => boolean v
  | .null => null

namespace FieldIndex

/-- The ids under a key. -/
def bucket (i : FieldIndex) : FieldKey → List NodeId
  | .integer v => i.integers.bucket v
  | .float v => i.floats.bucket v
  | .text v => i.texts.bucket v
  | .boolean v => i.bools.bucket v
  | .null => i.nulls

theorem bucket_default (k : FieldKey) : default.bucket k = [] := by
  cases k <;> simp [bucket, default, HashMap.bucket]

theorem bucket_insert (id : NodeId) (value : Value) (i : FieldIndex) (k : FieldKey) :
    (i.insert id value).bucket k =
      if FieldKey.of value = k then i.bucket k ++ [id] else i.bucket k := by
  cases value <;> cases k <;>
    simp only [insert, bucket, FieldKey.of, HashMap.bucket_insert, FieldKey.integer.injEq,
      FieldKey.float.injEq, FieldKey.text.injEq, FieldKey.boolean.injEq, reduceCtorEq, if_true,
      if_false]

theorem bucket_remove (id : NodeId) (value : Value) (i : FieldIndex) (k : FieldKey) :
    (i.remove id value).bucket k =
      if FieldKey.of value = k then (i.bucket k).filter (fun n => n ≠ id) else i.bucket k := by
  cases value <;> cases k <;>
    simp only [remove, bucket, FieldKey.of, HashMap.bucket_remove, FieldKey.integer.injEq,
      FieldKey.float.injEq, FieldKey.text.injEq, FieldKey.boolean.injEq, reduceCtorEq, if_true,
      if_false]

end FieldIndex

namespace PropertyIndex

def bucket (i : PropertyIndex) (field : String) (k : FieldKey) : List NodeId :=
  (i.fields[field]?.getD .default).bucket k

theorem fields_insertNode (ord : HashOrder) (id : NodeId) (props : Properties) (i : PropertyIndex)
    (field : String) : (i.insertNode ord id props).fields[field]? =
      props[field]?.elim i.fields[field]? fun v =>
        some ((i.fields[field]?.getD .default).insert id v) := by
  apply HashMap.getElem?_foldl_iter
    fun (v : Value) (fi : Option FieldIndex) => some ((fi.getD .default).insert id v)
  intro m p k
  rw [HashMap.getElem?_entryOrDefault]
  by_cases h : p.1 = k
  · rw [if_pos h, if_pos h, h]
  · rw [if_neg h, if_neg h]

theorem fields_removeNode (ord : HashOrder) (id : NodeId) (props : Properties) (i : PropertyIndex)
    (field : String) : (i.removeNode ord id props).fields[field]? =
      props[field]?.elim i.fields[field]? fun v => i.fields[field]?.map fun fi => fi.remove id v := by
  apply HashMap.getElem?_foldl_iter
    fun (v : Value) (fi : Option FieldIndex) => fi.map fun fi => fi.remove id v
  intro m p k
  rw [HashMap.getElem?_modify']
  by_cases h : p.1 = k
  · rw [if_pos h, if_pos h, h]
  · rw [if_neg h, if_neg h]

/-- The key of a node in the index of a field. -/
def nodeKey (field : String) (n : Node) : Option FieldKey := n.properties[field]?.map FieldKey.of

/-- The field's index lists exactly the given nodes that carry the field. -/
def Indexes (i : PropertyIndex) (field : String) (nodes : List Node) : Prop :=
  Grouped (nodeKey field) Node.id (i.bucket field) nodes

theorem bucket_removeNode (ord : HashOrder) (id : NodeId) (node : Node) (i : PropertyIndex)
    (field : String) (k : FieldKey) : (i.removeNode ord id node.properties).bucket field k =
      if nodeKey field node = some k then (i.bucket field k).filter (fun n => n ≠ id)
      else i.bucket field k := by
  unfold bucket nodeKey
  rw [fields_removeNode]
  cases node.properties[field]? with
  | none => rfl
  | some v =>
    simp only [Option.elim_some, Option.map_some, Option.some.injEq]
    cases i.fields[field]? with
    | none =>
      rw [Option.map_none, Option.getD_none, FieldIndex.bucket_default, List.filter_nil, ite_self]
    | some fi => rw [Option.map_some, Option.getD_some, FieldIndex.bucket_remove]; rfl

variable {i : PropertyIndex} {field : String} {nodes : List Node}

theorem Indexes.new : Indexes .new field [] :=
  .empty fun k => by simp [bucket, PropertyIndex.new, FieldIndex.bucket_default]

/-- The index of the field has been told what the node carries in it. -/
theorem Indexes.add {i' : PropertyIndex} (h : i.Indexes field nodes) (n : Node)
    (hf : i'.fields[field]? = n.properties[field]?.elim i.fields[field]? fun v =>
      some ((i.fields[field]?.getD .default).insert n.id v)) :
    i'.Indexes field (n :: nodes) := by
  apply (Grouped.insert h n).congr
  intro k
  unfold bucket nodeKey
  rw [hf]
  cases n.properties[field]? with
  | none => rfl
  | some v =>
    rw [Option.elim_some, Option.getD_some, FieldIndex.bucket_insert, Option.map_some]
    simp only [Option.some.injEq]

theorem Indexes.removeNode {n : Node} (h : i.Indexes field (n :: nodes)) (ord : HashOrder)
    (hn : ∀ m ∈ nodes, m.id ≠ n.id) : (i.removeNode ord n.id n.properties).Indexes field nodes := by
  have hrem := Grouped.remove (p := fun id => id ≠ n.id) h (decide_eq_false (not_not.mpr rfl))
    fun m hm => decide_eq_true (hn m hm)
  exact hrem.congr fun k => bucket_removeNode ord n.id n i field k

theorem Indexes.perm {nodes' : List Node} (h : i.Indexes field nodes) (hp : nodes.Perm nodes') :
    i.Indexes field nodes' := Grouped.perm h hp

end PropertyIndex

end AdGraphDb
