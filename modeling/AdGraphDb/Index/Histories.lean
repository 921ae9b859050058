import AdGraphDb.Foundation.Simulation
import AdGraphDb.Index.Lookup

/-!
# Histories of the property index

An index that is told of nodes and of their removal answers, for values other than floats,
from the properties of the nodes that are there.
-/

namespace AdGraphDb
open Std

/-- Both values are built by one constructor. -/
def Value.SameVariant : Value → Value → Prop
  | .null, .null => True
  | .boolean _, .boolean _ => True
  | .integer _, .integer _ => True
  | .float _, .float _ => True
  | .text _, .text _ => True
  | _, _ => False

/-- Apart from floats, the index admits the values of the query's variant that satisfy the
filter. -/
theorem FieldKey.admitted_iff (op : ComparisonOp) (stored : Value) {value : Value}
    (hvalue : ∀ f, value ≠ .float f) :
    FieldKey.admitted op value (FieldKey.of stored) = true ↔
      stored.SameVariant value ∧ op.compareValues stored value = true := by
  have hmismatch : ¬ op.Mismatch stored value ∨ ¬ stored.SameVariant value := by
    cases value with
    | float f => exact absurd rfl (hvalue f)
    | _ => cases stored <;> first | exact .inl id | exact .inr id
  by_cases hsame : stored.SameVariant value
  · have hm := hmismatch.resolve_right fun h => h hsame
    rw [not_ne_iff.mp (mt (op.mismatch_iff stored value).mp hm), and_iff_right hsame]
  · refine iff_of_false (fun h => hsame ?_) fun h => hsame h.1
    cases value <;> cases stored <;> trivial

namespace PropertyIndex

/-- The two writes, with the properties of the node. -/
inductive Op where
  | insertNode (ord : HashOrder) (id : NodeId) (props : Properties)
  | removeNode (ord : HashOrder) (id : NodeId) (props : Properties)

/-- The index, and the nodes that it has been told of and that have not been removed. -/
structure Told where
  index : PropertyIndex
  current : HashMap NodeId Properties

namespace Told

def new : Told := ⟨.new, ∅⟩

def step : Op → Told → Unit × Told
  | .insertNode ord id props, s =>
    ((), ⟨s.index.insertNode ord id props, s.current.insert id props⟩)
  | .removeNode ord id props, s => ((), ⟨s.index.removeNode ord id props, s.current.erase id⟩)

/-- An id is inserted while it is absent, and removed with the properties it was inserted
with. -/
def Admits : Op → Told → Prop
  | .insertNode _ id _, s => s.current[id]? = none
  | .removeNode _ id props, s => ∀ p, s.current[id]? = some p → p = props

instance (op : Op) (s : Told) : Decidable (Admits op s) :=
  match op with
  | .insertNode _ id _ => inferInstanceAs (Decidable (s.current[id]? = none))
  | .removeNode _ id props =>
    match h : s.current[id]? with
    | none => .isTrue fun p hp => by cases h.symm.trans hp
    | some p =>
      decidable_of_iff (p = props)
        ⟨fun he q hq => (Option.some.inj (hq.symm.trans h)).trans he, fun ha => ha p h⟩

/-- The nodes that are there. -/
def nodes (current : HashMap NodeId Properties) : List Node :=
  current.toList.map fun p => ⟨p.1, "", p.2⟩

theorem mem_nodes {current : HashMap NodeId Properties} {n : Node} :
    n ∈ nodes current ↔ n.label = "" ∧ current[n.id]? = some n.properties := by
  simp only [nodes, List.mem_map, HashMap.mem_toList]
  constructor
  · rintro ⟨p, hp, rfl⟩
    exact ⟨rfl, hp⟩
  · rintro ⟨hl, hp⟩
    obtain ⟨id, label, props⟩ := n
    cases hl
    exact ⟨(id, props), hp, rfl⟩

theorem nodup_nodes (current : HashMap NodeId Properties) :
    ((nodes current).map Node.id).Nodup := by
  rw [nodes, List.map_map]
  exact HashMap.nodup_keys current

theorem nodes_insert {current : HashMap NodeId Properties} {id : NodeId} {props : Properties}
    (h : current[id]? = none) :
    (⟨id, "", props⟩ :: nodes current).Perm (nodes (current.insert id props)) :=
  ((HashMap.toList_insert_perm h props).map fun p : NodeId × Properties => (⟨p.1, "", p.2⟩ : Node)).symm

theorem nodes_erase {current : HashMap NodeId Properties} {id : NodeId} {props : Properties}
    (h : current[id]? = some props) :
    (nodes current).Perm (⟨id, "", props⟩ :: nodes (current.erase id)) :=
  (HashMap.toList_erase_perm h).map fun p : NodeId × Properties => (⟨p.1, "", p.2⟩ : Node)

/-- The index of the field lists the nodes that are there. -/
def Sound (field : String) (s : Told) : Prop := s.index.Indexes field (nodes s.current)

variable {field : String} {s : Told}

theorem sound_insert (h : s.Sound field) (ord : HashOrder) {id : NodeId}
    (props : Properties) (hid : s.current[id]? = none) :
    Sound field ⟨s.index.insertNode ord id props, s.current.insert id props⟩ := by
  have hadd := Indexes.add h ⟨id, "", props⟩ (s.index.fields_insertNode ord id props field)
  exact hadd.perm (nodes_insert hid)

theorem sound_remove (h : s.Sound field) (ord : HashOrder) {id : NodeId}
    {props : Properties} (hid : s.current[id]? = some props) :
    Sound field ⟨s.index.removeNode ord id props, s.current.erase id⟩ := by
  apply Indexes.removeNode (n := ⟨id, "", props⟩) (h.perm (nodes_erase hid)) ord
  intro m hm hmid
  rw [mem_nodes, hmid, HashMap.getElem?_erase', if_pos rfl] at hm
  cases hm.2

/-- Removing an id that is not there takes nothing away. -/
theorem sound_remove_absent (h : s.Sound field) (ord : HashOrder) {id : NodeId}
    (props : Properties) (hid : s.current[id]? = none) :
    Sound field ⟨s.index.removeNode ord id props, s.current.erase id⟩ := by
  have hall : ∀ k, nodeKey field ⟨id, "", props⟩ = some k → ∀ j ∈ s.index.bucket field k,
      decide (j ≠ id) = true := by
    intro k hk j hj
    obtain ⟨n, hn, -, hnid⟩ := Grouped.mem_iff h |>.mp hj
    apply decide_eq_true
    rintro rfl
    rw [mem_nodes, hnid, hid] at hn
    cases hn.2
  unfold Sound
  rw [HashMap.erase_eq_self hid]
  apply Grouped.congr ((Grouped.filter_iff h _ _).mpr hall)
  exact fun k => bucket_removeNode ord id ⟨id, "", props⟩ s.index field k

theorem sound_step {op : Op} (h : s.Sound field) (hop : Admits op s) :
    (step op s).2.Sound field := by
  cases op with
  | insertNode ord id props => exact sound_insert h ord props hop
  | removeNode ord id props =>
    cases hid : s.current[id]? with
    | none => exact sound_remove_absent h ord props hid
    | some p => exact sound_remove h ord (hop p hid ▸ hid)

theorem sound_run {ops : List Op} (h : Machine.Along Admits step ops .new) :
    (Machine.run step ops .new).2.Sound field :=
  Machine.run_keeps (fun _ _ hs hop => sound_step hs hop) Indexes.new h

/-- A field gets its index from the first node that carries it, and keeps it. -/
theorem fields_run (ops : List Op) (s : Told) :
    (Machine.run step ops s).2.index.fields[field]? = none ↔
      s.index.fields[field]? = none ∧
        ∀ ord id props, .insertNode ord id props ∈ ops → props[field]? = none := by
  induction ops generalizing s with
  | nil => simp [Machine.run]
  | cons op ops ih =>
    rw [Machine.run, ih]
    cases op with
    | insertNode ord id props =>
      have hfield : (s.index.insertNode ord id props).fields[field]? = none ↔
          s.index.fields[field]? = none ∧ props[field]? = none := by
        rw [fields_insertNode]
        cases props[field]? <;> simp
      rw [step, hfield, and_assoc]
      refine and_congr_right fun _ => ⟨?_, ?_⟩
      · rintro ⟨hp, hrest⟩ ord' id' props' hmem
        rcases List.mem_cons.mp hmem with heq | hmem
        · cases heq
          exact hp
        · exact hrest ord' id' props' hmem
      · intro h
        exact ⟨h ord id props List.mem_cons_self,
          fun ord' id' props' hmem => h ord' id' props' (List.mem_cons_of_mem _ hmem)⟩
    | removeNode ord id props =>
      have hfield : (s.index.removeNode ord id props).fields[field]? = none ↔
          s.index.fields[field]? = none := by
        rw [fields_removeNode]
        cases props[field]? <;> simp
      rw [step, hfield]
      refine and_congr_right fun _ => ?_
      simp only [List.mem_cons, reduceCtorEq, false_or]

/-- A query has no answer for a field that no node ever had; otherwise it answers exactly
the ids of the nodes that are there whose value has the variant asked for and satisfies the
condition. -/
theorem run_query {ops : List Op} (h : Machine.Along Admits step ops .new) (field : String)
    (op : ComparisonOp) {value : Value} (hvalue : ∀ f, value ≠ .float f) :
    ((Machine.run step ops .new).2.index.query field op value = none ↔
      ∀ ord id props, .insertNode ord id props ∈ ops → props[field]? = none) ∧
    ∀ ids, (Machine.run step ops .new).2.index.query field op value = some ids →
      ids.Nodup ∧ ∀ id, id ∈ ids ↔ ∃ props v,
        (Machine.run step ops .new).2.current[id]? = some props ∧ props[field]? = some v ∧
          v.SameVariant value ∧ op.compareValues v value = true := by
  constructor
  · rw [PropertyIndex.query, Option.map_eq_none_iff, fields_run]
    exact and_iff_right rfl
  · intro ids hids
    obtain ⟨fi, hfi, rfl⟩ := Option.map_eq_some_iff.mp hids
    have hperm := (sound_run h).query (nodup_nodes _) hfi op value
    refine ⟨hperm.nodup_iff.mpr ((nodup_nodes _).sublist (List.filter_sublist.map _)), ?_⟩
    intro id
    rw [hperm.mem_iff, List.mem_map]
    simp only [List.mem_filter, mem_nodes, nodeKey, Option.any_map, Option.any_eq_true]
    constructor
    · rintro ⟨n, ⟨⟨-, hn⟩, v, hv, hadm⟩, rfl⟩
      exact ⟨n.properties, v, hn, hv, (FieldKey.admitted_iff op v hvalue).mp hadm⟩
    · rintro ⟨props, v, hid, hv, hadm⟩
      exact ⟨⟨id, "", props⟩, ⟨⟨rfl, hid⟩, v, hv, (FieldKey.admitted_iff op v hvalue).mpr hadm⟩, rfl⟩

/-- After an insertion, another one and the removal of the first. -/
theorem run_query_small :
    let ops : List Op := [.insertNode .sorted ⟨0⟩ (HashMap.insertAll ∅ [("x", .integer 3)]),
      .insertNode .sorted ⟨1⟩ (HashMap.insertAll ∅ [("x", .integer 5), ("y", .null)]),
      .removeNode .sorted ⟨0⟩ (HashMap.insertAll ∅ [("x", .integer 3)])]
    ((Machine.run step ops .new).2.index.query "x" .gt (.integer 4) = none ↔
      ∀ ord id props, .insertNode ord id props ∈ ops → props["x"]? = none) ∧
    ∀ ids, (Machine.run step ops .new).2.index.query "x" .gt (.integer 4) = some ids →
      ids.Nodup ∧ ∀ id, id ∈ ids ↔ ∃ props v,
        (Machine.run step ops .new).2.current[id]? = some props ∧ props["x"]? = some v ∧
          v.SameVariant (.integer 4) ∧ ComparisonOp.gt.compareValues v (.integer 4) = true :=
  run_query (by decide +kernel) "x" .gt (fun f h => by cases h)

end Told
end PropertyIndex

end AdGraphDb
