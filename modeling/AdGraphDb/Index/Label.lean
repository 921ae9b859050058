import AdGraphDb.Core.PlainGraph
import AdGraphDb.Foundation.Secondary

/-!
# The label index
-/

namespace AdGraphDb
open Std

/-! ## Buckets of ids -/

namespace HashMap

variable {K : Type} [Ord K] [TransOrd K]

instance decidableEqBuckets [LawfulEqOrd K] : DecidableEq (HashMap K (List NodeId)) :=
  inferInstance

/-- `bucket_insert`. -/
def bucketInsert (m : HashMap K (List NodeId)) (key : K) (id : NodeId) : HashMap K (List NodeId) :=
  m.entryOrDefault key [] fun ids => ids ++ [id]

/-- `bucket_remove`. A bucket that becomes empty is removed. -/
def bucketRemove (m : HashMap K (List NodeId)) (key : K) (id : NodeId) : HashMap K (List NodeId) :=
  match m[key]? with
  | some ids =>
    if (ids.filter fun n => n ≠ id).isEmpty then m.erase key
    else m.insert key (ids.filter fun n => n ≠ id)
  | none => m

/-- The ids under a key. -/
def bucket (m : HashMap K (List NodeId)) (key : K) : List NodeId := m[key]?.getD []

variable [LawfulEqOrd K] [DecidableEq K]

theorem bucket_insert (m : HashMap K (List NodeId)) (key k : K) (id : NodeId) :
    bucket (bucketInsert m key id) k = if key = k then bucket m k ++ [id] else bucket m k := by
  rw [bucket, bucketInsert, getElem?_entryOrDefault]
  split_ifs with hk
  · rw [hk]
    rfl
  · rfl

theorem bucket_remove (m : HashMap K (List NodeId)) (key k : K) (id : NodeId) :
    bucket (bucketRemove m key id) k =
      if key = k then (bucket m k).filter (fun n => n ≠ id) else bucket m k := by
  unfold bucket bucketRemove
  split
  · rename_i ids hm
    by_cases hk : key = k
    · subst hk
      rw [if_pos rfl, hm, Option.getD_some]
      split_ifs with he
      · rw [getElem?_erase', if_pos rfl, Option.getD_none, List.isEmpty_iff.mp he]
      · rw [getElem?_insert', if_pos rfl, Option.getD_some]
    · rw [if_neg hk]
      split_ifs
      · rw [getElem?_erase', if_neg hk]
      · rw [getElem?_insert', if_neg hk]
  · rename_i hm
    split_ifs with hk
    · subst hk
      rw [hm]
      rfl
    · rfl

end HashMap

structure LabelIndex where
  index : HashMap String (List NodeId)
deriving DecidableEq

namespace LabelIndex

def new : LabelIndex := ⟨∅⟩

def insert (id : NodeId) (label : String) (i : LabelIndex) : LabelIndex :=
  ⟨i.index.bucketInsert label id⟩

def remove (id : NodeId) (label : String) (i : LabelIndex) : LabelIndex :=
  ⟨i.index.bucketRemove label id⟩

def get (label : String) (i : LabelIndex) : List NodeId := i.index.bucket label

def labelCount (label : String) (i : LabelIndex) : Nat := (i.index[label]?.map List.length).getD 0

def allLabels (ord : HashOrder) (i : LabelIndex) : List String := i.index.keysIter ord

theorem labelCount_eq (label : String) (i : LabelIndex) :
    i.labelCount label = (i.get label).length := by
  unfold labelCount get HashMap.bucket
  cases i.index[label]? <;> rfl

/-- Every node of the graph is listed under its label, and nothing else. -/
def Represents (i : LabelIndex) (g : PlainGraph) : Prop :=
  Grouped (fun n : Node => some n.label) Node.id (fun label => i.get label) g.nodes.vals

namespace Represents

variable {i : LabelIndex} {g : PlainGraph}

theorem new : Represents .new .empty := .empty fun _ => by simp [LabelIndex.new, get, HashMap.bucket]

theorem insertNode (h : i.Represents g) {n : Node} (hn : g.nodes[n.id]? = none) :
    (i.insert n.id n.label).Represents (g.insertNode n) := by
  apply ((Grouped.insert h n).perm (HashMap.vals_insert_perm hn n).symm).congr
  intro label
  simp only [Option.some.injEq]
  exact HashMap.bucket_insert i.index n.label label n.id

theorem deleteNode (h : i.Represents g) (hg : g.WellFormed) {n : Node}
    (hn : g.nodes[n.id]? = some n) : (i.remove n.id n.label).Represents (g.deleteNode n.id) := by
  have hothers : ∀ m ∈ HashMap.vals (g.nodes.erase n.id), m.id ≠ n.id := by
    intro m hm hid
    obtain ⟨k, hk⟩ := HashMap.mem_vals.mp hm
    rw [HashMap.getElem?_erase'] at hk
    split_ifs at hk with hne
    exact hne (hid.symm.trans (hg.node k m hk))
  have hrem := (Grouped.perm h (HashMap.vals_erase_perm hn)).remove (p := fun id => id ≠ n.id)
    (decide_eq_false (not_not.mpr rfl)) fun m hm => decide_eq_true (hothers m hm)
  apply hrem.congr
  intro label
  simp only [Option.some.injEq]
  exact HashMap.bucket_remove i.index n.label label n.id

end Represents

end LabelIndex

end AdGraphDb
