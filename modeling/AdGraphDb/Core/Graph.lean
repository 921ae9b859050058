import AdGraphDb.Foundation.HashMap
import AdGraphDb.Foundation.Float64

/-!
# Nodes, edges and their properties
-/

namespace AdGraphDb
open Std

/-- The property value type stored on nodes and edges. -/
inductive Value where
  | null
  | boolean (b : Bool)
  | integer (i : Int64)
  | float (f : F64)
  | text (s : String)
deriving DecidableEq

/-- The derived `PartialEq`, which compares floats as `f64` does. -/
def Value.eq : Value → Value → Bool
  | .null, .null => true
  | .boolean a, .boolean b => a == b
  | .integer a, .integer b => a == b
  | .float a, .float b => F64.eq a b
  | .text a, .text b => a == b
  | _, _ => false

structure NodeId where
  val : UInt64
deriving DecidableEq

structure EdgeId where
  val : UInt64
deriving DecidableEq

instance : Ord NodeId := ⟨fun a b => compare a.val b.val⟩
instance : Ord EdgeId := ⟨fun a b => compare a.val b.val⟩

instance : TransOrd NodeId where
  eq_swap {a b} := OrientedOrd.eq_swap (α := UInt64) (a := a.val) (b := b.val)
  isLE_trans {a b c} := TransOrd.isLE_trans (α := UInt64) (a := a.val) (b := b.val) (c := c.val)

instance : TransOrd EdgeId where
  eq_swap {a b} := OrientedOrd.eq_swap (α := UInt64) (a := a.val) (b := b.val)
  isLE_trans {a b c} := TransOrd.isLE_trans (α := UInt64) (a := a.val) (b := b.val) (c := c.val)

instance : LawfulEqOrd NodeId where
  eq_of_compare {a b} h := congrArg NodeId.mk (LawfulEqOrd.eq_of_compare (a := a.val) (b := b.val) h)

instance : LawfulEqOrd EdgeId where
  eq_of_compare {a b} h := congrArg EdgeId.mk (LawfulEqOrd.eq_of_compare (a := a.val) (b := b.val) h)

abbrev Properties := HashMap String Value

structure Node where
  id : NodeId
  label : String
  properties : Properties
deriving DecidableEq

structure Edge where
  id : EdgeId
  source : NodeId
  target : NodeId
  label : String
  weight : F64
  properties : Properties
deriving DecidableEq

inductive GraphError where
  | nodeNotFound (id : NodeId)
  | edgeNotFound (id : EdgeId)
  | duplicateNode (id : NodeId)
  | duplicateEdge (id : EdgeId)
  | storageIo (msg : String)
  | serializationError (msg : String)
  | deserializationError (msg : String)
deriving DecidableEq

/-! ## Identifiers -/

/-- Monotonically increasing identifier source. -/
structure IdGenerator where
  nextNode : UInt64
  nextEdge : UInt64
deriving DecidableEq

namespace IdGenerator

def new : IdGenerator := ⟨0, 0⟩

def nextNodeId (g : IdGenerator) : NodeId × IdGenerator :=
  (⟨g.nextNode⟩, { g with nextNode := g.nextNode + 1 })

def nextEdgeId (g : IdGenerator) : EdgeId × IdGenerator :=
  (⟨g.nextEdge⟩, { g with nextEdge := g.nextEdge + 1 })

def seedFromNode (g : IdGenerator) (seen : NodeId) : IdGenerator :=
  if seen.val ≥ g.nextNode then { g with nextNode := seen.val + 1 } else g

def seedFromEdge (g : IdGenerator) (seen : EdgeId) : IdGenerator :=
  if seen.val ≥ g.nextEdge then { g with nextEdge := seen.val + 1 } else g

@[simp] theorem seedFromNode_nextEdge (g : IdGenerator) (n : NodeId) :
    (g.seedFromNode n).nextEdge = g.nextEdge := by
  unfold seedFromNode
  split_ifs <;> rfl

@[simp] theorem seedFromEdge_nextNode (g : IdGenerator) (e : EdgeId) :
    (g.seedFromEdge e).nextNode = g.nextNode := by
  unfold seedFromEdge
  split_ifs <;> rfl

/-- Below the largest identifier, seeding is taking the maximum. -/
theorem seedFromNode_nextNode (g : IdGenerator) (n : NodeId) (h : n.val.toNat + 1 < 2 ^ 64) :
    (g.seedFromNode n).nextNode.toNat = max g.nextNode.toNat (n.val.toNat + 1) := by
  unfold seedFromNode
  split_ifs with hn
  · rw [ge_iff_le, UInt64.le_iff_toNat_le] at hn
    rw [UInt64.toNat_add, UInt64.toNat_one, Nat.mod_eq_of_lt h]
    omega
  · rw [ge_iff_le, UInt64.le_iff_toNat_le] at hn
    omega

theorem seedFromEdge_nextEdge (g : IdGenerator) (e : EdgeId) (h : e.val.toNat + 1 < 2 ^ 64) :
    (g.seedFromEdge e).nextEdge.toNat = max g.nextEdge.toNat (e.val.toNat + 1) := by
  unfold seedFromEdge
  split_ifs with hn
  · rw [ge_iff_le, UInt64.le_iff_toNat_le] at hn
    rw [UInt64.toNat_add, UInt64.toNat_one, Nat.mod_eq_of_lt h]
    omega
  · rw [ge_iff_le, UInt64.le_iff_toNat_le] at hn
    omega

end IdGenerator

end AdGraphDb
