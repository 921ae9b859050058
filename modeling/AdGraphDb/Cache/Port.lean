import AdGraphDb.Core.Graph

/-!
# The cache port

A cache may forget at any time, but what it answers is what was put last under the id.
-/

namespace AdGraphDb

/-- The methods of a cache adapter. A lookup may change the cache; an insertion may have
to choose an entry to evict. -/
class CachePort (C : Type) where
  getNode : NodeId → C → Option Node × C
  putNode : HashOrder → Node → C → C
  invalidateNode : NodeId → C → C
  getEdge : EdgeId → C → Option Edge × C
  putEdge : HashOrder → Edge → C → C
  invalidateEdge : EdgeId → C → C
  clear : C → C

/-- A cache is a partial map of nodes and one of edges that insertions can only shrink
elsewhere. -/
class LawfulCachePort (C : Type) extends CachePort C where
  nodeAt : C → NodeId → Option Node
  edgeAt : C → EdgeId → Option Edge
  getNode_fst : ∀ id c, (getNode id c).1 = nodeAt c id
  nodeAt_getNode : ∀ id c, nodeAt (getNode id c).2 = nodeAt c
  edgeAt_getNode : ∀ id c, edgeAt (getNode id c).2 = edgeAt c
  getEdge_fst : ∀ id c, (getEdge id c).1 = edgeAt c id
  nodeAt_getEdge : ∀ id c, nodeAt (getEdge id c).2 = nodeAt c
  edgeAt_getEdge : ∀ id c, edgeAt (getEdge id c).2 = edgeAt c
  nodeAt_putNode : ∀ ord n c id m, nodeAt (putNode ord n c) id = some m →
    if id = n.id then m = n else nodeAt c id = some m
  edgeAt_putNode : ∀ ord n c, edgeAt (putNode ord n c) = edgeAt c
  nodeAt_putEdge : ∀ ord e c, nodeAt (putEdge ord e c) = nodeAt c
  edgeAt_putEdge : ∀ ord e c id m, edgeAt (putEdge ord e c) id = some m →
    if id = e.id then m = e else edgeAt c id = some m
  nodeAt_invalidateNode : ∀ id c j,
    nodeAt (invalidateNode id c) j = if j = id then none else nodeAt c j
  edgeAt_invalidateNode : ∀ id c, edgeAt (invalidateNode id c) = edgeAt c
  nodeAt_invalidateEdge : ∀ id c, nodeAt (invalidateEdge id c) = nodeAt c
  edgeAt_invalidateEdge : ∀ id c j,
    edgeAt (invalidateEdge id c) j = if j = id then none else edgeAt c j
  nodeAt_clear : ∀ c id, nodeAt (clear c) id = none
  edgeAt_clear : ∀ c id, edgeAt (clear c) id = none

/-- Nothing is cached. -/
structure LawfulCachePort.Empty {C : Type} [LawfulCachePort C] (c : C) : Prop where
  node : ∀ id, nodeAt c id = none
  edge : ∀ id, edgeAt c id = none

/-! ## The pass-through cache -/

inductive NoCache where
  | mk
deriving DecidableEq

instance : CachePort NoCache where
  getNode _ c := (none, c)
  putNode _ _ c := c
  invalidateNode _ c := c
  getEdge _ c := (none, c)
  putEdge _ _ c := c
  invalidateEdge _ c := c
  clear c := c

instance : LawfulCachePort NoCache where
  nodeAt _ _ := none
  edgeAt _ _ := none
  getNode_fst _ _ := rfl
  nodeAt_getNode _ _ := rfl
  edgeAt_getNode _ _ := rfl
  getEdge_fst _ _ := rfl
  nodeAt_getEdge _ _ := rfl
  edgeAt_getEdge _ _ := rfl
  nodeAt_putNode _ _ _ _ _ := nofun
  edgeAt_putNode _ _ _ := rfl
  nodeAt_putEdge _ _ _ := rfl
  edgeAt_putEdge _ _ _ _ _ := nofun
  nodeAt_invalidateNode _ _ _ := (ite_self _).symm
  edgeAt_invalidateNode _ _ := rfl
  nodeAt_invalidateEdge _ _ := rfl
  edgeAt_invalidateEdge _ _ _ := (ite_self _).symm
  nodeAt_clear _ _ := rfl
  edgeAt_clear _ _ := rfl

/-! ## Either of two caches -/

section

variable {C D : Type}

/-- A cache behind a `Box<dyn CachePort>`. -/
instance [CachePort C] [CachePort D] : CachePort (C ⊕ D) where
  getNode id
    | .inl c => ((CachePort.getNode id c).1, .inl (CachePort.getNode id c).2)
    | .inr d => ((CachePort.getNode id d).1, .inr (CachePort.getNode id d).2)
  putNode ord n := Sum.map (CachePort.putNode ord n) (CachePort.putNode ord n)
  invalidateNode id := Sum.map (CachePort.invalidateNode id) (CachePort.invalidateNode id)
  getEdge id
    | .inl c => ((CachePort.getEdge id c).1, .inl (CachePort.getEdge id c).2)
    | .inr d => ((CachePort.getEdge id d).1, .inr (CachePort.getEdge id d).2)
  putEdge ord e := Sum.map (CachePort.putEdge ord e) (CachePort.putEdge ord e)
  invalidateEdge id := Sum.map (CachePort.invalidateEdge id) (CachePort.invalidateEdge id)
  clear := Sum.map CachePort.clear CachePort.clear

open LawfulCachePort in
instance [LawfulCachePort C] [LawfulCachePort D] : LawfulCachePort (C ⊕ D) where
  nodeAt := Sum.elim nodeAt nodeAt
  edgeAt := Sum.elim edgeAt edgeAt
  getNode_fst id c := by cases c <;> exact getNode_fst id _
  nodeAt_getNode id c := by cases c <;> exact nodeAt_getNode id _
  edgeAt_getNode id c := by cases c <;> exact edgeAt_getNode id _
  getEdge_fst id c := by cases c <;> exact getEdge_fst id _
  nodeAt_getEdge id c := by cases c <;> exact nodeAt_getEdge id _
  edgeAt_getEdge id c := by cases c <;> exact edgeAt_getEdge id _
  nodeAt_putNode ord n c := by cases c <;> exact nodeAt_putNode ord n _
  edgeAt_putNode ord n c := by cases c <;> exact edgeAt_putNode ord n _
  nodeAt_putEdge ord e c := by cases c <;> exact nodeAt_putEdge ord e _
  edgeAt_putEdge ord e c := by cases c <;> exact edgeAt_putEdge ord e _
  nodeAt_invalidateNode id c := by cases c <;> exact nodeAt_invalidateNode id _
  edgeAt_invalidateNode id c := by cases c <;> exact edgeAt_invalidateNode id _
  nodeAt_invalidateEdge id c := by cases c <;> exact nodeAt_invalidateEdge id _
  edgeAt_invalidateEdge id c := by cases c <;> exact edgeAt_invalidateEdge id _
  nodeAt_clear c := by cases c <;> exact nodeAt_clear _
  edgeAt_clear c := by cases c <;> exact edgeAt_clear _

end

end AdGraphDb
