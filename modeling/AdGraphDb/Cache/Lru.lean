import AdGraphDb.Cache.Port

/-!
# The least-recently-used cache

Every access stamps its entry with the next generation; a full store evicts the entry
with the lowest stamp. Which entry that is does not matter for what the cache answers.
-/

namespace AdGraphDb
open Std

structure LruEntry (V : Type) where
  value : V
  lastAccessGeneration : UInt64
deriving DecidableEq

/-- The store of one kind of entry. -/
abbrev LruStore (K V : Type) [Ord K] := HashMap K (LruEntry V)

namespace LruStore

variable {K V : Type} [Ord K] [TransOrd K]

/-- Removes the entry with the smallest generation; an empty store has none. -/
def evictOldest (ord : HashOrder) (m : LruStore K V) : LruStore K V :=
  match HashMap.minByKey (fun p => p.2.lastAccessGeneration) (m.iter ord) with
  | some p => m.erase p.1
  | none => m

def get (generation : UInt64) (k : K) (m : LruStore K V) : Option V × LruStore K V :=
  match m[k]? with
  | some entry => (some entry.value, m.insert k ⟨entry.value, generation⟩)
  | none => (none, m)

def put (ord : HashOrder) (capacity : Nat) (generation : UInt64) (k : K) (v : V)
    (m : LruStore K V) : LruStore K V :=
  match m[k]? with
  | some _ => m.insert k ⟨v, generation⟩
  | none =>
    (if m.size ≥ capacity then evictOldest ord m else m).insert k ⟨v, generation⟩

/-- What the store answers. -/
def valueAt (m : LruStore K V) (k : K) : Option V := m[k]?.map LruEntry.value

variable [LawfulEqOrd K] [DecidableEq K]

omit [LawfulEqOrd K] [DecidableEq K] in
theorem get_fst (generation : UInt64) (k : K) (m : LruStore K V) :
    (get generation k m).1 = valueAt m k := by
  unfold get valueAt
  cases m[k]? <;> rfl

theorem valueAt_get (generation : UInt64) (k : K) (m : LruStore K V) :
    valueAt (get generation k m).2 = valueAt m := by
  funext j
  unfold get valueAt
  cases hm : m[k]? with
  | none => rfl
  | some entry =>
    rw [HashMap.getElem?_insert']
    split_ifs with hj
    · rw [← hj, hm]
      rfl
    · rfl

theorem getElem?_evictOldest {ord : HashOrder} {m : LruStore K V} {k : K} {entry : LruEntry V}
    (h : (evictOldest ord m)[k]? = some entry) : m[k]? = some entry := by
  unfold evictOldest at h
  split at h
  · rw [HashMap.getElem?_erase'] at h
    split_ifs at h
    exact h
  · exact h

theorem valueAt_put {ord : HashOrder} {capacity : Nat} {generation : UInt64} {k j : K} {v w : V}
    {m : LruStore K V} (h : valueAt (put ord capacity generation k v m) j = some w) :
    if j = k then w = v else valueAt m j = some w := by
  unfold valueAt put at h
  split_ifs with hj
  · subst hj
    split at h <;> rw [HashMap.getElem?_insert', if_pos rfl] at h <;> exact (Option.some.inj h).symm
  · split at h <;> rw [HashMap.getElem?_insert', if_neg (Ne.symm hj)] at h
    · exact h
    · split_ifs at h
      · obtain ⟨entry, he, rfl⟩ := Option.map_eq_some_iff.mp h
        rw [valueAt, getElem?_evictOldest he, Option.map_some]
      · exact h

theorem valueAt_erase (m : LruStore K V) (k j : K) :
    valueAt (m.erase k) j = if j = k then none else valueAt m j := by
  unfold valueAt
  rw [HashMap.getElem?_erase']
  by_cases hj : k = j
  · rw [if_pos hj, if_pos hj.symm, Option.map_none]
  · rw [if_neg hj, if_neg (Ne.symm hj)]

end LruStore

/-- Nodes and edges have stores and capacities of their own. -/
structure LruCache where
  nodeCapacity : Nat
  edgeCapacity : Nat
  nodes : LruStore NodeId Node
  edges : LruStore EdgeId Edge
  generation : UInt64
  nodeCapacity_pos : 0 < nodeCapacity
  edgeCapacity_pos : 0 < edgeCapacity

namespace LruCache

/-- `new` asserts that the capacities are positive. -/
def new (nodeCapacity edgeCapacity : Nat) (hn : 0 < nodeCapacity) (he : 0 < edgeCapacity) :
    LruCache := ⟨nodeCapacity, edgeCapacity, ∅, ∅, 0, hn, he⟩

def nextGeneration (c : LruCache) : LruCache := { c with generation := c.generation + 1 }

def getNode (id : NodeId) (c : LruCache) : Option Node × LruCache :=
  let c := c.nextGeneration
  let found := c.nodes.get c.generation id
  (found.1, { c with nodes := found.2 })

def putNode (ord : HashOrder) (node : Node) (c : LruCache) : LruCache :=
  let c := c.nextGeneration
  { c with nodes := c.nodes.put ord c.nodeCapacity c.generation node.id node }

def invalidateNode (id : NodeId) (c : LruCache) : LruCache := { c with nodes := c.nodes.erase id }

def getEdge (id : EdgeId) (c : LruCache) : Option Edge × LruCache :=
  let c := c.nextGeneration
  let found := c.edges.get c.generation id
  (found.1, { c with edges := found.2 })

def putEdge (ord : HashOrder) (edge : Edge) (c : LruCache) : LruCache :=
  let c := c.nextGeneration
  { c with edges := c.edges.put ord c.edgeCapacity c.generation edge.id edge }

def invalidateEdge (id : EdgeId) (c : LruCache) : LruCache := { c with edges := c.edges.erase id }

def clear (c : LruCache) : LruCache := { c with nodes := ∅, edges := ∅ }

instance : CachePort LruCache where
  getNode := getNode
  putNode := putNode
  invalidateNode := invalidateNode
  getEdge := getEdge
  putEdge := putEdge
  invalidateEdge := invalidateEdge
  clear := clear

instance : LawfulCachePort LruCache where
  nodeAt c := c.nodes.valueAt
  edgeAt c := c.edges.valueAt
  getNode_fst id c := LruStore.get_fst _ id c.nodes
  nodeAt_getNode id c := LruStore.valueAt_get _ id c.nodes
  edgeAt_getNode _ _ := rfl
  getEdge_fst id c := LruStore.get_fst _ id c.edges
  nodeAt_getEdge _ _ := rfl
  edgeAt_getEdge id c := LruStore.valueAt_get _ id c.edges
  nodeAt_putNode _ _ _ _ _ := LruStore.valueAt_put
  edgeAt_putNode _ _ _ := rfl
  nodeAt_putEdge _ _ _ := rfl
  edgeAt_putEdge _ _ _ _ _ := LruStore.valueAt_put
  nodeAt_invalidateNode id c := c.nodes.valueAt_erase id
  edgeAt_invalidateNode _ _ := rfl
  nodeAt_invalidateEdge _ _ := rfl
  edgeAt_invalidateEdge id c := c.edges.valueAt_erase id
  nodeAt_clear _ _ := by simp [CachePort.clear, clear, LruStore.valueAt]
  edgeAt_clear _ _ := by simp [CachePort.clear, clear, LruStore.valueAt]

theorem empty_new (nodeCapacity edgeCapacity : Nat) (hn : 0 < nodeCapacity)
    (he : 0 < edgeCapacity) : LawfulCachePort.Empty (new nodeCapacity edgeCapacity hn he) :=
  ⟨fun _ => by simp [LawfulCachePort.nodeAt, new, LruStore.valueAt],
    fun _ => by simp [LawfulCachePort.edgeAt, new, LruStore.valueAt]⟩

end LruCache

end AdGraphDb
