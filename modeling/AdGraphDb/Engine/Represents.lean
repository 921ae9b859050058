import AdGraphDb.Core.PlainGraph
import AdGraphDb.Foundation.Secondary
import AdGraphDb.Engine.AdjacencyList

/-!
# The engine represents the plain graph

Each direction of the adjacency lists mirrors the edges, up to order. The two
directions differ only in which end of an edge is near.
-/

namespace AdGraphDb
open Std

namespace PlainGraph

variable (near far : Edge → NodeId)

/-- What the edge is to its near end. -/
def neighborOf (e : Edge) : Neighbor := ⟨far e, e.id, e.weight⟩

def neighbors (id : NodeId) (g : PlainGraph) : List Neighbor :=
  (g.edges.vals.filter fun e => near e = id).map (neighborOf far)

def neighborsOutgoing : NodeId → PlainGraph → List Neighbor := neighbors Edge.source Edge.target

def neighborsIncoming : NodeId → PlainGraph → List Neighbor := neighbors Edge.target Edge.source

variable {g : PlainGraph}

variable {near far}

theorem mem_neighbors {id : NodeId} {n : Neighbor} : n ∈ neighbors near far id g ↔
    ∃ (k : EdgeId) (e : Edge), g.edges[k]? = some e ∧ near e = id ∧ neighborOf far e = n := by
  simp only [neighbors, List.mem_map, List.mem_filter, HashMap.mem_vals, decide_eq_true_eq]
  constructor
  · rintro ⟨e, ⟨⟨k, hk⟩, hn⟩, he⟩
    exact ⟨k, e, hk, hn, he⟩
  · rintro ⟨k, e, hk, hn, he⟩
    exact ⟨e, ⟨⟨k, hk⟩, hn⟩, he⟩

end PlainGraph

open PlainGraph

/-- One direction of the adjacency lists. -/
structure Mirrors (near far : Edge → NodeId) (m : Adjacency) (g : PlainGraph) : Prop where
  keys : ∀ id : NodeId, m[id]?.isSome = g.nodes[id]?.isSome
  lists : Grouped (fun e => some (near e)) (neighborOf far) (fun id : NodeId => m[id]?.getD [])
    g.edges.vals

namespace Mirrors

variable {near far : Edge → NodeId} {m : Adjacency} {g : PlainGraph}

theorem neighbors_perm (h : Mirrors near far m g) (id : NodeId) :
    (m[id]?.getD []).Perm (neighbors near far id g) := by
  have := h.lists id
  simp only [Option.some.injEq] at this
  exact this

theorem empty : Mirrors near far ∅ PlainGraph.empty :=
  ⟨fun _ => by simp [PlainGraph.empty], .empty fun _ => by simp⟩

theorem insertNode (h : Mirrors near far m g) (n : Node) :
    Mirrors near far (m.entryOrDefault n.id [] fun ns => ns) (g.insertNode n) := by
  refine ⟨fun id => ?_, h.lists.congr fun id => ?_⟩ <;> rw [HashMap.getElem?_entryOrDefault]
  · rw [PlainGraph.insertNode, HashMap.getElem?_insert']
    split_ifs
    · rfl
    · exact h.keys id
  · split_ifs with hid
    · rw [hid, Option.getD_some]
    · rfl

theorem insertEdge (h : Mirrors near far m g) {e : Edge} (he : g.edges[e.id]? = none)
    (hl : g.Live (near e)) :
    Mirrors near far (m.entryOrDefault (near e) [] fun ns => ns ++ [neighborOf far e])
      (g.insertEdge e) := by
  have hins := (h.lists.insert e).perm (HashMap.vals_insert_perm he e).symm
  refine ⟨fun id => ?_, hins.congr fun id => ?_⟩ <;> rw [HashMap.getElem?_entryOrDefault]
  · change _ = g.nodes[id]?.isSome
    split_ifs with hid
    · exact (hid ▸ hl).symm
    · exact h.keys id
  · simp only [Option.some.injEq]
    split_ifs with hid
    · rw [hid, Option.getD_some]
    · rfl

theorem deleteEdge (h : Mirrors near far m g) (hg : g.WellFormed) {k : EdgeId} {e : Edge}
    (he : g.edges[k]? = some e) : Mirrors near far (m.retain (near e) k) (g.deleteEdge k) := by
  have hothers : ∀ x ∈ HashMap.vals (g.edges.erase k), (neighborOf far x).edgeId ≠ k := by
    intro x hx hk
    obtain ⟨j, hj⟩ := HashMap.mem_vals.mp hx
    rw [HashMap.getElem?_erase'] at hj
    split_ifs at hj with hjk
    exact hjk (hk ▸ hg.edge j x hj)
  have hrem := (h.lists.perm (HashMap.vals_erase_perm he)).remove (p := fun n => n.edgeId ≠ k)
    (decide_eq_false (not_not.mpr (hg.edge k e he))) fun x hx => decide_eq_true (hothers x hx)
  refine ⟨fun id => ?_, hrem.congr fun id => ?_⟩ <;>
    rw [Adjacency.retain, HashMap.getElem?_modify']
  · change _ = g.nodes[id]?.isSome
    split_ifs with hid
    · rw [Option.isSome_map, h.keys, hid]
    · exact h.keys id
  · simp only [Option.some.injEq]
    split_ifs with hid
    · rw [hid]
      cases m[id]? <;> rfl
    · rfl

theorem eraseNode (h : Mirrors near far m g) {id : NodeId}
    (hid : ∀ (k : EdgeId) (e : Edge), g.edges[k]? = some e → near e ≠ id) :
    Mirrors near far (m.erase id) { g with nodes := g.nodes.erase id } := by
  have hnone : m[id]?.getD [] = [] := by
    apply List.eq_nil_iff_forall_not_mem.mpr
    intro n hn
    obtain ⟨e, he, hkey, -⟩ := h.lists.mem_iff.mp hn
    obtain ⟨k, hk⟩ := HashMap.mem_vals.mp he
    exact hid k e hk (Option.some.inj hkey)
  refine ⟨fun j => ?_, h.lists.congr fun j => ?_⟩ <;> rw [HashMap.getElem?_erase']
  · rw [HashMap.getElem?_erase']
    split_ifs
    · rfl
    · exact h.keys j
  · split_ifs with hj
    · rw [← hj, hnone]
      rfl
    · rfl

end Mirrors

/-- The engine holds the structure of the graph. -/
structure AdjacencyListEngine.Represents (e : AdjacencyListEngine) (g : PlainGraph) : Prop where
  outgoing : Mirrors Edge.source Edge.target e.outgoing g
  incoming : Mirrors Edge.target Edge.source e.incoming g
  endpoints : ∀ id : EdgeId,
    e.edgeEndpoints[id]? = g.edges[id]?.map fun x => (x.source, x.target)

namespace AdjacencyListEngine.Represents

variable {e : AdjacencyListEngine} {g : PlainGraph}

theorem new : Represents .new .empty := ⟨.empty, .empty, fun _ => by simp [AdjacencyListEngine.new, PlainGraph.empty]⟩

theorem insertNode (h : e.Represents g) (n : Node) :
    (e.insertNode n.id).Represents (g.insertNode n) :=
  ⟨h.outgoing.insertNode n, h.incoming.insertNode n, h.endpoints⟩

theorem insertEdge (h : e.Represents g) {x : Edge} (hx : g.edges[x.id]? = none)
    (hs : g.Live x.source) (ht : g.Live x.target) :
    (e.insertEdge x.id x.source x.target x.weight).Represents (g.insertEdge x) := by
  refine ⟨h.outgoing.insertEdge hx hs, h.incoming.insertEdge hx ht, fun id => ?_⟩
  rw [AdjacencyListEngine.insertEdge, PlainGraph.insertEdge, HashMap.getElem?_insert',
    HashMap.getElem?_insert']
  split_ifs
  · rfl
  · exact h.endpoints id

theorem removeEdge (h : e.Represents g) (hg : g.WellFormed) (k : EdgeId) :
    (e.removeEdge k).Represents (g.deleteEdge k) := by
  have hend := h.endpoints k
  unfold AdjacencyListEngine.removeEdge
  cases hk : g.edges[k]? with
  | none =>
    rw [hk, Option.map_none] at hend
    have hd : g.deleteEdge k = g := congrArg (PlainGraph.mk g.nodes) (HashMap.erase_eq_self hk)
    rw [hend, hd]
    exact h
  | some x =>
    rw [hk, Option.map_some] at hend
    rw [hend]
    refine ⟨h.outgoing.deleteEdge hg hk, h.incoming.deleteEdge hg hk, fun id => ?_⟩
    rw [PlainGraph.deleteEdge, HashMap.getElem?_erase', HashMap.getElem?_erase']
    split_ifs
    · rfl
    · exact h.endpoints id

theorem removeEdges (h : e.Represents g) (hg : g.WellFormed) (ids : List EdgeId) :
    (ids.foldl (fun e k => e.removeEdge k) e).Represents ⟨g.nodes, g.edges.eraseAll ids⟩ := by
  induction ids generalizing e g with
  | nil => exact h
  | cons k ids ih => exact ih (h.removeEdge hg k) (hg.deleteEdge k)

theorem mem_edgeIdsToRemove (h : e.Represents g) {ord : HashOrder} {id : NodeId} {k : EdgeId}
    {x : Edge} (hk : g.edges[k]? = some x) :
    k ∈ e.edgeIdsToRemove ord id ↔ x.source = id ∨ x.target = id := by
  have hend := h.endpoints k
  rw [hk, Option.map_some] at hend
  simp only [edgeIdsToRemove, List.mem_map, List.mem_filter, HashMap.iter, HashOrder.mem_order,
    HashMap.mem_toList, decide_eq_true_eq]
  constructor
  · rintro ⟨⟨j, p⟩, ⟨hp, hi⟩, rfl⟩
    obtain rfl := Option.some.inj (hend.symm.trans hp)
    exact hi
  · intro hi
    exact ⟨(k, x.source, x.target), ⟨hend, hi⟩, rfl⟩

theorem removeNode (h : e.Represents g) (hg : g.WellFormed) (ord : HashOrder) (id : NodeId) :
    (e.removeNode ord id).Represents (g.deleteNode id) := by
  have hids : ∀ (k : EdgeId) (x : Edge), g.edges[k]? = some x →
      (k ∈ e.edgeIdsToRemove ord id ↔ x.source = id ∨ x.target = id) :=
    fun k x hk => h.mem_edgeIdsToRemove hk
  have he := deleteNode_edges_eq hids
  have hr := h.removeEdges hg (e.edgeIdsToRemove ord id)
  rw [← he] at hr
  have hnone : ∀ (k : EdgeId) (x : Edge), (g.deleteNode id).edges[k]? = some x →
      x.source ≠ id ∧ x.target ≠ id := by
    intro k x hx
    rw [deleteNode_edges, Option.filter_eq_some_iff] at hx
    exact of_decide_eq_true hx.2
  exact ⟨hr.outgoing.eraseNode fun k x hx => (hnone k x hx).1,
    hr.incoming.eraseNode fun k x hx => (hnone k x hx).2, hr.endpoints⟩

/-! ## What the engine answers -/

theorem containsNode (h : e.Represents g) (id : NodeId) : e.containsNode id ↔ g.Live id := by
  rw [AdjacencyListEngine.containsNode, h.outgoing.keys, Live]

theorem neighborsOutgoing (h : e.Represents g) (id : NodeId) :
    (e.neighborsOutgoing id).Perm (g.neighborsOutgoing id) := h.outgoing.neighbors_perm id

theorem neighborsIncoming (h : e.Represents g) (id : NodeId) :
    (e.neighborsIncoming id).Perm (g.neighborsIncoming id) := h.incoming.neighbors_perm id

theorem endpoints_isSome (h : e.Represents g) (id : EdgeId) :
    e.edgeEndpoints[id]?.isSome = g.edges[id]?.isSome := by
  rw [h.endpoints, Option.isSome_map]

theorem allNodeIds (h : e.Represents g) (ord : HashOrder) :
    (e.allNodeIds ord).Perm (g.nodes.toList.map Prod.fst) :=
  (HashMap.keysIter_perm ord e.outgoing).trans (HashMap.keys_perm h.outgoing.keys)

theorem allEdgeIds (h : e.Represents g) (ord : HashOrder) :
    (e.allEdgeIds ord).Perm (g.edges.toList.map Prod.fst) :=
  (HashMap.keysIter_perm ord e.edgeEndpoints).trans (HashMap.keys_perm h.endpoints_isSome)

theorem nodeCount (h : e.Represents g) : e.nodeCount = g.nodes.size :=
  HashMap.size_eq h.outgoing.keys

theorem edgeCount (h : e.Represents g) : e.edgeCount = g.edges.size :=
  HashMap.size_eq h.endpoints_isSome

/-- The edges that meet a node, those it sees in either direction. -/
theorem mem_incident (h : e.Represents g) (hg : g.WellFormed) {id : NodeId} {k : EdgeId} {x : Edge}
    (hk : g.edges[k]? = some x) :
    k ∈ (e.neighborsOutgoing id).map Neighbor.edgeId ++
      (e.neighborsIncoming id).map Neighbor.edgeId ↔ x.source = id ∨ x.target = id := by
  have side (near far : Edge → NodeId) :
      (∃ n ∈ neighbors near far id g, n.edgeId = k) ↔ near x = id := by
    constructor
    · rintro ⟨n, hn, hid⟩
      obtain ⟨j, y, hy, hnear, rfl⟩ := mem_neighbors.mp hn
      obtain rfl : j = k := (hg.edge j y hy).symm.trans hid
      rw [hk] at hy
      rwa [Option.some.inj hy]
    · intro hn
      exact ⟨_, mem_neighbors.mpr ⟨k, x, hk, hn, rfl⟩, hg.edge k x hk⟩
  simp only [List.mem_append, List.mem_map, (h.neighborsOutgoing id).mem_iff,
    (h.neighborsIncoming id).mem_iff]
  exact or_congr (side Edge.source Edge.target) (side Edge.target Edge.source)

end AdjacencyListEngine.Represents

end AdGraphDb
