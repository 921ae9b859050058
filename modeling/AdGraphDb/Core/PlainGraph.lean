import AdGraphDb.Core.Graph

/-!
# The plain graph

What the database stands for: one map of nodes and one map of edges.
-/

namespace AdGraphDb
open Std

structure PlainGraph where
  nodes : HashMap NodeId Node
  edges : HashMap EdgeId Edge
deriving DecidableEq

namespace PlainGraph

def empty : PlainGraph := ⟨∅, ∅⟩

def insertNode (n : Node) (g : PlainGraph) : PlainGraph := { g with nodes := g.nodes.insert n.id n }

def insertEdge (e : Edge) (g : PlainGraph) : PlainGraph := { g with edges := g.edges.insert e.id e }

def deleteEdge (id : EdgeId) (g : PlainGraph) : PlainGraph := { g with edges := g.edges.erase id }

/-- Removes the node and every incident edge. -/
def deleteNode (id : NodeId) (g : PlainGraph) : PlainGraph :=
  ⟨g.nodes.erase id, g.edges.filter fun _ e => e.source ≠ id ∧ e.target ≠ id⟩

/-- Whether the node is in the graph. -/
def Live (g : PlainGraph) (id : NodeId) : Prop := g.nodes[id]?.isSome

/-- Nodes and edges are stored under their own ids, and no edge dangles. -/
structure WellFormed (g : PlainGraph) : Prop where
  node : ∀ (id : NodeId) (n : Node), g.nodes[id]? = some n → n.id = id
  edge : ∀ (id : EdgeId) (e : Edge), g.edges[id]? = some e → e.id = id
  source : ∀ (id : EdgeId) (e : Edge), g.edges[id]? = some e → g.Live e.source
  target : ∀ (id : EdgeId) (e : Edge), g.edges[id]? = some e → g.Live e.target

variable {g : PlainGraph}

theorem deleteNode_edges (id : NodeId) (k : EdgeId) :
    (g.deleteNode id).edges[k]? =
      g.edges[k]?.filter fun e => e.source ≠ id ∧ e.target ≠ id := by
  rw [deleteNode, HashMap.getElem?_filter]

/-- The edges that a list of ids covers exactly can be deleted one by one. -/
theorem deleteNode_edges_eq {id : NodeId} {ids : List EdgeId}
    (h : ∀ (k : EdgeId) (e : Edge), g.edges[k]? = some e →
      (k ∈ ids ↔ e.source = id ∨ e.target = id)) :
    (g.deleteNode id).edges = g.edges.eraseAll ids := by
  refine HashMap.ext fun k => ?_
  rw [deleteNode_edges, HashMap.getElem?_eraseAll]
  cases hk : g.edges[k]? with
  | none => simp
  | some e =>
    by_cases hm : k ∈ ids
    · rw [if_pos hm, Option.filter_eq_none_iff]
      have := (h k e hk).mp hm
      simp only [Option.some.injEq, decide_eq_true_eq]
      rintro a rfl ⟨hs, ht⟩
      exact this.elim hs ht
    · rw [if_neg hm, Option.filter_eq_some_iff]
      have := mt (h k e hk).mpr hm
      exact ⟨rfl, decide_eq_true (not_or.mp this)⟩

namespace WellFormed

theorem empty : WellFormed empty := by
  constructor <;> intro id x h <;> simp [PlainGraph.empty] at h

theorem insertNode (h : WellFormed g) (n : Node) : WellFormed (g.insertNode n) := by
  have live (id : NodeId) (hl : g.Live id) : (g.insertNode n).Live id := by
    unfold Live PlainGraph.insertNode
    rw [HashMap.getElem?_insert']
    split_ifs
    · rfl
    · exact hl
  refine ⟨fun id m hm => ?_, h.edge, fun id e he => live _ (h.source id e he),
    fun id e he => live _ (h.target id e he)⟩
  rw [PlainGraph.insertNode, HashMap.getElem?_insert'] at hm
  split_ifs at hm with hid
  · rw [← Option.some.inj hm, hid]
  · exact h.node id m hm

theorem insertEdge (h : WellFormed g) {e : Edge} (hs : g.Live e.source) (ht : g.Live e.target) :
    WellFormed (g.insertEdge e) := by
  have cases_of (id : EdgeId) (x : Edge) (hx : (g.insertEdge e).edges[id]? = some x) :
      (e.id = id ∧ e = x) ∨ g.edges[id]? = some x := by
    rw [PlainGraph.insertEdge, HashMap.getElem?_insert'] at hx
    split_ifs at hx with hid
    · exact .inl ⟨hid, Option.some.inj hx⟩
    · exact .inr hx
  refine ⟨h.node, fun id x hx => ?_, fun id x hx => ?_, fun id x hx => ?_⟩ <;>
    rcases cases_of id x hx with ⟨rfl, rfl⟩ | hx
  · rfl
  · exact h.edge id x hx
  · exact hs
  · exact h.source id x hx
  · exact ht
  · exact h.target id x hx

theorem deleteEdge (h : WellFormed g) (id : EdgeId) : WellFormed (g.deleteEdge id) := by
  have of_erase (k : EdgeId) (x : Edge) (hx : (g.deleteEdge id).edges[k]? = some x) :
      g.edges[k]? = some x := by
    rw [PlainGraph.deleteEdge, HashMap.getElem?_erase'] at hx
    split_ifs at hx
    exact hx
  exact ⟨h.node, fun k x hx => h.edge k x (of_erase k x hx),
    fun k x hx => h.source k x (of_erase k x hx), fun k x hx => h.target k x (of_erase k x hx)⟩

theorem deleteNode (h : WellFormed g) (id : NodeId) : WellFormed (g.deleteNode id) := by
  have of_filter (k : EdgeId) (x : Edge) (hx : (g.deleteNode id).edges[k]? = some x) :
      g.edges[k]? = some x ∧ x.source ≠ id ∧ x.target ≠ id := by
    rw [deleteNode_edges, Option.filter_eq_some_iff] at hx
    exact ⟨hx.1, of_decide_eq_true hx.2⟩
  have live (j : NodeId) (hj : j ≠ id) (hl : g.Live j) : (g.deleteNode id).Live j := by
    unfold Live PlainGraph.deleteNode
    rw [HashMap.getElem?_erase', if_neg hj.symm]
    exact hl
  refine ⟨fun j n hn => ?_, fun k x hx => h.edge k x (of_filter k x hx).1, fun k x hx => ?_,
    fun k x hx => ?_⟩
  · rw [PlainGraph.deleteNode, HashMap.getElem?_erase'] at hn
    split_ifs at hn
    exact h.node j n hn
  · obtain ⟨hk, hs, -⟩ := of_filter k x hx
    exact live _ hs (h.source k x hk)
  · obtain ⟨hk, -, ht⟩ := of_filter k x hx
    exact live _ ht (h.target k x hk)

end WellFormed

end PlainGraph

end AdGraphDb
