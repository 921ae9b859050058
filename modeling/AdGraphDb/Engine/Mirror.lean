import AdGraphDb.Foundation.Simulation
import AdGraphDb.Engine.Represents
import AdGraphDb.Engine.Removal

/-!
# The three maps of the engine

The two directions and the endpoints say the same of every edge, after any run of the four
mutations in which an edge is only inserted with a new id and between present nodes.
-/

namespace AdGraphDb
open Std

namespace PlainGraph

variable {near far : Edge → NodeId} {g : PlainGraph}

theorem filter_vals_of_some (hg : g.WellFormed) {k : EdgeId} {x : Edge}
    (hk : g.edges[k]? = some x) : (g.edges.vals.filter fun y => y.id = k) = [x] := by
  have hrest : (HashMap.vals (g.edges.erase k)).filter (fun y => y.id = k) = [] := by
    rw [List.filter_eq_nil_iff]
    intro y hy hid
    obtain ⟨j, hj⟩ := HashMap.mem_vals.mp hy
    rw [HashMap.getElem?_erase'] at hj
    split_ifs at hj with hkj
    exact hkj ((of_decide_eq_true hid).symm.trans (hg.edge j y hj))
  have hperm := (HashMap.vals_erase_perm hk).filter fun y => y.id = k
  have hown : decide (x.id = k) = true := decide_eq_true (hg.edge k x hk)
  rw [List.filter_cons, if_pos hown, hrest] at hperm
  exact List.perm_singleton.mp hperm

theorem filter_vals_of_none (hg : g.WellFormed) {k : EdgeId} (hk : g.edges[k]? = none) :
    (g.edges.vals.filter fun y => y.id = k) = [] := by
  rw [List.filter_eq_nil_iff]
  intro y hy hid
  obtain ⟨j, hj⟩ := HashMap.mem_vals.mp hy
  rw [← hg.edge j y hj, of_decide_eq_true hid, hk] at hj
  cases hj

/-- The entries with one edge id: one, in the list of the near end, if there is such an edge. -/
theorem filter_neighbors (hg : g.WellFormed) (id : NodeId) (k : EdgeId) :
    (neighbors near far id g).filter (fun n => n.edgeId = k) =
      ((g.edges[k]?.filter fun x => near x = id).map (neighborOf far)).toList := by
  have hswap : (neighbors near far id g).filter (fun n => n.edgeId = k) =
      ((g.edges.vals.filter fun y => y.id = k).filter fun y => near y = id).map
        (neighborOf far) := by
    rw [neighbors, List.filter_map, List.filter_filter, List.filter_filter]
    congr 2
    funext y
    exact Bool.and_comm ..
  rw [hswap]
  cases hk : g.edges[k]? with
  | none => rw [filter_vals_of_none hg hk]; rfl
  | some x =>
    rw [filter_vals_of_some hg hk]
    by_cases hn : near x = id <;> simp [hn, Option.filter]

end PlainGraph

open PlainGraph

theorem Mirrors.filter_edge {near far : Edge → NodeId} {m : Adjacency} {g : PlainGraph}
    (h : Mirrors near far m g) (hg : g.WellFormed) (id : NodeId) (k : EdgeId) :
    (m[id]?.getD []).filter (fun n => n.edgeId = k) =
      ((g.edges[k]?.filter fun x => near x = id).map (neighborOf far)).toList := by
  have hperm := (h.neighbors_perm id).filter fun n => n.edgeId = k
  rw [filter_neighbors hg] at hperm
  cases hf : (g.edges[k]?.filter fun x => near x = id).map (neighborOf far) with
  | none =>
    rw [hf] at hperm
    exact hperm.eq_nil
  | some n =>
    rw [hf] at hperm
    exact List.perm_singleton.mp hperm

/-- An edge has one entry, in the list of its near end. -/
theorem Mirrors.lists_edge {near far : Edge → NodeId} {m : Adjacency} {g : PlainGraph}
    (h : Mirrors near far m g) (hg : g.WellFormed) {k : EdgeId} {x : Edge}
    (hk : g.edges[k]? = some x) :
    (m[near x]?.getD []).filter (fun n => n.edgeId = k) = [⟨far x, k, x.weight⟩] ∧
      ∀ id, id ≠ near x → ∀ n ∈ m[id]?.getD [], n.edgeId ≠ k := by
  have hfilter (id : NodeId) := h.filter_edge hg id k
  simp only [hk, Option.filter_some, decide_eq_true_eq] at hfilter
  refine ⟨?_, fun id hne n hn hnk => ?_⟩
  · rw [hfilter, if_pos rfl, ← hg.edge k x hk]
    rfl
  · have hmem : n ∈ (m[id]?.getD []).filter fun n => n.edgeId = k :=
      List.mem_filter.mpr ⟨hn, decide_eq_true hnk⟩
    rw [hfilter, if_neg hne.symm] at hmem
    cases hmem

namespace AdjacencyListEngine

/-- The entries of an edge in the two directions: one in each, in the lists of its ends. -/
structure ListsEdge (e : AdjacencyListEngine) (k : EdgeId) (s t : NodeId) (w : F64) : Prop where
  outgoing : (e.neighborsOutgoing s).filter (fun n => n.edgeId = k) = [⟨t, k, w⟩]
  incoming : (e.neighborsIncoming t).filter (fun n => n.edgeId = k) = [⟨s, k, w⟩]
  outgoingElse : ∀ id, id ≠ s → ∀ n ∈ e.neighborsOutgoing id, n.edgeId ≠ k
  incomingElse : ∀ id, id ≠ t → ∀ n ∈ e.neighborsIncoming id, n.edgeId ≠ k

structure Mirrored (e : AdjacencyListEngine) : Prop where
  keys : ∀ id : NodeId, e.outgoing[id]?.isSome = e.incoming[id]?.isSome
  edges : ∀ k s t, e.edgeEndpoints[k]? = some (s, t) ↔ ∃ w, e.ListsEdge k s t w

/-- No list, key or endpoint mentions the node. -/
structure Forgets (e : AdjacencyListEngine) (id : NodeId) : Prop extends e.LacksNode id where
  outgoingLists : ∀ j, ∀ n ∈ e.neighborsOutgoing j, n.nodeId ≠ id
  incomingLists : ∀ j, ∀ n ∈ e.neighborsIncoming j, n.nodeId ≠ id

namespace Represents

variable {e : AdjacencyListEngine} {g : PlainGraph}

/-- The endpoints of an edge are those of the graph's edge. -/
theorem endpoints_iff (h : e.Represents g) {k : EdgeId} {s t : NodeId} :
    e.edgeEndpoints[k]? = some (s, t) ↔
      ∃ x, g.edges[k]? = some x ∧ x.source = s ∧ x.target = t := by
  rw [h.endpoints, Option.map_eq_some_iff]
  simp only [Prod.mk.injEq]

theorem listsEdge (h : e.Represents g) (hg : g.WellFormed) {k : EdgeId} {x : Edge}
    (hk : g.edges[k]? = some x) : e.ListsEdge k x.source x.target x.weight := by
  obtain ⟨hout, houtElse⟩ := h.outgoing.lists_edge hg hk
  obtain ⟨hin, hinElse⟩ := h.incoming.lists_edge hg hk
  exact ⟨hout, hin, houtElse, hinElse⟩

theorem mirrored (h : e.Represents g) (hg : g.WellFormed) : e.Mirrored := by
  refine ⟨fun id => (h.outgoing.keys id).trans (h.incoming.keys id).symm, fun k s t => ?_⟩
  rw [h.endpoints_iff]
  constructor
  · rintro ⟨x, hk, rfl, rfl⟩
    exact ⟨x.weight, h.listsEdge hg hk⟩
  · rintro ⟨w, hl⟩
    have hf := (h.outgoing.filter_edge hg s k).symm.trans hl.outgoing
    cases hk : g.edges[k]? with
    | none =>
      rw [hk] at hf
      cases hf
    | some x =>
      rw [hk, Option.filter_some] at hf
      split_ifs at hf with hs
      · have hn := List.head_eq_of_cons_eq hf
        exact ⟨x, rfl, of_decide_eq_true hs, congrArg Neighbor.nodeId hn⟩
      · cases hf

theorem forgets (h : e.Represents g) (hg : g.WellFormed) {id : NodeId} (hid : ¬ g.Live id) :
    e.Forgets id := by
  have hgone (o : Option (List Neighbor)) (ho : o.isSome = g.nodes[id]?.isSome) : o = none :=
    Option.not_isSome_iff_eq_none.mp fun hsome => hid (ho.symm.trans hsome)
  have hends (k : EdgeId) (x : Edge) (hk : g.edges[k]? = some x) :
      x.source ≠ id ∧ x.target ≠ id :=
    ⟨fun hs => hid (hs ▸ hg.source k x hk), fun ht => hid (ht ▸ hg.target k x hk)⟩
  refine ⟨⟨hgone _ (h.outgoing.keys id), hgone _ (h.incoming.keys id), fun k ends hk => ?_⟩,
    fun j n hn => ?_, fun j n hn => ?_⟩
  · obtain ⟨x, hx, hs, ht⟩ := h.endpoints_iff.mp hk
    rw [← hs, ← ht]
    exact hends k x hx
  · obtain ⟨k, x, hx, -, rfl⟩ := mem_neighbors.mp ((h.neighborsOutgoing j).mem_iff.mp hn)
    exact (hends k x hx).2
  · obtain ⟨k, x, hx, -, rfl⟩ := mem_neighbors.mp ((h.neighborsIncoming j).mem_iff.mp hn)
    exact (hends k x hx).1

end Represents

/-! ## Runs -/

/-- The four mutations. -/
inductive Op where
  | insertNode (id : NodeId)
  | removeNode (ord : HashOrder) (id : NodeId)
  | insertEdge (id : EdgeId) (source target : NodeId) (weight : F64)
  | removeEdge (id : EdgeId)

def step : Op → AdjacencyListEngine → Unit × AdjacencyListEngine
  | .insertNode id, e => ((), e.insertNode id)
  | .removeNode ord id, e => ((), e.removeNode ord id)
  | .insertEdge id source target weight, e => ((), e.insertEdge id source target weight)
  | .removeEdge id, e => ((), e.removeEdge id)

/-- An edge is inserted under an id that is not present, between nodes that are. -/
def Admits : Op → AdjacencyListEngine → Prop
  | .insertEdge id source target _, e =>
    e.edgeEndpoints[id]? = none ∧ e.containsNode source = true ∧ e.containsNode target = true
  | _, _ => True

instance (op : Op) (e : AdjacencyListEngine) : Decidable (Admits op e) := by
  cases op <;> unfold Admits <;> infer_instance

/-- The engine holds the structure of some graph. -/
def Represented (e : AdjacencyListEngine) : Prop := ∃ g : PlainGraph, e.Represents g ∧ g.WellFormed

theorem represented_step {op : Op} {e : AdjacencyListEngine} (he : Represented e)
    (hop : Admits op e) : Represented (step op e).2 := by
  obtain ⟨g, h, hg⟩ := he
  cases op with
  | insertNode id => exact ⟨_, h.insertNode ⟨id, "", ∅⟩, hg.insertNode _⟩
  | removeNode ord id => exact ⟨_, h.removeNode hg ord id, hg.deleteNode id⟩
  | insertEdge id source target weight =>
    obtain ⟨hnew, hs, ht⟩ := hop
    have hs := (h.containsNode source).mp hs
    have ht := (h.containsNode target).mp ht
    have hnone : g.edges[id]? = none := by
      rw [h.endpoints, Option.map_eq_none_iff] at hnew
      exact hnew
    let x : Edge := ⟨id, source, target, "", weight, ∅⟩
    exact ⟨g.insertEdge x, h.insertEdge (x := x) hnone hs ht, hg.insertEdge hs ht⟩
  | removeEdge id => exact ⟨_, h.removeEdge hg id, hg.deleteEdge id⟩

theorem represented_run {ops : List Op} (h : Machine.Along Admits step ops .new) :
    Represented (Machine.run step ops .new).2 :=
  Machine.run_keeps (fun _ _ he hop => represented_step he hop) ⟨.empty, .new, .empty⟩ h

/-- The maps mirror each other after every such run, and a node that is then removed leaves
no trace. -/
theorem run_mirrored {ops : List Op} (h : Machine.Along Admits step ops .new) :
    (Machine.run step ops .new).2.Mirrored ∧
      ∀ ord id, ((Machine.run step ops .new).2.removeNode ord id).Forgets id := by
  obtain ⟨g, hr, hg⟩ := represented_run h
  refine ⟨hr.mirrored hg, fun ord id => (hr.removeNode hg ord id).forgets (hg.deleteNode id) ?_⟩
  rw [PlainGraph.Live, PlainGraph.deleteNode, HashMap.getElem?_erase', if_pos rfl]
  exact Bool.false_ne_true

/-- With a self-loop, parallel edges and a removal. -/
theorem run_mirrored_small :
    let ops : List Op := [.insertNode ⟨0⟩, .insertNode ⟨1⟩, .insertEdge ⟨0⟩ ⟨0⟩ ⟨1⟩ .zero,
      .insertEdge ⟨1⟩ ⟨0⟩ ⟨1⟩ .zero, .insertEdge ⟨2⟩ ⟨1⟩ ⟨1⟩ .zero, .removeEdge ⟨0⟩]
    (Machine.run step ops .new).2.Mirrored ∧
      ∀ ord id, ((Machine.run step ops .new).2.removeNode ord id).Forgets id :=
  run_mirrored (by decide +kernel)

end AdjacencyListEngine

end AdGraphDb
