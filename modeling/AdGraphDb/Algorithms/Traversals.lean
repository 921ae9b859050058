import AdGraphDb.Algorithms.Bfs
import AdGraphDb.Algorithms.Dfs
import AdGraphDb.Engine.Represents

/-!
# Both searches on the plain graph

Over the engine of a graph the breadth-first search takes one turn for every node and one
more, the depth-first search at most one for every edge and two more, and both list the
nodes that can be reached.
-/

namespace AdGraphDb
open Std

/-! ## The turns of the breadth-first search -/

namespace BreadthFirstSearch

variable {V : Type} [DecidableEq V] {next : V → List V} {start : V} {nodes : Finset V}

theorem run_within (hin : ∀ v, Relation.ReflTransGen (Edge next) start v → v ∈ nodes) :
    ∃ order, Loop.run (round next) ⟨{start}, [start], []⟩ (nodes.card + 1) = some order ∧
      order.head? = some start ∧ order.Nodup ∧
      (∀ v, v ∈ order ↔ Relation.ReflTransGen (Edge next) start v) ∧
      order.Pairwise fun u v =>
        hopDistance (Edge next) start u ≤ hopDistance (Edge next) start v := by
  refine Loop.run_of_measure (fun s : State V => nodes.card - s.order.length)
    (Levelled next start) (fun s r h hb => ?_) (fun s s' h hb => ?_) levelled_init
  · obtain ⟨hq, rfl⟩ := round_stop hb
    have hall : s.order ++ s.queue = s.order := by rw [hq, List.append_nil]
    exact ⟨hall ▸ h.first, hall ▸ h.nodup, h.mem_order_iff hq, hall ▸ h.ordered⟩
  · obtain ⟨current, queue, fresh, hq, hn, hmem, rfl⟩ := round_next hb
    refine ⟨levelled_round h hq hn hmem, ?_⟩
    have hlt := h.length_lt hin hq
    change nodes.card - (s.order ++ [current]).length < nodes.card - s.order.length
    rw [List.length_append, List.length_singleton]
    omega

end BreadthFirstSearch

/-! ## The turns of the depth-first search -/

namespace DepthFirstSearch

variable {V : Type} [DecidableEq V]

/-- What holds before every turn. -/
structure Searched (next : V → List V) (start : V) (s : State V) : Prop where
  visited : ∀ v, v ∈ s.visited ↔ v ∈ s.order
  nodup : s.order.Nodup
  first : (s.order ++ s.stack).head? = some start
  reached : ∀ v ∈ s.order ++ s.stack, Relation.ReflTransGen (fun u v => v ∈ next u) start v
  explored : ∀ u ∈ s.order, ∀ v ∈ next u, v ∈ s.order ++ s.stack

/-- The edges that are not explored yet, and the nodes on the stack. -/
def remaining (next : V → List V) (nodes : Finset V) (s : State V) : Nat :=
  s.stack.length + ∑ v ∈ nodes \ s.visited, (next v).length

variable {next : V → List V} {start current : V} {s s' : State V} {stack order : List V}
  {nodes : Finset V}

theorem round_stop (h : round next s = .stop order) : s.stack = [] ∧ order = s.order := by
  unfold round at h
  cases hs : s.stack with
  | nil =>
    rw [hs] at h
    exact ⟨rfl, (Loop.Round.stop.inj h).symm⟩
  | cons current stack =>
    rw [hs] at h
    dsimp only at h
    split_ifs at h

/-- A turn drops a visited node from the stack or enters the node on top. -/
theorem round_next (h : round next s = .next s') : ∃ current stack, s.stack = current :: stack ∧
    (current ∈ s.visited ∧ s' = { s with stack := stack } ∨
      current ∉ s.visited ∧ s' = ⟨insert current s.visited,
        (next current).reverse.filter (fun v => v ∉ insert current s.visited) ++ stack,
        s.order ++ [current]⟩) := by
  unfold round at h
  cases hs : s.stack with
  | nil =>
    rw [hs] at h
    cases h
  | cons current stack =>
    refine ⟨current, stack, rfl, ?_⟩
    rw [hs] at h
    dsimp only at h
    split_ifs at h with hv
    · exact .inl ⟨hv, (Loop.Round.next.inj h).symm⟩
    · rw [foldl_push] at h
      exact .inr ⟨hv, (Loop.Round.next.inj h).symm⟩

omit [DecidableEq V] in
theorem searched_init : Searched next start ⟨∅, [start], []⟩ := by
  refine ⟨fun v => by simp, List.nodup_nil, rfl, fun v hv => ?_,
    fun u hu => absurd hu List.not_mem_nil⟩
  rw [List.nil_append, List.mem_singleton] at hv
  rw [hv]

omit [DecidableEq V] in
theorem Searched.drop (h : Searched next start s) (hs : s.stack = current :: stack)
    (hv : current ∈ s.visited) : Searched next start { s with stack := stack } := by
  have horder := (h.visited current).mp hv
  -- what is dropped is in the order already
  have hmem (v : V) : v ∈ s.order ++ s.stack ↔ v ∈ s.order ++ stack := by
    rw [hs, List.mem_append, List.mem_cons, List.mem_append]
    constructor
    · rintro (ho | rfl | ht)
      · exact .inl ho
      · exact .inl horder
      · exact .inr ht
    · exact fun hv => hv.imp id .inr
  refine ⟨h.visited, h.nodup, ?_, fun v hv => h.reached v ((hmem v).mpr hv),
    fun u hu v hv => (hmem v).mp (h.explored u hu v hv)⟩
  have hfirst := h.first
  rw [List.head?_append_of_ne_nil _ (List.ne_nil_of_mem horder)] at hfirst ⊢
  exact hfirst

theorem Searched.enter (h : Searched next start s) (hs : s.stack = current :: stack)
    (hv : current ∉ s.visited) : Searched next start ⟨insert current s.visited,
      (next current).reverse.filter (fun v => v ∉ insert current s.visited) ++ stack,
      s.order ++ [current]⟩ := by
  have hcurrent := h.reached current (by rw [hs]; simp)
  have hpushed (v : V) : v ∈ (next current).reverse.filter (fun v => v ∉ insert current s.visited) ↔
      v ∈ next current ∧ v ∉ insert current s.visited := by
    rw [List.mem_filter, List.mem_reverse, decide_eq_true_eq]
  refine ⟨fun v => ?_, ?_, ?_, fun v hmem => ?_, fun u hu v hmem => ?_⟩
  · rw [Finset.mem_insert, h.visited, List.mem_append, List.mem_singleton, or_comm]
  · rw [List.nodup_append']
    refine ⟨h.nodup, List.nodup_singleton _, ?_⟩
    rw [List.disjoint_singleton]
    exact fun ho => hv ((h.visited current).mpr ho)
  · have hfirst := h.first
    rw [hs] at hfirst
    rw [List.append_assoc, List.singleton_append]
    cases ho : s.order with
    | nil =>
      rw [ho] at hfirst
      exact hfirst
    | cons u order =>
      rw [ho] at hfirst
      exact hfirst
  · rw [List.append_assoc, List.singleton_append, List.mem_append, List.mem_cons, List.mem_append,
      hpushed] at hmem
    rcases hmem with ho | rfl | ⟨hn, -⟩ | ht
    · exact h.reached v (List.mem_append_left _ ho)
    · exact hcurrent
    · exact hcurrent.tail hn
    · refine h.reached v (List.mem_append_right _ ?_)
      rw [hs]
      exact List.mem_cons_of_mem _ ht
  · rw [List.append_assoc, List.singleton_append, List.mem_append, List.mem_cons, List.mem_append,
      hpushed]
    rcases List.mem_append.mp hu with hu | hu
    · have hold := h.explored u hu v hmem
      rw [hs, List.mem_append, List.mem_cons] at hold
      rcases hold with ho | rfl | ht
      · exact .inl ho
      · exact .inr (.inl rfl)
      · exact .inr (.inr (.inr ht))
    · obtain rfl := List.mem_singleton.mp hu
      -- a neighbor that is not pushed was visited before, or is the node itself
      by_cases hseen : v ∈ insert u s.visited
      · rcases Finset.mem_insert.mp hseen with rfl | hseen
        · exact .inr (.inl rfl)
        · exact .inl ((h.visited v).mp hseen)
      · exact .inr (.inr (.inl ⟨hmem, hseen⟩))

/-- Entering a node trades its edges for at most as many nodes on the stack. -/
theorem remaining_enter (hout : ∀ v, v ∉ nodes → next v = []) (hs : s.stack = current :: stack)
    (hv : current ∉ s.visited) : remaining next nodes ⟨insert current s.visited,
      (next current).reverse.filter (fun v => v ∉ insert current s.visited) ++ stack,
      s.order ++ [current]⟩ < remaining next nodes s := by
  have hpushed : ((next current).reverse.filter (fun v => v ∉ insert current s.visited)).length ≤
      (next current).length := by
    rw [← (next current).length_reverse]
    exact List.length_filter_le _ _
  have hsum : (next current).length + ∑ v ∈ nodes \ insert current s.visited, (next v).length =
      ∑ v ∈ nodes \ s.visited, (next v).length := by
    rw [Finset.sdiff_insert]
    by_cases hin : current ∈ nodes
    · exact Finset.add_sum_erase _ (fun v => (next v).length) (Finset.mem_sdiff.mpr ⟨hin, hv⟩)
    · rw [hout current hin, Finset.erase_eq_of_notMem fun h => hin (Finset.mem_sdiff.mp h).1]
      exact Nat.zero_add _
  unfold remaining
  rw [hs, List.length_append, List.length_cons]
  dsimp only
  omega

omit [DecidableEq V] in
/-- With an empty stack everything that can be reached is in the order. -/
theorem Searched.mem_order_iff (h : Searched next start s) (hs : s.stack = []) (v : V) :
    v ∈ s.order ↔ Relation.ReflTransGen (fun u v => v ∈ next u) start v := by
  have hall : s.order ++ s.stack = s.order := by rw [hs, List.append_nil]
  constructor
  · intro hv
    exact h.reached v (List.mem_append_left _ hv)
  · intro hv
    induction hv with
    | refl => exact List.mem_of_mem_head? (hall ▸ h.first)
    | tail _ huv ih => exact hall ▸ h.explored _ ih _ huv

theorem run_within (hout : ∀ v, v ∉ nodes → next v = []) (start : V) :
    ∃ order, Loop.run (round next) ⟨∅, [start], []⟩ (∑ v ∈ nodes, (next v).length + 2) = some order ∧
      order.head? = some start ∧ order.Nodup ∧
      ∀ v, v ∈ order ↔ Relation.ReflTransGen (fun u v => v ∈ next u) start v := by
  have hinit : remaining next nodes ⟨∅, [start], []⟩ + 1 = ∑ v ∈ nodes, (next v).length + 2 := by
    rw [remaining, Finset.sdiff_empty, List.length_singleton]
    omega
  rw [← hinit]
  refine Loop.run_of_measure (remaining next nodes) (Searched next start) (fun s r h hb => ?_)
    (fun s s' h hb => ?_) searched_init
  · obtain ⟨hs, rfl⟩ := round_stop hb
    have hall : s.order ++ s.stack = s.order := by rw [hs, List.append_nil]
    exact ⟨hall ▸ h.first, h.nodup, h.mem_order_iff hs⟩
  · obtain ⟨current, stack, hs, ⟨hv, rfl⟩ | ⟨hv, rfl⟩⟩ := round_next hb
    · refine ⟨h.drop hs hv, ?_⟩
      unfold remaining
      rw [hs, List.length_cons]
      dsimp only
      omega
    · exact ⟨h.enter hs hv, remaining_enter hout hs hv⟩

end DepthFirstSearch

/-! ## The engine of a graph -/

/-- An edge of the graph leads from the one node to the other. -/
def PlainGraph.Leads (g : PlainGraph) (u v : NodeId) : Prop :=
  ∃ (k : EdgeId) (e : Edge), g.edges[k]? = some e ∧ e.source = u ∧ e.target = v

namespace AdjacencyListEngine

/-- The nodes of the engine. -/
def nodes (e : AdjacencyListEngine) : Finset NodeId := (e.outgoing.toList.map Prod.fst).toFinset

theorem card_nodes (e : AdjacencyListEngine) : e.nodes.card = e.nodeCount := by
  rw [nodes, List.toFinset_card_of_nodup (HashMap.nodup_keys _), List.length_map,
    ExtTreeMap.length_toList]
  rfl

theorem targets_of_not_mem {e : AdjacencyListEngine} {v : NodeId} (h : v ∉ e.nodes) :
    e.targets v = [] := by
  rw [nodes, List.mem_toFinset, HashMap.mem_keys, Option.not_isSome_iff_eq_none] at h
  rw [targets, neighborsOutgoing, h]
  rfl

namespace Represents

variable {e : AdjacencyListEngine} {g : PlainGraph} {start : NodeId}

theorem mem_targets (h : e.Represents g) {u v : NodeId} : v ∈ e.targets u ↔ g.Leads u v := by
  rw [targets, List.mem_map]
  constructor
  · rintro ⟨n, hn, rfl⟩
    obtain ⟨k, x, hk, hs, rfl⟩ :=
      PlainGraph.mem_neighbors.mp ((h.neighborsOutgoing u).mem_iff.mp hn)
    exact ⟨k, x, hk, hs, rfl⟩
  · rintro ⟨k, x, hk, hs, rfl⟩
    have hmem : PlainGraph.neighborOf Edge.target x ∈ g.neighborsOutgoing u :=
      PlainGraph.mem_neighbors.mpr ⟨k, x, hk, hs, rfl⟩
    exact ⟨_, (h.neighborsOutgoing u).mem_iff.mpr hmem, rfl⟩

theorem leads_eq (h : e.Represents g) : (fun u v => v ∈ e.targets u) = g.Leads := by
  funext u v
  exact propext h.mem_targets

/-- Every edge is an outgoing edge of one node. -/
theorem sum_targets (h : e.Represents g) (hg : g.WellFormed) :
    ∑ v ∈ e.nodes, (e.targets v).length = g.edges.size := by
  have hlength (v : NodeId) : (e.targets v).length = (e.outgoing[v]?.getD []).length :=
    List.length_map _
  have hall : ∀ x ∈ g.edges.vals, ∃ k ∈ e.outgoing.toList.map Prod.fst, some x.source = some k := by
    intro x hx
    obtain ⟨k, hk⟩ := HashMap.mem_vals.mp hx
    refine ⟨x.source, HashMap.mem_keys.mpr ?_, rfl⟩
    rw [h.outgoing.keys]
    exact hg.source k x hk
  simp only [hlength]
  rw [nodes, List.sum_toFinset _ (HashMap.nodup_keys _),
    h.outgoing.lists.sum_length (HashMap.nodup_keys _) hall, HashMap.vals, List.length_map,
    ExtTreeMap.length_toList]

theorem reached_mem_nodes (h : e.Represents g) (hg : g.WellFormed) (hs : g.Live start) {v : NodeId}
    (hv : Relation.ReflTransGen g.Leads start v) : v ∈ e.nodes := by
  rw [nodes, List.mem_toFinset, HashMap.mem_keys, h.outgoing.keys]
  rcases hv.cases_tail with rfl | ⟨u, -, k, x, hk, -, rfl⟩
  · exact hs
  · exact hg.target k x hk

end Represents
end AdjacencyListEngine

/-! ## What a traversal lists -/

/-- `BreadthFirstSearch::traverse`, with a turn for every node and one more. -/
def BreadthFirstSearch.search (e : AdjacencyListEngine) (start : NodeId) : List NodeId :=
  (traverse e start (e.nodeCount + 1)).getD []

/-- `DepthFirstSearch::traverse`, with a turn for every edge and two more. -/
def DepthFirstSearch.search (e : AdjacencyListEngine) (start : NodeId) : List NodeId :=
  (traverse e start (e.edgeCount + 2)).getD []

namespace PlainGraph

/-- The start, and every node that it leads to, once. -/
structure Visits (g : PlainGraph) (start : NodeId) (order : List NodeId) : Prop where
  first : g.Live start → order.head? = some start
  nodup : order.Nodup
  mem_iff : ∀ v, v ∈ order ↔ g.Live start ∧ Relation.ReflTransGen g.Leads start v

/-- Level by level. -/
structure BreadthFirst (g : PlainGraph) (start : NodeId) (order : List NodeId) : Prop
    extends Visits g start order where
  levels : order.Pairwise fun u v => hopDistance g.Leads start u ≤ hopDistance g.Leads start v

/-- As the recursive search enters the nodes, for some order of the outgoing edges. -/
structure DepthFirst (g : PlainGraph) (start : NodeId) (order : List NodeId) : Prop
    extends Visits g start order where
  preorder : g.Live start → ∃ next : NodeId → List NodeId,
    (∀ u, (next u).Perm ((g.neighborsOutgoing u).map Neighbor.nodeId)) ∧
    Loop.Yields (fun depth => DepthFirstSearch.recursive next depth [] start) order

theorem Visits.perm {g : PlainGraph} {start : NodeId} {order order' : List NodeId}
    (h : g.Visits start order) (h' : g.Visits start order') : order.Perm order' :=
  (List.perm_ext_iff_of_nodup h.nodup h'.nodup).mpr fun v =>
    (h.mem_iff v).trans (h'.mem_iff v).symm

/-- From a node that is not in the graph nothing is visited. -/
theorem Visits.of_not_live {g : PlainGraph} {start : NodeId} (h : ¬ g.Live start) :
    g.Visits start [] :=
  ⟨fun hl => absurd hl h, List.nodup_nil, fun _ => iff_of_false List.not_mem_nil fun hv => h hv.1⟩

end PlainGraph

namespace AdjacencyListEngine.Represents

variable {e : AdjacencyListEngine} {g : PlainGraph}

/-- The breadth-first search takes at most one turn for every node and one more. -/
theorem breadthFirst (h : e.Represents g) (hg : g.WellFormed) (start : NodeId) :
    ∃ order, BreadthFirstSearch.traverse e start (g.nodes.size + 1) = some order ∧
      g.BreadthFirst start order := by
  unfold BreadthFirstSearch.traverse
  by_cases hs : g.Live start
  · have hedge : BreadthFirstSearch.Edge e.targets = g.Leads := h.leads_eq
    have hin : ∀ v,
        Relation.ReflTransGen (BreadthFirstSearch.Edge e.targets) start v → v ∈ e.nodes :=
      hedge ▸ fun v hv => h.reached_mem_nodes hg hs hv
    obtain ⟨order, hrun, hfirst, hn, hmem, hlevels⟩ := BreadthFirstSearch.run_within hin
    rw [card_nodes, h.nodeCount] at hrun
    rw [hedge] at hmem hlevels
    rw [if_pos ((h.containsNode start).mpr hs)]
    refine ⟨order, hrun, ⟨fun _ => hfirst, hn, fun v => ?_⟩, hlevels⟩
    rw [hmem, and_iff_right hs]
  · rw [if_neg (mt (h.containsNode start).mp hs)]
    exact ⟨[], rfl, .of_not_live hs, .nil⟩

/-- The depth-first search takes at most one turn for every edge and two more. -/
theorem depthFirst (h : e.Represents g) (hg : g.WellFormed) (start : NodeId) :
    ∃ order, DepthFirstSearch.traverse e start (g.edges.size + 2) = some order ∧
      g.DepthFirst start order := by
  unfold DepthFirstSearch.traverse
  by_cases hs : g.Live start
  · have hout : ∀ v, v ∉ e.nodes → e.targets v = [] := fun v hv => targets_of_not_mem hv
    obtain ⟨order, hrun, hfirst, hn, hmem⟩ := DepthFirstSearch.run_within hout start
    obtain ⟨order', hyields, hrecursive⟩ :=
      DepthFirstSearch.run_recursive (Finset.mem_insert_self start _) fun u v hv =>
        e.mem_ends start u hv
    obtain rfl := hyields.unique (Loop.yields_run_iff.mpr ⟨_, hrun⟩)
    rw [h.sum_targets hg] at hrun
    rw [h.leads_eq] at hmem
    rw [if_pos ((h.containsNode start).mpr hs)]
    refine ⟨_, hrun, ⟨fun _ => hfirst, hn, fun v => ?_⟩,
      fun _ => ⟨e.targets, fun u => ?_, hrecursive⟩⟩
    · rw [hmem, and_iff_right hs]
    · exact (h.neighborsOutgoing u).map _
  · rw [if_neg (mt (h.containsNode start).mp hs)]
    exact ⟨[], rfl, .of_not_live hs, fun hl => absurd hl hs⟩

theorem breadthFirst_search (h : e.Represents g) (hg : g.WellFormed) (start : NodeId) :
    g.BreadthFirst start (BreadthFirstSearch.search e start) := by
  obtain ⟨order, hrun, horder⟩ := h.breadthFirst hg start
  rw [BreadthFirstSearch.search, h.nodeCount, hrun]
  exact horder

theorem depthFirst_search (h : e.Represents g) (hg : g.WellFormed) (start : NodeId) :
    g.DepthFirst start (DepthFirstSearch.search e start) := by
  obtain ⟨order, hrun, horder⟩ := h.depthFirst hg start
  rw [DepthFirstSearch.search, h.edgeCount, hrun]
  exact horder

end AdjacencyListEngine.Represents

end AdGraphDb
