import AdGraphDb.Foundation.Loops
import AdGraphDb.Foundation.Hops
import AdGraphDb.Engine.AdjacencyList

/-!
# Breadth-first search

The queue never spans more than two levels: what is waiting is as far from the start as the
node at the front, or one edge further.
-/

namespace AdGraphDb
namespace BreadthFirstSearch

variable {V : Type} [DecidableEq V]

structure State (V : Type) where
  visited : Finset V
  queue : List V
  order : List V

/-- `if visited.insert(v) { queue.push_back(v) }` -/
def enqueue (s : Finset V × List V) (v : V) : Finset V × List V :=
  if v ∈ s.1 then s else (insert v s.1, s.2 ++ [v])

/-- One turn of the `while` loop. -/
def round (next : V → List V) (s : State V) : Loop.Round (State V) (List V) :=
  match s.queue with
  | [] => .stop s.order
  | current :: queue =>
    let (visited, queue) := (next current).foldl enqueue (s.visited, queue)
    .next ⟨visited, queue, s.order ++ [current]⟩

def traverse (e : AdjacencyListEngine) (start : NodeId) (rounds : Nat) : Option (List NodeId) :=
  if e.containsNode start then Loop.run (round e.targets) ⟨{start}, [start], []⟩ rounds
  else some []

/-- The neighbors that were not visited join the queue, each once. -/
theorem foldl_enqueue (l : List V) (visited : Finset V) (queue : List V) :
    ∃ fresh : List V, fresh.Nodup ∧ (∀ v, v ∈ fresh ↔ v ∈ l ∧ v ∉ visited) ∧
      l.foldl enqueue (visited, queue) = (visited ∪ fresh.toFinset, queue ++ fresh) := by
  induction l generalizing visited queue with
  | nil => exact ⟨[], List.nodup_nil, by simp, by simp⟩
  | cons u l ih =>
    rw [List.foldl_cons, enqueue]
    by_cases hu : u ∈ visited
    · obtain ⟨fresh, hn, hmem, heq⟩ := ih visited queue
      refine ⟨fresh, hn, fun v => ?_, by rw [if_pos hu, heq]⟩
      rw [hmem, List.mem_cons]
      constructor
      · exact fun ⟨hv, hnot⟩ => ⟨.inr hv, hnot⟩
      · rintro ⟨rfl | hv, hnot⟩
        · exact absurd hu hnot
        · exact ⟨hv, hnot⟩
    · obtain ⟨fresh, hn, hmem, heq⟩ := ih (insert u visited) (queue ++ [u])
      refine ⟨u :: fresh, List.nodup_cons.mpr ⟨fun h => ?_, hn⟩, fun v => ?_, ?_⟩
      · exact ((hmem u).mp h).2 (Finset.mem_insert_self u visited)
      · rw [List.mem_cons, List.mem_cons, hmem, Finset.mem_insert]
        constructor
        · rintro (rfl | ⟨hv, hnot⟩)
          · exact ⟨.inl rfl, hu⟩
          · exact ⟨.inr hv, fun h => hnot (.inr h)⟩
        · rintro ⟨rfl | hv, hnot⟩
          · exact .inl rfl
          · by_cases hvu : v = u
            · exact .inl hvu
            · exact .inr ⟨hv, fun h => h.elim hvu hnot⟩
      · rw [if_neg hu, heq, List.append_assoc, List.toFinset_cons, Finset.union_insert,
          Finset.insert_union]
        rfl

theorem round_stop {next : V → List V} {s : State V} {order : List V}
    (h : round next s = .stop order) : s.queue = [] ∧ order = s.order := by
  unfold round at h
  cases hq : s.queue with
  | nil =>
    rw [hq] at h
    exact ⟨rfl, (Loop.Round.stop.inj h).symm⟩
  | cons current queue =>
    rw [hq] at h
    cases h

theorem round_next {next : V → List V} {s s' : State V} (h : round next s = .next s') :
    ∃ current queue fresh, s.queue = current :: queue ∧ fresh.Nodup ∧
      (∀ v, v ∈ fresh ↔ v ∈ next current ∧ v ∉ s.visited) ∧
      s' = ⟨s.visited ∪ fresh.toFinset, queue ++ fresh, s.order ++ [current]⟩ := by
  unfold round at h
  cases hq : s.queue with
  | nil =>
    rw [hq] at h
    cases h
  | cons current queue =>
    obtain ⟨fresh, hn, hmem, heq⟩ := foldl_enqueue (next current) s.visited queue
    rw [hq] at h
    dsimp only at h
    rw [heq] at h
    exact ⟨current, queue, fresh, rfl, hn, hmem, (Loop.Round.next.inj h).symm⟩

/-! ## The levels -/

section Levels

variable (next : V → List V) (start : V)

/-- The edges that the search follows. -/
def Edge (u v : V) : Prop := v ∈ next u

/-- What holds before every turn. -/
structure Levelled (s : State V) : Prop where
  visited : ∀ v, v ∈ s.visited ↔ v ∈ s.order ++ s.queue
  nodup : (s.order ++ s.queue).Nodup
  first : (s.order ++ s.queue).head? = some start
  reached : ∀ v ∈ s.order ++ s.queue, Relation.ReflTransGen (Edge next) start v
  explored : ∀ u ∈ s.order, ∀ v ∈ next u, v ∈ s.visited
  ordered : (s.order ++ s.queue).Pairwise fun u v =>
    hopDistance (Edge next) start u ≤ hopDistance (Edge next) start v
  near : ∀ u ∈ s.queue, ∀ v ∈ s.queue,
    hopDistance (Edge next) start v ≤ hopDistance (Edge next) start u + 1

variable {next start} {s : State V}

omit [DecidableEq V] in
theorem levelled_init : Levelled next start ⟨{start}, [start], []⟩ := by
  refine ⟨fun v => by simp, by simp, rfl, fun v hv => ?_, fun u hu => absurd hu List.not_mem_nil,
    List.pairwise_singleton _ _, fun u hu v hv => ?_⟩
  · rw [List.nil_append, List.mem_singleton] at hv
    rw [hv]
  · rw [List.mem_singleton.mp hu, List.mem_singleton.mp hv]
    exact Nat.le_succ _

/-- The way to a node that was not visited leads through the queue. -/
theorem Levelled.frontier (h : Levelled next start s) {v : V}
    (hv : Relation.ReflTransGen (Edge next) start v) (hnot : v ∉ s.visited) :
    ∃ w ∈ s.queue, hopDistance (Edge next) start w < hopDistance (Edge next) start v := by
  generalize hd : hopDistance (Edge next) start v = d
  induction d using Nat.strong_induction_on generalizing v with
  | _ d ih =>
    have hstart : start ∈ s.visited := (h.visited start).mpr (List.mem_of_mem_head? h.first)
    obtain ⟨u, hu, huv, hlt⟩ := exists_nearer hv fun heq => hnot (heq ▸ hstart)
    rw [hd] at hlt
    by_cases hseen : u ∈ s.visited
    · rcases List.mem_append.mp ((h.visited u).mp hseen) with ho | hq
      · exact absurd (h.explored u ho v huv) hnot
      · exact ⟨u, hq, hlt⟩
    · obtain ⟨w, hw, hwu⟩ := ih _ hlt hu hseen rfl
      exact ⟨w, hw, hwu.trans hlt⟩

/-- The new nodes are one edge behind the front of the queue. -/
theorem Levelled.fresh_distance (h : Levelled next start s) {current v : V} {queue : List V}
    (hq : s.queue = current :: queue) (hv : v ∈ next current) (hnot : v ∉ s.visited) :
    hopDistance (Edge next) start v = hopDistance (Edge next) start current + 1 := by
  have hcur : current ∈ s.order ++ s.queue := by
    rw [hq]
    exact List.mem_append_right _ List.mem_cons_self
  have hreach := h.reached current hcur
  have hle := hopDistance_edge_le hreach (show Edge next current v from hv)
  obtain ⟨w, hw, hlt⟩ := h.frontier (hreach.tail hv) hnot
  have hsorted := (List.pairwise_append.mp h.ordered).2.1
  rw [hq] at hsorted hw
  rcases List.mem_cons.mp hw with rfl | hw
  · omega
  · have hfront := List.rel_of_pairwise_cons hsorted hw
    omega

theorem levelled_round (h : Levelled next start s) {current : V} {queue fresh : List V}
    (hq : s.queue = current :: queue) (hn : fresh.Nodup)
    (hmem : ∀ v, v ∈ fresh ↔ v ∈ next current ∧ v ∉ s.visited) :
    Levelled next start ⟨s.visited ∪ fresh.toFinset, queue ++ fresh, s.order ++ [current]⟩ := by
  have hsplit : s.order ++ [current] ++ (queue ++ fresh) = s.order ++ s.queue ++ fresh := by
    rw [hq]
    simp
  have hdist : ∀ v ∈ fresh, hopDistance (Edge next) start v =
      hopDistance (Edge next) start current + 1 :=
    fun v hv => h.fresh_distance hq ((hmem v).mp hv).1 ((hmem v).mp hv).2
  have hcur : current ∈ s.queue := hq ▸ List.mem_cons_self
  -- the queue now spans the level of `current` and the one behind it
  have hwaiting : ∀ v ∈ queue ++ fresh,
      hopDistance (Edge next) start current ≤ hopDistance (Edge next) start v ∧
        hopDistance (Edge next) start v ≤ hopDistance (Edge next) start current + 1 := by
    intro v hv
    rcases List.mem_append.mp hv with hv | hv
    · have hsorted := (List.pairwise_append.mp h.ordered).2.1
      rw [hq] at hsorted
      exact ⟨List.rel_of_pairwise_cons hsorted hv,
        h.near current hcur v (hq ▸ List.mem_cons_of_mem _ hv)⟩
    · have := hdist v hv
      omega
  refine ⟨fun v => ?_, ?_, ?_, fun v hv => ?_, fun u hu v hv => ?_, ?_, fun u hu v hv => ?_⟩
  · rw [hsplit, List.mem_append, ← h.visited, Finset.mem_union, List.mem_toFinset]
  · rw [hsplit, List.nodup_append']
    refine ⟨h.nodup, hn, fun v hv hf => ((hmem v).mp hf).2 ((h.visited v).mpr hv)⟩
  · rw [hsplit, List.head?_append, h.first]
    rfl
  · rw [hsplit] at hv
    rcases List.mem_append.mp hv with hv | hv
    · exact h.reached v hv
    · exact (h.reached current (List.mem_append_right _ hcur)).tail ((hmem v).mp hv).1
  · rcases List.mem_append.mp hu with hu | hu
    · exact Finset.mem_union_left _ (h.explored u hu v hv)
    · rw [List.mem_singleton] at hu
      subst hu
      by_cases hseen : v ∈ s.visited
      · exact Finset.mem_union_left _ hseen
      · exact Finset.mem_union_right _ (List.mem_toFinset.mpr ((hmem v).mpr ⟨hv, hseen⟩))
  · rw [hsplit]
    refine List.pairwise_append.mpr ⟨h.ordered, ?_, fun u hu v hv => ?_⟩
    · apply List.pairwise_of_forall_mem_list
      intro u hu v hv
      rw [hdist u hu, hdist v hv]
    · rw [hdist v hv]
      rcases List.mem_append.mp hu with hu | hu
      · exact ((List.pairwise_append.mp h.ordered).2.2 u hu current hcur).trans (Nat.le_succ _)
      · exact h.near current hcur u hu
  · exact (hwaiting v hv).2.trans (Nat.succ_le_succ (hwaiting u hu).1)

/-- With an empty queue everything reachable is in the order. -/
theorem Levelled.mem_order_iff (h : Levelled next start s) (hq : s.queue = []) (v : V) :
    v ∈ s.order ↔ Relation.ReflTransGen (Edge next) start v := by
  constructor
  · intro hv
    exact h.reached v (List.mem_append_left _ hv)
  · intro hv
    by_contra hnot
    have hunseen : v ∉ s.visited := by
      rw [h.visited, hq, List.append_nil]
      exact hnot
    obtain ⟨w, hw, -⟩ := h.frontier hv hunseen
    rw [hq] at hw
    exact List.not_mem_nil hw

/-- A turn takes a new node of the finite set into the order. -/
theorem Levelled.length_lt (h : Levelled next start s) {nodes : Finset V}
    (hin : ∀ v, Relation.ReflTransGen (Edge next) start v → v ∈ nodes) {current : V}
    {queue : List V} (hq : s.queue = current :: queue) : s.order.length < nodes.card := by
  have hsplit : s.order ++ s.queue = s.order ++ [current] ++ queue := by
    rw [hq, List.append_cons]
  have hnodup := h.nodup
  rw [hsplit] at hnodup
  have hsub : (s.order ++ [current]).toFinset ⊆ nodes := by
    intro v hv
    apply hin v (h.reached v _)
    rw [hsplit]
    exact List.mem_append_left _ (List.mem_toFinset.mp hv)
  have hcard := Finset.card_le_card hsub
  rw [List.toFinset_card_of_nodup (List.nodup_append'.mp hnodup).1, List.length_append,
    List.length_singleton] at hcard
  exact hcard

/-- A search whose nodes are all in a finite set ends, in the order of the levels. -/
theorem run_levelled {nodes : Finset V} (hstart : start ∈ nodes)
    (hnodes : ∀ u, ∀ v ∈ next u, v ∈ nodes) :
    ∃ order, Loop.Yields (Loop.run (round next) ⟨{start}, [start], []⟩) order ∧
      order.head? = some start ∧ order.Nodup ∧
      (∀ v, v ∈ order ↔ Relation.ReflTransGen (Edge next) start v) ∧
      order.Pairwise fun u v =>
        hopDistance (Edge next) start u ≤ hopDistance (Edge next) start v := by
  have hin (v : V) (hv : Relation.ReflTransGen (Edge next) start v) : v ∈ nodes := by
    rcases hv.cases_tail with heq | ⟨u, -, huv⟩
    · exact heq ▸ hstart
    · exact hnodes u v huv
  -- the measure counts the nodes that are not in the order yet
  refine Loop.yields_of_measure Nat.lt_wfRel.wf (fun s : State V => nodes.card - s.order.length)
    (Levelled next start) (fun s r h hb => ?_) (fun s s' h hb => ?_) levelled_init
  · obtain ⟨hq, rfl⟩ := round_stop hb
    have hall : s.order ++ s.queue = s.order := by rw [hq, List.append_nil]
    exact ⟨hall ▸ h.first, hall ▸ h.nodup, h.mem_order_iff hq, hall ▸ h.ordered⟩
  · obtain ⟨current, queue, fresh, hq, hn, hmem, rfl⟩ := round_next hb
    refine ⟨levelled_round h hq hn hmem, ?_⟩
    have hlt := h.length_lt hin hq
    change nodes.card - (s.order ++ [current]).length < nodes.card - s.order.length
    rw [List.length_append, List.length_singleton]
    omega

end Levels

/-! ## The engine -/

/-- From a node of the engine the search ends, and lists what can be reached level by level. -/
theorem traverse_levelled (e : AdjacencyListEngine) {start : NodeId}
    (h : e.containsNode start = true) :
    ∃ order, Loop.Yields (traverse e start) order ∧
      order.head? = some start ∧ order.Nodup ∧
      (∀ v, v ∈ order ↔ Relation.ReflTransGen (Edge e.targets) start v) ∧
      order.Pairwise fun u v =>
        hopDistance (Edge e.targets) start u ≤ hopDistance (Edge e.targets) start v := by
  have hrun : traverse e start = Loop.run (round e.targets) ⟨{start}, [start], []⟩ := by
    funext rounds
    rw [traverse, if_pos h]
  rw [hrun]
  exact run_levelled (Finset.mem_insert_self ..) fun u v hv => e.mem_ends start u hv

/-- A cycle with a self-loop and two parallel edges. -/
def sampleEngine : AdjacencyListEngine :=
  ((AdjacencyListEngine.new.insertNode ⟨0⟩).insertNode ⟨1⟩).insertEdge ⟨0⟩ ⟨0⟩ ⟨1⟩ .zero
    |>.insertEdge ⟨1⟩ ⟨0⟩ ⟨1⟩ .zero |>.insertEdge ⟨2⟩ ⟨1⟩ ⟨1⟩ .zero |>.insertEdge ⟨3⟩ ⟨1⟩ ⟨0⟩ .zero

theorem traverse_levelled_sample :
    ∃ order, Loop.Yields (traverse sampleEngine ⟨0⟩) order ∧
      order.head? = some ⟨0⟩ ∧ order.Nodup ∧
      (∀ v, v ∈ order ↔ Relation.ReflTransGen (Edge sampleEngine.targets) ⟨0⟩ v) ∧
      order.Pairwise fun u v => hopDistance (Edge sampleEngine.targets) ⟨0⟩ u ≤
        hopDistance (Edge sampleEngine.targets) ⟨0⟩ v :=
  traverse_levelled sampleEngine (by decide +kernel)

end BreadthFirstSearch

end AdGraphDb
