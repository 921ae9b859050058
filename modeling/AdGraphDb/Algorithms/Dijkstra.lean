import Mathlib.Data.Prod.Lex
import AdGraphDb.Foundation.Loops
import AdGraphDb.Foundation.MinHeap
import AdGraphDb.Foundation.Relaxation
import AdGraphDb.Engine.AdjacencyList

/-!
# Dijkstra's algorithm

The weights are read exactly, in an ordered group. An arc that was relaxed stays relaxed, and a
node with arcs to relax waits in the heap under its label.
-/

namespace AdGraphDb
open Std

namespace Dijkstra

/-- Ordered by distance, then by node. -/
structure HeapEntry (W : Type) where
  distance : W
  nodeId : NodeId

theorem HeapEntry.rank_injective (W : Type) : Function.Injective
    fun e : HeapEntry W => toLex (e.distance, e.nodeId.val.toNat) := by
  rintro ⟨d, ⟨v⟩⟩ ⟨d', ⟨v'⟩⟩ h
  obtain ⟨hd, hv⟩ := Prod.mk.inj (toLex.injective h)
  obtain rfl : d = d' := hd
  obtain rfl : v = v' := UInt64.toNat_inj.mp hv
  rfl

instance {W : Type} [LinearOrder W] : LinearOrder (HeapEntry W) :=
  LinearOrder.lift' _ (HeapEntry.rank_injective W)

theorem HeapEntry.distance_le {W : Type} [LinearOrder W] {a b : HeapEntry W} (h : a ≤ b) :
    a.distance ≤ b.distance := by
  rcases Prod.Lex.toLex_le_toLex.mp h with hlt | heq
  · exact hlt.le
  · exact heq.1.le

/-- `unwrap` on `None`. -/
inductive Panic where
  | unwrapNone
deriving DecidableEq

structure State (W : Type) [LinearOrder W] where
  distance : HashMap NodeId W
  predecessor : HashMap NodeId NodeId
  heap : MinHeap (HeapEntry W)

variable {W : Type} [AddCommGroup W] [LinearOrder W] (weigh : F64 → W) (e : AdjacencyListEngine)
  (start goal : NodeId)

/-- `*distance.get(&v).unwrap_or(&f64::INFINITY)` -/
def State.known (s : State W) (v : NodeId) : WithTop W :=
  match s.distance[v]? with
  | some d => d
  | none => ⊤

def init : State W := ⟨HashMap.insertAll ∅ [(start, 0)], ∅, MinHeap.empty.push ⟨0, start⟩⟩

/-- The body of the loop over the neighbors. -/
def relax (currentDist : W) (current : NodeId) (s : State W) (neighbor : Neighbor) : State W :=
  let newDist := currentDist + weigh neighbor.weight
  if (newDist : WithTop W) < s.known neighbor.nodeId then
    { distance := s.distance.insert neighbor.nodeId newDist
      predecessor := s.predecessor.insert neighbor.nodeId current
      heap := s.heap.push ⟨newDist, neighbor.nodeId⟩ }
  else s

/-- One turn of the main loop, which stops with the predecessors and the weight of the path. -/
def round (s : State W) :
    Loop.Round (State W) (Except Panic (Option (HashMap NodeId NodeId × W))) :=
  match s.heap.pop with
  | none => .stop (.ok none)
  | some (entry, heap) =>
    let s := { s with heap := heap }
    if entry.nodeId = goal then
      match s.distance[goal]? with
      | some totalWeight => .stop (.ok (some (s.predecessor, totalWeight)))
      | none => .stop (.error .unwrapNone)
    -- a stale entry
    else if s.known entry.nodeId < (entry.distance : WithTop W) then .next s
    else .next ((e.neighborsOutgoing entry.nodeId).foldl
      (relax weigh entry.distance entry.nodeId) s)

/-- One turn of the loop of `reconstruct_path`; the path and the current node. -/
def traceRound (predecessor : HashMap NodeId NodeId) (s : List NodeId × NodeId) :
    Loop.Round (List NodeId × NodeId) (List NodeId) :=
  let path := s.1 ++ [s.2]
  if s.2 = start then .stop path.reverse
  else
    match predecessor[s.2]? with
    | some prev => .next (path, prev)
    | none => .stop path.reverse

def reconstructPath (predecessor : HashMap NodeId NodeId) : Nat → Option (List NodeId) :=
  Loop.run (traceRound start predecessor) ([], goal)

/-- What is returned when the main loop has stopped. -/
def answer (r : Except Panic (Option (HashMap NodeId NodeId × W))) (rounds : Nat) :
    Option (Except Panic (Option (List NodeId × W))) :=
  match r with
  | .error p => some (.error p)
  | .ok none => some (.ok none)
  | .ok (some (predecessor, totalWeight)) =>
    (reconstructPath start goal predecessor rounds).map fun path => .ok (some (path, totalWeight))

/-- The outcome within a number of turns of each loop. -/
def findShortestPath (rounds : Nat) : Option (Except Panic (Option (List NodeId × W))) :=
  if !e.containsNode start || !e.containsNode goal then some (.ok none)
  else (Loop.run (round weigh e goal) (init start) rounds).bind fun r => answer start goal r rounds

/-! ## The labels -/

/-- An outgoing edge, by its weight and its end. -/
def Arc (u : NodeId) (x : W) (v : NodeId) : Prop :=
  ∃ n ∈ e.neighborsOutgoing u, weigh n.weight = x ∧ n.nodeId = v

/-- The edges that the search follows, which ends at the goal. -/
def OpenArc (u : NodeId) (x : W) (v : NodeId) : Prop := u ≠ goal ∧ Arc weigh e u x v

variable {weigh e goal} in
omit [AddCommGroup W] [LinearOrder W] in
theorem Arc.mem_ends {u v : NodeId} {x : W} (h : Arc weigh e u x v) (start : NodeId) :
    v ∈ e.ends start := by
  obtain ⟨n, hn, -, rfl⟩ := h
  exact e.mem_ends start u (List.mem_map_of_mem hn)

omit [AddCommGroup W] [LinearOrder W] in
theorem finite_arcs : {x | ∃ u v, OpenArc weigh e goal u x v}.Finite := by
  apply (e.outgoing.vals.flatten.map fun n => weigh n.weight).finite_toSet.subset
  rintro x ⟨u, v, -, n, hn, rfl, -⟩
  exact List.mem_map.mpr ⟨n, AdjacencyListEngine.mem_flatten_outgoing hn, rfl⟩

namespace State

def labels (s : State W) : Labels NodeId W := ⟨s.known, fun v => s.predecessor[v]?⟩

omit [AddCommGroup W] in
theorem known_eq_coe {s : State W} {v : NodeId} {d : W} :
    s.known v = d ↔ s.distance[v]? = some d := by
  unfold known
  cases s.distance[v]? with
  | none => exact iff_of_false WithTop.top_ne_coe nofun
  | some d' => exact WithTop.coe_inj.trans Option.some_inj.symm

end State

/-- Either the neighbor's label is improved, or the state stays as it is. -/
theorem relax_cases (currentDist : W) (current : NodeId) (s : State W) (n : Neighbor) :
    (((currentDist + weigh n.weight : W) : WithTop W) < s.known n.nodeId ∧
      (relax weigh currentDist current s n).labels =
        s.labels.improve n.nodeId (currentDist + weigh n.weight) current ∧
      (relax weigh currentDist current s n).heap =
        s.heap.push ⟨currentDist + weigh n.weight, n.nodeId⟩) ∨
    (s.known n.nodeId ≤ ((currentDist + weigh n.weight : W) : WithTop W) ∧
      relax weigh currentDist current s n = s) := by
  unfold relax
  dsimp only
  split_ifs with hlt
  · refine .inl ⟨hlt, ?_, rfl⟩
    have hlabel : State.known ⟨s.distance.insert n.nodeId (currentDist + weigh n.weight),
        s.predecessor.insert n.nodeId current,
        s.heap.push ⟨currentDist + weigh n.weight, n.nodeId⟩⟩ =
        Function.update s.known n.nodeId ((currentDist + weigh n.weight : W) : WithTop W) := by
      funext v
      rw [State.known, HashMap.getElem?_insert', Function.update_apply]
      by_cases hv : n.nodeId = v
      · rw [if_pos hv, if_pos hv.symm]
      · rw [if_neg hv, if_neg (Ne.symm hv)]
        rfl
    have hpred : (fun v => (s.predecessor.insert n.nodeId current)[v]?) =
        Function.update (fun v => s.predecessor[v]?) n.nodeId (some current) := by
      funext v
      rw [HashMap.getElem?_insert', Function.update_apply]
      by_cases hv : n.nodeId = v
      · rw [if_pos hv, if_pos hv.symm]
      · rw [if_neg hv, if_neg (Ne.symm hv)]
    unfold State.labels Labels.improve
    rw [hlabel, hpred]
  · exact .inr ⟨le_of_not_gt hlt, rfl⟩

variable {weigh e goal} in
/-- A turn of the main loop that goes on has dropped a stale entry or relaxed the arcs of the
node in front. -/
theorem round_next {s s' : State W} (hr : round weigh e goal s = .next s') :
    ∃ entry heap, s.heap.pop = some (entry, heap) ∧ entry.nodeId ≠ goal ∧
      (s.known entry.nodeId < (entry.distance : WithTop W) ∧ s' = { s with heap := heap } ∨
        (entry.distance : WithTop W) ≤ s.known entry.nodeId ∧
          s' = (e.neighborsOutgoing entry.nodeId).foldl
            (relax weigh entry.distance entry.nodeId) { s with heap := heap }) := by
  unfold round at hr
  cases hp : s.heap.pop with
  | none =>
    rw [hp] at hr
    cases hr
  | some p =>
    obtain ⟨entry, heap⟩ := p
    rw [hp] at hr
    dsimp only at hr
    split_ifs at hr with hgoal hstale
    · -- with the goal in front the turn stops, whether the goal has a label or not
      cases hd : s.distance[goal]? <;> rw [hd] at hr <;> cases hr
    · exact ⟨entry, heap, rfl, hgoal, .inl ⟨hstale, (Loop.Round.next.inj hr).symm⟩⟩
    · exact ⟨entry, heap, rfl, hgoal,
        .inr ⟨le_of_not_gt hstale, (Loop.Round.next.inj hr).symm⟩⟩

variable {weigh e goal} in
/-- A turn of the main loop that stops has found the heap empty, or the goal in front. -/
theorem round_stop {s : State W} {r : Except Panic (Option (HashMap NodeId NodeId × W))}
    (hr : round weigh e goal s = .stop r) :
    s.heap.pop = none ∧ r = .ok none ∨
      ∃ entry heap, s.heap.pop = some (entry, heap) ∧ entry.nodeId = goal ∧
        ((∃ total, s.distance[goal]? = some total ∧ r = .ok (some (s.predecessor, total))) ∨
          s.distance[goal]? = none ∧ r = .error .unwrapNone) := by
  unfold round at hr
  cases hp : s.heap.pop with
  | none =>
    rw [hp] at hr
    exact .inl ⟨rfl, (Loop.Round.stop.inj hr).symm⟩
  | some p =>
    obtain ⟨entry, heap⟩ := p
    rw [hp] at hr
    dsimp only at hr
    split_ifs at hr with hgoal
    refine .inr ⟨entry, heap, rfl, hgoal, ?_⟩
    cases hd : s.distance[goal]? with
    | none =>
      rw [hd] at hr
      exact .inr ⟨rfl, (Loop.Round.stop.inj hr).symm⟩
    | some total =>
      rw [hd] at hr
      exact .inl ⟨total, rfl, (Loop.Round.stop.inj hr).symm⟩

/-! ## What waits in the heap -/

/-- The arcs of a node that are not yet relaxed from its label, one by one. -/
def Owes (current : NodeId) (currentDist : W) (todo : List Neighbor) (v : NodeId) (d : W)
    (n : Neighbor) : Prop := v = current ∧ d = currentDist ∧ n ∈ todo

/-- Every label waits in the heap, or all arcs from it are relaxed but for some. -/
structure Searching (owed : NodeId → W → Neighbor → Prop) (s : State W) : Prop where
  atStart : s.known start ≤ 0
  heap : ∀ entry ∈ s.heap, s.known entry.nodeId ≤ (entry.distance : W)
  settled : ∀ v (d : W), s.known v = d → ⟨d, v⟩ ∈ s.heap ∨
    v ≠ goal ∧ ∀ n ∈ e.neighborsOutgoing v,
      owed v d n ∨ s.known n.nodeId ≤ ((d + weigh n.weight : W) : WithTop W)

variable {weigh e start goal} {s : State W} {current : NodeId} {currentDist : W} {n : Neighbor}
  {todo : List Neighbor}

theorem searching_init : Searching weigh e start goal (fun _ _ _ => False) (init start) := by
  have hstart : (init start : State W).known start = (0 : W) := by
    rw [State.known_eq_coe, init, HashMap.insertAll_cons, HashMap.insertAll_nil,
      HashMap.getElem?_insert', if_pos rfl]
  refine ⟨hstart.le, fun entry hentry => ?_, fun v d hd => .inl ?_⟩
  · rcases MinHeap.mem_push.mp hentry with rfl | hempty
    · exact hstart.le
    · exact absurd hempty MinHeap.not_mem_empty
  · rw [State.known_eq_coe, init, HashMap.insertAll_cons, HashMap.insertAll_nil,
      HashMap.getElem?_insert'] at hd
    split_ifs at hd with hv
    · obtain rfl := Option.some.inj hd
      exact hv ▸ MinHeap.mem_push.mpr (.inl rfl)
    · simp at hd

theorem searching_relax
    (h : Searching weigh e start goal (Owes current currentDist (n :: todo)) s) :
    Searching weigh e start goal (Owes current currentDist todo)
      (relax weigh currentDist current s n) := by
  rcases relax_cases weigh currentDist current s n with ⟨hlt, hlabels, hheap⟩ | ⟨hle, heq⟩
  · have hknown : (relax weigh currentDist current s n).known =
        (s.labels.improve n.nodeId (currentDist + weigh n.weight) current).label :=
      congrArg Labels.label hlabels
    have hless (v : NodeId) : (relax weigh currentDist current s n).known v ≤ s.known v := by
      rw [hknown]
      exact Labels.label_improve_le hlt current v
    refine ⟨(hless start).trans h.atStart, fun entry hentry => ?_, fun v d hd => ?_⟩
    · rw [hheap, MinHeap.mem_push] at hentry
      rcases hentry with rfl | hentry
      · rw [hknown, Labels.label_improve_self]
      · exact (hless entry.nodeId).trans (h.heap entry hentry)
    · rw [hheap, MinHeap.mem_push]
      by_cases hv : v = n.nodeId
      · subst hv
        rw [hknown, Labels.label_improve_self] at hd
        rw [WithTop.coe_injective hd]
        exact .inl (.inl rfl)
      · rw [hknown, Labels.label_improve_of_ne hv] at hd
        refine (h.settled v d hd).imp .inr fun ⟨hgoal, hall⟩ => ⟨hgoal, fun m hm => ?_⟩
        rcases hall m hm with ⟨rfl, rfl, htodo⟩ | hle
        · rcases List.mem_cons.mp htodo with rfl | htodo
          · rw [hknown, Labels.label_improve_self]
            exact .inr le_rfl
          · exact .inl ⟨rfl, rfl, htodo⟩
        · exact .inr ((hless m.nodeId).trans hle)
  · rw [heq]
    refine ⟨h.atStart, h.heap, fun v d hd => ?_⟩
    refine (h.settled v d hd).imp id fun ⟨hgoal, hall⟩ => ⟨hgoal, fun m hm => ?_⟩
    rcases hall m hm with ⟨rfl, rfl, htodo⟩ | hdone
    · rcases List.mem_cons.mp htodo with rfl | htodo
      · exact .inr hle
      · exact .inl ⟨rfl, rfl, htodo⟩
    · exact .inr hdone

theorem searching_foldl (h : Searching weigh e start goal (Owes current currentDist todo) s) :
    Searching weigh e start goal (fun _ _ _ => False)
      (todo.foldl (relax weigh currentDist current) s) := by
  induction todo generalizing s with
  | nil =>
    refine ⟨h.atStart, h.heap, fun v d hd => ?_⟩
    refine (h.settled v d hd).imp id fun ⟨hgoal, hall⟩ => ⟨hgoal, fun m hm => ?_⟩
    exact (hall m hm).imp (fun ho => List.not_mem_nil ho.2.2) id
  | cons n todo ih => exact ih (searching_relax h)

variable {entry : HeapEntry W} {heap : MinHeap (HeapEntry W)}

/-- A stale entry can be dropped. -/
theorem searching_stale (h : Searching weigh e start goal (fun _ _ _ => False) s)
    (hp : s.heap.pop = some (entry, heap))
    (hstale : s.known entry.nodeId < (entry.distance : WithTop W)) :
    Searching weigh e start goal (fun _ _ _ => False) { s with heap := heap } := by
  refine ⟨h.atStart, fun x hx => h.heap x ((MinHeap.mem_of_pop hp).mpr (.inr hx)),
    fun v d hd => ?_⟩
  refine (h.settled v d hd).imp (fun hmem => ?_) id
  refine ((MinHeap.mem_of_pop hp).mp hmem).resolve_left ?_
  rintro rfl
  exact hstale.ne hd

/-- The arcs of the node in front are owed. -/
theorem searching_pop (h : Searching weigh e start goal (fun _ _ _ => False) s)
    (hp : s.heap.pop = some (entry, heap)) (hgoal : entry.nodeId ≠ goal) :
    Searching weigh e start goal
      (Owes entry.nodeId entry.distance (e.neighborsOutgoing entry.nodeId))
      { s with heap := heap } := by
  refine ⟨h.atStart, fun x hx => h.heap x ((MinHeap.mem_of_pop hp).mpr (.inr hx)),
    fun v d hd => ?_⟩
  rcases h.settled v d hd with hmem | ⟨hv, hall⟩
  · refine ((MinHeap.mem_of_pop hp).mp hmem).symm.imp id ?_
    rintro rfl
    exact ⟨hgoal, fun n hn => .inl ⟨rfl, rfl, hn⟩⟩
  · exact .inr ⟨hv, fun n hn => .inr ((hall n hn).resolve_left id)⟩

/-- Every turn of the main loop keeps what waits. -/
theorem searching_round (h : Searching weigh e start goal (fun _ _ _ => False) s) {s' : State W}
    (hr : round weigh e goal s = .next s') :
    Searching weigh e start goal (fun _ _ _ => False) s' := by
  obtain ⟨entry, heap, hp, hgoal, ⟨hstale, rfl⟩ | ⟨-, rfl⟩⟩ := round_next hr
  · exact searching_stale h hp hstale
  · exact searching_foldl (searching_pop h hp hgoal)

end Dijkstra

end AdGraphDb
