import AdGraphDb.Foundation.Float64
import AdGraphDb.Algorithms.Dijkstra

/-!
# Dijkstra's algorithm in floating point

The search as it runs: the distances are doubles, infinity stands for an unknown one, and the heap
is ordered by `total_cmp`. A label only ever falls, so the main loop ends whatever the weights are;
the way back along the predecessors may not.
-/

namespace AdGraphDb
open Std

namespace DijkstraF64
open Dijkstra (Panic reconstructPath)

/-- Ordered by distance, then by node. -/
structure HeapEntry where
  distance : F64
  nodeId : NodeId

theorem HeapEntry.rank_injective : Function.Injective
    fun e : HeapEntry => toLex (e.distance.totalKey, e.nodeId.val.toNat) := by
  rintro ⟨d, ⟨v⟩⟩ ⟨d', ⟨v'⟩⟩ h
  obtain ⟨hd, hv⟩ := Prod.mk.inj (toLex.injective h)
  obtain rfl := F64.totalKey_injective hd
  obtain rfl : v = v' := UInt64.toNat_inj.mp hv
  rfl

instance : LinearOrder HeapEntry := LinearOrder.lift' _ HeapEntry.rank_injective

structure State where
  distance : HashMap NodeId F64
  predecessor : HashMap NodeId NodeId
  heap : MinHeap HeapEntry

variable (e : AdjacencyListEngine) (start goal : NodeId)

/-- `*distance.get(&v).unwrap_or(&f64::INFINITY)` -/
def State.known (s : State) (v : NodeId) : F64 := (s.distance[v]?).getD F64.infinity

def init : State :=
  ⟨HashMap.insertAll ∅ [(start, F64.zero)], ∅, MinHeap.empty.push ⟨F64.zero, start⟩⟩

/-- The body of the loop over the neighbors. -/
def relax (currentDist : F64) (current : NodeId) (s : State) (neighbor : Neighbor) : State :=
  let newDist := F64.add currentDist neighbor.weight
  if F64.lt newDist (s.known neighbor.nodeId) then
    { distance := s.distance.insert neighbor.nodeId newDist
      predecessor := s.predecessor.insert neighbor.nodeId current
      heap := s.heap.push ⟨newDist, neighbor.nodeId⟩ }
  else s

/-- One turn of the main loop, which stops with the predecessors and the weight of the path. -/
def round (s : State) : Loop.Round State (Except Panic (Option (HashMap NodeId NodeId × F64))) :=
  match s.heap.pop with
  | none => .stop (.ok none)
  | some (entry, heap) =>
    let s := { s with heap := heap }
    if entry.nodeId = goal then
      match s.distance[goal]? with
      | some totalWeight => .stop (.ok (some (s.predecessor, totalWeight)))
      | none => .stop (.error .unwrapNone)
    -- a stale entry
    else if F64.lt (s.known entry.nodeId) entry.distance then .next s
    else .next ((e.neighborsOutgoing entry.nodeId).foldl (relax entry.distance entry.nodeId) s)

/-- What is returned when the main loop has stopped. -/
def answer (r : Except Panic (Option (HashMap NodeId NodeId × F64))) (rounds : Nat) :
    Option (Except Panic (Option (List NodeId × F64))) :=
  match r with
  | .error p => some (.error p)
  | .ok none => some (.ok none)
  | .ok (some (predecessor, totalWeight)) =>
    (reconstructPath start goal predecessor rounds).map fun path => .ok (some (path, totalWeight))

/-- The outcome within a number of turns of each loop. -/
def findShortestPath (rounds : Nat) : Option (Except Panic (Option (List NodeId × F64))) :=
  if !e.containsNode start || !e.containsNode goal then some (.ok none)
  else (Loop.run (round e goal) (init start) rounds).bind fun r => answer start goal r rounds

/-- The search returns. -/
def Returns (result : Option (List NodeId × F64)) : Prop :=
  Loop.Yields (findShortestPath e start goal) (.ok result)

/-- The search comes to an end. -/
def Ends : Prop := Loop.Ends (findShortestPath e start goal)

/-! ## One turn -/

variable {e goal} {s s' : State} {current : NodeId} {currentDist : F64} {n : Neighbor}

/-- Either the neighbor's label falls, or the state stays as it is. -/
theorem relax_cases (currentDist : F64) (current : NodeId) (s : State) (n : Neighbor) :
    (F64.lt (F64.add currentDist n.weight) (s.known n.nodeId) = true ∧
      relax currentDist current s n =
        ⟨s.distance.insert n.nodeId (F64.add currentDist n.weight),
          s.predecessor.insert n.nodeId current,
          s.heap.push ⟨F64.add currentDist n.weight, n.nodeId⟩⟩) ∨
    (F64.lt (F64.add currentDist n.weight) (s.known n.nodeId) = false ∧
      relax currentDist current s n = s) := by
  unfold relax
  dsimp only
  split_ifs with hlt
  · exact .inl ⟨hlt, rfl⟩
  · exact .inr ⟨Bool.eq_false_of_not_eq_true hlt, rfl⟩

/-- A turn that goes on has dropped a stale entry or relaxed the arcs of the node in front. -/
theorem round_next (hr : round e goal s = .next s') :
    ∃ entry heap, s.heap.pop = some (entry, heap) ∧ entry.nodeId ≠ goal ∧
      (F64.lt (s.known entry.nodeId) entry.distance = true ∧ s' = { s with heap := heap } ∨
        F64.lt (s.known entry.nodeId) entry.distance = false ∧
          s' = (e.neighborsOutgoing entry.nodeId).foldl (relax entry.distance entry.nodeId)
            { s with heap := heap }) := by
  unfold round at hr
  cases hp : s.heap.pop with
  | none =>
    rw [hp] at hr
    cases hr
  | some p =>
    obtain ⟨entry, heap⟩ := p
    rw [hp] at hr
    dsimp only at hr
    split_ifs at hr with hgoal hstale
    · cases hd : s.distance[goal]? <;> rw [hd] at hr <;> cases hr
    · exact ⟨entry, heap, rfl, hgoal, .inl ⟨hstale, (Loop.Round.next.inj hr).symm⟩⟩
    · exact ⟨entry, heap, rfl, hgoal,
        .inr ⟨Bool.eq_false_of_not_eq_true hstale, (Loop.Round.next.inj hr).symm⟩⟩

/-- A turn that stops has an empty heap or the goal in front. -/
theorem round_stop {r : Except Panic (Option (HashMap NodeId NodeId × F64))}
    (hr : round e goal s = .stop r) :
    (s.heap.pop = none ∧ r = .ok none) ∨
      ∃ entry heap, s.heap.pop = some (entry, heap) ∧ entry.nodeId = goal ∧
        ((∃ total, s.distance[goal]? = some total ∧ r = .ok (some (s.predecessor, total))) ∨
          s.distance[goal]? = none ∧ r = .error .unwrapNone) := by
  unfold round at hr
  cases hp : s.heap.pop with
  | none =>
    rw [hp] at hr
    exact .inl ⟨rfl, (Loop.Round.stop.inj hr).symm⟩
  | some p =>
    obtain ⟨entry, heap⟩ := p
    rw [hp] at hr
    dsimp only at hr
    split_ifs at hr with hgoal hstale
    refine .inr ⟨entry, heap, rfl, hgoal, ?_⟩
    cases hd : s.distance[goal]? with
    | none =>
      rw [hd] at hr
      exact .inr ⟨rfl, (Loop.Round.stop.inj hr).symm⟩
    | some total =>
      rw [hd] at hr
      exact .inl ⟨total, rfl, (Loop.Round.stop.inj hr).symm⟩

theorem known_insert (distance : HashMap NodeId F64) (predecessor : HashMap NodeId NodeId)
    (heap : MinHeap HeapEntry) (u v : NodeId) (d : F64) :
    State.known ⟨distance.insert u d, predecessor, heap⟩ v =
      if u = v then d else (distance[v]?).getD F64.infinity := by
  rw [State.known, HashMap.getElem?_insert']
  split_ifs <;> rfl

/-! ## No panic -/

/-- Every node that waits in the heap has a distance. -/
def Labelled (s : State) : Prop := ∀ entry ∈ s.heap, (s.distance[entry.nodeId]?).isSome = true

theorem labelled_init (start : NodeId) : Labelled (init start) := by
  intro entry hentry
  rcases MinHeap.mem_push.mp hentry with rfl | hempty
  · rw [init, HashMap.insertAll_cons, HashMap.insertAll_nil, HashMap.getElem?_insert', if_pos rfl]
    rfl
  · exact absurd hempty MinHeap.not_mem_empty

theorem Labelled.pop (h : Labelled s) {entry : HeapEntry} {heap : MinHeap HeapEntry}
    (hp : s.heap.pop = some (entry, heap)) : Labelled { s with heap := heap } :=
  fun x hx => h x ((MinHeap.mem_of_pop hp).mpr (.inr hx))

theorem Labelled.relax (h : Labelled s) (currentDist : F64) (current : NodeId) (n : Neighbor) :
    Labelled (relax currentDist current s n) := by
  rcases relax_cases currentDist current s n with ⟨-, heq⟩ | ⟨-, heq⟩ <;> rw [heq]
  · intro entry hentry
    rw [HashMap.getElem?_insert']
    split_ifs with hv
    · rfl
    · rcases MinHeap.mem_push.mp hentry with rfl | hentry
      · exact absurd rfl hv
      · exact h entry hentry
  · exact h

theorem Labelled.foldl (h : Labelled s) (currentDist : F64) (current : NodeId)
    (todo : List Neighbor) : Labelled (todo.foldl (DijkstraF64.relax currentDist current) s) :=
  List.foldlRecOn todo _ h fun _ hs n _ => hs.relax currentDist current n

theorem labelled_round (h : Labelled s) (hr : round e goal s = .next s') : Labelled s' := by
  obtain ⟨entry, heap, hp, -, ⟨-, rfl⟩ | ⟨-, rfl⟩⟩ := round_next hr
  · exact h.pop hp
  · exact (h.pop hp).foldl entry.distance entry.nodeId _

/-- The `unwrap` of the distance of the goal never fails. -/
theorem labelled_stop (h : Labelled s)
    {r : Except Panic (Option (HashMap NodeId NodeId × F64))} (hr : round e goal s = .stop r) :
    ∀ p, r ≠ .error p := by
  rintro p rfl
  rcases round_stop hr with ⟨-, hr⟩ | ⟨entry, heap, hp, rfl, ⟨total, -, hr⟩ | ⟨hd, -⟩⟩
  · cases hr
  · cases hr
  · have := h entry ((MinHeap.mem_of_pop hp).mpr (.inl rfl))
    rw [hd] at this
    cases this

theorem findShortestPath_ne_error {start : NodeId} {rounds : Nat} {p : Panic} :
    findShortestPath e start goal rounds ≠ some (.error p) := by
  intro h
  unfold findShortestPath at h
  split_ifs at h
  · cases h
  obtain ⟨r, hr, hanswer⟩ := Option.bind_eq_some_iff.mp h
  have hne := Loop.post_of_run hr Labelled (fun _ _ hs hr => labelled_stop hs hr)
    (fun _ _ hs hr => labelled_round hs hr) (labelled_init start)
  match r with
  | .error p => exact hne p rfl
  | .ok none => cases hanswer
  | .ok (some (predecessor, total)) =>
    obtain ⟨path, -, hpath⟩ := Option.map_eq_some_iff.mp hanswer
    cases hpath

/-- A search that comes to an end returns. -/
theorem Ends.returns {start : NodeId} (h : Ends e start goal) :
    ∃ result, Returns e start goal result := by
  obtain ⟨r, hr⟩ := h
  cases r with
  | ok result => exact ⟨result, hr⟩
  | error p =>
    obtain ⟨n, hn⟩ := hr
    exact absurd (hn n le_rfl) findShortestPath_ne_error

/-! ## The main loop ends -/

theorem lt_iff {a b : F64} :
    F64.lt a b = true ↔ a.isNaN = false ∧ b.isNaN = false ∧ a.key < b.key := by
  simp [F64.lt, and_assoc]

theorem le_key (x : F64) : -(2 ^ 63) ≤ x.key := by
  have := x.magnitude_lt
  unfold F64.key
  split_ifs <;> omega

/-- How far the labels can still fall. -/
def potential (e : AdjacencyListEngine) (start : NodeId) (s : State) : ℕ :=
  ∑ v ∈ e.ends start, ((s.known v).key + 2 ^ 63).toNat

theorem potential_relax (start : NodeId) (hn : n ∈ e.neighborsOutgoing current) :
    relax currentDist current s n = s ∨
      potential e start (relax currentDist current s n) < potential e start s := by
  rcases relax_cases currentDist current s n with ⟨hlt, heq⟩ | ⟨-, heq⟩
  · obtain ⟨-, -, hkey⟩ := lt_iff.mp hlt
    have hlow := le_key (F64.add currentDist n.weight)
    rw [heq]
    refine .inr (Finset.sum_lt_sum (fun v _ => ?_)
      ⟨n.nodeId, e.mem_ends start current (List.mem_map_of_mem hn), ?_⟩)
    · rw [known_insert]
      split_ifs with hv
      · subst hv
        omega
      · rfl
    · rw [known_insert, if_pos rfl]
      omega
  · exact .inl heq

theorem potential_foldl (start : NodeId) (currentDist : F64) (s : State) {todo : List Neighbor}
    (htodo : ∀ n ∈ todo, n ∈ e.neighborsOutgoing current) :
    todo.foldl (relax currentDist current) s = s ∨
      potential e start (todo.foldl (relax currentDist current) s) < potential e start s := by
  induction todo generalizing s with
  | nil => exact .inl rfl
  | cons n todo ih =>
    rw [List.foldl_cons]
    have hrest := ih (relax currentDist current s n)
      fun m hm => htodo m (List.mem_cons_of_mem n hm)
    rcases potential_relax start (htodo n List.mem_cons_self) with heq | hlt
    · rwa [heq] at hrest ⊢
    · rcases hrest with heq | hlt'
      · rw [heq]
        exact .inr hlt
      · exact .inr (hlt'.trans hlt)

/-- A turn of the main loop that goes on lets a label fall or shortens the heap. -/
theorem potential_round (start : NodeId) (hr : round e goal s = .next s') :
    Prod.Lex (· < ·) (· < ·) (potential e start s', s'.heap.entries.length)
      (potential e start s, s.heap.entries.length) := by
  obtain ⟨entry, heap, hp, -, ⟨-, rfl⟩ | ⟨-, rfl⟩⟩ := round_next hr
  · exact .right _ (MinHeap.length_of_pop hp)
  · rcases potential_foldl start entry.distance { s with heap := heap }
      (fun n hn => hn : ∀ n ∈ e.neighborsOutgoing entry.nodeId, _) with hsame | hlt
    · rw [hsame]
      exact .right _ (MinHeap.length_of_pop hp)
    · exact .left _ _ hlt

/-- Whatever the weights are, the main loop ends, and every invariant of its turns holds then. -/
theorem main_ends (start : NodeId) {I : State → Prop} (hinit : I (init start))
    (hround : ∀ s s', I s → round e goal s = .next s' → I s') :
    ∃ r s, Loop.Yields (Loop.run (round e goal) (init start)) r ∧ I s ∧ round e goal s = .stop r := by
  have hends : ∃ r, Loop.Yields (Loop.run (round e goal) (init start)) r ∧
      ∃ s, I s ∧ round e goal s = .stop r :=
    Loop.yields_of_measure (WellFounded.prod_lex Nat.lt_wfRel.wf Nat.lt_wfRel.wf)
      (fun s : State => (potential e start s, s.heap.entries.length)) I
      (fun s r hs hr => ⟨s, hs, hr⟩)
      (fun s s' hs hr => ⟨hround s s' hs hr, potential_round start hr⟩) hinit
  obtain ⟨r, hr, s, hs, hstop⟩ := hends
  exact ⟨r, s, hr, hs, hstop⟩

/-! ## Weights that are not negative -/

/-- No weight is negative or a NaN. -/
def NonNegative (e : AdjacencyListEngine) : Prop :=
  ∀ u, ∀ n ∈ e.neighborsOutgoing u, F64.le F64.zero n.weight = true

/-- The nodes in `settled` have been in front. Their labels, up to `bound`, are final, and the
predecessors lead to lower ranks. -/
structure Settling (s : State) (settled : Set NodeId) (rank : NodeId → ℕ) (top : ℕ)
    (bound : F64) : Prop where
  bound_isNaN : bound.isNaN = false
  bound_key : 0 ≤ bound.key
  heap : ∀ entry ∈ s.heap, entry.distance.isNaN = false ∧ bound.key ≤ entry.distance.key ∧
    (s.known entry.nodeId).key ≤ entry.distance.key
  known : ∀ v, (s.known v).isNaN = false
  labels : ∀ v ∈ settled, (s.known v).key ≤ bound.key
  below : ∀ v ∈ settled, rank v < top
  above : ∀ v ∉ settled, rank v = top
  pred : ∀ v u, s.predecessor[v]? = some u → u ∈ settled ∧ rank u < rank v

theorem settling_init (start : NodeId) : Settling (init start) ∅ (fun _ => 0) 0 F64.zero := by
  have hzero : F64.zero.isNaN = false ∧ F64.zero.key = 0 := by decide
  have hknown (v : NodeId) : (init start).known v = F64.zero ∨
      (init start).known v = F64.infinity := by
    rw [init, HashMap.insertAll_cons, HashMap.insertAll_nil, known_insert]
    split_ifs
    · exact .inl rfl
    · exact .inr (by simp)
  refine ⟨hzero.1, hzero.2.ge, fun entry hentry => ?_, fun v => ?_, fun v hv => hv.elim,
    fun v hv => hv.elim, fun _ _ => rfl, fun v u hp => ?_⟩
  · rcases MinHeap.mem_push.mp hentry with rfl | hempty
    · refine ⟨hzero.1, le_rfl, ?_⟩
      rw [init, HashMap.insertAll_cons, HashMap.insertAll_nil, known_insert, if_pos rfl]
    · exact absurd hempty MinHeap.not_mem_empty
  · rcases hknown v with h | h <;> rw [h]
    · exact hzero.1
    · decide
  · simp [init] at hp

variable {settled : Set NodeId} {rank : NodeId → ℕ} {top : ℕ} {bound : F64}

theorem Settling.pop (h : Settling s settled rank top bound) {entry : HeapEntry}
    {heap : MinHeap HeapEntry} (hp : s.heap.pop = some (entry, heap)) :
    Settling { s with heap := heap } settled rank top bound :=
  { h with heap := fun x hx => h.heap x ((MinHeap.mem_of_pop hp).mpr (.inr hx)) }

/-- The node that comes to the front is settled. -/
theorem Settling.settle (h : Settling s settled rank top bound) {entry : HeapEntry}
    {heap : MinHeap HeapEntry} (hp : s.heap.pop = some (entry, heap)) :
    ∃ settled' rank' top', entry.nodeId ∈ settled' ∧
      Settling { s with heap := heap } settled' rank' top' entry.distance := by
  classical
  obtain ⟨hnan, hbound, hlabel⟩ := h.heap entry ((MinHeap.mem_of_pop hp).mpr (.inl rfl))
  have hleast : ∀ x ∈ heap, entry.distance.key ≤ x.distance.key := by
    intro x hx
    have hle := MinHeap.le_of_pop hp ((MinHeap.mem_of_pop hp).mpr (.inr hx))
    rcases Prod.Lex.toLex_le_toLex.mp hle with hlt | heq
    · exact F64.key_le_of_totalKey_le hlt.le
    · exact F64.key_le_of_totalKey_le heq.1.le
  by_cases hv : entry.nodeId ∈ settled
  · refine ⟨settled, rank, top, hv, hnan, h.bound_key.trans hbound, fun x hx => ?_, h.known,
      fun v hv => (h.labels v hv).trans hbound, h.below, h.above, h.pred⟩
    obtain ⟨hx1, -, hx3⟩ := h.heap x ((MinHeap.mem_of_pop hp).mpr (.inr hx))
    exact ⟨hx1, hleast x hx, hx3⟩
  · have hrank (v : NodeId) (hmem : v ∈ insert entry.nodeId settled) : rank v < top + 1 := by
      rcases hmem with rfl | hmem
      · rw [h.above _ hv]
        exact Nat.lt_succ_self top
      · exact (h.below v hmem).trans (Nat.lt_succ_self top)
    refine ⟨insert entry.nodeId settled,
      fun v => if v ∈ insert entry.nodeId settled then rank v else top + 1, top + 1,
      Set.mem_insert _ _, hnan, h.bound_key.trans hbound, fun x hx => ?_, h.known, fun v hmem => ?_,
      fun v hmem => ?_, fun v hmem => if_neg hmem, fun v u hpred => ?_⟩
    · obtain ⟨hx1, -, hx3⟩ := h.heap x ((MinHeap.mem_of_pop hp).mpr (.inr hx))
      exact ⟨hx1, hleast x hx, hx3⟩
    · rcases hmem with rfl | hmem
      · exact hlabel
      · exact (h.labels v hmem).trans hbound
    · rw [if_pos hmem]
      exact hrank v hmem
    · obtain ⟨hu, hlt⟩ := h.pred v u hpred
      refine ⟨Set.mem_insert_of_mem _ hu, ?_⟩
      rw [if_pos (Set.mem_insert_of_mem _ hu)]
      split_ifs
      · exact hlt
      · exact hrank u (Set.mem_insert_of_mem _ hu)

/-- Relaxing an arc of a settled node settles no label anew. -/
theorem Settling.relax (h : Settling s settled rank top bound) (hcurrent : current ∈ settled)
    (hweight : F64.le F64.zero n.weight = true) :
    Settling (DijkstraF64.relax bound current s n) settled rank top bound := by
  have hzero : F64.zero.key = 0 := by decide
  simp only [F64.le, Bool.and_eq_true, Bool.not_eq_true', decide_eq_true_eq, hzero] at hweight
  obtain ⟨hnan, hle⟩ :=
    F64.le_key_add h.bound_isNaN hweight.1.2 h.bound_key hweight.2
  rcases relax_cases bound current s n with ⟨hlt, heq⟩ | ⟨-, heq⟩ <;> rw [heq]
  · obtain ⟨-, -, hkey⟩ := lt_iff.mp hlt
    have hopen : n.nodeId ∉ settled := fun hmem =>
      (hle.trans_lt hkey).not_ge (h.labels _ hmem)
    refine { h with heap := fun x hx => ?_, known := fun v => ?_, labels := fun v hv => ?_,
                    pred := fun v u hp => ?_ }
    · rw [known_insert]
      rcases MinHeap.mem_push.mp hx with rfl | hx
      · rw [if_pos rfl]
        exact ⟨hnan, hle, le_rfl⟩
      · obtain ⟨hx1, hx2, hx3⟩ := h.heap x hx
        refine ⟨hx1, hx2, ?_⟩
        split_ifs with hv
        · rw [← hv] at hx3
          exact hkey.le.trans hx3
        · exact hx3
    · rw [known_insert]
      split_ifs
      · exact hnan
      · exact h.known v
    · rw [known_insert, if_neg (by rintro rfl; exact hopen hv)]
      exact h.labels v hv
    · rw [HashMap.getElem?_insert'] at hp
      split_ifs at hp with hv
      · obtain rfl := Option.some.inj hp
        rw [← hv, h.above _ hopen]
        exact ⟨hcurrent, h.below _ hcurrent⟩
      · exact h.pred v u hp
  · exact h

theorem Settling.foldl (h : Settling s settled rank top bound) (hcurrent : current ∈ settled)
    {todo : List Neighbor} (htodo : ∀ n ∈ todo, F64.le F64.zero n.weight = true) :
    Settling (todo.foldl (DijkstraF64.relax bound current) s) settled rank top bound := by
  induction todo generalizing s with
  | nil => exact h
  | cons n todo ih =>
    exact ih (h.relax hcurrent (htodo n List.mem_cons_self))
      fun m hm => htodo m (List.mem_cons_of_mem n hm)

theorem settling_round (he : NonNegative e)
    (h : ∃ settled rank top bound, Settling s settled rank top bound)
    (hr : round e goal s = .next s') :
    ∃ settled rank top bound, Settling s' settled rank top bound := by
  obtain ⟨settled, rank, top, bound, h⟩ := h
  obtain ⟨entry, heap, hp, -, ⟨-, rfl⟩ | ⟨-, rfl⟩⟩ := round_next hr
  · exact ⟨settled, rank, top, bound, h.pop hp⟩
  · obtain ⟨settled', rank', top', hmem, hs⟩ := h.settle hp
    exact ⟨settled', rank', top', entry.distance, hs.foldl hmem (he entry.nodeId)⟩

/-- The way back along predecessors of lower and lower rank ends. -/
theorem trace_ends (start goal : NodeId) {predecessor : HashMap NodeId NodeId} {rank : NodeId → ℕ}
    (hpred : ∀ v u, predecessor[v]? = some u → rank u < rank v) :
    ∃ path, Loop.Yields (reconstructPath start goal predecessor) path := by
  have hends : ∃ path, Loop.Yields
      (Loop.run (Dijkstra.traceRound start predecessor) ([], goal)) path ∧ True := by
    refine Loop.yields_of_measure Nat.lt_wfRel.wf (fun s => rank s.2) (fun _ => True)
      (fun _ _ _ _ => trivial) (fun s s' _ hr => ⟨trivial, ?_⟩) trivial
    unfold Dijkstra.traceRound at hr
    dsimp only at hr
    split_ifs at hr
    cases hp : predecessor[s.2]? with
    | none => rw [hp] at hr; cases hr
    | some u =>
      rw [hp] at hr
      obtain rfl := Loop.Round.next.inj hr
      exact hpred _ _ hp
  exact hends.imp fun path h => h.1

/-- The way back along predecessors that lead round and round does not end. -/
theorem trace_never_ends (start goal : NodeId) (predecessor : HashMap NodeId NodeId)
    {C : NodeId → Prop} (hgoal : C goal)
    (hC : ∀ v, C v → v ≠ start ∧ ∃ u, predecessor[v]? = some u ∧ C u) (rounds : Nat) :
    reconstructPath start goal predecessor rounds = none := by
  have hnone : ∀ s : List NodeId × NodeId, C s.2 →
      Loop.run (Dijkstra.traceRound start predecessor) s rounds = none := by
    induction rounds with
    | zero => exact fun _ _ => rfl
    | succ rounds ih =>
      intro s hs
      obtain ⟨hne, u, hu, hmem⟩ := hC s.2 hs
      rw [Loop.run, Dijkstra.traceRound, if_neg hne, hu]
      exact ih _ hmem
  exact hnone ([], goal) hgoal

/-- Where no weight is negative or a NaN, every search comes to an end. -/
theorem ends_of_nonNegative (he : NonNegative e) (start goal : NodeId) : Ends e start goal := by
  unfold Ends
  by_cases habsent : (!e.containsNode start || !e.containsNode goal) = true
  · have hnone : findShortestPath e start goal = fun _ => some (.ok none) := by
      funext rounds
      rw [findShortestPath, if_pos habsent]
    rw [hnone]
    exact ⟨_, Loop.yields_some _⟩
  · have hsearch : findShortestPath e start goal = fun rounds =>
        (Loop.run (round e goal) (init start) rounds).bind fun r => answer start goal r rounds := by
      funext rounds
      rw [findShortestPath, if_neg habsent]
    obtain ⟨r, s, hr, ⟨settled, rank, top, bound, hs⟩, hstop⟩ :=
      main_ends start ⟨∅, fun _ => 0, 0, F64.zero, settling_init start⟩
        fun _ _ hs hr => settling_round he hs hr
    have hanswer : Loop.Ends (answer start goal r) := by
      rcases round_stop hstop with ⟨-, rfl⟩ | ⟨entry, heap, -, -, ⟨total, -, rfl⟩ | ⟨-, rfl⟩⟩
      · exact ⟨_, Loop.yields_some _⟩
      · obtain ⟨path, hpath⟩ := trace_ends start goal fun v u hp => (hs.pred v u hp).2
        exact ⟨.ok (some (path, total)), hpath.map fun way : List NodeId =>
          (.ok (some (way, total)) : Except Panic (Option (List NodeId × F64)))⟩
      · exact ⟨_, Loop.yields_some _⟩
    obtain ⟨result, hresult⟩ := hanswer
    rw [hsearch]
    exact ⟨result, hr.bind hresult⟩

/-- A cycle whose weight is below every double. -/
def bottomlessCycle : AdjacencyListEngine :=
  ((((AdjacencyListEngine.new.insertNode ⟨0⟩).insertNode ⟨1⟩).insertNode ⟨2⟩).insertNode ⟨3⟩)
    |>.insertEdge ⟨0⟩ ⟨0⟩ ⟨1⟩ .zero |>.insertEdge ⟨1⟩ ⟨1⟩ ⟨2⟩ ⟨0xFFEE42D130773B76⟩
    |>.insertEdge ⟨2⟩ ⟨2⟩ ⟨1⟩ ⟨0xFFEE42D130773B76⟩ |>.insertEdge ⟨3⟩ ⟨2⟩ ⟨3⟩ .zero

/-- The predecessors, when the main loop has stopped with a path. -/
def predecessors : Except Panic (Option (HashMap NodeId NodeId × F64)) → HashMap NodeId NodeId
  | .ok (some (predecessor, _)) => predecessor
  | _ => ∅

-- the labels on the cycle fall to negative infinity, and the predecessors lead around it
example : ¬ Ends bottomlessCycle ⟨0⟩ ⟨3⟩ := by
  rintro ⟨result, n, hn⟩
  have hresult := hn (max n 12) (le_max_left n 12)
  rw [findShortestPath, if_neg (by decide +kernel)] at hresult
  obtain ⟨r, hr, hanswer⟩ := Option.bind_eq_some_iff.mp hresult
  have hround : (Loop.run (round bottomlessCycle ⟨3⟩) (init ⟨0⟩) 12).map
      (fun r => ((predecessors r)[NodeId.mk 1]?, (predecessors r)[NodeId.mk 2]?,
        (predecessors r)[NodeId.mk 3]?)) = some (some ⟨2⟩, some ⟨1⟩, some ⟨2⟩) := by decide +kernel
  obtain ⟨r', hr', hpred⟩ := Option.map_eq_some_iff.mp hround
  obtain rfl : r' = r := Option.some.inj ((Loop.run_mono hr' (le_max_right n 12)).symm.trans hr)
  have h1 : (predecessors r')[NodeId.mk 1]? = some ⟨2⟩ := congrArg (fun x => x.1) hpred
  have h2 : (predecessors r')[NodeId.mk 2]? = some ⟨1⟩ := congrArg (fun x => x.2.1) hpred
  have h3 : (predecessors r')[NodeId.mk 3]? = some ⟨2⟩ := congrArg (fun x => x.2.2) hpred
  match r' with
  | .error p => simp [predecessors] at h1
  | .ok none => simp [predecessors] at h1
  | .ok (some (predecessor, total)) =>
    have hnone := trace_never_ends ⟨0⟩ ⟨3⟩ predecessor
      (C := fun v => v = ⟨1⟩ ∨ v = ⟨2⟩ ∨ v = ⟨3⟩) (.inr (.inr rfl)) (by
        rintro v (rfl | rfl | rfl)
        · exact ⟨by decide, ⟨2⟩, h1, .inr (.inl rfl)⟩
        · exact ⟨by decide, ⟨1⟩, h2, .inl rfl⟩
        · exact ⟨by decide, ⟨2⟩, h3, .inr (.inl rfl)⟩) (max n 12)
    rw [answer, hnone] at hanswer
    cases hanswer

/-! ## As a total function -/

/-- The function finds what the search returns, wherever it returns. -/
def Implements (dijkstra : AdjacencyListEngine → NodeId → NodeId → Option (List NodeId × F64)) :
    Prop :=
  ∀ e start goal result, Returns e start goal result → dijkstra e start goal = result

open Classical in
/-- The result of the search; it says nothing where the search does not return. -/
noncomputable def search (e : AdjacencyListEngine) (start goal : NodeId) :
    Option (List NodeId × F64) :=
  if h : ∃ result, Returns e start goal result then h.choose else none

theorem implements_search : Implements search := by
  intro e start goal result hresult
  have h : ∃ result, Returns e start goal result := ⟨result, hresult⟩
  rw [search, dif_pos h]
  exact Except.ok.inj (h.choose_spec.unique hresult)

end DijkstraF64

end AdGraphDb
