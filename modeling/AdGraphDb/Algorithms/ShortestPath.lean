import AdGraphDb.Algorithms.Dijkstra

/-!
# When the search for a shortest path ends, and what it finds

Without negative cycles that can be reached ahead of the goal every turn lowers a label to the
weight of another simple trail or shortens the heap. With no negative weight at all the least
entry of the heap bounds every walk to the goal.
-/

namespace AdGraphDb
namespace Dijkstra

variable {W : Type} [AddCommGroup W] [LinearOrder W] {weigh : F64 → W} {e : AdjacencyListEngine}
  {start goal current v : NodeId} {s : State W} {currentDist d : W} {n : Neighbor}
  {todo : List Neighbor}

theorem known_init : (init start : State W).known v = (d : W) ↔ v = start ∧ d = 0 := by
  rw [State.known_eq_coe, init, HashMap.insertAll_cons, HashMap.insertAll_nil,
    HashMap.getElem?_insert']
  by_cases hv : start = v
  · rw [if_pos hv, Option.some_inj]
    exact ⟨fun h => ⟨hv.symm, h.symm⟩, fun h => h.2.symm⟩
  · rw [if_neg hv]
    exact iff_of_false (by simp) fun h => hv h.1.symm

theorem sound_init : (init start : State W).labels.Sound (OpenArc weigh e goal) start := by
  have hstart : (init start : State W).known start = (0 : W) := known_init.mpr ⟨rfl, rfl⟩
  refine ⟨hstart.le, fun v d hd => ?_, fun v u hp => ?_, fun v d hd => ?_⟩
  · obtain ⟨rfl, rfl⟩ := known_init.mp hd
    refine ⟨[], .here, List.nodup_singleton _, fun x hx => ?_⟩
    rw [List.mem_singleton.mp hx]
    exact hstart.le
  · simp [State.labels, init] at hp
  · obtain ⟨rfl, -⟩ := known_init.mp hd
    exact ⟨_, .start⟩

variable [IsOrderedAddMonoid W] {weights : Finset W}

/-- How far the labels can still be lowered. -/
def rank (e : AdjacencyListEngine) (start : NodeId) (weights : Finset W) (s : State W) : ℕ :=
  s.labels.rank weights (e.ends start)

/-- Relaxing an edge keeps the labels sound, leaves that of the near end and changes the state
only by an improvement. -/
theorem sound_relax (hcycle : NoNegativeCycle (OpenArc weigh e goal) start)
    (hwithin : Labels.Within (OpenArc weigh e goal) start weights)
    (h : s.labels.Sound (OpenArc weigh e goal) start) (hcur : s.known current = currentDist)
    (hgoal : current ≠ goal) (hn : n ∈ e.neighborsOutgoing current) :
    (relax weigh currentDist current s n).labels.Sound (OpenArc weigh e goal) start ∧
      (relax weigh currentDist current s n).known current = currentDist ∧
      (relax weigh currentDist current s n = s ∨
        rank e start weights (relax weigh currentDist current s n) < rank e start weights s) := by
  rcases relax_cases weigh currentDist current s n with ⟨hlt, hlabels, -⟩ | ⟨-, heq⟩
  · have harc : Arc weigh e current (weigh n.weight) n.nodeId := ⟨n, hn, rfl, rfl⟩
    obtain ⟨hsound, hne⟩ := h.improve hcycle hcur ⟨hgoal, harc⟩ hlt
    have hmem := hwithin _ hsound _ _ Labels.label_improve_self
    have hknown : (relax weigh currentDist current s n).labels.label current = currentDist := by
      rw [hlabels, Labels.label_improve_of_ne hne]
      exact hcur
    refine ⟨hlabels ▸ hsound, hknown, .inr ?_⟩
    unfold rank
    rw [hlabels]
    exact Labels.rank_improve_lt (harc.mem_ends start) hmem hlt current
  · rw [heq]
    exact ⟨h, hcur, .inl rfl⟩

theorem sound_foldl (hcycle : NoNegativeCycle (OpenArc weigh e goal) start)
    (hwithin : Labels.Within (OpenArc weigh e goal) start weights)
    (h : s.labels.Sound (OpenArc weigh e goal) start) (hcur : s.known current = currentDist)
    (hgoal : current ≠ goal) (htodo : ∀ n ∈ todo, n ∈ e.neighborsOutgoing current) :
    (todo.foldl (relax weigh currentDist current) s).labels.Sound (OpenArc weigh e goal) start ∧
      (todo.foldl (relax weigh currentDist current) s = s ∨
        rank e start weights (todo.foldl (relax weigh currentDist current) s) <
          rank e start weights s) := by
  induction todo generalizing s with
  | nil => exact ⟨h, .inl rfl⟩
  | cons n todo ih =>
    obtain ⟨hn, hkn, hstep⟩ := sound_relax hcycle hwithin h hcur hgoal (htodo n List.mem_cons_self)
    obtain ⟨hend, hrest⟩ := ih hn hkn fun m hm => htodo m (List.mem_cons_of_mem n hm)
    refine ⟨hend, ?_⟩
    rw [List.foldl_cons]
    rcases hstep with heq | hlt
    · rwa [heq] at hrest ⊢
    · rcases hrest with heq | hlt'
      · rw [heq]
        exact .inr hlt
      · exact .inr (hlt'.trans hlt)

/-- Every turn keeps the labels sound, and lowers one or shortens the heap. -/
theorem sound_round (hcycle : NoNegativeCycle (OpenArc weigh e goal) start)
    (hwithin : Labels.Within (OpenArc weigh e goal) start weights)
    (h : s.labels.Sound (OpenArc weigh e goal) start)
    (hs : Searching weigh e start goal (fun _ _ _ => False) s) {s' : State W}
    (hr : round weigh e goal s = .next s') :
    s'.labels.Sound (OpenArc weigh e goal) start ∧
      Prod.Lex (· < ·) (· < ·) (rank e start weights s', s'.heap.entries.length)
        (rank e start weights s, s.heap.entries.length) := by
  obtain ⟨entry, heap, hp, hgoal, ⟨-, rfl⟩ | ⟨hfresh, rfl⟩⟩ := round_next hr
  · exact ⟨h, .right _ (MinHeap.length_of_pop hp)⟩
  · have hentry := hs.heap entry ((MinHeap.mem_of_pop hp).mpr (.inl rfl))
    have hcur : State.known { s with heap := heap } entry.nodeId = (entry.distance : W) :=
      le_antisymm hentry hfresh
    obtain ⟨hend, hsame | hlt⟩ := sound_foldl (s := { s with heap := heap }) hcycle hwithin h
      hcur hgoal fun n hn => hn
    · rw [hsame]
      exact ⟨h, .right _ (MinHeap.length_of_pop hp)⟩
    · exact ⟨hend, .left _ _ hlt⟩

/-- How the main loop ends: with an empty heap, or with the goal in front. -/
inductive Ended (weigh : F64 → W) (e : AdjacencyListEngine) (start goal : NodeId) :
    Except Panic (Option (HashMap NodeId NodeId × W)) → Prop where
  | exhausted {s : State W} (hs : Searching weigh e start goal (fun _ _ _ => False) s)
    (hempty : ∀ entry, entry ∉ s.heap) : Ended weigh e start goal (.ok none)
  | found {s : State W} {d : W} (hs : Searching weigh e start goal (fun _ _ _ => False) s)
    (h : s.labels.Sound (OpenArc weigh e goal) start) (hleast : ∀ entry ∈ s.heap, d ≤ entry.distance)
    {total : W} (htotal : s.known goal = total) (hd : total ≤ d) :
    Ended weigh e start goal (.ok (some (s.predecessor, total)))

omit [IsOrderedAddMonoid W] in
theorem ended_of_stop (h : s.labels.Sound (OpenArc weigh e goal) start)
    (hs : Searching weigh e start goal (fun _ _ _ => False) s)
    {r : Except Panic (Option (HashMap NodeId NodeId × W))}
    (hr : round weigh e goal s = .stop r) : Ended weigh e start goal r := by
  rcases round_stop hr with ⟨hp, rfl⟩ | ⟨entry, heap, hp, hgoal, hr⟩
  · exact .exhausted hs fun entry => MinHeap.not_mem_of_pop hp
  · -- an entry in the heap bounds a label, so the goal has one and its `unwrap` succeeds
    have hentry := hs.heap entry ((MinHeap.mem_of_pop hp).mpr (.inl rfl))
    obtain ⟨total, htotal, hle⟩ := WithTop.le_coe_iff.mp hentry
    rw [hgoal] at htotal
    rcases hr with ⟨total', hd, rfl⟩ | ⟨hd, -⟩
    · obtain rfl := WithTop.coe_injective ((State.known_eq_coe.mpr hd).symm.trans htotal)
      exact .found hs h (fun x hx => HeapEntry.distance_le (MinHeap.le_of_pop hp hx)) htotal hle
    · rw [State.known_eq_coe.mp htotal] at hd
      cases hd

/-- Without negative cycles the main loop ends. -/
theorem main_ends (hcycle : NoNegativeCycle (OpenArc weigh e goal) start) :
    ∃ r, Loop.Yields (Loop.run (round weigh e goal) (init start)) r ∧
      Ended weigh e start goal r := by
  obtain ⟨weights, hwithin⟩ := Labels.exists_within (finite_arcs weigh e goal)
    (Finset.mem_insert_self start _) fun u x v hx => hx.2.mem_ends start
  refine Loop.yields_of_measure (WellFounded.prod_lex Nat.lt_wfRel.wf Nat.lt_wfRel.wf)
    (fun s : State W => (rank e start weights s, s.heap.entries.length))
    (fun s => s.labels.Sound (OpenArc weigh e goal) start ∧
      Searching weigh e start goal (fun _ _ _ => False) s)
    (fun s r hs hr => ended_of_stop hs.1 hs.2 hr) (fun s s' hs hr => ?_)
    ⟨sound_init, searching_init⟩
  obtain ⟨hsound, hlt⟩ := sound_round hcycle hwithin hs.1 hs.2 hr
  exact ⟨⟨hsound, searching_round hs.2 hr⟩, hlt⟩

/-- The way back is what `reconstruct_path` walks. -/
theorem trace_yields {predecessor : HashMap NodeId NodeId} {c : List NodeId}
    (h : LeadsBack (fun v => predecessor[v]?) start v c) (path : List NodeId) :
    Loop.Yields (Loop.run (traceRound start predecessor) (path, v)) (path ++ c).reverse := by
  induction h generalizing path with
  | start => exact Loop.yields_of_stop (by rw [traceRound, if_pos rfl])
  | @step u v c hv hp _ ih =>
    have hround : traceRound start predecessor (path, v) = .next (path ++ [v], u) := by
      rw [traceRound, if_neg hv, hp]
    have htail := ih (path ++ [v])
    rw [List.append_assoc] at htail
    exact (Loop.yields_next_iff hround).mpr htail

omit [IsOrderedAddMonoid W] in
theorem findShortestPath_eq (hstart : e.containsNode start = true)
    (hgoal : e.containsNode goal = true) : findShortestPath weigh e start goal = fun rounds =>
      (Loop.run (round weigh e goal) (init start) rounds).bind fun r =>
        answer start goal r rounds := by
  funext rounds
  rw [findShortestPath, hstart, hgoal]
  rfl

omit [IsOrderedAddMonoid W] in
theorem yields_of_absent (h : e.containsNode start = false ∨ e.containsNode goal = false) :
    Loop.Yields (findShortestPath weigh e start goal) (.ok none) := by
  have hnone : findShortestPath weigh e start goal = fun _ => some (.ok none) := by
    funext rounds
    rw [findShortestPath]
    rcases h with h | h <;> simp [h]
  rw [hnone]
  exact Loop.yields_some _

/-- What the search answers without negative cycles: nothing, when the heap is exhausted, or a
path that is at most as heavy as the label of the goal. -/
inductive Answered (weigh : F64 → W) (e : AdjacencyListEngine) (start goal : NodeId) :
    Option (List NodeId × W) → Prop where
  | exhausted {s : State W} (hs : Searching weigh e start goal (fun _ _ _ => False) s)
    (hempty : ∀ entry, entry ∉ s.heap) : Answered weigh e start goal none
  | found {s : State W} {d total z : W} {p path : List NodeId}
    (hs : Searching weigh e start goal (fun _ _ _ => False) s)
    (hleast : ∀ entry ∈ s.heap, d ≤ entry.distance) (hd : total ≤ d)
    (hlabel : Walk (OpenArc weigh e goal) start p goal total)
    (hpath : Walk (OpenArc weigh e goal) start path goal z) (hz : z ≤ total) :
    Answered weigh e start goal (some (path, total))

/-- Without negative cycles both loops end. -/
theorem search_ends (hcycle : NoNegativeCycle (OpenArc weigh e goal) start)
    (hstart : e.containsNode start = true) (hgoal : e.containsNode goal = true) :
    ∃ result, Loop.Yields (findShortestPath weigh e start goal) (.ok result) ∧
      Answered weigh e start goal result := by
  obtain ⟨r, hr, hended⟩ := main_ends hcycle
  rw [findShortestPath_eq hstart hgoal]
  cases hended with
  | exhausted hs hempty =>
    exact ⟨none, hr.bind (Loop.yields_some _), .exhausted hs hempty⟩
  | @found s d hs h hleast total htotal hd =>
    obtain ⟨c, hc⟩ := h.leadsBack goal total htotal
    obtain ⟨ds, z, hds, hwalk, hz⟩ := h.walk_back hc htotal
    obtain rfl := WithTop.coe_injective (hds.symm.trans (h.label_start hcycle))
    obtain ⟨t, ht, -⟩ := h.trail goal total htotal
    obtain ⟨p, hp⟩ := ht.walk
    have htrace := (trace_yields hc []).map fun path =>
      (.ok (some (path, total)) : Except Panic (Option (List NodeId × W)))
    exact ⟨some (c.reverse, total), hr.bind htrace,
      .found hs hleast hd hp hwalk (by rwa [zero_add] at hz)⟩

/-! ## Weights that are not negative -/

variable {w : W} {p : List NodeId}

/-- Along every walk something lighter waits in the heap, or the end has a light label and its
arcs are relaxed. -/
theorem waits_or_settled (hs : Searching weigh e start goal (fun _ _ _ => False) s)
    (hnonneg : ∀ u x v, Arc weigh e u x v → 0 ≤ x) (h : Walk (Arc weigh e) start p v w) :
    (∃ entry ∈ s.heap, entry.distance ≤ w) ∨
      v ≠ goal ∧ ∃ d : W, s.known v = d ∧ d ≤ w ∧
        ∀ n ∈ e.neighborsOutgoing v, s.known n.nodeId ≤ ((d + weigh n.weight : W) : WithTop W) := by
  have settle (v : NodeId) (w : W) (hle : s.known v ≤ (w : WithTop W)) :
      (∃ entry ∈ s.heap, entry.distance ≤ w) ∨
        v ≠ goal ∧ ∃ d : W, s.known v = d ∧ d ≤ w ∧
          ∀ n ∈ e.neighborsOutgoing v,
            s.known n.nodeId ≤ ((d + weigh n.weight : W) : WithTop W) := by
    obtain ⟨d, hd, hdw⟩ := WithTop.le_coe_iff.mp hle
    rcases hs.settled v d hd with hmem | ⟨hgoal, hall⟩
    · exact .inl ⟨_, hmem, hdw⟩
    · exact .inr ⟨hgoal, d, hd, hdw, fun n hn => (hall n hn).resolve_left id⟩
  induction h with
  | here => exact settle start 0 hs.atStart
  | @step p u v w x _ hx ih =>
    have hpos := hnonneg u x v hx
    rcases ih with ⟨entry, hmem, hle⟩ | ⟨-, d, -, hd, hall⟩
    · exact .inl ⟨entry, hmem, hle.trans (le_add_of_nonneg_right hpos)⟩
    · obtain ⟨n, hn, rfl, rfl⟩ := hx
      apply settle
      refine (hall n hn).trans (WithTop.coe_le_coe.mpr ?_)
      gcongr

/-- An answer is optimal: no walk is lighter than what waits in the heap. -/
theorem Answered.optimal (harc : ∀ u x v, Arc weigh e u x v → 0 ≤ x)
    {result : Option (List NodeId × W)} (h : Answered weigh e start goal result) :
    (result = none ↔ ∀ p w, ¬ Walk (Arc weigh e) start p goal w) ∧
      ∀ path w, result = some (path, w) → path.head? = some start ∧ path.getLast? = some goal ∧
        Walk (Arc weigh e) start path goal w ∧
        ∀ p x, Walk (Arc weigh e) start p goal x → w ≤ x := by
  have bound {s : State W} (hs : Searching weigh e start goal (fun _ _ _ => False) s)
      {p : List NodeId} {x : W} (h : Walk (Arc weigh e) start p goal x) :
      ∃ entry ∈ s.heap, entry.distance ≤ x :=
    (waits_or_settled hs harc h).resolve_right fun hgoal => hgoal.1 rfl
  cases h with
  | exhausted hs hempty =>
    refine ⟨iff_of_true rfl fun p x h => ?_, nofun⟩
    obtain ⟨entry, hmem, -⟩ := bound hs h
    exact hempty entry hmem
  | @found s d total z p path hs hleast hd hlabel hpath hz =>
    have hopen {q : List NodeId} {x : W} (h : Walk (OpenArc weigh e goal) start q goal x) :
        Walk (Arc weigh e) start q goal x := h.mono fun u y v hy => hy.2
    have hmin {q : List NodeId} {x : W} (h : Walk (Arc weigh e) start q goal x) : total ≤ x := by
      obtain ⟨entry, hmem, hle⟩ := bound hs h
      exact hd.trans ((hleast entry hmem).trans hle)
    -- the path is no heavier than the label, and no walk is lighter
    obtain rfl : z = total := le_antisymm hz (hmin (hopen hpath))
    refine ⟨iff_of_false nofun fun hnone => hnone path z (hopen hpath), ?_⟩
    rintro path' w' heq
    obtain ⟨rfl, rfl⟩ := Prod.mk.inj (Option.some.inj heq)
    exact ⟨hpath.head?_eq, hpath.getLast?_eq, hopen hpath, fun q x h => hmin h⟩

/-- The search for a shortest path ends, finds one if there is one, and gives its weight. -/
theorem findShortestPath_optimal (hnonneg : ∀ u, ∀ n ∈ e.neighborsOutgoing u, 0 ≤ weigh n.weight)
    (start goal : NodeId) :
    ∃ result, Loop.Yields (findShortestPath weigh e start goal) (.ok result) ∧
      (result = none ↔ e.containsNode start = false ∨ e.containsNode goal = false ∨
        ∀ p w, ¬ Walk (Arc weigh e) start p goal w) ∧
      ∀ path w, result = some (path, w) → path.head? = some start ∧ path.getLast? = some goal ∧
        Walk (Arc weigh e) start path goal w ∧
        ∀ p x, Walk (Arc weigh e) start p goal x → w ≤ x := by
  have harc : ∀ u x v, Arc weigh e u x v → 0 ≤ x := by
    rintro u x v ⟨n, hn, rfl, -⟩
    exact hnonneg u n hn
  have hcycle : NoNegativeCycle (OpenArc weigh e goal) start :=
    fun v p w q x _ h => h.nonneg fun u y z hy => harc u y z hy.2
  by_cases hcontains : e.containsNode start = true ∧ e.containsNode goal = true
  · obtain ⟨result, hyields, hanswered⟩ := search_ends hcycle hcontains.1 hcontains.2
    obtain ⟨hnone, hsome⟩ := hanswered.optimal harc
    refine ⟨result, hyields, ?_, hsome⟩
    rw [hnone, hcontains.1, hcontains.2]
    simp
  · rw [not_and_or, Bool.not_eq_true, Bool.not_eq_true] at hcontains
    exact ⟨none, yields_of_absent hcontains, iff_of_true rfl (hcontains.imp id .inl), nofun⟩

/-- A weighted diamond with a cycle of weight zero. -/
def sampleEngine : AdjacencyListEngine :=
  (((AdjacencyListEngine.new.insertNode ⟨0⟩).insertNode ⟨1⟩).insertNode ⟨2⟩)
    |>.insertEdge ⟨0⟩ ⟨0⟩ ⟨1⟩ ⟨0x4010000000000000⟩ |>.insertEdge ⟨1⟩ ⟨0⟩ ⟨2⟩ ⟨0x3FE0000000000000⟩
    |>.insertEdge ⟨2⟩ ⟨2⟩ ⟨1⟩ ⟨0x3FF0000000000000⟩ |>.insertEdge ⟨3⟩ ⟨2⟩ ⟨2⟩ .zero

theorem findShortestPath_optimal_sample :
    ∃ result, Loop.Yields (findShortestPath F64.toRat sampleEngine ⟨0⟩ ⟨1⟩) (.ok result) ∧
      (result = none ↔ sampleEngine.containsNode ⟨0⟩ = false ∨
        sampleEngine.containsNode ⟨1⟩ = false ∨
        ∀ p w, ¬ Walk (Arc F64.toRat sampleEngine) ⟨0⟩ p ⟨1⟩ w) ∧
      ∀ path w, result = some (path, w) → path.head? = some ⟨0⟩ ∧ path.getLast? = some ⟨1⟩ ∧
        Walk (Arc F64.toRat sampleEngine) ⟨0⟩ path ⟨1⟩ w ∧
        ∀ p x, Walk (Arc F64.toRat sampleEngine) ⟨0⟩ p ⟨1⟩ x → w ≤ x := by
  have hall : ∀ n ∈ sampleEngine.outgoing.vals.flatten, 0 ≤ F64.toRat n.weight := by
    decide +kernel
  exact findShortestPath_optimal (fun u n hn => hall n (AdjacencyListEngine.mem_flatten_outgoing hn))
    ⟨0⟩ ⟨1⟩

/-! ## Negative cycles -/

omit [IsOrderedAddMonoid W]

/-- The entries of the heap are weights of walks. -/
def Walked (weigh : F64 → W) (e : AdjacencyListEngine) (start : NodeId) (s : State W) : Prop :=
  ∀ entry ∈ s.heap, ∃ p, Walk (Arc weigh e) start p entry.nodeId entry.distance

theorem walked_foldl (h : Walked weigh e start s)
    (hcur : Walk (Arc weigh e) start p current currentDist)
    (htodo : ∀ n ∈ todo, n ∈ e.neighborsOutgoing current) :
    Walked weigh e start (todo.foldl (relax weigh currentDist current) s) := by
  induction todo generalizing s with
  | nil => exact h
  | cons n todo ih =>
    refine ih (fun entry hentry => ?_) fun m hm => htodo m (List.mem_cons_of_mem n hm)
    rcases relax_cases weigh currentDist current s n with ⟨-, -, hheap⟩ | ⟨-, heq⟩
    · rw [hheap, MinHeap.mem_push] at hentry
      rcases hentry with rfl | hentry
      · exact ⟨_, hcur.step ⟨n, htodo n List.mem_cons_self, rfl, rfl⟩⟩
      · exact h entry hentry
    · exact h entry (heq ▸ hentry)

theorem walked_round (h : Walked weigh e start s) {s' : State W}
    (hr : round weigh e goal s = .next s') : Walked weigh e start s' := by
  obtain ⟨entry, heap, hp, -, hnext⟩ := round_next hr
  have hrest : Walked weigh e start { s with heap := heap } :=
    fun x hx => h x ((MinHeap.mem_of_pop hp).mpr (.inr hx))
  rcases hnext with ⟨-, rfl⟩ | ⟨-, rfl⟩
  · exact hrest
  · obtain ⟨q, hq⟩ := h entry ((MinHeap.mem_of_pop hp).mpr (.inl rfl))
    exact walked_foldl hrest hq fun n hn => hn

/-- With a goal out of reach the loop can only exhaust the heap. -/
theorem exhausted_of_stop (hunreachable : ∀ p w, ¬ Walk (Arc weigh e) start p goal w)
    (h : Walked weigh e start s) {r : Except Panic (Option (HashMap NodeId NodeId × W))}
    (hr : round weigh e goal s = .stop r) : ∀ entry, entry ∉ s.heap := by
  rcases round_stop hr with ⟨hp, -⟩ | ⟨entry, heap, hp, hgoal, -⟩
  · exact fun entry => MinHeap.not_mem_of_pop hp
  · obtain ⟨q, hq⟩ := h entry ((MinHeap.mem_of_pop hp).mpr (.inl rfl))
    exact absurd (hgoal ▸ hq) (hunreachable q entry.distance)

/-- Labels at rest leave no negative cycle. -/
theorem noNegativeCycle_of_exhausted [IsOrderedAddMonoid W]
    (hs : Searching weigh e start goal (fun _ _ _ => False) s) (hempty : ∀ entry, entry ∉ s.heap) :
    NoNegativeCycle (OpenArc weigh e goal) start := by
  have step {u v : NodeId} {x d : W} (hu : s.known u = d) (hx : OpenArc weigh e goal u x v) :
      s.known v ≤ ((d + x : W) : WithTop W) := by
    obtain ⟨-, hall⟩ := (hs.settled u d hu).resolve_left (hempty _)
    obtain ⟨-, n, hn, rfl, rfl⟩ := hx
    exact (hall n hn).resolve_left id
  have walk {a b : NodeId} {q : List NodeId} {x d : W} (ha : s.known a = d)
      (h : Walk (OpenArc weigh e goal) a q b x) : ∃ db : W, s.known b = db ∧ db ≤ d + x := by
    induction h with
    | here => exact ⟨d, ha, (add_zero d).ge⟩
    | @step q u v w x _ hx ih =>
      obtain ⟨du, hu, hle⟩ := ih
      obtain ⟨dv, hv, hdv⟩ := WithTop.le_coe_iff.mp (step hu hx)
      refine ⟨dv, hv, hdv.trans ?_⟩
      rw [← add_assoc]
      gcongr
  intro v p w q x hp hq
  obtain ⟨d0, hstart, -⟩ := WithTop.le_coe_iff.mp hs.atStart
  obtain ⟨d, hv, -⟩ := walk hstart hp
  obtain ⟨d', hv', hle⟩ := walk hv hq
  obtain rfl := WithTop.coe_injective (hv.symm.trans hv')
  exact (le_add_iff_nonneg_right d).mp hle

/-- When the goal is out of reach the search ends exactly if it can reach no negative cycle. -/
theorem ends_iff_of_unreachable [IsOrderedAddMonoid W] (hstart : e.containsNode start = true)
    (hgoal : e.containsNode goal = true)
    (hunreachable : ∀ p w, ¬ Walk (Arc weigh e) start p goal w) :
    Loop.Ends (findShortestPath weigh e start goal) ↔
      NoNegativeCycle (OpenArc weigh e goal) start := by
  constructor
  · rintro ⟨result, n, hn⟩
    have hrun := hn n le_rfl
    rw [findShortestPath_eq hstart hgoal] at hrun
    obtain ⟨r, hr, -⟩ := Option.bind_eq_some_iff.mp hrun
    refine Loop.post_of_run hr
      (fun s => Searching weigh e start goal (fun _ _ _ => False) s ∧ Walked weigh e start s)
      (fun s r h hstop =>
        noNegativeCycle_of_exhausted h.1 (exhausted_of_stop hunreachable h.2 hstop))
      (fun s s' h hnext => ⟨searching_round h.1 hnext, walked_round h.2 hnext⟩)
      ⟨searching_init, ?_⟩
    intro entry hentry
    rcases MinHeap.mem_push.mp hentry with rfl | hempty
    · exact ⟨_, .here⟩
    · exact absurd hempty MinHeap.not_mem_empty
  · intro hcycle
    obtain ⟨result, hyields, -⟩ := search_ends hcycle hstart hgoal
    exact ⟨_, hyields⟩

/-- Both loops end if no negative cycle can be reached without passing the goal, and for a
goal out of reach only then. -/
theorem findShortestPath_ends [IsOrderedAddMonoid W] (weigh : F64 → W) (e : AdjacencyListEngine)
    (start goal : NodeId) :
    (NoNegativeCycle (OpenArc weigh e goal) start →
      ∃ result, Loop.Yields (findShortestPath weigh e start goal) (.ok result)) ∧
    (e.containsNode start = true → e.containsNode goal = true →
      (∀ p w, ¬ Walk (Arc weigh e) start p goal w) →
      (Loop.Ends (findShortestPath weigh e start goal) ↔
        NoNegativeCycle (OpenArc weigh e goal) start)) := by
  refine ⟨fun hcycle => ?_, ends_iff_of_unreachable⟩
  by_cases hcontains : e.containsNode start = true ∧ e.containsNode goal = true
  · obtain ⟨result, hyields, -⟩ := search_ends hcycle hcontains.1 hcontains.2
    exact ⟨result, hyields⟩
  · rw [not_and_or, Bool.not_eq_true, Bool.not_eq_true] at hcontains
    exact ⟨none, yields_of_absent hcontains⟩

/-- A negative edge to the goal. -/
def negativeEdge : AdjacencyListEngine :=
  ((AdjacencyListEngine.new.insertNode ⟨0⟩).insertNode ⟨1⟩)
    |>.insertEdge ⟨0⟩ ⟨0⟩ ⟨1⟩ ⟨0xBFF0000000000000⟩

theorem findShortestPath_ends_negativeEdge :
    ∃ result, Loop.Yields (findShortestPath F64.toInt negativeEdge ⟨0⟩ ⟨1⟩) (.ok result) := by
  refine (findShortestPath_ends F64.toInt negativeEdge ⟨0⟩ ⟨1⟩).1
    (noNegativeCycle_of_potential (fun v => if v = ⟨1⟩ then -1 else 0) ?_)
  rintro u x v ⟨hu, n, hn, rfl, rfl⟩
  have hall : ∀ n ∈ negativeEdge.outgoing.vals.flatten,
      n.nodeId = ⟨1⟩ ∧ F64.toInt n.weight = -1 := by decide +kernel
  obtain ⟨hv, hx⟩ := hall n (AdjacencyListEngine.mem_flatten_outgoing hn)
  rw [hv, hx, if_pos rfl, if_neg hu, zero_add]

/-- A negative self-loop, and another node. -/
def negativeLoop : AdjacencyListEngine :=
  ((AdjacencyListEngine.new.insertNode ⟨0⟩).insertNode ⟨1⟩)
    |>.insertEdge ⟨0⟩ ⟨0⟩ ⟨0⟩ ⟨0xBFF0000000000000⟩

theorem findShortestPath_diverges :
    ¬ Loop.Ends (findShortestPath F64.toInt negativeLoop ⟨0⟩ ⟨1⟩) := by
  have hall : ∀ n ∈ negativeLoop.outgoing.vals.flatten, n.nodeId = ⟨0⟩ := by decide +kernel
  have hunreachable : ∀ p w, ¬ Walk (Arc F64.toInt negativeLoop) ⟨0⟩ p ⟨1⟩ w := by
    intro p w h
    cases h with
    | step _ hx =>
      obtain ⟨n, hn, -, hv⟩ := hx
      have := hall n (AdjacencyListEngine.mem_flatten_outgoing hn)
      rw [hv] at this
      cases this
  rw [ends_iff_of_unreachable (by decide +kernel) (by decide +kernel) hunreachable]
  intro hcycle
  have harc : OpenArc F64.toInt negativeLoop ⟨1⟩ ⟨0⟩ (-1) ⟨0⟩ :=
    ⟨by decide, ⟨⟨0⟩, ⟨0⟩, ⟨0xBFF0000000000000⟩⟩, by decide +kernel, by decide +kernel, rfl⟩
  have hneg := hcycle ⟨0⟩ [⟨0⟩] 0 _ (0 + -1) .here (.step .here harc)
  exact absurd hneg (by decide)

end Dijkstra

end AdGraphDb
