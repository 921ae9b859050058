import AdGraphDb.Foundation.Loops
import AdGraphDb.Engine.AdjacencyList

/-!
# Depth-first search

The stack holds what the pending calls of the recursive search have still to explore, without
some of the nodes that they will skip.
-/

namespace AdGraphDb
namespace DepthFirstSearch

variable {V : Type} [DecidableEq V]

structure State (V : Type) where
  visited : Finset V
  stack : List V
  order : List V

/-- `if !visited.contains(v) { stack.push(v) }`, with the top of the stack in front. -/
def push (visited : Finset V) (stack : List V) (v : V) : List V :=
  if v ∈ visited then stack else v :: stack

/-- One turn of the `while` loop. -/
def round (next : V → List V) (s : State V) : Loop.Round (State V) (List V) :=
  match s.stack with
  | [] => .stop s.order
  | current :: stack =>
    if current ∈ s.visited then .next { s with stack := stack }
    else
      let visited := insert current s.visited
      .next ⟨visited, (next current).foldl (push visited) stack, s.order ++ [current]⟩

def traverse (e : AdjacencyListEngine) (start : NodeId) (rounds : Nat) : Option (List NodeId) :=
  if e.containsNode start then Loop.run (round e.targets) ⟨∅, [start], []⟩ rounds
  else some []

/-- The recursive search, with a bound on its depth. The marked nodes are kept in the order in
which they were marked. -/
def recursive (next : V → List V) : Nat → List V → V → Option (List V)
  | 0, _, _ => none
  | depth + 1, marked, v =>
    if v ∈ marked then some marked
    else (next v).reverse.foldlM (recursive next depth) (marked ++ [v])

/-! ## The calls of the recursive search -/

/-- Exploring the nodes one after the other takes the marked nodes to others. -/
inductive Explores (next : V → List V) : List V → List V → List V → Prop where
  | done (marked : List V) : Explores next marked [] marked
  | skip {marked marked' vs : List V} {v : V} (hv : v ∈ marked)
    (rest : Explores next marked vs marked') : Explores next marked (v :: vs) marked'
  | enter {marked inner marked' vs : List V} {v : V} (hv : v ∉ marked)
    (call : Explores next (marked ++ [v]) (next v).reverse inner)
    (rest : Explores next inner vs marked') : Explores next marked (v :: vs) marked'

variable {next : V → List V} {marked marked' vs : List V}

omit [DecidableEq V] in
theorem Explores.subset (h : Explores next marked vs marked') : marked ⊆ marked' := by
  induction h with
  | done => exact List.Subset.refl _
  | skip _ _ ih => exact ih
  | enter _ _ _ ihc ihr =>
    exact List.Subset.trans (List.subset_append_left _ _) (List.Subset.trans ihc ihr)

/-- The recursive search is these calls. -/
theorem Explores.recursive (h : Explores next marked vs marked') :
    Loop.Yields (fun depth => vs.foldlM (recursive next depth) marked) marked' := by
  induction h with
  | done marked => exact ⟨0, fun _ _ => rfl⟩
  | @skip marked marked' vs v hv _ ih =>
    obtain ⟨n, hn⟩ := ih
    refine ⟨n + 1, fun m hm => ?_⟩
    obtain ⟨m, rfl⟩ := Nat.exists_eq_succ_of_ne_zero (Nat.ne_zero_of_lt hm)
    dsimp only
    rw [List.foldlM_cons, DepthFirstSearch.recursive, if_pos hv]
    exact hn _ (by omega)
  | @enter marked inner marked' vs v hv _ _ ihc ihr =>
    obtain ⟨n, hn⟩ := ihc
    obtain ⟨n', hn'⟩ := ihr
    refine ⟨max n n' + 1, fun m hm => ?_⟩
    obtain ⟨m, rfl⟩ := Nat.exists_eq_succ_of_ne_zero (Nat.ne_zero_of_lt hm)
    dsimp only
    rw [List.foldlM_cons, DepthFirstSearch.recursive, if_neg hv]
    have hcall := hn m (by omega)
    dsimp only at hcall
    rw [hcall]
    exact hn' _ (by omega)

/-- Over finitely many nodes the calls end. -/
theorem exists_explores {nodes : Finset V} (hnodes : ∀ u, ∀ v ∈ next u, v ∈ nodes)
    (hvs : ∀ v ∈ vs, v ∈ nodes) : ∃ marked', Explores next marked vs marked' := by
  generalize hd : (nodes \ marked.toFinset).card = d
  induction d using Nat.strong_induction_on generalizing marked vs with
  | _ d ih =>
    induction vs with
    | nil => exact ⟨marked, .done marked⟩
    | cons v vs ihv =>
      have htail : ∀ u ∈ vs, u ∈ nodes := fun u hu => hvs u (List.mem_cons_of_mem v hu)
      by_cases hv : v ∈ marked
      · obtain ⟨marked', hrest⟩ := ihv htail
        exact ⟨marked', .skip hv hrest⟩
      · -- marking a node leaves fewer, for the call and for what comes after it
        have hfewer {inner : List V} (hsub : marked ++ [v] ⊆ inner) :
            (nodes \ inner.toFinset).card < d := by
          rw [← hd]
          apply Finset.card_lt_card
          rw [Finset.ssubset_iff_of_subset]
          · exact ⟨v, by simp [hvs v List.mem_cons_self, hv], by
              simp [hsub (List.mem_append_right _ List.mem_cons_self)]⟩
          · intro u hu
            simp only [Finset.mem_sdiff, List.mem_toFinset] at hu ⊢
            exact ⟨hu.1, fun hmem => hu.2 (hsub (List.mem_append_left _ hmem))⟩
        obtain ⟨inner, hcall⟩ := ih _ (hfewer (List.Subset.refl _))
          (fun u hu => hnodes v u (List.mem_reverse.mp hu)) rfl
        obtain ⟨marked', hrest⟩ := ih _ (hfewer hcall.subset) htail rfl
        exact ⟨marked', .enter hv hcall hrest⟩

/-! ## The stack -/

theorem foldl_push (visited : Finset V) (l stack : List V) :
    l.foldl (push visited) stack = l.reverse.filter (fun v => v ∉ visited) ++ stack := by
  induction l generalizing stack with
  | nil => rfl
  | cons v l ih =>
    rw [List.foldl_cons, ih, List.reverse_cons, List.filter_append, push]
    by_cases hv : v ∈ visited <;> simp [hv]

/-- The loop with the marked nodes and a stack. -/
def loop (next : V → List V) (marked stack : List V) : Nat → Option (List V) :=
  Loop.run (round next) ⟨marked.toFinset, stack, marked⟩

theorem loop_skip {v : V} {stack r : List V} (hv : v ∈ marked) :
    Loop.Yields (loop next marked (v :: stack)) r ↔ Loop.Yields (loop next marked stack) r := by
  apply Loop.yields_next_iff
  rw [round]
  exact if_pos (List.mem_toFinset.mpr hv)

theorem loop_enter {v : V} {stack r : List V} (hv : v ∉ marked) :
    Loop.Yields (loop next marked (v :: stack)) r ↔
      Loop.Yields (loop next (marked ++ [v])
        ((next v).reverse.filter (fun u => u ∉ marked ++ [v]) ++ stack)) r := by
  apply Loop.yields_next_iff
  have hinsert : insert v marked.toFinset = (marked ++ [v]).toFinset := by
    ext u
    simp
  rw [round]
  dsimp only
  rw [if_neg fun h => hv (List.mem_toFinset.mp h), hinsert, foldl_push]
  simp only [List.mem_toFinset]

/-- The loop works the stack off as the recursive search explores the nodes on it, also when
some marked nodes were left out. -/
theorem Explores.loop_iff (h : Explores next marked vs marked') {omitted : List V}
    (ho : omitted ⊆ marked) (rest : List V) {r : List V} :
    Loop.Yields (loop next marked (vs.filter (fun v => v ∉ omitted) ++ rest)) r ↔
      Loop.Yields (loop next marked' rest) r := by
  induction h generalizing omitted rest with
  | done => exact Iff.rfl
  | @skip marked marked' vs v hv _ ih =>
    rw [List.filter_cons]
    split_ifs with hout
    · rw [List.cons_append, loop_skip hv]
      exact ih ho rest
    · exact ih ho rest
  | @enter marked inner marked' vs v hv hcall _ ihc ihr =>
    have hout : decide (v ∉ omitted) = true := decide_eq_true fun hmem => hv (ho hmem)
    have hinner : omitted ⊆ inner :=
      List.Subset.trans ho (List.Subset.trans (List.subset_append_left _ _) hcall.subset)
    rw [List.filter_cons, if_pos hout, List.cons_append, loop_enter hv,
      ihc (List.Subset.refl _), ihr hinner]

/-- The iterative search is the recursive one. -/
theorem run_recursive {nodes : Finset V} {start : V} (hstart : start ∈ nodes)
    (hnodes : ∀ u, ∀ v ∈ next u, v ∈ nodes) :
    ∃ order, Loop.Yields (Loop.run (round next) ⟨∅, [start], []⟩) order ∧
      Loop.Yields (fun depth => recursive next depth [] start) order := by
  obtain ⟨order, h⟩ : ∃ order, Explores next [] [start] order :=
    exists_explores hnodes fun v hv => List.mem_singleton.mp hv ▸ hstart
  refine ⟨order, ?_, ?_⟩
  · have hend : Loop.Yields (loop next order []) order := Loop.yields_of_stop rfl
    have hiff := (h.loop_iff (List.Subset.refl []) []).mpr hend
    simpa [loop] using hiff
  · have hcall := h.recursive
    simpa using hcall

/-! ## The engine -/

/-- From a node of the engine the search ends, in the preorder of the recursive search. -/
theorem traverse_preorder (e : AdjacencyListEngine) {start : NodeId}
    (h : e.containsNode start = true) :
    ∃ order, Loop.Yields (traverse e start) order ∧
      Loop.Yields (fun depth => recursive e.targets depth [] start) order := by
  have hrun : traverse e start = Loop.run (round e.targets) ⟨∅, [start], []⟩ := by
    funext rounds
    rw [traverse, if_pos h]
  rw [hrun]
  exact run_recursive (Finset.mem_insert_self ..) fun u v hv =>
    e.mem_ends start u hv

/-- Two ways lead to node 1, and a cycle back to the start. -/
def sampleEngine : AdjacencyListEngine :=
  (((AdjacencyListEngine.new.insertNode ⟨0⟩).insertNode ⟨1⟩).insertNode ⟨2⟩)
    |>.insertEdge ⟨0⟩ ⟨0⟩ ⟨1⟩ .zero |>.insertEdge ⟨1⟩ ⟨0⟩ ⟨2⟩ .zero
    |>.insertEdge ⟨2⟩ ⟨2⟩ ⟨1⟩ .zero |>.insertEdge ⟨3⟩ ⟨1⟩ ⟨0⟩ .zero

theorem traverse_preorder_sample :
    ∃ order, Loop.Yields (traverse sampleEngine ⟨0⟩) order ∧
      Loop.Yields (fun depth => recursive sampleEngine.targets depth [] ⟨0⟩) order :=
  traverse_preorder sampleEngine (by decide +kernel)

end DepthFirstSearch

end AdGraphDb
