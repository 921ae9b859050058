import Mathlib.Algebra.Order.Group.Defs
import Mathlib.Algebra.Order.Monoid.WithTop
import Mathlib.Data.Set.Finite.Lattice
import Mathlib.Data.Finset.Card
import Mathlib.Tactic

/-!
# Walks with weights

Walks in a graph with weighted arcs, and labels that come from relaxing its arcs. As long as
no cycle that can be reached is negative, the label of a node is the weight of a simple walk,
and the predecessors lead back to the start along a walk that is at most as heavy.
-/

namespace AdGraphDb

variable {V W : Type} [AddCommGroup W]

/-- A walk from `a`: its nodes, its end and its weight. -/
inductive Walk (arc : V → W → V → Prop) (a : V) : List V → V → W → Prop where
  | here : Walk arc a [a] a 0
  | step {p : List V} {u v : V} {w x : W} (h : Walk arc a p u w) (hx : arc u x v) :
    Walk arc a (p ++ [v]) v (w + x)

/-- No cycle that can be reached from the start is negative. -/
def NoNegativeCycle [LE W] (arc : V → W → V → Prop) (start : V) : Prop :=
  ∀ v p w q x, Walk arc start p v w → Walk arc v q v x → 0 ≤ x

variable {arc : V → W → V → Prop} {a b c : V} {p q : List V} {w x : W}

namespace Walk

theorem head?_eq (h : Walk arc a p b w) : p.head? = some a := by
  induction h with
  | here => rfl
  | step _ _ ih => rw [List.head?_append, ih]; rfl

theorem getLast?_eq (h : Walk arc a p b w) : p.getLast? = some b := by
  cases h with
  | here => rfl
  | step => exact List.getLast?_concat

theorem mono {arc' : V → W → V → Prop} (h : Walk arc a p b w)
    (harc : ∀ u x v, arc u x v → arc' u x v) : Walk arc' a p b w := by
  induction h with
  | here => exact .here
  | step _ hx ih => exact ih.step (harc _ _ _ hx)

theorem nonneg [LinearOrder W] [IsOrderedAddMonoid W] (h : Walk arc a p b w)
    (harc : ∀ u x v, arc u x v → 0 ≤ x) : 0 ≤ w := by
  induction h with
  | here => exact le_rfl
  | step _ hx ih => exact add_nonneg ih (harc _ _ _ hx)

end Walk

/-- A potential that no arc exceeds rules negative cycles out. -/
theorem noNegativeCycle_of_potential [LinearOrder W] [IsOrderedAddMonoid W] {start : V}
    (potential : V → W) (harc : ∀ u x v, arc u x v → potential v ≤ potential u + x) :
    NoNegativeCycle arc start := by
  have hwalk {a b : V} {p : List V} {w : W} (h : Walk arc a p b w) :
      potential b ≤ potential a + w := by
    induction h with
    | here => exact (add_zero _).ge
    | @step p u v w x _ hx ih =>
      calc potential v ≤ potential u + x := harc u x v hx
        _ ≤ potential a + w + x := by gcongr
        _ = potential a + (w + x) := add_assoc ..
  exact fun v p w q x _ h => le_add_iff_nonneg_right (potential v) |>.mp (hwalk h)

/-- A walk with the weights up to its nodes, its end in front. -/
inductive Trail (arc : V → W → V → Prop) (start : V) : List (V × W) → Prop where
  | here : Trail arc start [(start, 0)]
  | step {u v : V} {w x : W} {t : List (V × W)} (h : Trail arc start ((u, w) :: t))
    (hx : arc u x v) : Trail arc start ((v, w + x) :: (u, w) :: t)

namespace Trail

variable {start u : V} {t : List (V × W)} {e : V × W}

theorem start_mem (h : Trail arc start t) : (start, 0) ∈ t := by
  induction h with
  | here => exact List.mem_cons_self
  | step _ _ ih => exact List.mem_cons_of_mem _ ih

/-- From every node of a trail a walk leads to its end, with the rest of the weight. -/
theorem walk_of_mem (h : Trail arc start ((u, w) :: t)) (he : e ∈ (u, w) :: t) :
    ∃ q, Walk arc e.1 q u (w - e.2) := by
  generalize hl : (u, w) :: t = l at h he
  induction h generalizing u w t with
  | here =>
    obtain ⟨⟨rfl, rfl⟩, -⟩ := List.cons.inj hl |>.imp_left Prod.mk.inj
    rw [List.mem_singleton] at he
    subst he
    exact ⟨_, by rw [sub_self]; exact .here⟩
  | @step u' v' w' x' t' _ hx ih =>
    obtain ⟨⟨rfl, rfl⟩, rfl⟩ := List.cons.inj hl |>.imp_left Prod.mk.inj
    rcases List.mem_cons.mp he with rfl | he
    · exact ⟨_, by rw [sub_self]; exact .here⟩
    · obtain ⟨q, hq⟩ := ih rfl he
      exact ⟨_, by rw [add_sub_right_comm]; exact hq.step hx⟩

theorem walk (h : Trail arc start ((u, w) :: t)) : ∃ q, Walk arc start q u w := by
  obtain ⟨q, hq⟩ := h.walk_of_mem h.start_mem
  exact ⟨q, by rwa [sub_zero] at hq⟩

theorem mem_nodes {nodes : Finset V} (h : Trail arc start t) (hstart : start ∈ nodes)
    (hnodes : ∀ u x v, arc u x v → v ∈ nodes) : ∀ e ∈ t, e.1 ∈ nodes := by
  induction h with
  | here =>
    intro e he
    rw [List.mem_singleton.mp he]
    exact hstart
  | step _ hx ih =>
    intro e he
    rcases List.mem_cons.mp he with rfl | he
    · exact hnodes _ _ _ hx
    · exact ih e he

/-- Trails of bounded length have finitely many weights. -/
theorem finite_weights (hfin : {x | ∃ u v, arc u x v}.Finite) (n : ℕ) :
    {w | ∃ v t, Trail arc start ((v, w) :: t) ∧ t.length < n}.Finite := by
  induction n with
  | zero => simp
  | succ n ih =>
    apply ((Set.finite_singleton 0).union (Set.Finite.image2 (· + ·) ih hfin)).subset
    rintro w ⟨v, t, ht, hlen⟩
    cases ht with
    | here => exact .inl rfl
    | @step u _ w' x t h hx =>
      rw [List.length_cons] at hlen
      exact .inr ⟨w', ⟨u, t, h, by omega⟩, x, ⟨u, v, hx⟩, rfl⟩

end Trail

end AdGraphDb
