import Mathlib.Logic.Relation
import Mathlib.Order.Lattice.Nat

/-!
# Hop distance

Walks along the edges of a relation, counted by their edges.
-/

namespace AdGraphDb

variable {V : Type} (edge : V → V → Prop)

/-- There is a walk with that many edges. -/
inductive Hops (a : V) : Nat → V → Prop where
  | here : Hops a 0 a
  | step {n : Nat} {u v : V} (h : Hops a n u) (huv : edge u v) : Hops a (n + 1) v

/-- The edges of a shortest walk. -/
noncomputable def hopDistance (a v : V) : Nat := sInf {n | Hops edge a n v}

variable {edge} {a u v : V}

theorem Hops.reaches {n : Nat} (h : Hops edge a n v) : Relation.ReflTransGen edge a v := by
  induction h with
  | here => exact .refl
  | step _ huv ih => exact ih.tail huv

theorem exists_hops (h : Relation.ReflTransGen edge a v) : ∃ n, Hops edge a n v := by
  induction h with
  | refl => exact ⟨0, .here⟩
  | tail _ huv ih =>
    obtain ⟨n, hn⟩ := ih
    exact ⟨n + 1, hn.step huv⟩

theorem hopDistance_le {n : Nat} (h : Hops edge a n v) : hopDistance edge a v ≤ n := Nat.sInf_le h

theorem hops_hopDistance (h : Relation.ReflTransGen edge a v) :
    Hops edge a (hopDistance edge a v) v := Nat.sInf_mem (exists_hops h)

theorem hopDistance_edge_le (h : Relation.ReflTransGen edge a u) (huv : edge u v) :
    hopDistance edge a v ≤ hopDistance edge a u + 1 :=
  hopDistance_le ((hops_hopDistance h).step huv)

/-- The node before the last on a shortest walk is nearer. -/
theorem exists_nearer (h : Relation.ReflTransGen edge a v) (hne : v ≠ a) :
    ∃ u, Relation.ReflTransGen edge a u ∧ edge u v ∧
      hopDistance edge a u < hopDistance edge a v := by
  have hv := hops_hopDistance h
  generalize hn : hopDistance edge a v = n at hv
  cases hv with
  | here => exact absurd rfl hne
  | step hu huv => exact ⟨_, hu.reaches, huv, Nat.lt_succ_of_le (hopDistance_le hu)⟩

end AdGraphDb
