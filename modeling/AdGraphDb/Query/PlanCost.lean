import Mathlib.Data.Prod.Lex
import AdGraphDb.Query.Planner

/-!
# The plan is the cheapest one

For a filter on nodes there are the full scan, the label index and the property indexes of its
conditions. The planner takes the least of them by its own cost model. Of the same cost, the
full scan goes first, and a property index before the label.
-/

namespace AdGraphDb

/-- A way to find the nodes of a filter. -/
inductive Strategy where
  | fullScan
  | propertyIndex (condition : PropertyCondition)
  | labelIndex (label : String)

namespace Strategy

variable (log2Ceil : Nat → Nat) (filter : NodeFilter) (stats : DatabaseStats)

/-- What the filter and the indexes allow. -/
def Available : Strategy → Prop
  | fullScan => True
  | propertyIndex c =>
    c ∈ filter.propertyConditions ∧ stats.indexedNodeFields.contains c.key = true
  | labelIndex label => filter.label = some label

def plan : Strategy → ExecutionPlan
  | fullScan => .fullNodeScan filter
  | propertyIndex c =>
    .propertyIndexScan c.key c.op c.value (QueryPlanner.remainingFilter filter c)
  | labelIndex label => .labelIndexScan label filter

def cost : Strategy → ℕ
  | fullScan => stats.nodeCount
  | propertyIndex _ => estimatedPropertyIndexCost log2Ceil stats
  | labelIndex label => stats.labelCount label

/-- The order among strategies of the same cost. An index has to be cheaper than the scan, though
the planner's comment lets it win a tie. -/
def precedence : Strategy → ℕ ×ₗ ℕ
  | fullScan => toLex (0, 0)
  | propertyIndex c => toLex (1, opSelectivityRank c.op)
  | labelIndex _ => toLex (2, 0)

def key (s : Strategy) : ℕ ×ₗ ℕ ×ₗ ℕ := toLex (s.cost log2Ceil stats, s.precedence)

variable {log2Ceil filter stats} {s s' : Strategy}

theorem key_le_of_lt (h : s.cost log2Ceil stats < s'.cost log2Ceil stats) :
    s.key log2Ceil stats ≤ s'.key log2Ceil stats := Prod.Lex.toLex_le_toLex.mpr (.inl h)

theorem key_le_of_le (h : s.cost log2Ceil stats ≤ s'.cost log2Ceil stats)
    (hp : s.precedence ≤ s'.precedence) : s.key log2Ceil stats ≤ s'.key log2Ceil stats :=
  Prod.Lex.toLex_le_toLex.mpr (h.lt_or_eq.imp_right fun heq => ⟨heq, hp⟩)

theorem precedence_le_of_lt (h : s.precedence.1 < s'.precedence.1) :
    s.precedence ≤ s'.precedence := Prod.Lex.toLex_le_toLex.mpr (.inl h)

end Strategy

namespace QueryPlanner
open Strategy

variable {log2Ceil : Nat → Nat} {filter : NodeFilter} {stats : DatabaseStats}

theorem indexedCondition_eq_some {c : PropertyCondition}
    (h : indexedCondition log2Ceil filter stats = some c) :
    IndexPays log2Ceil filter stats ∧
      bestIndexedCondition filter.propertyConditions stats = some c := by
  unfold indexedCondition at h
  split_ifs at h with hp
  exact ⟨hp, h⟩

/-- Without an index that pays, no condition has one that would. -/
theorem not_indexPays (h : indexedCondition log2Ceil filter stats = none) {c : PropertyCondition}
    (hc : (propertyIndex c).Available filter stats) : ¬IndexPays log2Ceil filter stats := by
  intro hp
  rw [indexedCondition, if_pos hp, bestIndexedCondition] at h
  have hmem : c ∈ filter.propertyConditions.filter fun c =>
      stats.indexedNodeFields.contains c.key := List.mem_filter.mpr hc
  generalize filter.propertyConditions.filter _ = l at h hmem
  cases l with
  | nil => cases hmem
  | cons a l => cases h

/-- The plan of a filter is that of the least strategy there is. -/
theorem plan_least (log2Ceil : Nat → Nat) (filter : NodeFilter) (stats : DatabaseStats) :
    ∃ s : Strategy, s.Available filter stats ∧
      plan log2Ceil (.matchNodes filter) stats = s.plan filter ∧
      ∀ s' : Strategy, s'.Available filter stats →
        s.key log2Ceil stats ≤ s'.key log2Ceil stats := by
  cases hc : indexedCondition log2Ceil filter stats with
  | some c =>
    refine ⟨.propertyIndex c, mem_of_indexedCondition hc, plan_of_indexed hc, fun s' hs' => ?_⟩
    obtain ⟨⟨hlabel, hscan⟩, hbest⟩ := indexedCondition_eq_some hc
    cases s' with
    | fullScan => exact key_le_of_lt hscan
    | propertyIndex c' =>
      have hrank : opSelectivityRank c.op ≤ opSelectivityRank c'.op :=
        HashMap.le_of_minByKey hbest (List.mem_filter.mpr hs')
      exact key_le_of_le le_rfl (Prod.Lex.toLex_le_toLex.mpr (.inr ⟨rfl, hrank⟩))
    | labelIndex label =>
      rw [show filter.label = some label from hs'] at hlabel
      exact key_le_of_le hlabel (precedence_le_of_lt Nat.one_lt_two)
  | none =>
    have hplan := plan_of_not_indexed hc
    by_cases hpays : ∃ label, filter.label = some label ∧ stats.labelCount label < stats.nodeCount
    · obtain ⟨label, hlabel, hlt⟩ := hpays
      refine ⟨.labelIndex label, hlabel, ?_, fun s' hs' => ?_⟩
      · rw [hplan, planByLabel, hlabel]
        exact if_pos hlt
      cases s' with
      | fullScan => exact key_le_of_lt hlt
      | propertyIndex c =>
        have hdear := not_indexPays hc hs'
        rw [IndexPays, hlabel] at hdear
        refine key_le_of_lt ?_
        change stats.labelCount label < estimatedPropertyIndexCost log2Ceil stats
        dsimp only [Option.map_some, Option.getD_some] at hdear
        omega
      | labelIndex label' =>
        cases hlabel.symm.trans hs'
        exact le_rfl
    · -- no label is cheaper than the scan
      have hscan : ∀ label, filter.label = some label → stats.nodeCount ≤ stats.labelCount label :=
        fun label hlabel => Nat.not_lt.mp fun hlt => hpays ⟨label, hlabel, hlt⟩
      refine ⟨.fullScan, trivial, ?_, fun s' hs' => ?_⟩
      · rw [hplan, planByLabel]
        cases hlabel : filter.label with
        | none => rfl
        | some label => exact if_neg (Nat.not_lt.mpr (hscan label hlabel))
      cases s' with
      | fullScan => exact le_rfl
      | propertyIndex c =>
        refine key_le_of_le ?_ (precedence_le_of_lt Nat.zero_lt_one)
        change stats.nodeCount ≤ estimatedPropertyIndexCost log2Ceil stats
        by_contra hlt
        refine not_indexPays hc hs' ⟨?_, Nat.not_le.mp hlt⟩
        cases hlabel : filter.label with
        | none => exact (Nat.not_le.mp hlt).le
        | some label => exact (Nat.not_le.mp hlt).le.trans (hscan label hlabel)
      | labelIndex label =>
        exact key_le_of_le (hscan label hs') (precedence_le_of_lt Nat.zero_lt_two)

end QueryPlanner
end AdGraphDb
