import AdGraphDb.Query.Ast

/-!
# The query planner

A command becomes the cheapest plan that the statistics allow. The logarithm of the
cost model is a parameter: nothing depends on how it is rounded.
-/

namespace AdGraphDb
open Std

structure DatabaseStats where
  nodeCount : Nat
  edgeCount : Nat
  labelCounts : HashMap String Nat
  indexedNodeFields : HashMap String Unit

namespace DatabaseStats

def empty : DatabaseStats := ⟨0, 0, ∅, ∅⟩

def labelCount (label : String) (stats : DatabaseStats) : Nat := stats.labelCounts[label]?.getD 0

end DatabaseStats

inductive ExecutionPlan where
  | propertyIndexScan (field : String) (op : ComparisonOp) (value : Value)
    (remainingFilter : NodeFilter)
  | labelIndexScan (label : String) (remainingFilter : NodeFilter)
  | fullNodeScan (filter : NodeFilter)
  | fullEdgeScan (filter : EdgeFilter)
  | nodeLookup (id : NodeId)
  | edgeLookup (id : EdgeId)
  | traverse (kind : TraversalKind) (start : NodeId)
  | shortestPath (start goal : NodeId)
  | countNodes
  | countEdges
deriving DecidableEq

/-- Lower is more selective. -/
def opSelectivityRank : ComparisonOp → Nat
  | .eq => 0
  | .notEq => 4
  | .lt | .ltEq => 2
  | .gt | .gtEq => 2

/-- The first of the most selective conditions on an indexed field. -/
def bestIndexedCondition (conditions : List PropertyCondition) (stats : DatabaseStats) :
    Option PropertyCondition :=
  HashMap.minByKey (fun c => opSelectivityRank c.op)
    (conditions.filter fun c => stats.indexedNodeFields.contains c.key)

/-- `log2Ceil` is `(n as f64).log2().ceil() as usize`. -/
def estimatedPropertyIndexCost (log2Ceil : Nat → Nat) (stats : DatabaseStats) : Nat :=
  if stats.nodeCount = 0 then 0 else log2Ceil stats.nodeCount + stats.nodeCount / 10

namespace QueryPlanner

variable (log2Ceil : Nat → Nat)

/-- The filter without the conditions equal to the one that the index answers. -/
def remainingFilter (filter : NodeFilter) (best : PropertyCondition) : NodeFilter :=
  { filter with
    propertyConditions := filter.propertyConditions.filter fun c =>
      c.key != best.key || c.op != best.op || !c.value.eq best.value }

/-- Options B and C: the label index, or the full scan. -/
def planByLabel (filter : NodeFilter) (stats : DatabaseStats) : ExecutionPlan :=
  match filter.label with
  | some label =>
    if stats.labelCount label < stats.nodeCount then .labelIndexScan label filter
    else .fullNodeScan filter
  | none => .fullNodeScan filter

def planMatchNodes (filter : NodeFilter) (stats : DatabaseStats) : ExecutionPlan :=
  match bestIndexedCondition filter.propertyConditions stats with
  | some best =>
    let propertyCost := estimatedPropertyIndexCost log2Ceil stats
    let labelCost := (filter.label.map fun l => stats.labelCount l).getD stats.nodeCount
    if propertyCost ≤ labelCost ∧ propertyCost < stats.nodeCount then
      .propertyIndexScan best.key best.op best.value (remainingFilter filter best)
    else planByLabel filter stats
  | none => planByLabel filter stats

def plan (command : QueryCommand) (stats : DatabaseStats) : ExecutionPlan :=
  match command with
  | .matchNodes filter => planMatchNodes log2Ceil filter stats
  | .matchEdges filter => .fullEdgeScan filter
  | .getNode id => .nodeLookup id
  | .getEdge id => .edgeLookup id
  | .traverse kind start => .traverse kind start
  | .shortestPath start goal => .shortestPath start goal
  | .countNodes => .countNodes
  | .countEdges => .countEdges

/-- The property index is expected to pay: it is cheaper than the scan, and no dearer
than the label. -/
def IndexPays (filter : NodeFilter) (stats : DatabaseStats) : Prop :=
  estimatedPropertyIndexCost log2Ceil stats ≤
      (filter.label.map fun l => stats.labelCount l).getD stats.nodeCount ∧
    estimatedPropertyIndexCost log2Ceil stats < stats.nodeCount

instance (filter : NodeFilter) (stats : DatabaseStats) :
    Decidable (IndexPays log2Ceil filter stats) :=
  inferInstanceAs (Decidable (_ ∧ _))

/-- The condition that is answered from the property index. -/
def indexedCondition (filter : NodeFilter) (stats : DatabaseStats) : Option PropertyCondition :=
  if IndexPays log2Ceil filter stats then bestIndexedCondition filter.propertyConditions stats
  else none

variable {log2Ceil} {filter : NodeFilter} {stats : DatabaseStats} {c : PropertyCondition}

theorem plan_of_indexed (h : indexedCondition log2Ceil filter stats = some c) :
    plan log2Ceil (.matchNodes filter) stats =
      .propertyIndexScan c.key c.op c.value (remainingFilter filter c) := by
  unfold indexedCondition at h
  split_ifs at h with hp
  change planMatchNodes log2Ceil filter stats = _
  rw [planMatchNodes, h]
  exact if_pos hp

theorem plan_of_not_indexed (h : indexedCondition log2Ceil filter stats = none) :
    plan log2Ceil (.matchNodes filter) stats = planByLabel filter stats := by
  change planMatchNodes log2Ceil filter stats = _
  unfold indexedCondition at h
  unfold planMatchNodes
  cases hb : bestIndexedCondition filter.propertyConditions stats with
  | none => rfl
  | some best =>
    rw [hb] at h
    apply if_neg
    intro hp
    rw [if_pos (show IndexPays log2Ceil filter stats from hp)] at h
    cases h

/-- The chosen condition is one of the filter's, on an indexed field. -/
theorem mem_of_indexedCondition (h : indexedCondition log2Ceil filter stats = some c) :
    c ∈ filter.propertyConditions ∧ stats.indexedNodeFields.contains c.key = true := by
  unfold indexedCondition at h
  split_ifs at h
  exact List.mem_filter.mp (HashMap.mem_of_minByKey h)

/-- The filter holds where the remaining one and the chosen condition do. -/
theorem matches_eq_remaining (hc : c ∈ filter.propertyConditions) (n : Node) :
    filter.matches n =
      ((remainingFilter filter c).matches n && c.matchesProperties n.properties) := by
  unfold NodeFilter.matches remainingFilter
  rw [Bool.and_assoc]
  congr 1
  rw [Bool.eq_iff_iff, Bool.and_eq_true, List.all_eq_true, List.all_eq_true]
  constructor
  · intro h
    exact ⟨fun d hd => h d (List.mem_filter.mp hd).1, h c hc⟩
  · rintro ⟨h, hcond⟩ d hd
    by_cases hkept : (d.key != c.key || d.op != c.op || !d.value.eq c.value) = true
    · exact h d (List.mem_filter.mpr ⟨hd, hkept⟩)
    · -- a copy of the chosen condition, up to the sign of a zero
      simp only [Bool.or_eq_true, bne_iff_ne, ne_eq, not_or, not_not, Bool.not_eq_true',
        Bool.not_eq_false] at hkept
      obtain ⟨⟨hkey, hop⟩, hvalue⟩ := hkept
      unfold PropertyCondition.matchesProperties at hcond ⊢
      rw [hkey, hop]
      cases hn : n.properties[c.key]? with
      | none => rw [hn] at hcond; exact hcond
      | some v =>
        rw [hn] at hcond
        exact (c.op.compareValues_congr v hvalue).trans hcond

end QueryPlanner

end AdGraphDb
